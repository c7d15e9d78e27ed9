namespace Criterion

/-- A line and a column, both counted from one. -/
structure Position where
  line : Nat
  column : Nat
  deriving DecidableEq, Repr

namespace Position

def start : Position := ⟨1, 1⟩

def past (p : Position) (c : Char) : Position :=
  if c = '\n' then ⟨p.line + 1, 1⟩ else ⟨p.line, p.column + 1⟩

def after (p : Position) (cs : List Char) : Position := cs.foldl past p

end Position

/-- A place in a text: the characters before it, nearest first, and those from it on. -/
structure Cursor where
  before : List Char
  rest : List Char
  position : Position
  deriving DecidableEq, Repr

namespace Cursor

def start (source : String) : Cursor := ⟨[], source.toList, .start⟩

def offset (c : Cursor) : Nat := c.before.length

/-- Reads up to `n` characters, fewer if the text ends first. -/
def advance (n : Nat) (c : Cursor) : Cursor :=
  ⟨(c.rest.take n).reverse ++ c.before, c.rest.drop n, c.position.after (c.rest.take n)⟩

def skipWhile (p : Char → Bool) (c : Cursor) : Cursor := c.advance (c.rest.takeWhile p).length

@[simp] theorem rest_advance (n : Nat) (c : Cursor) : (c.advance n).rest = c.rest.drop n := rfl

/-- The character seen where the text has none. -/
def absent : Char := Char.ofNat 0

/-- The character at a signed distance from the cursor. Past the end there is `absent`; a distance
that reaches before the start counts on from the end, and has no character if it goes beyond the
start again. -/
def peek? (distance : Int) (c : Cursor) : Option Char :=
  let source := c.before.reverse ++ c.rest
  let index := c.offset + distance
  if (source.length : Int) ≤ index then some absent
  else if 0 ≤ index then source[index.toNat]?
  else if -(source.length : Int) ≤ index then source[(index + source.length).toNat]?
  else none

end Cursor

end Criterion
