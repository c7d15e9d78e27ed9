import Criterion.Cursor
import Criterion.Token

/-!
The scanner: source text to tokens. Nothing is refused; a character that starts no token becomes an
`illegal` token of its own, and a string without closing quotation mark runs to the end of the text.
-/

namespace Criterion

def isSpacing (c : Char) : Bool := c = ' ' || c = '\t' || c = '\r' || c = '\n'

def isDigit (c : Char) : Bool := '0' ≤ c && c ≤ '9'

/-- The letters of identifiers: the ASCII letters and the underscore. -/
def isLetter (c : Char) : Bool := ('a' ≤ c && c ≤ 'z') || ('A' ≤ c && c ≤ 'Z') || c = '_'

/-- The characters that continue an integer token once it has a base marker. -/
def isAlphanumeric (c : Char) : Bool :=
  isDigit c || ('a' ≤ c && c ≤ 'z') || ('A' ≤ c && c ≤ 'Z')

/-- The letters that mark the base of an integer token, after a zero. -/
def isBaseMarker (c : Char) : Bool :=
  c = 'x' || c = 'X' || c = 'o' || c = 'O' || c = 'b' || c = 'B'

/-- The spellings of operators and punctuation, each before those that it begins with. -/
def symbols : List (String × TokenKind) :=
  [("==", .equal), ("!=", .notEqual), ("<=", .lessEqual), (">=", .greaterEqual), ("&&", .and),
   ("||", .or), ("~=", .pattern), ("+", .plus), ("-", .minus), ("*", .star), ("/", .slash),
   ("<", .less), (">", .greater), ("!", .bang), ("(", .leftParen), (")", .rightParen),
   ("[", .leftBracket), ("]", .rightBracket), (",", .comma), (";", .semicolon)]

def symbolAt? (cs : List Char) : Option (String × TokenKind) :=
  symbols.find? fun (text, _) => text.toList.isPrefixOf cs

/-- How many characters of a text belong to the integer token at its start: a run of digits, or a
zero, a base marker and a run of letters and digits. -/
def integerLength (cs : List Char) : Nat :=
  match cs with
  | '0' :: marker :: rest =>
    if isBaseMarker marker then (rest.takeWhile isAlphanumeric).length + 2
    else (cs.takeWhile isDigit).length
  | _ => (cs.takeWhile isDigit).length

namespace Cursor

def readText (n : Nat) (c : Cursor) : String × Cursor :=
  (String.ofList (c.rest.take n), c.advance n)

def skipSpacing (c : Cursor) : Cursor := c.skipWhile isSpacing

/-- Reads one character, then a text up to the next quotation mark, and the mark itself if there is
one. -/
def readString (c : Cursor) : String × Cursor :=
  let body := (c.rest.drop 1).takeWhile (· != Text.quotationMark)
  (String.ofList body, c.advance (body.length + 2))

/-- Reads an integer token, which is empty if none starts here. -/
def readInteger (c : Cursor) : String × Cursor := c.readText (integerLength c.rest)

def readWord (c : Cursor) : String × Cursor := c.readText (c.rest.takeWhile isLetter).length

/-- The token that starts at a cursor, where a character is known to stand, and the cursor after
it. -/
def tokenAt (first : Char) (c : Cursor) : Token × Cursor :=
  let token (kind : TokenKind) (text : String) : Token :=
    ⟨kind, text, c.position.line, c.position.column⟩
  if first = Text.quotationMark then
    let (text, after) := c.readString
    (token .string text, after)
  else if isDigit first then
    let (text, after) := c.readInteger
    (token .integer text, after)
  else if isLetter first then
    let (text, after) := c.readWord
    (token (.ofWord text) text, after)
  else match symbolAt? c.rest with
    | some (text, kind) => (token kind text, c.advance text.length)
    | none => (token .illegal (String.singleton first), c.advance 1)

/-- The next token and the cursor after it; at the end of the text this is the end token, time and
again. -/
def next (c : Cursor) : Token × Cursor :=
  let c := c.skipSpacing
  match c.rest with
  | [] => (⟨.endOfInput, "", c.position.line, c.position.column⟩, c)
  | first :: _ => c.tokenAt first

theorem integerLength_pos {first : Char} {cs : List Char} (h : isDigit first) :
    0 < integerLength (first :: cs) := by
  unfold integerLength
  split
  · split <;> simp_all
  · simp [h]

theorem symbolAt?_length_pos {cs : List Char} {text : String} {kind : TokenKind}
    (h : symbolAt? cs = some (text, kind)) : 0 < text.length := by
  have known : ∀ entry ∈ symbols, 0 < entry.1.length := by decide
  exact known _ (List.mem_of_find?_eq_some h)

theorem tokenAt_shrinks {c : Cursor} {first : Char} {cs : List Char} (h : c.rest = first :: cs) :
    (c.tokenAt first).2.rest.length < c.rest.length := by
  have shorter (n : Nat) (hn : 0 < n) : (c.rest.drop n).length < c.rest.length := by
    simp only [List.length_drop, h, List.length_cons]
    omega
  simp only [tokenAt]
  split
  · exact shorter _ (Nat.succ_pos _)
  · split
    · next hd => exact shorter _ (h ▸ integerLength_pos hd)
    · split
      · next hl => exact shorter _ (by simp [h, hl])
      · split
        · next hs => exact shorter _ (symbolAt?_length_pos hs)
        · exact shorter _ Nat.one_pos

theorem next_shrinks {c : Cursor} (h : c.next.1.kind ≠ .endOfInput) :
    c.next.2.rest.length < c.rest.length := by
  have spaced : c.skipSpacing.rest.length ≤ c.rest.length := by
    simp [skipSpacing, skipWhile]
  unfold next at h ⊢
  dsimp only at h ⊢
  split
  · next hr => simp [hr] at h
  · next hr => exact Nat.lt_of_lt_of_le (tokenAt_shrinks hr) spaced

/-- The tokens from a cursor on, the end token last. -/
def tokens (c : Cursor) : List Token :=
  if c.next.1.kind = .endOfInput then [c.next.1] else c.next.1 :: c.next.2.tokens
termination_by c.rest.length
decreasing_by exact next_shrinks ‹_›

end Cursor

def tokenize (source : String) : List Token := (Cursor.start source).tokens

end Criterion
