import Criterion.Cursor
import Criterion.Token.Scan

/-!
Lexemes: source text cut by a list of terminals, each of which says how much of a text it can stand
for. At every place the terminal with the longest match wins; the text up to the first character
that no terminal matches is cut in this way.
-/

namespace Criterion.Grammar

inductive Terminal
  | andSign | orSign | equality | relation | sum | product | bang
  | word | number | quotation
  | leftParen | rightParen | leftBracket | rightBracket | comma
  | trueWord | falseWord | inWord
  deriving DecidableEq, Repr

namespace Terminal

def label : Terminal → String
  | andSign => "ANDAND"
  | orSign => "OROR"
  | equality => "EQOP"
  | relation => "RELOP"
  | sum => "ADDOP"
  | product => "MULOP"
  | bang => "BANG"
  | word => "IDENT"
  | number => "INT"
  | quotation => "STRING"
  | leftParen => "LPAR"
  | rightParen => "RPAR"
  | leftBracket => "LSQB"
  | rightBracket => "RSQB"
  | comma => "COMMA"
  | trueWord => "TRUE"
  | falseWord => "FALSE"
  | inWord => "IN"

/-- The terminals that are looked for in a text; the three keywords are words first. -/
def matched : List Terminal :=
  [andSign, orSign, equality, relation, sum, product, bang, word, number, quotation, leftParen,
   rightParen, leftBracket, rightBracket, comma]

/-- The length of the longest spelling that a text begins with, or zero. -/
def spellingLength (spellings : List String) (cs : List Char) : Nat :=
  ((spellings.filter fun s => s.toList.isPrefixOf cs).map String.length).foldl max 0

/-- How much of the start of a text a terminal matches, in characters; zero if nothing. -/
def matchLength (t : Terminal) (cs : List Char) : Nat :=
  match t with
  | andSign => spellingLength ["&&"] cs
  | orSign => spellingLength ["||"] cs
  | equality => spellingLength ["==", "!="] cs
  | relation => spellingLength ["<=", ">=", "<", ">"] cs
  | sum => spellingLength ["+", "-"] cs
  | product => spellingLength ["*", "/"] cs
  | bang => spellingLength ["!"] cs
  | leftParen => spellingLength ["("] cs
  | rightParen => spellingLength [")"] cs
  | leftBracket => spellingLength ["["] cs
  | rightBracket => spellingLength ["]"] cs
  | comma => spellingLength [","] cs
  | word => (cs.takeWhile isLetter).length
  | number =>
    match cs with
    | '0' :: marker :: rest =>
      if isBaseMarker marker then 2 + (rest.takeWhile isAlphanumeric).length
      else (cs.takeWhile isDigit).length
    | _ => (cs.takeWhile isDigit).length
  | quotation =>
    match cs with
    | [] => 0
    | c :: rest =>
      if c = Text.quotationMark then
        let body := rest.takeWhile (· != Text.quotationMark)
        1 + body.length + ((rest.drop body.length).take 1).length
      else 0
  | trueWord | falseWord | inWord => 0

/-- The better of two matches: the longer, or the first if they are equally long. -/
def longer (a b : Terminal × Nat) : Terminal × Nat := if a.2 < b.2 then b else a

def longestMatch? (cs : List Char) : Option (Terminal × Nat) :=
  let best := (matched.map fun t => (t, t.matchLength cs)).foldl longer (word, 0)
  if best.2 = 0 then none else some best

/-- The terminal of a matched text: a word may be a keyword. -/
def ofMatch (t : Terminal) (text : String) : Terminal :=
  if t = word then
    if text = "true" then trueWord
    else if text = "false" then falseWord
    else if text = "in" then inWord
    else word
  else t

end Terminal

/-- A piece of source text with its terminal and the place where it starts. -/
structure Lexeme where
  terminal : Terminal
  text : String
  position : Position
  deriving DecidableEq, Repr

def Lexeme.content (l : Lexeme) : String :=
  let inside := l.text.toList.drop 1
  String.ofList
    (if inside.getLast? = some Text.quotationMark then inside.dropLast else inside)

/-- An array element as messages mention it. -/
def Lexeme.describe (l : Lexeme) : String :=
  l.terminal.label ++ " " ++
    Text.quoted (if l.terminal = .quotation then l.content else l.text)

structure Stray where
  character : Char
  position : Position
  deriving DecidableEq, Repr

/-- The lexemes of a text that starts at a place, up to the first stray character, if there is
one. -/
def lexemes (p : Position) (cs : List Char) : List Lexeme × Option Stray :=
  match cs with
  | [] => ([], none)
  | c :: rest =>
    if isSpacing c then lexemes (p.past c) rest
    else
      match Terminal.longestMatch? (c :: rest) with
      | none => ([], some ⟨c, p⟩)
      | some (terminal, length) =>
        let cut := c :: rest.take (length - 1)
        let text := String.ofList cut
        let (more, stray) := lexemes (p.after cut) (rest.drop (length - 1))
        (⟨terminal.ofMatch text, text, p⟩ :: more, stray)
termination_by cs.length
decreasing_by
  · exact Nat.lt_succ_self _
  · exact Nat.lt_succ_of_le (by simp)

end Criterion.Grammar
