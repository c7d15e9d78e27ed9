import Criterion.Registry
import Criterion.Token.Scan

namespace Criterion.Highlight

inductive Group
  | keyword | boolean | number | string | identifier | function | operator | punctuation | error
  deriving DecidableEq, Repr

def Group.style : Group → String
  | keyword => "bold ansicyan"
  | boolean => "ansicyan"
  | number => "ansimagenta"
  | string => "ansigreen"
  | function => "bold ansiyellow"
  | error => "bold ansired"
  | identifier | operator | punctuation => ""

def groupOf : TokenKind → Group
  | .inWord | .and | .or => .keyword
  | .trueWord | .falseWord => .boolean
  | .integer => .number
  | .string => .string
  | .identifier => .identifier
  | .plus | .minus | .star | .slash | .equal | .notEqual | .less | .lessEqual | .greater
  | .greaterEqual | .bang | .pattern => .operator
  | .leftParen | .rightParen | .leftBracket | .rightBracket | .comma | .semicolon | .endOfInput =>
    .punctuation
  | .illegal => .error

/-- A piece of a line: a token of some group, or a gap. -/
structure Fragment where
  group : Option Group
  text : String
  deriving DecidableEq, Repr

def Fragment.style (f : Fragment) : String := (f.group.map Group.style).getD ""

def gap (cs : List Char) (start stop : Nat) : List Fragment :=
  if start < stop then [⟨none, String.ofList ((cs.drop start).take (stop - start))⟩] else []

/-- The places where a token starts and ends in its line. A string has a quotation mark before it,
and one after it unless the line ends first. -/
def extent (cs : List Char) (t : Token) : Nat × Nat :=
  let start := t.column.toNat - 1
  let stop := start + t.text.length
  if t.kind = .string then
    (start, if cs[stop + 1]? = some Text.quotationMark then stop + 2 else stop + 1)
  else (start, stop)

/-- Whether an identifier and the token after it are the head of a call to a registered
function. -/
def isCallHead (r : Registry) (t : Token) (next : Option Token) : Bool :=
  t.kind = .identifier && next.any (·.kind = .leftParen) && r.contains t.text

/-- The fragments of a line from a place on, made of its tokens from there on. A token that does not
lie beyond that place is passed over. -/
def fragments (r : Registry) (cs : List Char) (place : Nat) : List Token → List Fragment
  | [] => gap cs place cs.length
  | t :: ts =>
    if t.kind = .endOfInput then gap cs place cs.length
    else
      let (start, stop) := extent cs t
      if start < place || stop ≤ start then fragments r cs place ts
      else
        let group := if isCallHead r t ts.head? then .function else groupOf t.kind
        gap cs place start ++
          ⟨some group, String.ofList ((cs.drop start).take (stop - start))⟩ ::
            fragments r cs stop ts

def line (r : Registry) (text : String) : List Fragment :=
  if text = "" then [⟨none, ""⟩] else fragments r text.toList 0 (tokenize text)

/-- The fragments of one line of a document, counted from zero; beyond the last all are empty. -/
def lineOf (r : Registry) (document : String) (number : Nat) : List Fragment :=
  line r ((document.splitOn "\n").getD number "")

end Criterion.Highlight
