import Criterion.Operator
import Criterion.Text.Decimal
import Criterion.Text.Quoted

namespace Criterion

inductive TokenKind
  | integer | string | identifier
  | trueWord | falseWord | inWord
  | plus | minus | star | slash
  | equal | notEqual | less | lessEqual | greater | greaterEqual | pattern
  | and | or | bang
  | leftParen | rightParen | leftBracket | rightBracket | comma | semicolon
  | illegal | endOfInput
  deriving DecidableEq, Repr

namespace TokenKind

def all : List TokenKind :=
  [integer, string, identifier, trueWord, falseWord, inWord, plus, minus, star, slash, equal,
   notEqual, less, lessEqual, greater, greaterEqual, pattern, and, or, bang, leftParen, rightParen,
   leftBracket, rightBracket, comma, semicolon, illegal, endOfInput]

def label : TokenKind → String
  | integer => "INT"
  | string => "STRING"
  | identifier => "IDENT"
  | trueWord => "TRUE"
  | falseWord => "FALSE"
  | inWord => "IN"
  | plus => "PLUS"
  | minus => "MINUS"
  | star => "STAR"
  | slash => "SLASH"
  | equal => "EQ"
  | notEqual => "NEQ"
  | less => "LT"
  | lessEqual => "LTE"
  | greater => "GT"
  | greaterEqual => "GTE"
  | pattern => "REGEXMATCH"
  | and => "AND"
  | or => "OR"
  | bang => "NEG"
  | leftParen => "LPAR"
  | rightParen => "RPAR"
  | leftBracket => "LSQB"
  | rightBracket => "RSQB"
  | comma => "COMMA"
  | semicolon => "SEMI"
  | illegal => "ILLEGAL"
  | endOfInput => "EOF"

def binaryOp? : TokenKind → Option BinaryOp
  | and => some .and
  | or => some .or
  | equal => some .equal
  | notEqual => some .notEqual
  | less => some .less
  | lessEqual => some .lessEqual
  | greater => some .greater
  | greaterEqual => some .greaterEqual
  | plus => some .add
  | minus => some .subtract
  | star => some .multiply
  | slash => some .divide
  | inWord => some .member
  | _ => none

/-- How tightly a token binds what stands before it. -/
def precedence (kind : TokenKind) : Nat :=
  match kind.binaryOp? with
  | some op => op.precedence
  | none => if kind = leftParen then Precedence.call else Precedence.lowest

end TokenKind

/-- A word of condition source, with the position of its first character. -/
structure Token where
  kind : TokenKind
  text : String
  line : Int
  column : Int
  deriving DecidableEq, Repr

namespace Token

/-- The token that is seen where no more tokens are left. -/
def finish : Token := ⟨.endOfInput, "", 0, 0⟩

def describe (t : Token) : String :=
  if t.kind = .endOfInput then t.kind.label else t.kind.label ++ " " ++ Text.quoted t.text

def display (t : Token) : String :=
  "Tok(" ++ t.kind.label ++ ", " ++ Text.quoted t.text ++ ", " ++ Text.decimal t.line ++ ":" ++
    Text.decimal t.column ++ ")"

end Token

def keywords : List (String × TokenKind) :=
  [("true", .trueWord), ("false", .falseWord), ("in", .inWord)]

/-- The words that are kept from being identifiers. -/
def reservedWords : List String :=
  ["False", "None", "True", "and", "as", "assert", "async", "await", "break", "class", "continue",
   "def", "del", "elif", "else", "except", "finally", "for", "from", "global", "if", "import", "is",
   "lambda", "nonlocal", "not", "or", "pass", "raise", "return", "try", "while", "with", "yield"]

def TokenKind.ofWord (word : String) : TokenKind :=
  match keywords.lookup word with
  | some kind => kind
  | none => if reservedWords.contains word then .illegal else .identifier

end Criterion
