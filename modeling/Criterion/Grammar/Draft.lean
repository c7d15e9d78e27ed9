import Criterion.Expr
import Criterion.Grammar.Lexeme
import Criterion.Numeral

/-!
Drafts: condition trees whose leaves are still lexemes. A draft becomes a tree from the leaves up
and from left to right, and the first leaf that means nothing ends the attempt.
-/

namespace Criterion.Grammar

/-- A condition tree whose leaves are lexemes. -/
inductive Draft
  | word (text : String)
  | number (text : String)
  | quotation (l : Lexeme)
  | truth (value : Bool)
  | array (elements : List Lexeme)
  | negation (sign : String) (operand : Draft)
  | binary (left : Draft) (sign : String) (right : Draft)
  | call (function : Draft) (arguments : List Draft)
  deriving Repr

/-- A way to make drafts of lexemes. Where there is no draft, the first lexeme that cannot stand
where it does is blamed, or none if the lexemes end too early. -/
abbrev Drafter := List Lexeme → Except (Option Lexeme) Draft

/-- What stands where the grammar allows no such thing. -/
inductive Sight
  | character (c : Char)
  | lexeme (l : Lexeme)
  | endOfInput
  deriving DecidableEq, Repr

inductive Refusal
  | empty
  | unexpected (position : Position) (sight : Sight)
  | reserved (word : String)
  | numeral (fault : Numeral.Fault)
  | emptyArray
  | mixedArray (elements : List Lexeme)
  | nestedTooDeeply
  deriving DecidableEq, Repr

def Sight.message : Sight → String
  | .character c => "character " ++ Text.quoted (String.singleton c)
  | .lexeme l => l.terminal.label ++ " " ++ Text.quoted l.text
  | .endOfInput => "EOF"

def Refusal.message : Refusal → String
  | .empty => "empty condition expression"
  | .unexpected position sight =>
    "line " ++ Text.decimal position.line ++ ", col " ++ Text.decimal position.column ++
      ": unexpected " ++ sight.message
  | .reserved word =>
    "reserved word " ++ Text.quoted word ++ " cannot be used as an identifier"
  | .numeral fault => fault.message
  | .emptyArray => "empty array is not allowed"
  | .mixedArray elements =>
    "mixed-type array literal [" ++ ", ".intercalate (elements.map Lexeme.describe) ++ "]"
  | .nestedTooDeeply => "expression nested too deeply"

def integerOf (text : String) : Except Refusal Int :=
  (Numeral.read text).mapError .numeral

/-- The array of some elements, which must all be of one kind. -/
def arrayOf (elements : List Lexeme) : Except Refusal Expr :=
  if elements.isEmpty then .error .emptyArray
  else if elements.all (·.terminal = .quotation) then .ok (.strings (elements.map Lexeme.content))
  else if elements.all (·.terminal = .number) then
    (elements.mapM fun l => integerOf l.text).map .integers
  else .error (.mixedArray elements)

mutual

/-- The tree that a draft stands for, with `room` levels of nesting left. -/
def Draft.resolve (room : Nat) (d : Draft) : Except Refusal Expr :=
  match room with
  | 0 => .error .nestedTooDeeply
  | room + 1 =>
    match d with
    | .word text =>
      if reservedWords.contains text then .error (.reserved text) else .ok (.identifier text)
    | .number text => (integerOf text).map .integer
    | .quotation l => .ok (.string l.content)
    | .truth value => .ok (.boolean value)
    | .array elements => arrayOf elements
    | .negation sign operand => do
      let e ← operand.resolve room
      return .unary sign e
    | .binary left sign right => do
      let l ← left.resolve room
      let r ← right.resolve room
      return .binary l sign r
    | .call function arguments => do
      let f ← function.resolve room
      let args ← resolveAll room arguments
      return .call f args

def resolveAll (room : Nat) (ds : List Draft) : Except Refusal (List Expr) :=
  match ds with
  | [] => .ok []
  | d :: ds => do
    let e ← d.resolve room
    let es ← resolveAll room ds
    return e :: es

end

end Criterion.Grammar
