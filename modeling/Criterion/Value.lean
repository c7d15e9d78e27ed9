import Criterion.Expr.Text
import Criterion.Kind
import Criterion.Word

namespace Criterion

/-- What a function does when it is called: the length of its argument, or whatever the host answers
under a number. -/
inductive Routine
  | length
  | host (number : Nat)
  deriving DecidableEq, Repr

structure Builtin where
  name : String
  routine : Routine
  deriving DecidableEq, Repr

def Builtin.text (f : Builtin) : String := "<builtin " ++ f.name ++ ">"

/-- A runtime value. Errors are values too, which is how evaluation reports failure. -/
inductive Value
  | null
  | integer (value : Int)
  | string (value : String)
  | boolean (value : Bool)
  | integers (values : List Int)
  | strings (values : List String)
  | error (message : String)
  | function (f : Builtin)
  deriving DecidableEq, Repr, Inhabited

namespace Value

def kind : Value → Kind
  | null => .null
  | integer _ => .integer
  | string _ => .string
  | boolean _ => .boolean
  | integers _ => .integerArray
  | strings _ => .stringArray
  | error _ => .error
  | function _ => .function

def text : Value → String
  | null => "null"
  | integer value => Text.decimal value
  | string value => Expr.quote value
  | boolean value => if value then "true" else "false"
  | integers values => "[" ++ ", ".intercalate (values.map Text.decimal) ++ "]"
  | strings values => "[" ++ ", ".intercalate (values.map Expr.quote) ++ "]"
  | error message => "error: " ++ message
  | function f => f.text

def isError : Value → Bool
  | error _ => true
  | _ => false

/-- Whether a value counts as true: all do but false, zero and the empty string. -/
def isTruthy : Value → Bool
  | boolean value => value
  | string value => value != ""
  | integer value => value != 0
  | _ => true

/-- Whether two values are equal for a host, to which functions of one name are the same. -/
def agrees : Value → Value → Bool
  | function f, function g => f.name == g.name
  | v, w => v == w

end Value

end Criterion
