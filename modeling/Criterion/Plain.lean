import Criterion.Value

namespace Criterion

/-- Data of a host, which may be a value already. What conditions have no values for is known by its
kind alone. -/
inductive Plain
  | null
  | boolean (value : Bool)
  | integer (value : Int)
  | text (value : String)
  | list (items : List Plain)
  | tuple (items : List Plain)
  | converted (value : Value)
  | other (kind : String)
  deriving Repr

namespace Plain

inductive Fault
  | outOfRange (n : Int)
  | unfitList
  | unfitKind (kind : String)
  deriving DecidableEq, Repr

def Fault.message : Fault → String
  | .outOfRange n => "Integer " ++ Text.decimal n ++ " is out of 64-bit range"
  | .unfitList => "Arrays must be non-empty and hold only ints or only strings"
  | .unfitKind kind => "Cannot convert " ++ kind ++ " to a condition value"

def text? : Plain → Option String
  | text value => some value
  | _ => none

def integer? : Plain → Option Int
  | integer value => some value
  | _ => none

def word (n : Int) : Except Fault Int := if Word.Fits n then .ok n else .error (.outOfRange n)

/-- The array of some items, of a list or of a tuple: of texts alone, or of words alone. -/
def array (items : List Plain) : Except Fault Value :=
  if items.isEmpty then .error .unfitList
  else match items.mapM text?, items.mapM integer? with
    | some texts, _ => .ok (.strings texts)
    | _, some numbers => (numbers.mapM word).map .integers
    | none, none => .error .unfitList

def toValue : Plain → Except Fault Value
  | null => .ok .null
  | boolean value => .ok (.boolean value)
  | integer value => (word value).map .integer
  | text value => .ok (.string value)
  | list items | tuple items => array items
  | converted value => .ok value
  | other kind => .error (.unfitKind kind)

end Plain

end Criterion
