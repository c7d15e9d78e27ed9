namespace Criterion

/-- A kind of value, or `unknown`, which the checker gives to what only evaluation can tell. -/
inductive Kind
  | integer | string | boolean | integerArray | stringArray
  | function | null | error | unknown
  deriving DecidableEq, Repr

namespace Kind

def all : List Kind :=
  [integer, string, boolean, integerArray, stringArray, function, null, error, unknown]

def label : Kind → String
  | integer => "INTEGER"
  | string => "STRING"
  | boolean => "BOOLEAN"
  | integerArray => "ARRAY_INTEGER"
  | stringArray => "ARRAY_STRING"
  | function => "FUNCTION"
  | null => "NULL"
  | error => "ERROR"
  | unknown => "IDENT"

def labels (kinds : List Kind) : String := ", ".intercalate (kinds.map label)

end Kind

end Criterion
