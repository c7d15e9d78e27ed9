import Criterion.Numeral
import Criterion.Text.Decimal

namespace Criterion.Settings

def onSpellings : List String := ["1", "true", "yes", "on"]

/-- Whether a flag is on; blanks around it and the case of its letters do not matter. -/
def isOn (setting : Option String) : Bool :=
  onSpellings.contains (Text.strip (setting.getD "")).toLower

def ofFlag (flag : Bool) : Option String := if flag then some "1" else none

def levels : List (String × Int) :=
  [("CRITICAL", 50), ("FATAL", 50), ("ERROR", 40), ("WARNING", 30), ("WARN", 30), ("INFO", 20),
   ("DEBUG", 10), ("NOTSET", 0)]

def defaultLevel : Int := 30

/-- The capital of a letter. Apart from the ASCII letters these are the only two whose capital is an
ASCII letter. -/
def capital (c : Char) : Char :=
  if c = 'ı' then 'I' else if c = 'ſ' then 'S' else c.toUpper

inductive Fault
  | notDecimal (text : String)
  | tooLong (digits : Nat)
  deriving DecidableEq, Repr

def shownLength : Nat := 200

def Fault.message : Fault → String
  | .notDecimal text =>
    "invalid literal for int() with base 10: " ++
      String.ofList ((Text.quoted text).toList.take shownLength)
  | .tooLong digits =>
    "Exceeds the limit (" ++ Text.decimal Numeral.decimalLimit ++
      " digits) for integer string conversion: value has " ++ Text.decimal digits ++
      " digits; use sys.set_int_max_str_digits() to increase the limit"

def numbered (text : String) : Except Fault Int :=
  let read := (text.toList.map Text.decimalValue?).takeWhile Option.isSome
  match Numeral.decimal? (read.filterMap id) with
  | none => .error (.tooLong read.length)
  | some n => if read.length = text.length then .ok n else .error (.notDecimal text)

def level (fallback : Int) (setting : Option String) : Except Fault Int :=
  let text := Text.strip (setting.getD "")
  if text = "" then .ok fallback
  else if text.toList.all Text.isAnyDigit then numbered text
  else .ok ((levels.lookup (text.map capital)).getD fallback)

end Criterion.Settings
