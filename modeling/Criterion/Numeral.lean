import Criterion.Text.Blank
import Criterion.Text.Digit
import Criterion.Text.Quoted
import Criterion.Word

/-!
Integer numerals. A text of digits alone is decimal, in the digits of any script and with leading
zeros. Any other text may have a sign, a base marker and single underscores between digits, with
blanks around it; a decimal one may then start with zero only if it is zero.
-/

namespace Criterion.Numeral

/-- Why a text is not the numeral of a word. -/
inductive Fault
  | unreadable (text : String)
  | outOfRange (text : String)
  deriving DecidableEq, Repr

def Fault.message : Fault → String
  | .unreadable text => "could not parse " ++ Text.quoted text ++ " as integer"
  | .outOfRange text => "integer literal " ++ text ++ " out of 64-bit range"

/-- The number that a row of digits writes in a base. -/
def positional (base : Nat) (digits : List Nat) : Nat :=
  digits.foldl (fun n digit => n * base + digit) 0

def decimalLimit : Nat := 4300

def decimal? (digits : List Nat) : Option Nat :=
  if digits.length ≤ decimalLimit then some (positional 10 digits) else none

/-- The value of an ASCII digit or letter as a digit of a base up to 36. -/
def digitIn? (base : Nat) (c : Char) : Option Nat :=
  let value :=
    if c.isDigit then c.toNat - '0'.toNat
    else if c.isLower then c.toNat - 'a'.toNat + 10
    else if c.isUpper then c.toNat - 'A'.toNat + 10
    else base
  if value < base then some value else none

/-- The base announced by the letter after a leading zero. -/
def baseOfMarker? (c : Char) : Option Nat :=
  if c = 'x' || c = 'X' then some 16
  else if c = 'o' || c = 'O' then some 8
  else if c = 'b' || c = 'B' then some 2
  else none

/-- The characters of a numeral without its underscores, each of which must stand alone between
two others. -/
def ungroup? : List Char → Option (List Char)
  | [] => none
  | [c] => if c = '_' then none else some [c]
  | c :: '_' :: rest => if c = '_' then none else (ungroup? rest).map (c :: ·)
  | c :: d :: rest => if c = '_' then none else (ungroup? (d :: rest)).map (c :: ·)

def groupedDigits? (base : Nat) (cs : List Char) : Option (List Nat) :=
  (ungroup? cs).bind (·.mapM (digitIn? base))

def unsigned? (cs : List Char) : Option Nat :=
  match cs with
  | '0' :: marker :: rest =>
    match baseOfMarker? marker with
    | some base =>
      let body := match rest with
        | '_' :: body => body
        | _ => rest
      (groupedDigits? base body).map (positional base)
    | none => do
      let digits ← groupedDigits? 10 cs
      if digits.all (· == 0) then decimal? digits else none
  | _ => (groupedDigits? 10 cs).bind decimal?

def signed? (cs : List Char) : Option Int :=
  match cs with
  | '-' :: rest => (unsigned? rest).map fun n => -(n : Int)
  | '+' :: rest => (unsigned? rest).map fun n => (n : Int)
  | _ => (unsigned? cs).map fun n => (n : Int)

/-- A character as numerals see it: foreign decimal digits count as ASCII ones, foreign blanks as
spaces, and any other foreign character as one that no numeral has. -/
def plain (c : Char) : Char :=
  if c.toNat < 0x80 then c
  else if Text.isBlank c then ' '
  else match Text.decimalValue? c with
    | some digit => Nat.digitChar digit
    | none => '?'

/-- The ASCII blanks that may surround a numeral. -/
def isMargin (c : Char) : Bool := c = ' ' || (0x09 ≤ c.toNat && c.toNat ≤ 0x0D)

def value? (text : String) : Option Int :=
  let cs := text.toList
  if cs ≠ [] && cs.all Text.isAnyDigit then
    (cs.mapM Text.decimalValue?).bind fun digits => (decimal? digits).map fun n => (n : Int)
  else
    signed? (Text.trimBy isMargin (cs.map plain))

/-- Reads a numeral that must fit a word. -/
def read (text : String) : Except Fault Int :=
  match value? text with
  | none => .error (.unreadable text)
  | some n => if Word.Fits n then .ok n else .error (.outOfRange text)

end Criterion.Numeral
