import Criterion.Text.Printable

namespace Criterion.Text

def apostrophe : Char := '\x27'

def quotationMark : Char := '\x22'

def enclosingMark (cs : List Char) : Char :=
  if cs.contains apostrophe && !cs.contains quotationMark then quotationMark else apostrophe

/-- A number in lower-case hexadecimal, in exactly `width` digits. -/
def hexadecimal (width n : Nat) : List Char :=
  match width with
  | 0 => []
  | width + 1 => hexadecimal width (n / 16) ++ [Nat.digitChar (n % 16)]

/-- An unprintable character by its code, in two, four or eight hexadecimal digits. -/
def codeEscape (c : Char) : List Char :=
  if c.toNat < 0x100 then '\\' :: 'x' :: hexadecimal 2 c.toNat
  else if c.toNat < 0x10000 then '\\' :: 'u' :: hexadecimal 4 c.toNat
  else '\\' :: 'U' :: hexadecimal 8 c.toNat

def escape (mark c : Char) : List Char :=
  if c = '\\' || c = mark then ['\\', c]
  else if c = '\t' then ['\\', 't']
  else if c = '\n' then ['\\', 'n']
  else if c = '\r' then ['\\', 'r']
  else if isPrintable c then [c]
  else codeEscape c

def quoted (s : String) : String :=
  let mark := enclosingMark s.toList
  String.ofList (mark :: s.toList.flatMap (escape mark) ++ [mark])

end Criterion.Text
