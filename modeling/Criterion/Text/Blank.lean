import Criterion.Text.CharRange

namespace Criterion.Text

/-- The blank characters: the white space of Unicode and the four ASCII information separators. -/
def blankRanges : CharRanges :=
  [(0x09, 0x0D), (0x1C, 0x20), (0x85, 0x85), (0xA0, 0xA0), (0x1680, 0x1680), (0x2000, 0x200A),
   (0x2028, 0x2029), (0x202F, 0x202F), (0x205F, 0x205F), (0x3000, 0x3000)]

def isBlank (c : Char) : Bool := blankRanges.has c

def trimBy (p : Char → Bool) (cs : List Char) : List Char :=
  ((cs.dropWhile p).reverse.dropWhile p).reverse

def strip (s : String) : String := String.ofList (trimBy isBlank s.toList)

def isAllBlank (s : String) : Bool := s.toList.all isBlank

/-- The first word of a text that starts with one, and what follows the blanks after it. -/
def splitWord (s : String) : String × String :=
  let cs := s.toList
  (String.ofList (cs.takeWhile (!isBlank ·)),
    String.ofList ((cs.dropWhile (!isBlank ·)).dropWhile isBlank))

/-- The part before the first `mark` and the part after it, if the mark occurs. -/
def splitAt? (mark : Char) (s : String) : Option (String × String) :=
  match s.toList.dropWhile (· != mark) with
  | [] => none
  | _ :: after => some (String.ofList (s.toList.takeWhile (· != mark)), String.ofList after)

end Criterion.Text
