import Criterion.Token.Scan

namespace Criterion

/-- Why a cursor stays where it is. -/
inductive Cursor.Fault
  | backward (count : Int)
  | outside
  deriving DecidableEq, Repr

def Cursor.Fault.message : Cursor.Fault → String
  | .backward count => "advance() requires n >= 0, got " ++ Text.decimal count
  | .outside => "string index out of range"

namespace Cursor

/-- Something to ask of a scanner. The three readings do not look at the character they start
with. -/
inductive Action
  | next
  | look (distance : Int)
  | move (count : Int)
  | skip
  | string
  | integer
  | word
  deriving DecidableEq, Repr

inductive Answer
  | token (t : Token)
  | text (s : String)
  | done
  | fault (f : Fault)
  deriving DecidableEq, Repr

def act (c : Cursor) : Action → Answer × Cursor
  | .next => (.token c.next.1, c.next.2)
  | .look distance =>
    match c.peek? distance with
    | some seen => (.text (String.singleton seen), c)
    | none => (.fault .outside, c)
  | .move count =>
    if count < 0 then (.fault (.backward count), c)
    else (.text (c.readText count.toNat).1, (c.readText count.toNat).2)
  | .skip => (.done, c.skipSpacing)
  | .string => (.text c.readString.1, c.readString.2)
  | .integer => (.text c.readInteger.1, c.readInteger.2)
  | .word => (.text c.readWord.1, c.readWord.2)

def after (c : Cursor) (actions : List Action) : Cursor := actions.foldl (fun c a => (c.act a).2) c

end Cursor

end Criterion
