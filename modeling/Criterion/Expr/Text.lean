import Criterion.Expr
import Criterion.Text.Decimal

namespace Criterion.Expr

/-- A string value between quotation marks, as it stands. -/
def quote (s : String) : String := "\"" ++ s ++ "\""

mutual

def text : Expr → String
  | identifier name => name
  | integer value => Text.decimal value
  | boolean value => if value then "true" else "false"
  | string value => quote value
  | integers values => "[" ++ ",".intercalate (values.map Text.decimal) ++ "]"
  | strings values => "[" ++ ",".intercalate (values.map quote) ++ "]"
  | unary op operand => "(" ++ op ++ operand.text ++ ")"
  | binary left op right => "(" ++ left.text ++ " " ++ op ++ " " ++ right.text ++ ")"
  | call function arguments => function.text ++ "(" ++ ", ".intercalate (texts arguments) ++ ")"
  | program body => body.text
  | absent | foreign _ _ => ""

def texts : List Expr → List String
  | [] => []
  | e :: es => e.text :: texts es

end

mutual

/-- The text of a tree, or the kind of the first part that has none. Arguments are written before
the function that they are passed to. -/
def render : Expr → Except String String
  | unary op operand => do
    let inner ← operand.render
    return "(" ++ op ++ inner ++ ")"
  | binary left op right => do
    let l ← left.render
    let r ← right.render
    return "(" ++ l ++ " " ++ op ++ " " ++ r ++ ")"
  | call function arguments => do
    let args ← renderAll arguments
    let name ← function.render
    return name ++ "(" ++ ", ".intercalate args ++ ")"
  | program absent => .ok ""
  | program body => body.render
  | absent => .error "NoneType"
  | foreign kind _ => .error kind
  | e => .ok e.text

def renderAll : List Expr → Except String (List String)
  | [] => .ok []
  | e :: es => do
    let text ← e.render
    let texts ← renderAll es
    return text :: texts

end

end Criterion.Expr
