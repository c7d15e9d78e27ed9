import Criterion.Expr.Text
import Criterion.Text.Quoted

namespace Criterion

/-- A tree of titles with texts at its leaves. -/
inductive Outline
  | leaf (text : String)
  | branch (title : String) (children : List Outline)

/-- The place of a tree where no node stands, so that it has no outline. -/
inductive Outline.Fault
  | absent
  | foreign (kind : String)
  deriving DecidableEq, Repr

def Outline.Fault.message : Outline.Fault → String
  | .absent => "not an AST node: NoneType"
  | .foreign kind => "not an AST node: " ++ kind

namespace Outline

def indent (depth : Nat) : String := String.ofList (List.replicate (2 * depth) ' ')

mutual

/-- The lines of an outline. A title with a single leaf below it shares its line with that leaf. -/
def text (depth : Nat) : Outline → String
  | leaf text => indent depth ++ text ++ "\n"
  | branch title [leaf text] => indent depth ++ title ++ "\t" ++ text ++ "\n"
  | branch title children => indent depth ++ title ++ "\n" ++ texts (depth + 1) children

def texts (depth : Nat) : List Outline → String
  | [] => ""
  | o :: os => o.text depth ++ texts depth os

end

end Outline

namespace Expr

mutual

def outline : Expr → Except Outline.Fault Outline
  | identifier name => .ok (.leaf name)
  | integer value => .ok (.leaf (Text.decimal value))
  | boolean value => .ok (.leaf (boolean value).text)
  | string value => .ok (.leaf value)
  | integers values => .ok (.branch "array_integer" (values.map fun n => .leaf (Text.decimal n)))
  | strings values => .ok (.branch "array_string" (values.map .leaf))
  | unary op operand => do
    let inner ← operand.outline
    return .branch "prefix" [.leaf op, inner]
  | binary left op right => do
    let l ← left.outline
    let r ← right.outline
    return .branch "infix" [l, .leaf op, r]
  | call function arguments => do
    let f ← function.outline
    let args ← outlines arguments
    return .branch "call" [f, .branch "args" args]
  | program absent => .ok (.branch "program" [])
  | program body => do
    let inner ← body.outline
    return .branch "program" [inner]
  | absent => .error .absent
  | foreign kind _ => .error (.foreign kind)

def outlines : List Expr → Except Outline.Fault (List Outline)
  | [] => .ok []
  | e :: es => do
    let o ← e.outline
    let os ← outlines es
    return o :: os

end

/-- The name of the token that a tree of one token consists of. -/
def tokenName? : Expr → Option String
  | identifier _ => some "IDENT"
  | integer _ => some "INT"
  | boolean value => some (if value then "TRUE" else "FALSE")
  | string _ => some "STRING"
  | _ => none

/-- A tree written over several lines; one of a single token gives the token's name and quoted
text. -/
def dump (e : Expr) : Except Outline.Fault String := do
  match ← e.outline, e.tokenName? with
  | .leaf text, some name => return name ++ "\t" ++ Text.quoted text ++ "\n"
  | outline, _ => return outline.text 0

end Expr

end Criterion
