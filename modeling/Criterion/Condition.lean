import Criterion.Expr.Outline
import Criterion.Failure

namespace Criterion

/-- A condition that was read and checked. -/
structure Condition where
  program : Expr
  deriving DecidableEq, Repr

namespace Condition

def compile [Nesting] (front : FrontEnd) (r : Registry) (source : String) :
    Except Failure Condition :=
  let reading := Reading.ofSource front r source
  if reading.diagnostics.isEmpty then .ok ⟨reading.program⟩
  else .error (.rejected reading.diagnostics)

def text (c : Condition) : String := c.program.text

/-- The tree of a condition over several lines. A tree that was read always has an outline. -/
def dump (c : Condition) : String :=
  match c.program.dump with
  | .ok text => text
  | .error fault => fault.message

def evaluate [Nesting] (host : Host) (r : Registry) (env : Environment) (c : Condition) :
    Run Value :=
  Criterion.evaluate host r env c.program

end Condition

/-- The value that a literal stands for. -/
def Expr.literal? : Expr → Option Value
  | integer value => some (.integer value)
  | boolean value => some (.boolean value)
  | string value => some (.string value)
  | integers values => some (.integers values)
  | strings values => some (.strings values)
  | _ => none

/-- The value of a text that is a literal. -/
def literalValue [Nesting] (r : Registry) (source : String) : Except Failure Value :=
  let reading := Reading.ofSource .descent r source
  if reading.diagnostics.isEmpty then
    match reading.body.bind Expr.literal? with
    | some v => .ok v
    | none => .error (.rejected [.notLiteral source])
  else .error (.rejected reading.diagnostics)

namespace Environment

def assign (isConstant : Bool) (env : Environment) (name : String) (v : Value) :
    Except Failure Environment :=
  match env.bind? name v isConstant with
  | some env => .ok env
  | none => .error (.constant name)

def assignPlain (isConstant : Bool) (env : Environment) (entry : String × Plain) :
    Except Failure Environment := do
  env.assign isConstant entry.1 (← entry.2.toValue.mapError .data)

def assignLiteral [Nesting] (r : Registry) (isConstant : Bool) (env : Environment)
    (entry : String × String) : Except Failure Environment := do
  env.assign isConstant entry.1 (← literalValue r entry.2)

/-- The environment of some data: first the names that may change, then the constants. -/
def ofPlain (values constants : List (String × Plain)) : Except Failure Environment := do
  constants.foldlM (assignPlain true) (← values.foldlM (assignPlain false) empty)

def ofLiterals [Nesting] (r : Registry) (values constants : List (String × String)) :
    Except Failure Environment := do
  constants.foldlM (assignLiteral r true) (← values.foldlM (assignLiteral r false) empty)

end Environment

/-- Evaluates a text with names bound to literals, before any call of a function. -/
def evaluateText [Nesting] (front : FrontEnd) (host : Host) (r : Registry) (source : String)
    (values constants : List (String × String)) : Except Failure Value := do
  let env ← Environment.ofLiterals r values constants
  let c ← Condition.compile front r source
  (c.evaluate host r env []).value

end Criterion
