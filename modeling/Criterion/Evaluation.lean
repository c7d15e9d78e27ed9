import Criterion.Environment
import Criterion.Expr
import Criterion.Registry

/-!
Evaluation: strict, left to right, and over at the first failure. A run keeps a record of the
functions called, so that what a host can observe is part of the result.
-/

namespace Criterion

/-- Why a condition has no value but an error. -/
inductive Fault
  | empty
  | unsupported (kind : String)
  | notFound (name : String)
  | notFunction (found : Kind)
  | unaryOperand (op : String) (found : Kind)
  | binaryOperands (op : String) (left right : Kind)
  | divisionByZero
  | lengthArity (found : Nat)
  | lengthOperand (found : Kind)
  | nestedTooDeeply
  | reported (message : String)
  deriving DecidableEq, Repr

def Fault.message : Fault → String
  | .empty => "empty condition expression"
  | .unsupported kind => "unsupported node kind " ++ kind
  | .notFound name => "identifier not found: " ++ name
  | .notFunction found => "not a function: " ++ found.label
  | .unaryOperand op found => "unknown operator: " ++ op ++ found.label
  | .binaryOperands op left right =>
    "unknown operator: " ++ left.label ++ " " ++ op ++ " " ++ right.label
  | .divisionByZero => "division by zero"
  | .lengthArity found =>
    "wrong number of arguments to `len`. got=" ++ Text.decimal found ++ ", want=1"
  | .lengthOperand found => "argument to `len` not supported, got " ++ found.label
  | .nestedTooDeeply => "expression nested too deeply"
  | .reported message => message

/-- A result as a value: a fault is the error with its wording. -/
def Value.ofResult : Except Fault Value → Value
  | .ok v => v
  | .error fault => .error fault.message

/-- An exception that is none of the program's own, by the name of its class and its text. -/
structure Escape where
  kind : String
  message : String
  deriving DecidableEq, Repr

/-- What comes of a call to a function of the host: nothing, a value, an object that is no value, a
failure of the program's own kind with its messages, no room left for the calls that it makes, or
any other exception. -/
inductive Reply
  | nothing
  | value (v : Value)
  | foreign (kind : String)
  | refused (messages : List String)
  | exhausted
  | raised (e : Escape)
  deriving DecidableEq, Repr

structure Call where
  builtin : Builtin
  arguments : List Value
  deriving DecidableEq, Repr

/-- How the host answers a call to each of its functions. It may go by the calls made before. -/
abbrev Host := (past : List Call) → (number : Nat) → List Value → Reply

/-- Why a run ends before it has a value: a fault, which becomes an error value, or something that a
function of the host has done and no condition can go on from. -/
inductive Halt
  | fault (f : Fault)
  | foreign (kind : String)
  | refused (messages : List String)
  | raised (e : Escape)
  deriving DecidableEq, Repr

/-- What a computation has come to, and the calls that it has made, in order. -/
structure Outcome (α : Type) where
  calls : List Call
  result : Except Halt α

/-- A computation, by its outcome after the calls made before. -/
def Run (α : Type) : Type := (past : List Call) → Outcome α

namespace Run

variable {α β : Type}

def halt (h : Halt) : Run α := fun _ => ⟨[], .error h⟩

def fail (f : Fault) : Run α := halt (.fault f)

/-- The run that goes by the calls made before. -/
def withPast (next : List Call → Run α) : Run α := fun past => next past past

def record (call : Call) : Run Unit := fun _ => ⟨[call], .ok ()⟩

def andThen (first : Run α) (next : α → Run β) : Run β := fun past =>
  let done := first past
  match done.result with
  | .ok a =>
    let last := next a (past ++ done.calls)
    ⟨done.calls ++ last.calls, last.result⟩
  | .error halt => ⟨done.calls, .error halt⟩

instance : Monad Run where
  pure a := fun _ => ⟨[], .ok a⟩
  bind := andThen

def ofExcept : Except Fault α → Run α
  | .ok a => pure a
  | .error f => fail f

/-- The run with a value as its result, which an error value ends. -/
def ofValue : Value → Run Value
  | .error message => fail (.reported message)
  | v => pure v

end Run

namespace Value

def ofProp (p : Prop) [Decidable p] : Value := .boolean (decide p)

def integerOp (op : BinaryOp) (a b : Int) : Except Fault Value :=
  match op with
  | .add => .ok (.integer (Word.wrap (a + b)))
  | .subtract => .ok (.integer (Word.wrap (a - b)))
  | .multiply => .ok (.integer (Word.wrap (a * b)))
  | .divide =>
    match Word.quotient? a b with
    | some q => .ok (.integer (Word.wrap q))
    | none => .error .divisionByZero
  | .less => .ok (ofProp (a < b))
  | .lessEqual => .ok (ofProp (a ≤ b))
  | .greater => .ok (ofProp (b < a))
  | .greaterEqual => .ok (ofProp (b ≤ a))
  | .equal => .ok (ofProp (a = b))
  | .notEqual => .ok (ofProp (a ≠ b))
  | .and | .or | .member => .error (.binaryOperands op.text .integer .integer)

/-- The result of an operator between strings, which are ordered by length. -/
def stringOp (op : BinaryOp) (a b : String) : Except Fault Value :=
  match op with
  | .add => .ok (.string (a ++ b))
  | .less => .ok (ofProp (a.length < b.length))
  | .lessEqual => .ok (ofProp (a.length ≤ b.length))
  | .greater => .ok (ofProp (b.length < a.length))
  | .greaterEqual => .ok (ofProp (b.length ≤ a.length))
  | .equal => .ok (ofProp (a = b))
  | .notEqual => .ok (ofProp (a ≠ b))
  | .subtract | .multiply | .divide | .and | .or | .member =>
    .error (.binaryOperands op.text .string .string)

/-- The result of an operator between operands that are not two integers or two strings. -/
def mixedOp (op : BinaryOp) (left right : Value) : Except Fault Value :=
  match op, left, right with
  | .and, _, _ => .ok (.boolean (left.isTruthy && right.isTruthy))
  | .or, _, _ => .ok (.boolean (left.isTruthy || right.isTruthy))
  | .member, .integer n, .integers ns => .ok (.boolean (ns.contains n))
  | .member, .string s, .strings ss => .ok (.boolean (ss.contains s))
  | .equal, .boolean a, .boolean b => .ok (ofProp (a = b))
  | .notEqual, .boolean a, .boolean b => .ok (ofProp (a ≠ b))
  | _, _, _ => .error (.binaryOperands op.text left.kind right.kind)

def binaryOp (sign : String) (left right : Value) : Except Fault Value :=
  match BinaryOp.ofText? sign with
  | none => .error (.binaryOperands sign left.kind right.kind)
  | some op =>
    match left, right with
    | .integer a, .integer b => integerOp op a b
    | .string a, .string b => stringOp op a b
    | _, _ => mixedOp op left right

/-- The result of an operator, known or not, before a value. Only booleans have a negation that can
be true. -/
def unaryOp (sign : String) (operand : Value) : Except Fault Value :=
  match UnaryOp.ofText? sign with
  | none => .error (.unaryOperand sign operand.kind)
  | some .not =>
    match operand with
    | .boolean b => .ok (.boolean !b)
    | _ => .ok (.boolean false)

def length (arguments : List Value) : Except Fault Value :=
  match arguments with
  | [.string s] => .ok (.integer s.length)
  | [.integers ns] => .ok (.integer ns.length)
  | [.strings ss] => .ok (.integer ss.length)
  | [v] => .error (.lengthOperand v.kind)
  | _ => .error (.lengthArity arguments.length)

end Value

def Reply.run : Reply → Run Value
  | .nothing => pure .null
  | .value v => Run.ofValue v
  | .foreign kind => Run.halt (.foreign kind)
  | .refused messages => Run.halt (.refused messages)
  | .exhausted => Run.fail .nestedTooDeeply
  | .raised e => Run.halt (.raised e)

def Builtin.apply (host : Host) (f : Builtin) (arguments : List Value) : Run Value :=
  Run.withPast fun past => do
    Run.record ⟨f, arguments⟩
    match f.routine with
    | .length => Run.ofExcept (Value.length arguments)
    | .host number => (host past number arguments).run

/-- The value of a name: its binding, or else the function registered under it. -/
def lookUp (r : Registry) (env : Environment) (name : String) : Run Value :=
  match env.get? name with
  | some v => Run.ofValue v
  | none =>
    match r.get? name with
    | some f => pure (.function f)
    | none => Run.fail (.notFound name)

def callValue (host : Host) (callee : Value) (arguments : List Value) : Run Value :=
  match callee with
  | .function f => f.apply host arguments
  | v => Run.fail (.notFunction v.kind)

mutual

/-- Evaluates a tree with `room` levels of nesting left. -/
def evaluateIn (host : Host) (r : Registry) (env : Environment) (room : Nat) (e : Expr) :
    Run Value :=
  match room with
  | 0 => Run.fail .nestedTooDeeply
  | room + 1 =>
    match e with
    | .integer value => pure (.integer value)
    | .string value => pure (.string value)
    | .boolean value => pure (.boolean value)
    | .integers values => pure (.integers values)
    | .strings values => pure (.strings values)
    | .identifier name => lookUp r env name
    | .program body => evaluateIn host r env room body
    | .unary op operand => do
      let v ← evaluateIn host r env room operand
      Run.ofExcept (v.unaryOp op)
    | .binary left op right => do
      let v ← evaluateIn host r env room left
      let w ← evaluateIn host r env room right
      Run.ofExcept (v.binaryOp op w)
    | .call function arguments => do
      let callee ← evaluateIn host r env room function
      let values ← evaluateAllIn host r env room arguments
      callValue host callee values
    | .absent => Run.fail .empty
    | .foreign kind _ => Run.fail (.unsupported kind)

def evaluateAllIn (host : Host) (r : Registry) (env : Environment) (room : Nat)
    (es : List Expr) : Run (List Value) :=
  match es with
  | [] => pure []
  | e :: es => do
    let v ← evaluateIn host r env room e
    let vs ← evaluateAllIn host r env room es
    return v :: vs

end

def evaluate [Nesting] (host : Host) (r : Registry) (env : Environment) (e : Expr) : Run Value :=
  evaluateIn host r env Nesting.limit e

end Criterion
