import Criterion.Environment
import Criterion.Evaluation
import Criterion.Plain
import Criterion.Reading

namespace Criterion

/-- Why a request comes to nothing: a text with something wrong, an error where a host needs more
than that, an object that is no value, data without a value, a constant to be changed, a function
that cannot be registered, or an exception that a function of the host raised. -/
inductive Failure
  | rejected (diagnostics : List Diagnostic)
  | error (message : String)
  | foreign (kind : String)
  | data (fault : Plain.Fault)
  | constant (name : String)
  | registration (fault : Registry.Fault)
  | refused (messages : List String)
  | raised (e : Escape)
  deriving DecidableEq, Repr

namespace Failure

def messages : Failure → List String
  | rejected diagnostics => diagnostics.map Diagnostic.message
  | error message => [message]
  | foreign kind => ["Unexpected value type " ++ kind]
  | data fault => [fault.message]
  | constant name => [constantMessage name]
  | registration fault => [fault.message]
  | refused messages => messages
  | raised e => [e.message]

def message (f : Failure) : String := "; ".intercalate f.messages

end Failure

namespace Outcome

/-- What an outcome is for a host. A fault is the error value with its wording. -/
def value (outcome : Outcome Value) : Except Failure Value :=
  match outcome.result with
  | .ok v => .ok v
  | .error (.fault f) => .ok (.error f.message)
  | .error (.foreign kind) => .error (.foreign kind)
  | .error (.refused messages) => .error (.refused messages)
  | .error (.raised e) => .error (.raised e)

/-- Whether an outcome is something true, which no error is. -/
def truth (outcome : Outcome Value) : Except Failure Bool := do
  match ← outcome.value with
  | .error message => .error (.error message)
  | v => return v.isTruthy

end Outcome

namespace Value

/-- A value as data of the host, or the function that it is. Errors are neither. -/
def toPlain : Value → Except Failure (Plain ⊕ Builtin)
  | null => .ok (.inl .null)
  | integer value => .ok (.inl (.integer value))
  | string value => .ok (.inl (.text value))
  | boolean value => .ok (.inl (.boolean value))
  | integers values => .ok (.inl (.list (values.map .integer)))
  | strings values => .ok (.inl (.list (values.map .text)))
  | error message => .error (.error message)
  | function f => .ok (.inr f)

end Value

end Criterion
