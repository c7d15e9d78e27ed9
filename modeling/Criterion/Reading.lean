import Criterion.Grammar.Machine
import Criterion.Parse.Expression
import Criterion.Typing

namespace Criterion

/-- The ways to read a text: by descent, which goes on after what is wrong, or by the machine of the
grammar, which stops there. -/
inductive FrontEnd
  | descent
  | grammar
  deriving DecidableEq, Repr

inductive Diagnostic
  | problem (p : Parse.Problem)
  | refusal (r : Grammar.Refusal)
  | typing (fault : TypeFault)
  | notLiteral (text : String)
  deriving DecidableEq, Repr

def Diagnostic.message : Diagnostic → String
  | .problem p => p.message
  | .refusal r => r.message
  | .typing fault => fault.message
  | .notLiteral text => "expected a literal value, got " ++ Text.quoted text

/-- What a text was read as: the body of its program, absent where nothing usable was left, and all
that is wrong with it. -/
structure Reading where
  body : Option Expr
  diagnostics : List Diagnostic
  deriving DecidableEq, Repr

namespace Reading

def program (reading : Reading) : Expr := Expr.ofBody reading.body

def messages (reading : Reading) : List String := reading.diagnostics.map Diagnostic.message

/-- A body with which nothing is wrong but for its types. One that is nested too deeply to be
checked is not kept. -/
def checked [Nesting] (r : Registry) (body : Option Expr) : Reading :=
  match kindOf r Nesting.limit (Expr.ofBody body) with
  | .ok _ => ⟨body, []⟩
  | .error .nestedTooDeeply => ⟨none, [.typing .nestedTooDeeply]⟩
  | .error fault => ⟨body, [.typing fault]⟩

def ofTokens [Nesting] (r : Registry) (tokens : List Token) : Reading :=
  match Parse.program tokens with
  | (body, []) => checked r body
  | (body, complaints) => ⟨body, complaints.map fun c => .problem c.problem⟩

def ofGrammar [Nesting] (drafter : Grammar.Drafter) (r : Registry) (source : String) : Reading :=
  match Grammar.tree drafter source with
  | .ok body => checked r (some body)
  | .error refusal => ⟨none, [.refusal refusal]⟩

def ofSource [Nesting] (front : FrontEnd) (r : Registry) (source : String) : Reading :=
  match front with
  | .descent => ofTokens r (tokenize source)
  | .grammar => ofGrammar Grammar.Machine.drafter r source

end Reading

end Criterion
