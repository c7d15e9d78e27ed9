import Criterion.Condition

/-!
Workspaces: the registries, the environment and the condition that a host is working with. A
condition remembers which registry it was read with, and sees what is registered there later.
-/

namespace Criterion

/-- What a host is working with. Registries are known by their places, the shared one being the
first. -/
structure Workspace where
  registries : List Registry
  current : Nat
  environment : Environment
  compiled : Option (Condition × Nat)

namespace Workspace

def start : Workspace := ⟨[.standard], 0, .empty, none⟩

def registryAt (w : Workspace) (place : Nat) : Registry := w.registries.getD place .empty

def sharedRegistry (w : Workspace) : Registry := w.registryAt 0

def registry (w : Workspace) : Registry := w.registryAt w.current

def setRegistry (w : Workspace) (r : Registry) : Workspace :=
  { w with registries := w.registries.set w.current r }

def useNew (w : Workspace) (r : Registry) : Workspace :=
  { w with registries := w.registries ++ [r], current := w.registries.length }

def useShared (w : Workspace) : Workspace := { w with current := 0 }

def register (w : Workspace) (f : Builtin) (signatures : List Signature) :
    Except Failure Workspace := do
  return w.setRegistry (← (w.registry.register f signatures).mapError .registration)

def freeze (w : Workspace) : Workspace := w.setRegistry w.registry.freeze

def assign (w : Workspace) (isConstant : Bool) (name : String) (v : Value) :
    Except Failure Workspace := do
  return { w with environment := ← w.environment.assign isConstant name v }

def load (w : Workspace) (values constants : List (String × Plain)) : Except Failure Workspace := do
  return { w with environment := ← Environment.ofPlain values constants }

def compile [Nesting] (w : Workspace) (front : FrontEnd) (source : String) :
    Except Failure Workspace := do
  return { w with compiled := some (← Condition.compile front w.registry source, w.current) }

/-- Evaluates the condition, if there is one, with the names of the environment or with other
data. -/
def evaluate [Nesting] (w : Workspace) (host : Host) (values : Option (List (String × Plain))) :
    Option (Except Failure (Run Value)) :=
  w.compiled.map fun (c, place) => do
    let env ← match values with
      | some values => Environment.ofPlain values []
      | none => .ok w.environment
    return c.evaluate host (w.registryAt place) env

end Workspace

end Criterion
