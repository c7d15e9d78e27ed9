import Criterion.Kind
import Criterion.Table
import Criterion.Value

namespace Criterion

/-- The kinds of the arguments of a function and of its results. -/
structure Signature where
  arguments : List Kind
  results : List Kind
  deriving DecidableEq, Repr

/-- The kind of the result of a call: the first declared, or none at all. -/
def Signature.result (s : Signature) : Kind := s.results.head?.getD .null

structure Registration where
  builtin : Builtin
  signatures : List Signature
  deriving DecidableEq, Repr

structure Registry where
  functions : Table Registration
  isFrozen : Bool
  deriving Inhabited

inductive Registry.Fault
  | frozen (name : String)
  | taken (name : String)
  deriving DecidableEq, Repr

def Registry.Fault.message : Registry.Fault → String
  | .frozen name => "Cannot register '" ++ name ++ "': builtin registry is frozen"
  | .taken name => "Builtin '" ++ name ++ "' is already registered"

namespace Registry

def empty : Registry := ⟨.empty, false⟩

def get? (r : Registry) (name : String) : Option Builtin := (r.functions.get? name).map (·.builtin)

/-- The signatures of a name; a name without any cannot be called in checked conditions. -/
def signatures (r : Registry) (name : String) : List Signature :=
  ((r.functions.get? name).map (·.signatures)).getD []

def names (r : Registry) : List String := r.functions.names

def contains (r : Registry) (name : String) : Bool := r.functions.contains name

def register (r : Registry) (f : Builtin) (signatures : List Signature) :
    Except Fault Registry :=
  if r.isFrozen then .error (.frozen f.name)
  else if r.contains f.name then .error (.taken f.name)
  else .ok { r with functions := r.functions.insert f.name ⟨f, signatures⟩ }

section

variable {r next : Registry} {f : Builtin} {signatures : List Signature}

theorem eq_of_register (h : r.register f signatures = .ok next) :
    next = { r with functions := r.functions.insert f.name ⟨f, signatures⟩ } := by
  unfold register at h
  split at h
  · contradiction
  · split at h
    · contradiction
    · cases h
      rfl

theorem functions_of_register (h : r.register f signatures = .ok next) :
    next.functions = r.functions.insert f.name ⟨f, signatures⟩ := by
  rw [eq_of_register h]

theorem get?_of_register (h : r.register f signatures = .ok next) (name : String) :
    next.get? name = if name = f.name then some f else r.get? name := by
  rw [get?, functions_of_register h, Table.get?_insert]
  split <;> rfl

theorem signatures_of_register (h : r.register f signatures = .ok next) (name : String) :
    next.signatures name = if name = f.name then signatures else r.signatures name := by
  rw [Registry.signatures, functions_of_register h, Table.get?_insert]
  split <;> rfl

theorem isFrozen_of_register (h : r.register f signatures = .ok next) :
    next.isFrozen = r.isFrozen := by
  rw [eq_of_register h]

end

/-- The warning that a registration without signatures gives rise to. -/
def warning? (f : Builtin) (signatures : List Signature) : Option String :=
  if signatures.isEmpty then
    some ("builtin " ++ f.name ++
      " registered without prototypes; type checked calls to it will fail")
  else none

def freeze (r : Registry) : Registry := { r with isFrozen := true }

def lengthFunction : Registration :=
  ⟨⟨"len", .length⟩,
    [⟨[.string], [.integer]⟩, ⟨[.stringArray], [.integer]⟩, ⟨[.integerArray], [.integer]⟩]⟩

def standard : Registry := ⟨Table.empty.insert lengthFunction.builtin.name lengthFunction, false⟩

end Registry

end Criterion
