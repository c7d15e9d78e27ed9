import Criterion.Table
import Criterion.Value

namespace Criterion

/-- The value of a name, and whether it is there to stay. -/
structure Binding where
  value : Value
  isConstant : Bool
  deriving DecidableEq, Repr

def constantMessage (name : String) : String :=
  "Attempting to modify '" ++ name ++ "' denied; it was defined as a constant"

structure Environment where
  bindings : Table Binding
  deriving Inhabited

namespace Environment

def empty : Environment := ⟨.empty⟩

def get? (env : Environment) (name : String) : Option Value :=
  (env.bindings.get? name).map (·.value)

def isConstant (env : Environment) (name : String) : Bool :=
  (env.bindings.get? name).any (·.isConstant)

def names (env : Environment) : List String := env.bindings.names

/-- Binds a name, as a constant or not. There is no result for a name that is a constant already. -/
def bind? (env : Environment) (name : String) (value : Value) (isConstant : Bool) :
    Option Environment :=
  if env.isConstant name then none else some ⟨env.bindings.insert name ⟨value, isConstant⟩⟩

@[simp] theorem get?_empty (name : String) : empty.get? name = none := rfl

theorem bind?_eq_none_iff {env : Environment} {name : String} {v : Value} {isConstant : Bool} :
    env.bind? name v isConstant = none ↔ env.isConstant name := by
  simp [bind?]

theorem get?_of_bind? {env next : Environment} {name : String} {v : Value} {isConstant : Bool}
    (h : env.bind? name v isConstant = some next) (other : String) :
    next.get? other = if other = name then some v else env.get? other := by
  obtain ⟨_, rfl⟩ : ¬ env.isConstant name ∧ ⟨env.bindings.insert name ⟨v, isConstant⟩⟩ = next := by
    simpa [bind?] using h
  simp only [get?, Table.get?_insert]
  split <;> rfl

def entryText (separator : String) (entry : String × Binding) : String :=
  entry.1 ++ separator ++ entry.2.value.text ++ if entry.2.isConstant then " (const)" else ""

def text (env : Environment) : String :=
  "Environment\x7b" ++ ", ".intercalate (env.bindings.entries.map (entryText ": ")) ++ "\x7d"

end Environment

end Criterion
