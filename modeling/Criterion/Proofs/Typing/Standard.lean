import Criterion.Proofs.Typing.Inversion
import Criterion.Proofs.Typing.Soundness

namespace Criterion

namespace Registry

theorem builtin_standard (name : String) :
    standard.get? name = if name = "len" then some lengthFunction.builtin else none := by
  rw [get?, get?_standard]
  split <;> rfl

theorem signatures_standard (name : String) :
    standard.signatures name = if name = "len" then lengthFunction.signatures else [] := by
  rw [signatures, get?_standard]
  split <;> rfl

theorem isName_length : IsName "len" :=
  (honest_standard fun _ _ _ => .nothing).named "len" (by decide)

theorem overloads_length : standard.overloads "len" 1 = lengthFunction.signatures := by
  decide

theorem eq_of_overloads {name : String} {arity : Nat} (h : standard.overloads name arity ≠ []) :
    name = "len" ∧ arity = 1 := by
  obtain ⟨s, hs⟩ := List.exists_mem_of_ne_nil _ h
  obtain ⟨mem, count⟩ := mem_overloads.1 hs
  rw [signatures_standard] at mem
  split at mem
  · next hname =>
    have single : ∀ s ∈ lengthFunction.signatures, s.arguments.length = 1 := by decide
    exact ⟨hname, count.symm.trans (single s mem)⟩
  · cases mem

theorem result_of_signatures {name : String} {s : Signature} (h : s ∈ standard.signatures name) :
    s.result = .integer := by
  have integer : ∀ s ∈ lengthFunction.signatures, s.result = .integer := by decide
  rw [signatures_standard] at h
  split at h
  · exact integer s h
  · cases h

end Registry

theorem kindOf_call_standard {function : Expr} {arguments : List Expr} {room : Nat} {kind : Kind}
    (h : kindOf .standard (room + 1) (.call function arguments) = .ok kind) :
    function.text = "len" ∧ function.height ≤ room ∧ ∃ argument k, arguments = [argument] ∧
      kindOf .standard room argument = .ok k ∧
      callKind "len" Registry.lengthFunction.signatures [k] = .ok kind := by
  obtain ⟨shallow, -, fits, kinds, hkinds, hk⟩ := kindOf_call_iff.1 h
  obtain ⟨name, count⟩ := Registry.eq_of_overloads fits
  obtain ⟨argument, rfl⟩ := List.length_eq_one_iff.1 count
  obtain ⟨k, ks, hargument, hks, rfl⟩ := kindsOf_cons_iff.1 hkinds
  rw [kindsOf] at hks
  cases hks
  rw [name, List.length_singleton, Registry.overloads_length] at hk
  exact ⟨name, shallow, argument, k, rfl, hargument, hk⟩

theorem Value.isOk_length (v : Value) :
    (Value.length [v]).isOk = Registry.lengthFunction.signatures.any (·.accepts [v.kind]) := by
  cases v <;> rfl

theorem Value.eq_singleton_of_length {arguments : List Value} {x : Value}
    (h : length arguments = .ok x) : ∃ v, arguments = [v] := by
  unfold length at h
  split at h <;> first | exact ⟨_, rfl⟩ | cases h

end Criterion
