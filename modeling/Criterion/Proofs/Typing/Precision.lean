import Mathlib.Data.List.Forall2
import Criterion.Proofs.Typing.Inversion

/-!
Precision: the less is known of the operands of an operator and of the arguments of a call, the less
is rejected, and the less is known of the result.
-/

namespace Criterion

/-- A kind tells as much as another, or more: they are the same, or the other is unknown. What is
known to be an error stays one. -/
def Kind.Refines (k' k : Kind) : Prop := k = k' ∨ k = .unknown ∧ k' ≠ .error

namespace Kind.Refines

variable {k k' : Kind}

theorem refl (k : Kind) : k.Refines k := .inl rfl

theorem eq_or (h : k'.Refines k) : k = k' ∨ k = .unknown := h.imp_right And.left

theorem error_iff (h : k'.Refines k) : k = .error ↔ k' = .error := by
  rcases h with rfl | ⟨rfl, ne⟩
  · exact Iff.rfl
  · exact iff_of_false nofun ne

theorem eq_unknown (h : k'.Refines k) (hk : k' = .unknown) : k = .unknown :=
  h.eq_or.elim (fun same => same.trans hk) id

theorem error_mem_iff {ks ks' : List Kind} (h : List.Forall₂ Refines ks' ks) :
    .error ∈ ks ↔ .error ∈ ks' := by
  induction h with
  | nil => exact Iff.rfl
  | cons hk _ ih => rw [List.mem_cons, List.mem_cons, ih, eq_comm, hk.error_iff, eq_comm]

end Kind.Refines

theorem Value.Has.refines {v : Value} {k : Kind} (h : v.Has k) : v.kind.Refines k := by
  rcases h.2 with hk | hk
  · exact .inl hk.symm
  · exact .inr ⟨hk, h.1⟩

theorem Signature.accepts_mono {s : Signature} {found' found : List Kind}
    (h : List.Forall₂ Kind.Refines found' found) (accepts : s.accepts found') :
    s.accepts found := by
  unfold Signature.accepts at accepts ⊢
  generalize s.arguments = wanted at accepts ⊢
  induction h generalizing wanted with
  | nil => rw [List.zip_nil_right, List.all_nil]
  | cons hk _ ih =>
    cases wanted with
    | nil => rw [List.zip_nil_left, List.all_nil]
    | cons want wanted =>
      rw [List.zip_cons_cons, List.all_cons, Bool.and_eq_true] at accepts ⊢
      refine ⟨?_, ih wanted accepts.2⟩
      rcases hk.eq_or with rfl | rfl
      · exact accepts.1
      · rfl

theorem UnaryOp.kindFor_mono {op : UnaryOp} {k k' kind' : Kind} (hk : k'.Refines k)
    (h : op.kindFor k' = .ok kind') : ∃ kind, op.kindFor k = .ok kind ∧ kind'.Refines kind := by
  rcases hk with rfl | ⟨rfl, ne⟩
  · exact ⟨kind', h, .refl _⟩
  · rw [boolean_of_kindFor h ne]
    exact ⟨.boolean, rfl, .refl _⟩

namespace BinaryOp

variable {op : BinaryOp} {l l' r r' : Kind}

theorem mem_of_soleKind? {kinds : List Kind} {k : Kind} (h : soleKind? kinds = some k) :
    k ∈ kinds := by
  cases kinds with
  | nil => cases h
  | cons kind kinds =>
    rw [soleKind?] at h
    split at h
    · cases h
      exact List.mem_cons_self ..
    · cases h

theorem resultOfUnknown_ne_error : op.resultOfUnknown l r ≠ .error := by
  unfold resultOfUnknown
  split
  · next kind hk =>
    obtain ⟨rule, mem, rfl⟩ := List.mem_map.1 (mem_of_soleKind? hk)
    exact result_ne_error mem
  · split
    · next rule hrule =>
      split at hrule
      · cases hrule
      · exact result_ne_error (List.mem_of_find?_eq_some hrule)
    · split
      · exact nofun
      · cases hk : soleKind? ((op.rules.filter (·.right == r)).map (·.result)) with
        | none => exact nofun
        | some kind =>
          obtain ⟨rule, mem, rfl⟩ := List.mem_map.1 (mem_of_soleKind? hk)
          exact result_ne_error (List.mem_of_mem_filter mem)

theorem resultOfUnknown_unknown :
    op.resultOfUnknown .unknown .unknown = op.resultOfUnknown l r ∨
      op.resultOfUnknown .unknown .unknown = .unknown := by
  unfold resultOfUnknown
  split
  · exact .inl rfl
  · exact .inr rfl

theorem resultOfUnknown_mono (hl : l'.Refines l) (hr : r'.Refines r)
    (h : l' = .unknown ∨ r' = .unknown) :
    (op.resultOfUnknown l' r').Refines (op.resultOfUnknown l r) := by
  have same : op.resultOfUnknown l r = op.resultOfUnknown l' r' ∨
      op.resultOfUnknown l r = .unknown := by
    rcases h with rfl | rfl
    · rw [hl.eq_unknown rfl]
      rcases hr.eq_or with rfl | rfl
      · exact .inl rfl
      · exact resultOfUnknown_unknown
    · rw [hr.eq_unknown rfl]
      rcases hl.eq_or with rfl | rfl
      · exact .inl rfl
      · exact resultOfUnknown_unknown
  exact same.imp_right fun hu => ⟨hu, resultOfUnknown_ne_error⟩

/-- An operator that takes two operands takes any two of which less is known. -/
theorem kindFor_mono {left right left' right' : Expr} {kind' : Kind} (hl : l'.Refines l)
    (hr : r'.Refines r) (h : kindFor left' op right' l' r' = .ok kind') :
    ∃ kind, kindFor left op right l r = .ok kind ∧ kind'.Refines kind := by
  by_cases he : l' = .error ∨ r' = .error
  · rw [kindFor_of_error he] at h
    cases h
    exact ⟨.error, kindFor_of_error (he.imp hl.error_iff.2 hr.error_iff.2), .refl _⟩
  · obtain ⟨hel', her'⟩ := not_or.1 he
    have hel : l ≠ .error := mt hl.error_iff.1 hel'
    have her : r ≠ .error := mt hr.error_iff.1 her'
    by_cases hu' : l' = .unknown ∨ r' = .unknown
    · rw [kindFor_of_unknown hel' her' hu'] at h
      cases h
      have hu := hu'.imp hl.eq_unknown hr.eq_unknown
      exact ⟨_, kindFor_of_unknown hel her hu, resultOfUnknown_mono hl hr hu'⟩
    · obtain ⟨hul', hur'⟩ := not_or.1 hu'
      have mem := (kindFor_iff ⟨hul', hel'⟩ ⟨hur', her'⟩).1 h
      by_cases hu : l = .unknown ∨ r = .unknown
      · refine ⟨_, kindFor_of_unknown hel her hu, ?_⟩
        have result := resultOfUnknown_of_mem mem (hl.eq_or.imp_left Eq.symm)
          (hr.eq_or.imp_left Eq.symm)
        exact result.imp Eq.symm fun hu => ⟨hu, result_ne_error mem⟩
      · obtain ⟨hul, hur⟩ := not_or.1 hu
        rw [← hl.eq_or.resolve_right hul, ← hr.eq_or.resolve_right hur] at mem
        exact ⟨kind', (kindFor_iff ⟨hul, hel⟩ ⟨hur, her⟩).2 mem, .refl _⟩

end BinaryOp

/-- A call whose signatures agree on the result takes any arguments of which less is known. -/
theorem callKind_mono {name : String} {candidates : List Signature} {found found' : List Kind}
    {kind' : Kind} (uniform : ∀ s ∈ candidates, ∀ t ∈ candidates, s.result = t.result)
    (hf : List.Forall₂ Kind.Refines found' found)
    (h : callKind name candidates found' = .ok kind') :
    callKind name candidates found = .ok kind' := by
  rw [callKind_iff, Kind.Refines.error_mem_iff hf]
  rcases callKind_iff.1 h with wrong | ⟨right, s, hs, rfl⟩
  · exact .inl wrong
  · have accepts : s.accepts found := Signature.accepts_mono hf (by simpa using List.find?_some hs)
    have mem := List.mem_of_find?_eq_some hs
    cases ht : candidates.find? (·.accepts found) with
    | none => exact absurd accepts (List.find?_eq_none.1 ht s mem)
    | some t => exact .inr ⟨right, t, rfl, uniform t (List.mem_of_find?_eq_some ht) s mem⟩

end Criterion
