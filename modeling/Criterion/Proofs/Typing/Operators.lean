import Criterion.Evaluation
import Criterion.Typing

namespace Criterion

/-- A value that a tree of a kind may have: one that is no error, of that kind if it is known. -/
def Value.Has (v : Value) (kind : Kind) : Prop :=
  v.kind ≠ .error ∧ (v.kind = kind ∨ kind = .unknown)

namespace Value

variable {v w x : Value} {k : Kind} {op : BinaryOp}

theorem Has.ne_error (h : v.Has k) : k ≠ .error := by
  rintro rfl
  rcases h.2 with hk | hk
  · exact h.1 hk
  · exact nomatch hk

theorem Has.kind_eq (h : v.Has k) (known : k ≠ .unknown) : v.kind = k :=
  h.2.resolve_right known

theorem kind_of_integerOp {a b : Int} (h : integerOp op a b = .ok x) :
    ⟨.integer, .integer, x.kind⟩ ∈ op.rules := by
  cases op with
  | divide =>
    simp only [integerOp] at h
    split at h
    · cases h
      simp [BinaryOp.rules, kind]
    · exact nomatch h
  | and | or | member => exact nomatch h
  | _ =>
    cases h
    simp [BinaryOp.rules, kind, ofProp]

theorem kind_of_stringOp {a b : String} (h : stringOp op a b = .ok x) :
    ⟨.string, .string, x.kind⟩ ∈ op.rules := by
  cases op with
  | and | or | member | subtract | multiply | divide => exact nomatch h
  | _ =>
    cases h
    simp [BinaryOp.rules, kind, ofProp]

/-- An operator that has a result either takes whatever counts as true, or has a rule for the kinds
of its operands and its result. -/
theorem kind_of_binaryOp (h : v.binaryOp op.text w = .ok x) :
    (op = .and ∨ op = .or) ∧ x.kind = .boolean ∨ ⟨v.kind, w.kind, x.kind⟩ ∈ op.rules := by
  simp only [binaryOp, BinaryOp.ofText?_text] at h
  split at h
  · exact .inr (kind_of_integerOp h)
  · exact .inr (kind_of_stringOp h)
  · unfold mixedOp at h
    split at h
    · cases h
      exact .inl ⟨.inl rfl, rfl⟩
    · cases h
      exact .inl ⟨.inr rfl, rfl⟩
    · cases h
      exact .inr (.head _)
    · cases h
      exact .inr (.tail _ (.head _))
    · cases h
      exact .inr (.tail _ (.tail _ (.head _)))
    · cases h
      exact .inr (.tail _ (.tail _ (.head _)))
    · exact nomatch h

theorem kind_of_unaryOp {sign : String} (h : v.unaryOp sign = .ok x) : x.kind = .boolean := by
  unfold unaryOp at h
  split at h
  · exact nomatch h
  · split at h
    · cases h
      rfl
    · cases h
      rfl

end Value

namespace BinaryOp

variable {op : BinaryOp} {rule : OperandRule} {l r kind : Kind}

theorem ruleFor?_of_mem (h : rule ∈ op.rules) : op.ruleFor? rule.left = some rule := by
  have all : ∀ rule ∈ op.rules, op.ruleFor? rule.left = some rule := by
    cases op <;> decide
  exact all rule h

theorem result_ne_error (h : rule ∈ op.rules) : rule.result ≠ .error := by
  have all : ∀ rule ∈ op.rules, rule.result ≠ .error := by
    cases op <;> decide
  exact all rule h

theorem resultOfUnknown_of_mem (h : rule ∈ op.rules) (hl : rule.left = l ∨ l = .unknown)
    (hr : rule.right = r ∨ r = .unknown) :
    rule.result = op.resultOfUnknown l r ∨ op.resultOfUnknown l r = .unknown := by
  have all : ∀ rule ∈ op.rules, ∀ l ∈ [rule.left, .unknown], ∀ r ∈ [rule.right, .unknown],
      rule.result = op.resultOfUnknown l r ∨ op.resultOfUnknown l r = .unknown := by
    cases op <;> decide
  exact all rule h l (by simpa [eq_comm] using hl) r (by simpa [eq_comm] using hr)

theorem kind_of_logical {left right : Expr} (hop : op = .and ∨ op = .or)
    (h : kindFor left op right l r = .ok kind) (hl : l ≠ .error) (hr : r ≠ .error) :
    kind = .boolean := by
  rw [kindFor, if_neg (by simp [hl, hr])] at h
  split at h
  · rcases hop with rfl | rfl <;> exact (Except.ok.inj h).symm
  · split at h
    · exact nomatch h
    · next rule hrule =>
      have mem : rule ∈ op.rules := List.mem_of_find?_eq_some hrule
      have boolean : rule.result = .boolean := by
        rcases hop with rfl | rfl <;> exact (List.mem_singleton.1 mem) ▸ rfl
      split at h
      · exact (Except.ok.inj h).symm.trans boolean
      · exact nomatch h

theorem has_of_kindFor {left right : Expr} {v w x : Value}
    (h : kindFor left op right l r = .ok kind) (hv : v.Has l) (hw : w.Has r)
    (hx : v.binaryOp op.text w = .ok x) : x.Has kind := by
  rcases Value.kind_of_binaryOp hx with ⟨hop, hx⟩ | mem
  · obtain rfl := kind_of_logical hop h hv.ne_error hw.ne_error
    exact ⟨by rw [hx]; exact nofun, .inl hx⟩
  · refine ⟨result_ne_error mem, ?_⟩
    rw [kindFor, if_neg (by simp [hv.ne_error, hw.ne_error])] at h
    split at h
    · cases h
      exact resultOfUnknown_of_mem mem hv.2 hw.2
    · next known =>
      simp only [Bool.or_eq_true, decide_eq_true_eq, not_or] at known
      have hrule := ruleFor?_of_mem mem
      rw [← hv.kind_eq known.1, hrule] at h
      simp only [hw.kind_eq known.2, if_true] at h
      exact .inl (Except.ok.inj h)

end BinaryOp

theorem UnaryOp.has_of_kindFor {op : UnaryOp} {k kind : Kind} {v x : Value}
    (h : op.kindFor k = .ok kind) (hv : v.Has k) (hx : v.unaryOp op.text = .ok x) :
    x.Has kind := by
  have boolean := Value.kind_of_unaryOp hx
  have hk : kind = .boolean := by
    unfold kindFor at h
    split at h
    · exact (Except.ok.inj h).symm
    · exact (Except.ok.inj h).symm
    · exact absurd rfl hv.ne_error
    · exact nomatch h
  exact ⟨by rw [boolean]; exact nofun, .inl (boolean.trans hk.symm)⟩

end Criterion
