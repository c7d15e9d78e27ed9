import Criterion.Expr

namespace Criterion.Expr

@[elab_as_elim, induction_eliminator]
theorem induct {motive : Expr → Prop}
    (identifier : ∀ name, motive (identifier name))
    (integer : ∀ value, motive (integer value))
    (boolean : ∀ value, motive (boolean value))
    (string : ∀ value, motive (string value))
    (integers : ∀ values, motive (integers values))
    (strings : ∀ values, motive (strings values))
    (unary : ∀ op operand, motive operand → motive (unary op operand))
    (binary : ∀ left op right, motive left → motive right → motive (binary left op right))
    (call : ∀ function arguments, motive function → (∀ e ∈ arguments, motive e) →
      motive (call function arguments))
    (program : ∀ body, motive body → motive (program body))
    (absent : motive absent)
    (foreign : ∀ kind identity, motive (foreign kind identity)) (e : Expr) : motive e := by
  have nil : ∀ e ∈ ([] : List Expr), motive e := fun _ he => nomatch he
  have cons (head : Expr) (es : List Expr) (hh : motive head) (hes : ∀ e ∈ es, motive e) :
      ∀ e ∈ head :: es, motive e := List.forall_mem_cons.2 ⟨hh, hes⟩
  exact @Expr.rec motive (fun es => ∀ e ∈ es, motive e) identifier integer boolean string integers
    strings unary binary call program absent foreign nil cons e

theorem height_pos (e : Expr) : 0 < e.height := by
  cases e <;> simp [height]

theorem exists_room {e : Expr} {room : Nat} (h : e.height ≤ room) : ∃ rest, room = rest + 1 :=
  Nat.exists_eq_add_one.2 (Nat.lt_of_lt_of_le e.height_pos h)

theorem height_le_heights {e : Expr} {es : List Expr} (h : e ∈ es) : e.height ≤ heights es := by
  induction es with
  | nil => cases h
  | cons head es ih =>
    rw [heights]
    cases h with
    | head => exact Nat.le_max_left ..
    | tail _ h => exact Nat.le_trans (ih h) (Nat.le_max_right ..)

theorem exists_of_lt_heights {es : List Expr} {n : Nat} (h : n < heights es) :
    ∃ e ∈ es, n < e.height := by
  induction es with
  | nil => cases h
  | cons head es ih =>
    rw [heights] at h
    have either : n < head.height ∨ n < heights es := by omega
    rcases either with h | h
    · exact ⟨head, List.mem_cons_self .., h⟩
    · obtain ⟨e, mem, h⟩ := ih h
      exact ⟨e, List.mem_cons_of_mem _ mem, h⟩

end Criterion.Expr
