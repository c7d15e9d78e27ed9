import Criterion.Expr.Text
import Criterion.Proofs.Except
import Criterion.Proofs.Tree

namespace Criterion.Expr

theorem render_program {body : Expr} (h : body ≠ absent) : (program body).render = body.render := by
  rw [render]
  exact h

theorem texts_of_renderAll {es : List Expr} {texts : List String}
    (h : ∀ e ∈ es, ∀ text, e.render = .ok text → text = e.text)
    (hr : renderAll es = .ok texts) : texts = Expr.texts es := by
  induction es generalizing texts with
  | nil =>
    rw [renderAll] at hr
    cases hr
    rw [Expr.texts]
  | cons e es ih =>
    rw [renderAll] at hr
    obtain ⟨head, hhead, hr⟩ := bind_eq_ok.1 hr
    obtain ⟨tail, htail, hr⟩ := bind_eq_ok.1 hr
    cases hr
    rw [Expr.texts, h e (List.mem_cons_self ..) head hhead,
      ih (fun e he => h e (List.mem_cons_of_mem _ he)) htail]

theorem text_of_render {e : Expr} {text : String} (h : e.render = .ok text) : text = e.text := by
  induction e generalizing text with
  | unary op operand ih =>
    rw [render] at h
    obtain ⟨inner, hi, h⟩ := bind_eq_ok.1 h
    cases h
    rw [Expr.text, ih hi]
  | binary left op right ihl ihr =>
    rw [render] at h
    obtain ⟨l, hl, h⟩ := bind_eq_ok.1 h
    obtain ⟨r, hr, h⟩ := bind_eq_ok.1 h
    cases h
    rw [Expr.text, ihl hl, ihr hr]
  | call function arguments ihf iha =>
    rw [render] at h
    obtain ⟨args, ha, h⟩ := bind_eq_ok.1 h
    obtain ⟨name, hf, h⟩ := bind_eq_ok.1 h
    cases h
    rw [Expr.text, ihf hf, texts_of_renderAll (fun e he _ => iha e he) ha]
  | program body ih =>
    by_cases none : body = absent
    · subst none
      rw [render] at h
      cases h
      rw [Expr.text, Expr.text]
    · rw [render_program none] at h
      rw [Expr.text, ih h]
  | absent =>
    rw [render] at h
    cases h
  | foreign kind identity =>
    rw [render] at h
    cases h
  | _ =>
    rw [render] at h
    · cases h
      rfl
    all_goals exact nofun

def Legible (e : Expr) : Prop := e.render = .ok e.text

theorem legible_of_render {e : Expr} {text : String} (h : e.render = .ok text) : e.Legible := by
  rw [Legible, h, text_of_render h]

section

variable {op : String} {e left right function body : Expr} {arguments : List Expr}

theorem legible_unary : (unary op e).Legible ↔ e.Legible := by
  rw [Legible, render, Legible]
  constructor
  · intro h
    obtain ⟨inner, hi, -⟩ := bind_eq_ok.1 h
    exact legible_of_render hi
  · intro h
    rw [h, text]
    rfl

theorem legible_binary : (binary left op right).Legible ↔ left.Legible ∧ right.Legible := by
  rw [Legible, render, Legible, Legible]
  constructor
  · intro h
    obtain ⟨l, hl, h⟩ := bind_eq_ok.1 h
    obtain ⟨r, hr, -⟩ := bind_eq_ok.1 h
    exact ⟨legible_of_render hl, legible_of_render hr⟩
  · rintro ⟨hl, hr⟩
    rw [hl, hr, text]
    rfl

theorem renderAll_iff {es : List Expr} :
    renderAll es = .ok (texts es) ↔ ∀ e ∈ es, e.Legible := by
  induction es with
  | nil => simp [renderAll, texts]
  | cons e es ih =>
    rw [renderAll, List.forall_mem_cons, ← ih, texts]
    constructor
    · intro h
      obtain ⟨head, hhead, h⟩ := bind_eq_ok.1 h
      obtain ⟨tail, htail, h⟩ := bind_eq_ok.1 h
      cases h
      exact ⟨legible_of_render hhead, htail⟩
    · rintro ⟨he, hes⟩
      rw [he, hes]
      rfl

theorem legible_call :
    (call function arguments).Legible ↔ function.Legible ∧ ∀ e ∈ arguments, e.Legible := by
  rw [Legible, render, ← renderAll_iff, Legible]
  constructor
  · intro h
    obtain ⟨args, ha, h⟩ := bind_eq_ok.1 h
    obtain ⟨name, hf, -⟩ := bind_eq_ok.1 h
    have same := texts_of_renderAll (fun _ _ _ => text_of_render) ha
    exact ⟨legible_of_render hf, same ▸ ha⟩
  · rintro ⟨hf, ha⟩
    rw [ha, hf, text]
    rfl

theorem legible_program (h : body ≠ absent) : (program body).Legible ↔ body.Legible := by
  rw [Legible, Legible, render_program h, text]

theorem legible_identifier {name : String} : (identifier name).Legible := rfl

theorem legible_of_isLiteral (h : e.isLiteral) : e.Legible := by
  cases e <;> first | rfl | cases h

end

end Criterion.Expr
