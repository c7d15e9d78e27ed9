import Criterion.Condition
import Criterion.Proofs.Tree
import Criterion.Proofs.Typing.Precision
import Criterion.Proofs.Typing.Standard

namespace Criterion

namespace Expr

mutual

def subst (e : Expr) (x : String) (v : Expr) : Expr :=
  match e with
  | identifier name => if name = x then v else identifier name
  | unary op operand => unary op (operand.subst x v)
  | binary left op right => binary (left.subst x v) op (right.subst x v)
  | call function arguments => call (function.subst x v) (substAll arguments x v)
  | program body => program (body.subst x v)
  | integer value => integer value
  | boolean value => boolean value
  | string value => string value
  | integers values => integers values
  | strings values => strings values
  | absent => absent
  | foreign kind identity => foreign kind identity

def substAll (es : List Expr) (x : String) (v : Expr) : List Expr :=
  match es with
  | [] => []
  | e :: es => e.subst x v :: substAll es x v

end

variable {x : String} {v : Expr} {value : Value}

theorem length_substAll (es : List Expr) : (substAll es x v).length = es.length := by
  induction es with
  | nil => rfl
  | cons e es ih => rw [substAll, List.length_cons, List.length_cons, ih]

theorem legible_of_substAll {es : List Expr}
    (ih : ∀ e ∈ es, (e.subst x v).Legible → e.Legible)
    (h : ∀ e ∈ substAll es x v, e.Legible) : ∀ e ∈ es, e.Legible := by
  induction es with
  | nil => exact List.forall_mem_nil _
  | cons e es ih' =>
    obtain ⟨he, hes⟩ := List.forall_mem_cons.1 ih
    rw [substAll, List.forall_mem_cons] at h
    exact List.forall_mem_cons.2 ⟨he h.1, ih' hes h.2⟩

section Literal

variable (hv : v.literal? = some value)
include hv

theorem height_of_literal : v.height = 1 := by
  cases v with
  | integer | boolean | string | integers | strings => rfl
  | _ => cases hv

theorem not_isName_of_literal : ¬ IsName v.text := by
  intro h
  rcases eq_of_isName h with ⟨name, rfl⟩ | ⟨body, rfl⟩ <;> cases hv

theorem kindOf_of_literal (r : Registry) (room : Nat) :
    kindOf r (room + 1) v = .ok value.kind ∧ value.kind ≠ .error := by
  cases v with
  | integer | boolean | string | integers | strings =>
    cases hv
    rw [kindOf]
    exact ⟨rfl, by simp [Value.kind]⟩
  | _ => cases hv

theorem evaluateIn_of_literal {host : Host} {r : Registry} {env : Environment} {room : Nat} :
    evaluateIn host r env (room + 1) v = Run.ofValue value := by
  cases v with
  | integer | boolean | string | integers | strings =>
    cases hv
    rw [evaluateIn]
    rfl
  | _ => cases hv

theorem height_subst (e : Expr) : (e.subst x v).height = e.height := by
  induction e with
  | identifier name =>
    rw [subst]
    split
    · exact height_of_literal hv
    · rfl
  | unary op operand ih => rw [subst, height, height, ih]
  | binary left op right ihl ihr => rw [subst, height, height, ihl, ihr]
  | call function arguments ihf iha =>
    have same : heights (substAll arguments x v) = heights arguments := by
      clear ihf
      induction arguments with
      | nil => rfl
      | cons e es ih =>
        obtain ⟨he, hes⟩ := List.forall_mem_cons.1 iha
        rw [substAll, heights, heights, he, ih hes]
    rw [subst, height, height, ihf, same]
  | program body ih => rw [subst, height, height, ih]
  | _ => rw [subst]

/-- A tree that reads as a name once literals are put into it reads so before. -/
theorem text_subst {e : Expr} (h : IsName (e.subst x v).text) : (e.subst x v).text = e.text := by
  induction e with
  | identifier name =>
    rw [subst] at h ⊢
    split at h
    · exact absurd h (not_isName_of_literal hv)
    · next other => rw [if_neg other]
  | program body ih =>
    rw [subst, text] at h ⊢
    rw [text]
    exact ih h
  | unary op operand | binary left op right | call function arguments =>
    rw [subst] at h
    rcases eq_of_isName h with ⟨_, he⟩ | ⟨_, he⟩ <;> cases he
  | _ => rw [subst]

theorem subst_ne_absent {e : Expr} (h : e ≠ absent) : e.subst x v ≠ absent := by
  cases e with
  | identifier name =>
    rw [subst]
    split
    · rintro rfl
      cases hv
    · exact nofun
  | absent => exact absurd rfl h
  | _ =>
    rw [subst]
    exact nofun

theorem legible_of_subst {e : Expr} (h : (e.subst x v).Legible) : e.Legible := by
  induction e with
  | identifier name => exact legible_identifier
  | unary op operand ih =>
    rw [subst, legible_unary] at h
    exact legible_unary.2 (ih h)
  | binary left op right ihl ihr =>
    rw [subst, legible_binary] at h
    exact legible_binary.2 ⟨ihl h.1, ihr h.2⟩
  | call function arguments ihf iha =>
    rw [subst, legible_call] at h
    exact legible_call.2 ⟨ihf h.1, legible_of_substAll iha h.2⟩
  | program body ih =>
    by_cases none : body = absent
    · rw [none]
      rfl
    · rw [subst, legible_program (subst_ne_absent hv none)] at h
      exact (legible_program none).2 (ih h)
  | _ =>
    rw [subst] at h
    exact h

end Literal

end Expr

/-- A registry in which a name that has signatures is one that a condition can write. -/
def Registry.Named (r : Registry) : Prop := ∀ name, r.signatures name ≠ [] → IsName name

/-- A registry in which the signatures of a name with as many arguments have one result. -/
def Registry.Uniform (r : Registry) : Prop :=
  ∀ name arity, ∀ s ∈ r.overloads name arity, ∀ t ∈ r.overloads name arity, s.result = t.result

section

variable {host : Host} {r : Registry} {env next : Environment} {x : String} {v : Expr}
  {value : Value} {room : Nat}

theorem kindsOf_subst {es : List Expr} {kinds' : List Kind}
    (h : ∀ e ∈ es, ∀ {room kind'}, kindOf r room (e.subst x v) = .ok kind' →
      ∃ kind, kindOf r room e = .ok kind ∧ kind'.Refines kind)
    (hk : kindsOf r room (Expr.substAll es x v) = .ok kinds') :
    ∃ kinds, kindsOf r room es = .ok kinds ∧ List.Forall₂ Kind.Refines kinds' kinds := by
  induction es generalizing kinds' with
  | nil =>
    rw [Expr.substAll, kindsOf] at hk
    cases hk
    exact ⟨[], by rw [kindsOf], .nil⟩
  | cons e es ih =>
    obtain ⟨he, hes⟩ := List.forall_mem_cons.1 h
    rw [Expr.substAll] at hk
    obtain ⟨k', ks', hk', hks', rfl⟩ := kindsOf_cons_iff.1 hk
    obtain ⟨k, hk, refines⟩ := he hk'
    obtain ⟨ks, hks, refines'⟩ := ih hes hks'
    exact ⟨k :: ks, kindsOf_cons_iff.2 ⟨k, ks, hk, hks, rfl⟩, .cons refines refines'⟩

/-- What is checked without fault with a literal is checked so with a name. -/
theorem kindOf_subst (named : r.Named) (uniform : r.Uniform) (hv : v.literal? = some value)
    {e : Expr} {kind' : Kind} (h : kindOf r room (e.subst x v) = .ok kind') :
    ∃ kind, kindOf r room e = .ok kind ∧ kind'.Refines kind := by
  induction e generalizing room kind' with
  | identifier name =>
    obtain ⟨room, rfl⟩ := room_of_kindOf h
    refine ⟨.unknown, by rw [kindOf], ?_⟩
    rw [Expr.subst] at h
    split at h
    · obtain ⟨hk, ne⟩ := Expr.kindOf_of_literal hv r room
      rw [hk] at h
      cases h
      exact .inr ⟨rfl, ne⟩
    · rw [kindOf] at h
      cases h
      exact .refl _
  | unary sign operand ih =>
    obtain ⟨room, rfl⟩ := room_of_kindOf h
    rw [Expr.subst] at h
    obtain ⟨op, k', hop, hk', h⟩ := kindOf_unary_iff.1 h
    obtain ⟨k, hk, refines⟩ := ih hk'
    obtain ⟨kind, h, result⟩ := UnaryOp.kindFor_mono refines h
    exact ⟨kind, kindOf_unary_iff.2 ⟨op, k, hop, hk, h⟩, result⟩
  | binary left sign right ihl ihr =>
    obtain ⟨room, rfl⟩ := room_of_kindOf h
    rw [Expr.subst] at h
    obtain ⟨op, k', l', hop, hk', hl', h⟩ := kindOf_binary_iff.1 h
    obtain ⟨k, hk, refines⟩ := ihl hk'
    obtain ⟨l, hl, refines'⟩ := ihr hl'
    obtain ⟨kind, h, result⟩ := BinaryOp.kindFor_mono refines refines' h
    exact ⟨kind, kindOf_binary_iff.2 ⟨op, k, l, hop, hk, hl, h⟩, result⟩
  | call function arguments ihf iha =>
    obtain ⟨room, rfl⟩ := room_of_kindOf h
    rw [Expr.subst] at h
    obtain ⟨shallow, legible, fits, kinds', hkinds', h⟩ := kindOf_call_iff.1 h
    have isName : IsName (function.subst x v).text := named _ (Registry.signatures_ne_nil fits)
    -- A name stands for the function of the call before and after, and it is the same one.
    rw [Expr.height_subst hv] at shallow
    rw [Expr.text_subst hv isName, Expr.length_substAll] at fits h
    obtain ⟨kinds, hkinds, refines⟩ := kindsOf_subst iha hkinds'
    -- Another of the signatures may accept the wider kinds first, with the same result.
    have h := callKind_mono (uniform _ _) refines h
    have legible := Expr.legible_of_subst hv legible
    exact ⟨kind', kindOf_call_iff.2 ⟨shallow, legible, fits, kinds, hkinds, h⟩, .refl _⟩
  | program body ih =>
    obtain ⟨room, rfl⟩ := room_of_kindOf h
    rw [Expr.subst, kindOf] at h
    rw [kindOf]
    exact ih h
  | _ =>
    rw [Expr.subst] at h
    exact ⟨kind', h, .refl _⟩

theorem evaluateAllIn_subst
    (h : ∀ e, evaluateIn host r next room e = evaluateIn host r env room (e.subst x v))
    (es : List Expr) :
    evaluateAllIn host r next room es =
      evaluateAllIn host r env room (Expr.substAll es x v) := by
  induction es with
  | nil => rw [Expr.substAll, evaluateAllIn, evaluateAllIn]
  | cons e es ih => rw [Expr.substAll, evaluateAllIn, evaluateAllIn, h e, ih]

/-- A name that is bound to the value of a literal evaluates as the literal does in its place. -/
theorem evaluateIn_subst (hv : v.literal? = some value) {isConstant : Bool}
    (bound : env.bind? x value isConstant = some next) (e : Expr) :
    evaluateIn host r next room e = evaluateIn host r env room (e.subst x v) := by
  induction room generalizing e with
  | zero => rw [evaluateIn, evaluateIn]
  | succ room ih =>
    cases e with
    | identifier name =>
      rw [Expr.subst, evaluateIn, lookUp, Environment.get?_of_bind? bound]
      by_cases hn : name = x
      · rw [if_pos hn, if_pos hn, Expr.evaluateIn_of_literal hv]
      · rw [if_neg hn, if_neg hn, evaluateIn, lookUp]
    | unary op operand => rw [Expr.subst, evaluateIn, evaluateIn, ih operand]
    | binary left op right => rw [Expr.subst, evaluateIn, evaluateIn, ih left, ih right]
    | call function arguments =>
      rw [Expr.subst, evaluateIn, evaluateIn, ih function, evaluateAllIn_subst ih arguments]
    | program body => rw [Expr.subst, evaluateIn, evaluateIn, ih body]
    | _ => rw [Expr.subst, evaluateIn, evaluateIn]

variable [Nesting]

/-- A name and a literal: what is checked without fault with the literal is checked without fault
with the name, with the same kind or an unknown one; and where the name can be bound to the value of
the literal, both evaluate to the same, with the same calls. -/
theorem evaluate_subst (named : r.Named) (uniform : r.Uniform) (hv : v.literal? = some value)
    (x : String) (e : Expr) :
    (∀ kind', check r (e.subst x v) = .ok (kind', []) →
      ∃ kind, check r e = .ok (kind, []) ∧ (kind = kind' ∨ kind = .unknown)) ∧
    ∀ (host : Host) (env : Environment) (isConstant : Bool), env.isConstant x = false →
      ∃ next, env.bind? x value isConstant = some next ∧
        evaluate host r next e = evaluate host r env (e.subst x v) := by
  constructor
  · intro kind' h
    obtain ⟨kind, hk, refines⟩ := kindOf_subst named uniform hv (kindOf_of_check h)
    refine ⟨kind, ?_, refines.eq_or⟩
    rw [check, checkAfter, if_pos List.isEmpty_nil, hk]
  · intro host env isConstant writable
    have bound : env.bind? x value isConstant =
        some ⟨env.bindings.insert x ⟨value, isConstant⟩⟩ := by
      rw [Environment.bind?, writable]
      rfl
    exact ⟨_, bound, evaluateIn_subst hv bound e⟩

end

theorem Registry.uniform_standard : standard.Uniform := by
  intro name arity s hs t ht
  rw [result_of_signatures (mem_overloads.1 hs).1, result_of_signatures (mem_overloads.1 ht).1]

open Nesting

theorem evaluate_subst_length :
    (∃ kind, check .standard (.binary (.call (.identifier "len") [.identifier "x"]) "<"
          (.call (.identifier "len") [.binary (.identifier "x") "+" (.identifier "x")])) =
        .ok (kind, []) ∧ (kind = .boolean ∨ kind = .unknown)) ∧
    ∃ next, Environment.empty.bind? "x" (.string "a") false = some next ∧
      evaluate (fun _ _ _ => .nothing) .standard next
          (.binary (.call (.identifier "len") [.identifier "x"]) "<"
            (.call (.identifier "len") [.binary (.identifier "x") "+" (.identifier "x")])) =
        evaluate (fun _ _ _ => .nothing) .standard .empty
          (.binary (.call (.identifier "len") [.string "a"]) "<"
            (.call (.identifier "len") [.binary (.string "a") "+" (.string "a")])) := by
  have named : Registry.standard.Named := (Registry.honest_standard fun _ _ _ => .nothing).named
  obtain ⟨accepted, same⟩ := evaluate_subst named Registry.uniform_standard (v := .string "a") rfl
    "x" (.binary (.call (.identifier "len") [.identifier "x"]) "<"
      (.call (.identifier "len") [.binary (.identifier "x") "+" (.identifier "x")]))
  exact ⟨accepted .boolean rfl, same (fun _ _ _ => .nothing) .empty false rfl⟩

end Criterion
