import Mathlib.Data.List.Sort
import Mathlib.Data.String.Basic
import Criterion.Proofs.Except
import Criterion.Proofs.Substitution
import Criterion.Proofs.Typing.Messages

namespace Criterion

theorem Table.mem_names_foldl {texts : List String} {t : Table Unit} {text : String} :
    text ∈ (texts.foldl (·.insert · ()) t).names ↔ text ∈ texts ∨ text ∈ t.names := by
  induction texts generalizing t with
  | nil => simp
  | cons first texts ih =>
    have inserted : text ∈ (t.insert first ()).names ↔ text = first ∨ text ∈ t.names := by
      rw [mem_names, mem_names, get?_insert]
      split
      · next same => simp [same]
      · next other => simp [other]
    rw [List.foldl_cons, ih, inserted, List.mem_cons, or_assoc, or_left_comm]

theorem choiceText_perm {numbers others : List Nat} (h : numbers.Perm others) :
    choiceText numbers = choiceText others := by
  apply congrArg (String.intercalate " or ")
  apply (Table.names_ascending _).sortedLT.eq_of_mem_iff (Table.names_ascending _).sortedLT
  intro text
  rw [Table.mem_names_foldl, Table.mem_names_foldl, (h.map _).mem_iff]

/-- What is told of a fault: its wording, or all of it where it ends the check. -/
def TypeFault.told (fault : TypeFault) : TypeFault ⊕ String :=
  if fault.interrupts then .inl fault else .inr fault.message

theorem told_arity_perm {wanted others : List Nat} (h : wanted.Perm others) (name : String)
    (found : Nat) :
    (TypeFault.arity name wanted found).told = (TypeFault.arity name others found).told :=
  congrArg (fun choice => Sum.inr ("function '" ++ name ++ "' expects " ++ choice ++
    " argument(s), got " ++ Text.decimal found)) (choiceText_perm h)

theorem callKind_perm {name : String} {candidates others : List Signature} {found : List Kind}
    (h : candidates.Perm others)
    (uniform : ∀ s ∈ others, ∀ t ∈ others, s.result = t.result) :
    callKind name candidates found = callKind name others found := by
  rw [callKind, callKind]
  split
  · rfl
  · cases hs : candidates.find? (·.accepts found) with
    | none =>
      have refused : others.find? (·.accepts found) = none := by
        apply List.find?_eq_none.2
        intro t mem
        exact List.find?_eq_none.1 hs t (h.mem_iff.2 mem)
      rw [refused]
    | some s =>
      have mem := h.mem_iff.1 (List.mem_of_find?_eq_some hs)
      have accepts : s.accepts found := by simpa using List.find?_some hs
      cases ht : others.find? (·.accepts found) with
      | none => exact absurd accepts (List.find?_eq_none.1 ht s mem)
      | some t => exact congrArg Except.ok (uniform s mem t (List.mem_of_find?_eq_some ht))

namespace Registry

/-- Two registries have the same signatures for each name, in one order or another. -/
def Reorders (next r : Registry) : Prop :=
  ∀ name, (next.signatures name).Perm (r.signatures name)

variable {r next : Registry}

theorem Reorders.overloads (h : next.Reorders r) (name : String) (arity : Nat) :
    (next.overloads name arity).Perm (r.overloads name arity) :=
  (h name).filter _

theorem reorders_register {f : Builtin} {signatures others : List Signature} {other : Registry}
    (perm : signatures.Perm others) (h : r.register f signatures = .ok next)
    (h' : r.register f others = .ok other) : next.Reorders other := by
  intro name
  rw [signatures_of_register h, signatures_of_register h']
  split
  · exact perm
  · exact .refl _

theorem uniform_register {f : Builtin} {signatures : List Signature} (uniform : r.Uniform)
    (agree : ∀ s ∈ signatures, ∀ t ∈ signatures,
      s.arguments.length = t.arguments.length → s.result = t.result)
    (h : r.register f signatures = .ok next) : next.Uniform := by
  intro name arity s hs t ht
  rw [mem_overloads, signatures_of_register h] at hs ht
  split at hs
  · next same =>
    rw [if_pos same] at ht
    exact agree s hs.1 t ht.1 (hs.2.trans ht.2.symm)
  · next other =>
    rw [if_neg other] at ht
    exact uniform name arity s (mem_overloads.2 hs) t (mem_overloads.2 ht)

end Registry

section

variable {r next : Registry}

theorem kindsOf_reorders {room : Nat} {es : List Expr}
    (ih : ∀ e, (kindOf next room e).mapError TypeFault.told =
      (kindOf r room e).mapError TypeFault.told) :
    (kindsOf next room es).mapError TypeFault.told =
      (kindsOf r room es).mapError TypeFault.told := by
  induction es with
  | nil => rw [kindsOf, kindsOf]
  | cons e es ih' =>
    rw [kindsOf, kindsOf, mapError_bind, mapError_bind, ih]
    simp only [mapError_bind, ih']

/-- A tree has the same kind with the signatures in another order, or is rejected with the same
message. -/
theorem kindOf_reorders (uniform : r.Uniform) (h : next.Reorders r) (room : Nat) (e : Expr) :
    (kindOf next room e).mapError TypeFault.told =
      (kindOf r room e).mapError TypeFault.told := by
  induction room generalizing e with
  | zero => rw [kindOf, kindOf]
  | succ room ih =>
    cases e with
    | unary sign operand =>
      rw [kindOf, kindOf]
      cases UnaryOp.ofText? sign with
      | none => rfl
      | some op =>
        dsimp only
        rw [mapError_bind, mapError_bind, ih]
    | binary left sign right =>
      rw [kindOf, kindOf]
      cases BinaryOp.ofText? sign with
      | none => rfl
      | some op => simp only [mapError_bind, ih]
    | call function arguments =>
      rw [kindOf, kindOf]
      split
      · rfl
      · cases function.render with
        | error kind => rfl
        | ok name =>
          have signatures := h name
          have candidates := h.overloads name arguments.length
          have kind (found : List Kind) := @callKind_perm name _ _ found candidates
            (uniform name arguments.length)
          unfold Registry.overloads at candidates kind
          dsimp only
          rw [signatures.isEmpty_eq, candidates.isEmpty_eq]
          split
          · rfl
          · split
            -- the faults list the numbers of arguments in two orders, but are worded alike
            · exact congrArg Except.error (told_arity_perm (signatures.map _) ..)
            · simp only [mapError_bind, kindsOf_reorders ih, kind]
    | program body =>
      rw [kindOf, kindOf]
      exact ih body
    | _ => rw [kindOf, kindOf]

theorem conclude_error (messages : List String) (fault : TypeFault) :
    conclude messages (.error fault) =
      fault.told.elim .error fun message => .ok (.error, messages ++ [message]) := by
  rw [conclude, TypeFault.told]
  split
  · rfl
  · rfl

theorem conclude_congr {x y : Except TypeFault Kind} (messages : List String)
    (h : x.mapError TypeFault.told = y.mapError TypeFault.told) :
    conclude messages x = conclude messages y := by
  cases x with
  | ok kind =>
    cases y with
    | ok kind' => rw [Except.ok.inj h]
    | error fault => cases h
  | error fault =>
    cases y with
    | ok kind => cases h
    | error fault' => rw [conclude_error, conclude_error, Except.error.inj h]

variable [Nesting]

/-- Where the signatures of a name with as many arguments have one result, every tree has the same
kind and the same messages in whatever order they were declared. -/
theorem check_reorders (uniform : r.Uniform) (h : next.Reorders r) (e : Expr) :
    check next e = check r e := by
  rw [check_eq_conclude, check_eq_conclude]
  apply conclude_congr
  exact kindOf_reorders uniform h Nesting.limit e

end

open Nesting

theorem check_reorders_nested : ∃ next r,
    Registry.standard.register ⟨"f", .host 0⟩ [⟨[.string], [.integer]⟩,
      ⟨[.integer, .integer], [.boolean]⟩, ⟨[.integer], [.integer]⟩] = .ok next ∧
    Registry.standard.register ⟨"f", .host 0⟩ [⟨[.integer, .integer], [.boolean]⟩,
      ⟨[.integer], [.integer]⟩, ⟨[.string], [.integer]⟩] = .ok r ∧
    r.Uniform ∧ next.Reorders r ∧
    check next (.call (.identifier "f") [.call (.identifier "f") [.identifier "x"], .integer 1]) =
      .ok (.boolean, []) ∧
    check next (.call (.identifier "f") []) =
      .ok (.error, ["function 'f' expects 1 or 2 argument(s), got 0"]) := by
  have hn : Registry.standard.register ⟨"f", .host 0⟩ [⟨[.string], [.integer]⟩,
    ⟨[.integer, .integer], [.boolean]⟩, ⟨[.integer], [.integer]⟩] = .ok _ := rfl
  have hr : Registry.standard.register ⟨"f", .host 0⟩ [⟨[.integer, .integer], [.boolean]⟩,
    ⟨[.integer], [.integer]⟩, ⟨[.string], [.integer]⟩] = .ok _ := rfl
  have uniform := Registry.uniform_register Registry.uniform_standard (by decide) hr
  have reorders := Registry.reorders_register (by decide) hn hr
  refine ⟨_, _, hn, hr, uniform, reorders, ?_, ?_⟩
  · exact (check_reorders uniform reorders _).trans (by rfl)
  · exact (check_reorders uniform reorders _).trans (by rfl)

end Criterion
