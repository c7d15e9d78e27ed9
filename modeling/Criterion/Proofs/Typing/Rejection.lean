import Mathlib.Order.MinMax
import Criterion.Proofs.Tree
import Criterion.Proofs.Typing.Precision
import Criterion.Proofs.Typing.Standard

/-!
What checking rejects has no value: a tree with a fault fails when it is evaluated all the same,
unless the fault is that of an operand of a logical operator.
-/

namespace Criterion

/-- Whether a fault is one that a logical operator reports: that of an operand, which checking wants
to be boolean and evaluation takes for true or false whatever its kind. -/
def TypeFault.isLogical : TypeFault → Bool
  | operand _ _ => true
  | leftOperand _ op _ _ | rightOperand op _ _ => op == .and || op == .or
  | _ => false

namespace Run

variable {α β : Type} {p : α → Prop}

def Fails (run : Run α) : Prop := run.Safe fun _ => False

theorem Fails.of_fault (f : Fault) : (fail f : Run α).Fails := .fail f

theorem Fails.bind {run : Run α} {next : α → Run β} (h : run.Fails) : (run >>= next).Fails :=
  Safe.bind h fun _ => False.elim

theorem Safe.bind_fails {run : Run α} {next : α → Run β} (h : run.Safe p)
    (hn : ∀ a, p a → (next a).Fails) : (run >>= next).Fails :=
  h.bind hn

theorem Fails.value {run : Run Value} (h : run.Fails) (past : List Call) :
    ∃ message, (run past).value = .ok (.error message) := by
  rcases h past with ⟨f, hf⟩ | ⟨_, _, no⟩
  · exact ⟨f.message, by rw [Outcome.value, hf]⟩
  · exact no.elim

end Run

theorem UnaryOp.isLogical_of_kindFor {op : UnaryOp} {k : Kind} {fault : TypeFault}
    (h : op.kindFor k = .error fault) : fault.isLogical := by
  unfold kindFor at h
  split at h <;> cases h
  rfl

namespace BinaryOp

variable {op : BinaryOp} {left right : Expr} {l r : Kind} {fault : TypeFault}

theorem not_logical_of_kindFor (h : kindFor left op right l r = .error fault)
    (other : fault.isLogical = false) : ¬ (op = .and ∨ op = .or) := by
  obtain ⟨hl, hr⟩ := known_of_kindFor h
  rw [kindFor_of_known hl hr] at h
  split at h
  · cases h
    simpa [TypeFault.isLogical] using other
  · split at h <;> cases h
    simpa [TypeFault.isLogical] using other

/-- Operands of kinds that an operator rejects have no result, if the operator is not logical. -/
theorem fails_of_kindFor {v w : Value} (h : kindFor left op right l r = .error fault)
    (other : fault.isLogical = false) (hv : v.Has l) (hw : w.Has r) :
    (Run.ofExcept (v.binaryOp op.text w)).Fails := by
  obtain ⟨hl, hr⟩ := known_of_kindFor h
  apply Run.Safe.ofExcept
  intro x hx
  rcases Value.kind_of_binaryOp hx with ⟨logical, -⟩ | mem
  · exact not_logical_of_kindFor h other logical
  · rw [hv.kind_eq hl.1, hw.kind_eq hr.1, ← kindFor_iff hl hr, h] at mem
    cases mem

end BinaryOp

section

variable {host : Host} {r : Registry} {env : Environment} {room : Nat}

theorem evaluateAllIn_safe (h : ∀ e, (evaluateIn host r env room e).Safe fun _ => True)
    (es : List Expr) : (evaluateAllIn host r env room es).Safe (·.length = es.length) := by
  induction es with
  | nil =>
    rw [evaluateAllIn]
    exact .pure rfl
  | cons e es ih =>
    rw [evaluateAllIn]
    apply (h e).bind
    intro v _
    apply ih.bind
    intro vs length
    exact .pure (congrArg (· + 1) length)

theorem evaluateAllIn_fails (h : ∀ e, (evaluateIn host r env room e).Safe fun _ => True)
    {e : Expr} {es : List Expr} (mem : e ∈ es) (fails : (evaluateIn host r env room e).Fails) :
    (evaluateAllIn host r env room es).Fails := by
  induction es with
  | nil => cases mem
  | cons head es ih =>
    rw [evaluateAllIn]
    cases mem with
    | head => exact fails.bind
    | tail _ mem =>
      apply (h head).bind_fails
      intro v _
      exact (ih mem).bind

theorem evaluateAllIn_has (h : ∀ e : Expr, e.Sound host r env) {limit : Nat} {es : List Expr}
    {kinds : List Kind} (hk : kindsOf r limit es = .ok kinds) :
    (evaluateAllIn host r env room es).Safe fun vs =>
      vs.length = es.length ∧ List.Forall₂ Value.Has vs kinds := by
  induction es generalizing kinds with
  | nil =>
    rw [kindsOf] at hk
    cases hk
    rw [evaluateAllIn]
    exact .pure ⟨rfl, .nil⟩
  | cons e es ih =>
    obtain ⟨k, ks, he, hes, rfl⟩ := kindsOf_cons_iff.1 hk
    rw [evaluateAllIn]
    apply (h e room limit k he).bind
    intro v hv
    apply (ih hes).bind
    rintro vs ⟨length, has⟩
    exact .pure ⟨congrArg (· + 1) length, .cons hv has⟩

theorem apply_length_safe {arguments : List Value} {p : Value → Prop}
    (h : ∀ v, Value.length arguments = .ok v → p v) :
    (Registry.lengthFunction.builtin.apply host arguments).Safe p := by
  intro past
  rw [Builtin.apply_length rfl]
  cases length : Value.length arguments with
  | error fault => exact .inl ⟨fault, rfl⟩
  | ok v => exact .inr ⟨v, rfl, h v length⟩

theorem callValue_fails {function : Expr} {callee : Value} {values : List Value}
    (hc : ∀ f, callee = .function f → f = Registry.lengthFunction.builtin ∧ function.text = "len")
    (none : ∀ s ∈ Registry.standard.overloads function.text values.length,
      ¬ s.accepts (values.map Value.kind)) :
    (callValue host callee values).Fails := by
  cases callee with
  | function f =>
    obtain ⟨rfl, name⟩ := hc f rfl
    rw [name] at none
    rw [callValue, Run.Fails]
    apply apply_length_safe
    intro v hv
    obtain ⟨value, rfl⟩ := Value.eq_singleton_of_length hv
    have accepted := Value.isOk_length value
    rw [hv] at accepted
    obtain ⟨s, mem, hs⟩ := List.any_eq_true.1 accepted.symm
    exact none s mem hs
  | _ => exact .of_fault _

section Standard

variable (he : env.NoFunction)
include he

variable (host) in
/-- With the functions of the language alone, a tree comes to a fault or to a value, and to a
function only where it reads as the name of that function. -/
theorem Expr.safe (room : Nat) (e : Expr) :
    (evaluateIn host .standard env room e).Safe fun v =>
      ∀ f, v = .function f → f = Registry.lengthFunction.builtin ∧ e.text = "len" := by
  induction room generalizing e with
  | zero =>
    rw [evaluateIn]
    exact .fail _
  | succ room ih =>
    rw [evaluateIn.eq_def]
    cases e with
    | identifier name =>
      apply (lookUp_safe he name).mono
      intro v hv f hf
      have registered := hv.2 f hf
      rw [Registry.builtin_standard] at registered
      split at registered
      · next hname => exact ⟨(Option.some.inj registered).symm, hname⟩
      · cases registered
    | unary op operand =>
      apply (ih operand).bind
      intro v _
      apply Run.Safe.ofExcept
      rintro x hx f rfl
      cases Value.kind_of_unaryOp hx
    | binary left op right =>
      apply (ih left).bind
      intro v _
      apply (ih right).bind
      intro w _
      apply Run.Safe.ofExcept
      rintro x hx f rfl
      exact absurd (Value.kind_mem_of_binaryOp hx) (by simp [Value.kind])
    | call function arguments =>
      apply (ih function).bind
      intro callee hc
      apply (evaluateAllIn_safe (fun e => (ih e).mono fun _ _ => trivial) arguments).bind
      intro values _
      cases callee with
      | function f =>
        rw [(hc f rfl).1, callValue]
        apply apply_length_safe
        rintro v hv f rfl
        cases Value.kind_of_length hv
      | _ => exact .fail _
    | program body =>
      rw [text]
      exact ih body
    | absent | foreign kind identity => exact .fail _
    | _ => exact .pure nofun

variable (host) in
theorem Expr.ends (room : Nat) (e : Expr) :
    (evaluateIn host .standard env room e).Safe fun _ => True :=
  (e.safe host he room).mono fun _ _ => trivial

theorem Expr.fails_of_height {e : Expr} (h : room < e.height) :
    (evaluateIn host .standard env room e).Fails := by
  induction room generalizing e with
  | zero =>
    rw [evaluateIn]
    exact .of_fault _
  | succ room ih =>
    rw [evaluateIn.eq_def]
    cases e with
    | unary op operand => exact (ih (Nat.lt_of_succ_lt_succ h)).bind
    | program body => exact ih (Nat.lt_of_succ_lt_succ h)
    | binary left op right =>
      rcases lt_max_iff.1 (Nat.lt_of_succ_lt_succ h) with hl | hr
      · exact (ih hl).bind
      · apply (left.ends host he room).bind_fails
        intro v _
        exact (ih hr).bind
    | call function arguments =>
      rcases lt_max_iff.1 (Nat.lt_of_succ_lt_succ h) with hf | ha
      · exact (ih hf).bind
      · obtain ⟨e, mem, deep⟩ := exists_of_lt_heights ha
        apply (function.ends host he room).bind_fails
        intro callee _
        exact (evaluateAllIn_fails (Expr.ends host he room) mem (ih deep)).bind
    | _ => exact absurd h (Nat.not_lt.2 (Nat.succ_le_succ (Nat.zero_le room)))

theorem Expr.fails_of_not_legible {e : Expr} (h : ¬ e.Legible) :
    (evaluateIn host .standard env room e).Fails := by
  induction room generalizing e with
  | zero =>
    rw [evaluateIn]
    exact .of_fault _
  | succ room ih =>
    rw [evaluateIn.eq_def]
    cases e with
    | unary op operand => exact (ih (mt legible_unary.2 h)).bind
    | binary left op right =>
      rw [legible_binary, not_and_or] at h
      rcases h with hl | hr
      · exact (ih hl).bind
      · apply (left.ends host he room).bind_fails
        intro v _
        exact (ih hr).bind
    | call function arguments =>
      rw [legible_call, not_and_or] at h
      rcases h with hf | ha
      · exact (ih hf).bind
      · obtain ⟨e, he'⟩ := not_forall.1 ha
        obtain ⟨mem, illegible⟩ := Classical.not_imp.1 he'
        apply (function.ends host he room).bind_fails
        intro callee _
        exact (evaluateAllIn_fails (Expr.ends host he room) mem (ih illegible)).bind
    | program body =>
      by_cases none : body = absent
      · subst none
        exact absurd (by rfl) h
      · exact ih (mt (legible_program none).2 h)
    | absent | foreign kind identity => exact .of_fault _
    | identifier name => exact absurd legible_identifier h
    | _ => exact absurd (legible_of_isLiteral rfl) h

/-- A tree with a fault fails, unless a logical operator reports it. -/
theorem Expr.fails {e : Expr} {fault : TypeFault}
    (h : kindOf .standard room e = .error fault) (other : fault.isLogical = false) :
    (evaluateIn host .standard env room e).Fails := by
  have sound (e : Expr) : e.Sound host .standard env := e.sound (Registry.honest_standard host) he
  -- The check ends where the fault is. What evaluation does before it comes there is safe, and it
  -- has as much room left as the check had.
  induction room generalizing e with
  | zero =>
    rw [evaluateIn]
    exact .of_fault _
  | succ room ih =>
    rw [evaluateIn.eq_def]
    cases e with
    | unary sign operand =>
      rcases kindOf_unary_error h with ⟨unknown, -⟩ | h | ⟨op, k, h⟩
      · apply (operand.ends host he room).bind_fails
        intro v _
        unfold Value.unaryOp
        rw [unknown]
        exact .of_fault _
      · exact (ih h).bind
      · rw [UnaryOp.isLogical_of_kindFor h] at other
        cases other
    | binary left sign right =>
      rcases kindOf_binary_error h with ⟨unknown, -⟩ | h | h | ⟨op, k, k', hop, hk, hk', h⟩
      · apply (left.ends host he room).bind_fails
        intro v _
        apply (right.ends host he room).bind_fails
        intro w _
        rw [Value.binaryOp, unknown]
        exact .of_fault _
      · exact (ih h).bind
      · apply (left.ends host he room).bind_fails
        intro v _
        exact (ih h).bind
      · apply (sound left room room k hk).bind_fails
        intro v hv
        apply (sound right room room k' hk').bind_fails
        intro w hw
        rw [← BinaryOp.text_of_ofText? hop]
        exact BinaryOp.fails_of_kindFor h other hv hw
    | call function arguments =>
      rcases kindOf_call_error h with
        ⟨deep, -⟩ | illegible | ⟨none, -⟩ | h | ⟨kinds, hkinds, h⟩
      · exact (fails_of_height he deep).bind
      · exact (fails_of_not_legible he illegible).bind
      · -- An unknown name and a wrong number of arguments: no signature is left either way.
        apply (function.safe host he room).bind_fails
        intro callee hc
        apply (evaluateAllIn_safe (Expr.ends host he room) arguments).bind_fails
        intro values length
        apply callValue_fails hc
        rw [length, none]
        intro s mem
        cases mem
      · obtain ⟨e, mem, h⟩ := kindsOf_error h
        apply (function.ends host he room).bind_fails
        intro callee _
        exact (evaluateAllIn_fails (Expr.ends host he room) mem (ih h)).bind
      · apply (function.safe host he room).bind_fails
        intro callee hc
        apply (evaluateAllIn_has sound hkinds).bind_fails
        rintro values ⟨length, has⟩
        apply callValue_fails hc
        rw [length]
        intro s mem accepts
        have refines := List.forall₂_map_left_iff.2 (has.imp fun _ _ => Value.Has.refines)
        exact callKind_error h s mem (Signature.accepts_mono refines accepts)
    | program body =>
      rw [kindOf] at h
      exact ih h
    | absent | foreign kind identity => exact .of_fault _
    | _ =>
      rw [kindOf] at h
      cases h

end Standard

variable (host) in
/-- Checking rejects nothing that has a value, but at the logical operators: with no function among
the bound values, a tree that is not checked without fault comes to an error, if no logical operator
reports the fault. -/
theorem evaluate_rejected [Nesting] (he : env.NoFunction) {e : Expr}
    (rejected : ∀ kind, check .standard e ≠ .ok (kind, []))
    (other : ∀ fault, kindOf .standard Nesting.limit e = .error fault → fault.isLogical = false)
    (past : List Call) :
    ∃ message, (evaluate host .standard env e past).value = .ok (.error message) := by
  cases h : kindOf .standard Nesting.limit e with
  | ok kind =>
    refine absurd ?_ (rejected kind)
    rw [check, checkAfter, if_pos List.isEmpty_nil, h]
  | error fault =>
    have fails : (evaluate host .standard env e).Fails := Expr.fails he h (other fault h)
    exact fails.value past

open Nesting

theorem evaluate_rejected_sum :
    ∃ message, (evaluate (fun _ _ _ => .nothing) .standard
        ⟨Table.empty.insert "name" ⟨.string "a", false⟩⟩
        (.binary (.call (.identifier "len") [.identifier "name"]) "+" (.string "a")) []).value =
      .ok (.error message) := by
  have found : kindOf .standard Nesting.limit
      (.binary (.call (.identifier "len") [.identifier "name"]) "+" (.string "a")) =
        .error (.rightOperand .add .integer .string) := by
    decide +kernel
  apply evaluate_rejected
  · intro name f
    rw [Environment.get?, Table.get?_insert]
    split
    · intro h
      cases h
    · intro h
      cases h
  · intro kind
    rw [check, checkAfter, if_pos List.isEmpty_nil, found]
    intro accepted
    cases accepted
  · intro fault h
    cases found.symm.trans h
    rfl

end

end Criterion
