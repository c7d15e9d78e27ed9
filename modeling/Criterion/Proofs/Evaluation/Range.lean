import Criterion.Proofs.Evaluation.Order
import Criterion.Proofs.Typing.Standard

namespace Criterion

/-- The integers that a value holds are words. -/
def Value.Fits : Value → Prop
  | integer n => Word.Fits n
  | integers ns => ∀ n ∈ ns, Word.Fits n
  | _ => True

/-- The integers that a value holds are words, and the function that it may be is one of those
known. -/
def Value.Within (known : Builtin → Prop) : Value → Prop
  | integer n => Word.Fits n
  | integers ns => ∀ n ∈ ns, Word.Fits n
  | function f => known f
  | _ => True

/-- Known functions of the host keep the range: given words and known functions only, they answer
with nothing else, whatever was called before. -/
def Host.Keeps (host : Host) (known : Builtin → Prop) : Prop :=
  ∀ past name number arguments v, known ⟨name, .host number⟩ →
    (∀ w ∈ arguments, w.Within known) → host past number arguments = .value v → v.Within known

/-- No length that a call tells is beyond the range. -/
def Call.Countable (call : Call) : Prop :=
  call.builtin.routine = .length → ∀ v, Value.length call.arguments = .ok v → v.Fits

namespace Expr

mutual

/-- All integers that a tree spells out are words. -/
def LiteralsFit : Expr → Prop
  | integer value => Word.Fits value
  | integers values => ∀ n ∈ values, Word.Fits n
  | unary _ operand => operand.LiteralsFit
  | binary left _ right => left.LiteralsFit ∧ right.LiteralsFit
  | call function arguments => function.LiteralsFit ∧ AllLiteralsFit arguments
  | program body => body.LiteralsFit
  | identifier _ | boolean _ | string _ | strings _ | absent | foreign _ _ => True

def AllLiteralsFit : List Expr → Prop
  | [] => True
  | e :: es => e.LiteralsFit ∧ AllLiteralsFit es

end

end Expr

namespace Value

variable {v w x : Value} {known : Builtin → Prop}

theorem Within.fits (h : v.Within known) : v.Fits := by
  cases v with
  | integer n => exact h
  | integers ns => exact h
  | _ => trivial

theorem within_integerOp {op : BinaryOp} {a b : Int} (h : integerOp op a b = .ok x) :
    x.Within known := by
  cases op with
  | add | subtract | multiply =>
    cases h
    exact Word.fits_wrap _
  | divide =>
    rw [integerOp] at h
    split at h
    · cases h
      exact Word.fits_wrap _
    · cases h
  | and | or | member => cases h
  | _ =>
    cases h
    trivial

theorem within_stringOp {op : BinaryOp} {a b : String} (h : stringOp op a b = .ok x) :
    x.Within known := by
  cases op with
  | subtract | multiply | divide | and | or | member => cases h
  | _ =>
    cases h
    trivial

theorem within_mixedOp {op : BinaryOp} (h : mixedOp op v w = .ok x) : x.Within known := by
  unfold mixedOp at h
  split at h <;> cases h <;> trivial

theorem within_binaryOp {sign : String} (h : v.binaryOp sign w = .ok x) : x.Within known := by
  rw [binaryOp] at h
  split at h
  · cases h
  · split at h
    · exact within_integerOp h
    · exact within_stringOp h
    · exact within_mixedOp h

theorem within_unaryOp {sign : String} (h : v.unaryOp sign = .ok x) : x.Within known := by
  unfold unaryOp at h
  split at h
  · cases h
  · cases v <;> cases h <;> trivial

theorem within_length {arguments : List Value} (h : length arguments = .ok v) (fits : v.Fits) :
    v.Within known := by
  unfold length at h
  split at h <;> cases h
  · exact fits
  · exact fits
  · exact fits

end Value

namespace Run

variable {α β : Type} {known : Builtin → Prop} {good : α → Prop} {fine : β → Prop}

/-- What a run comes to is good, and it hands nothing but words and known functions to the functions
that it calls, as long as no length is beyond the range. -/
def Ranged (known : Builtin → Prop) (good : α → Prop) (run : Run α) : Prop :=
  ∀ past, (∀ call ∈ (run past).calls, call.Countable) →
    (∀ call ∈ (run past).calls, ∀ v ∈ call.arguments, v.Within known) ∧
      ∀ a, (run past).result = .ok a → good a

namespace Ranged

theorem pure {a : α} (h : good a) : (Pure.pure a : Run α).Ranged known good := by
  intro past _
  refine ⟨List.forall_mem_nil _, ?_⟩
  intro b hb
  cases hb
  exact h

theorem fail {f : Fault} : (Run.fail f : Run α).Ranged known good := by
  intro past _
  refine ⟨List.forall_mem_nil _, ?_⟩
  intro a ha
  cases ha

theorem ofExcept {x : Except Fault α} (h : ∀ a, x = .ok a → good a) :
    (Run.ofExcept x).Ranged known good := by
  cases x with
  | ok a => exact pure (h a rfl)
  | error f => exact fail

theorem ofValue {v : Value} (h : v.Within known) :
    (Run.ofValue v).Ranged known (Value.Within known) := by
  cases v with
  | error message => exact fail
  | _ => exact pure h

theorem bind {run : Run α} {next : α → Run β} (h : run.Ranged known good)
    (hn : ∀ a, good a → (next a).Ranged known fine) : (run >>= next).Ranged known fine := by
  intro past countable
  cases ha : (run past).result with
  | error halt =>
    rw [bind_of_error ha] at countable ⊢
    refine ⟨(h past countable).1, ?_⟩
    intro b hb
    cases hb
  | ok a =>
    -- The functions called later get arguments made of this result, which must be good first.
    rw [bind_of_ok ha] at countable ⊢
    obtain ⟨first, later⟩ := List.forall_mem_append.1 countable
    obtain ⟨handed, result⟩ := h past first
    obtain ⟨handedLater, resultLater⟩ := hn a (result a ha) _ later
    exact ⟨List.forall_mem_append.2 ⟨handed, handedLater⟩, resultLater⟩

end Ranged

end Run

section

variable {host : Host} {r : Registry} {env : Environment} {known : Builtin → Prop}

theorem lookUp_ranged (registered : ∀ name f, r.get? name = some f → known f)
    (bound : ∀ name v, env.get? name = some v → v.Within known) (name : String) :
    (lookUp r env name).Ranged known (Value.Within known) := by
  unfold lookUp
  split
  · next v hv => exact .ofValue (bound name v hv)
  · split
    · next f hf => exact .pure (registered name f hf)
    · exact .fail

theorem apply_ranged (keeps : host.Keeps known) {f : Builtin} (hf : known f)
    {arguments : List Value} (h : ∀ v ∈ arguments, v.Within known) :
    (f.apply host arguments).Ranged known (Value.Within known) := by
  intro past countable
  have calls : (f.apply host arguments past).calls = [⟨f, arguments⟩] := Builtin.calls_apply
  rw [calls] at countable ⊢
  refine ⟨List.forall_mem_singleton.2 h, ?_⟩
  intro v hv
  rcases Builtin.answer_of_apply hv with ⟨routine, length⟩ | ⟨number, routine, answer⟩
  · exact Value.within_length length (countable _ (List.mem_singleton_self _) routine v length)
  · rcases answer with ⟨-, rfl⟩ | ⟨answer, -⟩
    · trivial
    · have hf' : known ⟨f.name, .host number⟩ := by
        rw [← routine]
        exact hf
      exact keeps past f.name number arguments v hf' h answer

theorem callValue_ranged (keeps : host.Keeps known) {callee : Value} {arguments : List Value}
    (hc : callee.Within known) (h : ∀ v ∈ arguments, v.Within known) :
    (callValue host callee arguments).Ranged known (Value.Within known) := by
  cases callee with
  | function f => exact apply_ranged keeps hc h
  | _ => exact .fail

theorem evaluateAllIn_ranged {es : List Expr} {room : Nat}
    (literals : Expr.AllLiteralsFit es)
    (h : ∀ e : Expr, e.LiteralsFit →
      (evaluateIn host r env room e).Ranged known (Value.Within known)) :
    (evaluateAllIn host r env room es).Ranged known fun vs => ∀ v ∈ vs, v.Within known := by
  induction es with
  | nil =>
    rw [evaluateAllIn]
    exact .pure (List.forall_mem_nil _)
  | cons e es ih =>
    rw [evaluateAllIn]
    refine (h e literals.1).bind fun v hv => (ih literals.2).bind fun vs hvs => ?_
    exact .pure (List.forall_mem_cons.2 ⟨hv, hvs⟩)

theorem evaluateIn_ranged (keeps : host.Keeps known)
    (registered : ∀ name f, r.get? name = some f → known f)
    (bound : ∀ name v, env.get? name = some v → v.Within known) (room : Nat) :
    ∀ e : Expr, e.LiteralsFit →
      (evaluateIn host r env room e).Ranged known (Value.Within known) := by
  induction room with
  | zero =>
    intro e _
    rw [evaluateIn]
    exact .fail
  | succ room ih =>
    intro e literals
    rw [evaluateIn.eq_def]
    cases e with
    | identifier name => exact lookUp_ranged registered bound name
    | unary op operand =>
      refine (ih operand literals).bind fun v _ => .ofExcept fun x hx => ?_
      exact Value.within_unaryOp hx
    | binary left op right =>
      refine (ih left literals.1).bind fun v _ => (ih right literals.2).bind fun w _ => ?_
      exact .ofExcept fun x hx => Value.within_binaryOp hx
    | call function arguments =>
      refine (ih function literals.1).bind fun callee hc => ?_
      refine (evaluateAllIn_ranged literals.2 ih).bind fun values hv => ?_
      exact callValue_ranged keeps hc hv
    | program body => exact ih body literals
    | absent => exact .fail
    | foreign kind identity => exact .fail
    | integer value => exact .pure literals
    | integers values => exact .pure literals
    | boolean value => exact .pure trivial
    | string value => exact .pure trivial
    | strings values => exact .pure trivial

variable [Nesting]

/-- Integers stay in the range of words. Take some functions, those that are registered and those
that names are bound to among them, which keep the range. If a tree spells out words only and names
are bound to no other integers, and no length that is counted is beyond the range, the value of the
tree holds words only, and so does every argument of every call. -/
theorem evaluate_fits {e : Expr} (literals : e.LiteralsFit) (keeps : host.Keeps known)
    (registered : ∀ name f, r.get? name = some f → known f)
    (bound : ∀ name v, env.get? name = some v → v.Within known) (past : List Call)
    (countable : ∀ call ∈ (evaluate host r env e past).calls, call.Countable) :
    (∀ v, (evaluate host r env e past).value = .ok v → v.Fits) ∧
      ∀ call ∈ (evaluate host r env e past).calls, ∀ v ∈ call.arguments, v.Fits := by
  obtain ⟨handed, result⟩ :=
    evaluateIn_ranged keeps registered bound Nesting.limit e literals past countable
  refine ⟨?_, fun call hc v hv => (handed call hc v hv).fits⟩
  intro v hv
  rw [Outcome.value] at hv
  split at hv
  · next hw =>
    cases hv
    exact (result _ hw).fits
  · cases hv
    trivial
  all_goals cases hv

end

open Nesting

/-- A function that a name is bound to need not be registered, and may answer with any integer. Nor
are the elements of an array integer literals of their own. -/
theorem evaluate_exceeds :
    (∃ env, Environment.empty.bind? "f" (.function ⟨"f", .host 0⟩) false = some env ∧
      (∀ name f, Registry.standard.get? name = some f → f.routine = .length) ∧
      (∀ name v, env.get? name = some v → v.Fits) ∧
      (evaluate (fun _ _ _ => .value (.integer 9223372036854775808)) .standard env
        (.call (.identifier "f") []) []).value = .ok (.integer 9223372036854775808)) ∧
    (evaluate (fun _ _ _ => .nothing) .standard .empty (.integers [9223372036854775808]) []).value =
      .ok (.integers [9223372036854775808]) ∧
    ¬ Word.Fits 9223372036854775808 := by
  have env : Environment.empty.bind? "f" (.function ⟨"f", .host 0⟩) false = some _ := rfl
  refine ⟨⟨_, env, ?_, ?_, rfl⟩, rfl, by decide⟩
  · intro name f hf
    rw [Registry.builtin_standard] at hf
    split at hf
    · cases hf
      rfl
    · cases hf
  · intro name v hv
    rw [Environment.get?_of_bind? env] at hv
    split at hv
    · cases hv
      trivial
    · cases hv

theorem evaluate_fits_overflow :
    ∃ run, run = evaluate (fun _ _ _ => .value (.integer Word.maximum))
        ⟨Table.empty.insert "top" ⟨⟨"top", .host 0⟩, []⟩, false⟩ .empty
        (.binary (.call (.identifier "top") [.integer 2]) "+" (.integer 1)) [] ∧
      run.value = .ok (.integer Word.minimum) ∧ Word.Fits Word.minimum ∧
      run.calls = [⟨⟨"top", .host 0⟩, [.integer 2]⟩] ∧ Word.Fits 2 := by
  have one : Word.Fits 1 := by decide
  have two : Word.Fits 2 := by decide
  have literals : (Expr.binary (.call (.identifier "top") [.integer 2]) "+"
      (.integer 1)).LiteralsFit := ⟨⟨trivial, two, trivial⟩, one⟩
  have bound : ∀ name v, Environment.empty.get? name = some v → v.Within fun _ => True := by
    intro name v none
    cases none
  have greatest : Word.Fits Word.maximum := by decide
  have keeps : Host.Keeps (fun _ _ _ => .value (.integer Word.maximum)) fun _ => True := by
    intro past name number arguments v _ _ answer
    cases answer
    exact greatest
  obtain ⟨result, handed⟩ := @evaluate_fits (fun _ _ _ => .value (.integer Word.maximum))
    ⟨Table.empty.insert "top" ⟨⟨"top", .host 0⟩, []⟩, false⟩ .empty (fun _ => True) _ _
    literals keeps (fun _ _ _ => trivial) bound [] (List.forall_mem_singleton.2 nofun)
  exact ⟨_, rfl, rfl, result _ rfl, rfl, handed _ (List.mem_singleton_self _) _
    (List.mem_singleton_self _)⟩

end Criterion
