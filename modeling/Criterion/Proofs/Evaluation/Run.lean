import Criterion.Failure

namespace Criterion

theorem Outcome.value_congr {first second : Outcome Value} (h : first.result = second.result) :
    first.value = second.value := by
  rw [value, value, h]

theorem Value.isError_iff {v : Value} : v.isError ↔ v.kind = .error := by
  cases v <;> simp [isError, kind]

namespace Run

variable {α β : Type} {run : Run α} {next : α → Run β} {past : List Call}

theorem bind_of_ok {a : α} (h : (run past).result = .ok a) :
    (run >>= next) past =
      ⟨(run past).calls ++ (next a (past ++ (run past).calls)).calls,
        (next a (past ++ (run past).calls)).result⟩ := by
  simp only [bind, andThen, h]

theorem bind_of_error {halt : Halt} (h : (run past).result = .error halt) :
    (run >>= next) past = ⟨(run past).calls, .error halt⟩ := by
  simp only [bind, andThen, h]

theorem eq_ok_of_bind {b : β} (h : ((run >>= next) past).result = .ok b) :
    ∃ a, (run past).result = .ok a ∧ (next a (past ++ (run past).calls)).result = .ok b := by
  cases ha : (run past).result with
  | ok a =>
    rw [bind_of_ok ha] at h
    exact ⟨a, rfl, h⟩
  | error halt =>
    rw [bind_of_error ha] at h
    cases h

theorem bind_congr {run' : Run α} {next' : α → Run β} (h : run past = run' past)
    (hn : ∀ a, (run past).result = .ok a →
      next a (past ++ (run past).calls) = next' a (past ++ (run past).calls)) :
    (run >>= next) past = (run' >>= next') past := by
  cases ha : (run past).result with
  | ok a => rw [bind_of_ok ha, bind_of_ok (h ▸ ha), ← h, hn a ha]
  | error halt => rw [bind_of_error ha, bind_of_error (h ▸ ha), ← h]

theorem pure_apply {a : α} : (pure a : Run α) past = ⟨[], .ok a⟩ := rfl

theorem ofExcept_apply {x : Except Fault α} :
    ofExcept x past = ⟨[], x.mapError .fault⟩ := by
  cases x <;> rfl

theorem bind_pure (run : Run α) : run >>= pure = run := by
  funext past
  cases h : (run past).result with
  | ok a => rw [bind_of_ok h, pure_apply, List.append_nil, ← h]
  | error halt => rw [bind_of_error h, ← h]

theorem pure_bind (a : α) (next : α → Run β) : pure a >>= next = next a := by
  funext past
  have first : (pure a : Run α) past = ⟨[], .ok a⟩ := rfl
  rw [bind_of_ok (congrArg Outcome.result first), first, List.append_nil, List.nil_append]

theorem bind_assoc {γ : Type} (run : Run α) (next : α → Run β) (last : β → Run γ) :
    run >>= next >>= last = run >>= fun a => next a >>= last := by
  funext past
  cases h : (run past).result with
  | error halt =>
    have stopped : (run >>= next) past = ⟨(run past).calls, .error halt⟩ := bind_of_error h
    rw [bind_of_error h, bind_of_error (congrArg Outcome.result stopped), stopped]
  | ok a =>
    have went : (run >>= next) past =
        ⟨(run past).calls ++ (next a (past ++ (run past).calls)).calls,
          (next a (past ++ (run past).calls)).result⟩ := bind_of_ok h
    have result := congrArg Outcome.result went
    rw [bind_of_ok h]
    cases hb : (next a (past ++ (run past).calls)).result with
    | error halt => rw [bind_of_error hb, bind_of_error (result.trans hb), went]
    | ok b =>
      rw [bind_of_ok hb, bind_of_ok (result.trans hb), went]
      simp only [List.append_assoc]

instance : LawfulMonad Run := LawfulMonad.mk' Run bind_pure pure_bind bind_assoc

theorem fail_bind (f : Fault) (next : α → Run β) : fail f >>= next = fail f := rfl

theorem ofValue_apply {v : Value} (h : v.kind ≠ .error) : ofValue v past = ⟨[], .ok v⟩ := by
  cases v with
  | error message => exact absurd rfl h
  | _ => rfl

theorem eq_of_ofValue {v w : Value} (h : (ofValue v past).result = .ok w) :
    w = v ∧ w.kind ≠ .error := by
  cases v with
  | error message => cases h
  | _ =>
    cases h
    exact ⟨rfl, by simp [Value.kind]⟩

theorem calls_ofValue {v : Value} : (ofValue v past).calls = [] := by
  cases v <;> rfl

end Run

theorem Reply.calls_run {reply : Reply} {past : List Call} : (reply.run past).calls = [] := by
  cases reply with
  | value v => exact Run.calls_ofValue
  | _ => rfl

theorem Reply.eq_ok_of_run {reply : Reply} {past : List Call} {v : Value}
    (h : (reply.run past).result = .ok v) :
    reply = .nothing ∧ v = .null ∨ reply = .value v ∧ v.kind ≠ .error := by
  cases reply with
  | nothing =>
    cases h
    exact .inl ⟨rfl, rfl⟩
  | value w =>
    obtain ⟨rfl, other⟩ := Run.eq_of_ofValue h
    exact .inr ⟨rfl, other⟩
  | _ => cases h

theorem Builtin.apply_length {host : Host} {f : Builtin} {arguments : List Value}
    {past : List Call} (h : f.routine = .length) :
    f.apply host arguments past =
      ⟨[⟨f, arguments⟩], (Value.length arguments).mapError .fault⟩ := by
  simp only [apply, Run.withPast, Bind.bind, Run.andThen, Run.record, h, Run.ofExcept_apply,
    List.append_nil]

theorem Builtin.apply_host {host : Host} {f : Builtin} {number : Nat} {arguments : List Value}
    {past : List Call} (h : f.routine = .host number) :
    f.apply host arguments past =
      ⟨[⟨f, arguments⟩], ((host past number arguments).run (past ++ [⟨f, arguments⟩])).result⟩ := by
  simp only [apply, Run.withPast, Bind.bind, Run.andThen, Run.record, h, Reply.calls_run,
    List.append_nil]

/-- A function that answers has found a length, or passes on what the host says. -/
theorem Builtin.answer_of_apply {host : Host} {f : Builtin} {arguments : List Value} {v : Value}
    {past : List Call} (h : (f.apply host arguments past).result = .ok v) :
    f.routine = .length ∧ Value.length arguments = .ok v ∨
      ∃ number, f.routine = .host number ∧ (host past number arguments = .nothing ∧ v = .null ∨
        host past number arguments = .value v ∧ v.kind ≠ .error) := by
  cases routine : f.routine with
  | length =>
    rw [apply_length routine] at h
    refine .inl ⟨rfl, ?_⟩
    cases length : Value.length arguments with
    | error fault =>
      rw [length] at h
      cases h
    | ok w =>
      rw [length] at h
      cases h
      rfl
  | host number =>
    rw [apply_host routine] at h
    exact .inr ⟨number, rfl, Reply.eq_ok_of_run h⟩

theorem Builtin.calls_apply {host : Host} {f : Builtin} {arguments : List Value}
    {past : List Call} : (f.apply host arguments past).calls = [⟨f, arguments⟩] := by
  cases routine : f.routine with
  | length => rw [apply_length routine]
  | host number => rw [apply_host routine]

theorem Value.kind_of_length {arguments : List Value} {v : Value}
    (h : Value.length arguments = .ok v) : v.kind = .integer := by
  unfold Value.length at h
  split at h
  · cases h
    rfl
  · cases h
    rfl
  · cases h
    rfl
  · exact nomatch h
  · exact nomatch h

theorem Builtin.kind_of_apply {host : Host} {f : Builtin} {arguments : List Value} {v : Value}
    {past : List Call} (h : (f.apply host arguments past).result = .ok v) : v.kind ≠ .error := by
  rcases answer_of_apply h with ⟨-, length⟩ | ⟨number, -, ⟨-, rfl⟩ | ⟨-, other⟩⟩
  · rw [Value.kind_of_length length]
    decide
  · decide
  · exact other

end Criterion
