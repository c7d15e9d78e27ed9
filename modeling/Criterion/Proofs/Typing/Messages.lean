import Mathlib.Order.MinMax
import Criterion.Proofs.Tree
import Criterion.Proofs.Typing.Precision

/-!
Checking with one list of messages that all visits share. Every rule visits all of its operands
before it decides, and a visit that finds a message in the list says nothing. What is left in the
list is the first fault and no other.
-/

namespace Criterion

/-- Ends a visit: with a kind, with one more message, or by ending the whole check. -/
def conclude (messages : List String) :
    Except TypeFault Kind → Except TypeFault (Kind × List String)
  | .ok kind => .ok (kind, messages)
  | .error fault =>
    if fault.interrupts then .error fault else .ok (.error, messages ++ [fault.message])

mutual

/-- Visits a tree with the messages that there are so far, and `room` levels of nesting left. -/
def inspect (r : Registry) (room : Nat) (e : Expr) (messages : List String) :
    Except TypeFault (Kind × List String) :=
  if messages.isEmpty then
    match room with
    | 0 => conclude messages (.error .nestedTooDeeply)
    | room + 1 =>
      match e with
      | .integer _ => .ok (.integer, messages)
      | .string _ => .ok (.string, messages)
      | .boolean _ => .ok (.boolean, messages)
      | .integers _ => .ok (.integerArray, messages)
      | .strings _ => .ok (.stringArray, messages)
      | .identifier _ => .ok (.unknown, messages)
      | .program body => inspect r room body messages
      | .unary sign operand =>
        match UnaryOp.ofText? sign with
        | none => conclude messages (.error (.unknownUnary sign))
        | some op => do
          let seen ← inspect r room operand messages
          conclude seen.2 (op.kindFor seen.1)
      | .binary left sign right =>
        match BinaryOp.ofText? sign with
        | none => conclude messages (.error (.unknownBinary sign))
        | some op => do
          let seen ← inspect r room left messages
          let seen' ← inspect r room right seen.2
          conclude seen'.2 (BinaryOp.kindFor left op right seen.1 seen'.1)
      | .call function arguments =>
        if room < function.height then conclude messages (.error .nestedTooDeeply)
        else
          match function.render with
          | .error kind => conclude messages (.error (.noText kind))
          | .ok name =>
            let overloads := r.signatures name
            if overloads.isEmpty then conclude messages (.error (.unknownFunction name))
            else
              let candidates := overloads.filter (·.arguments.length == arguments.length)
              if candidates.isEmpty then
                conclude messages
                  (.error (.arity name (overloads.map (·.arguments.length)) arguments.length))
              else do
                let seen ← inspectAll r room arguments messages
                conclude seen.2 (callKind name candidates seen.1)
      | .absent => conclude messages (.error .empty)
      | .foreign kind _ => conclude messages (.error (.unsupported kind))
  else .ok (.error, messages)

def inspectAll (r : Registry) (room : Nat) (es : List Expr) (messages : List String) :
    Except TypeFault (List Kind × List String) :=
  match es with
  | [] => .ok ([], messages)
  | e :: es => do
    let seen ← inspect r room e messages
    let others ← inspectAll r room es seen.2
    return (seen.1 :: others.1, others.2)

end

variable {r : Registry} {room : Nat}

theorem inspect_of_messages {messages : List String} (h : messages ≠ []) (e : Expr) :
    inspect r room e messages = .ok (.error, messages) := by
  rw [inspect.eq_def, if_neg]
  exact mt List.isEmpty_iff.1 h

theorem inspectAll_of_messages {messages : List String} (h : messages ≠ []) (es : List Expr) :
    inspectAll r room es messages = .ok (es.map fun _ => .error, messages) := by
  induction es with
  | nil => rw [inspectAll, List.map_nil]
  | cons e es ih =>
    rw [inspectAll, inspect_of_messages h, List.map_cons]
    change (inspectAll r room es messages >>= _) = _
    rw [ih]
    rfl

theorem conclude_bind {x : Except TypeFault Kind} {f : Kind → Except TypeFault Kind}
    {g : Kind × List String → Except TypeFault (Kind × List String)}
    (fine : ∀ kind, g (kind, []) = conclude [] (f kind))
    (silent : ∀ message, g (.error, [message]) = .ok (.error, [message])) :
    (conclude [] x >>= g) = conclude [] (x >>= f) := by
  cases x with
  | ok kind => exact fine kind
  | error fault =>
    change (conclude [] (.error fault) >>= g) = conclude [] (.error fault)
    rw [conclude]
    split
    · rfl
    · exact silent fault.message

theorem inspectAll_bind (h : ∀ e, inspect r room e [] = conclude [] (kindOf r room e))
    {es : List Expr} {f : List Kind → Except TypeFault Kind}
    {g : List Kind × List String → Except TypeFault (Kind × List String)}
    (fine : ∀ kinds, g (kinds, []) = conclude [] (f kinds))
    (silent : ∀ kinds message, .error ∈ kinds → g (kinds, [message]) = .ok (.error, [message])) :
    (inspectAll r room es [] >>= g) = conclude [] (kindsOf r room es >>= f) := by
  induction es generalizing f g with
  | nil =>
    rw [inspectAll, kindsOf]
    exact fine []
  | cons e es ih =>
    rw [inspectAll, kindsOf, h e, bind_assoc, bind_assoc]
    apply conclude_bind
    · intro kind
      simp only [bind_assoc, pure_bind]
      apply ih
      · exact fun kinds => fine (kind :: kinds)
      · exact fun kinds message mem => silent _ message (List.mem_cons_of_mem _ mem)
    · intro message
      have rest := @inspectAll_of_messages r room _ (List.cons_ne_nil message []) es
      simp only [rest, bind_assoc, pure_bind]
      exact silent _ message (List.mem_cons_self ..)

/-- Nothing but the first fault is ever reported. -/
theorem inspect_nil (e : Expr) : inspect r room e [] = conclude [] (kindOf r room e) := by
  induction room generalizing e with
  | zero => rw [inspect.eq_def, kindOf, if_pos List.isEmpty_nil]
  | succ room ih =>
    cases e with
    | unary sign operand =>
      rw [inspect, kindOf, if_pos List.isEmpty_nil]
      cases UnaryOp.ofText? sign with
      | none => rfl
      | some op =>
        dsimp only
        rw [ih operand]
        exact conclude_bind (fun _ => rfl) fun _ => rfl
    | binary left sign right =>
      rw [inspect, kindOf, if_pos List.isEmpty_nil]
      cases BinaryOp.ofText? sign with
      | none => rfl
      | some op =>
        dsimp only
        rw [ih left]
        apply conclude_bind
        · intro kind
          rw [ih right]
          apply conclude_bind
          · exact fun _ => rfl
          · intro message
            rw [BinaryOp.kindFor_of_error (.inr rfl)]
            rfl
        · -- The right operand is visited all the same, and adds nothing.
          intro message
          rw [inspect_of_messages (List.cons_ne_nil message [])]
          change conclude [message] (BinaryOp.kindFor left op right .error .error) = _
          rw [BinaryOp.kindFor_of_error (.inl rfl)]
          rfl
    | call function arguments =>
      rw [inspect, kindOf, if_pos List.isEmpty_nil]
      split
      · rfl
      · cases function.render with
        | error kind => rfl
        | ok name =>
          dsimp only
          split
          · rfl
          · split
            · rfl
            · apply inspectAll_bind ih
              · exact fun _ => rfl
              · intro kinds message mem
                rw [callKind_iff.2 (.inl ⟨mem, rfl⟩)]
                rfl
    | program body =>
      rw [inspect, kindOf, if_pos List.isEmpty_nil]
      exact ih body
    | _ => rw [inspect, kindOf, if_pos List.isEmpty_nil] <;> rfl

theorem check_eq_conclude [Nesting] (r : Registry) (e : Expr) :
    check r e = conclude [] (kindOf r Nesting.limit e) := by
  rw [check, checkAfter, if_pos List.isEmpty_nil]
  cases kindOf r Nesting.limit e with
  | ok kind => rfl
  | error fault => rfl

/-- A check is a visit. -/
theorem checkAfter_eq_inspect [Nesting] (messages : List String) (r : Registry) (e : Expr) :
    checkAfter messages r e = inspect r Nesting.limit e messages := by
  by_cases none : messages = []
  · rw [none, inspect_nil, ← check_eq_conclude, check]
  · rw [checkAfter, if_neg (mt List.isEmpty_iff.1 none), inspect_of_messages none]

/-- A registry with no signature whose result is an error. -/
def Registry.ErrorFree (r : Registry) : Prop :=
  ∀ name, ∀ s ∈ r.signatures name, s.result ≠ .error

theorem BinaryOp.ne_error_of_kindFor {op : BinaryOp} {left right : Expr} {k k' kind : Kind}
    (hk : k ≠ .error) (hk' : k' ≠ .error) (h : kindFor left op right k k' = .ok kind) :
    kind ≠ .error := by
  by_cases hu : k = .unknown ∨ k' = .unknown
  · rw [kindFor_of_unknown hk hk' hu] at h
    cases h
    exact resultOfUnknown_ne_error
  · obtain ⟨hu, hu'⟩ := not_or.1 hu
    exact result_ne_error ((kindFor_iff ⟨hu, hk⟩ ⟨hu', hk'⟩).1 h)

theorem kindsOf_ne_error {es : List Expr} {kinds : List Kind}
    (ih : ∀ e ∈ es, ∀ kind, kindOf r room e = .ok kind → kind ≠ .error)
    (h : kindsOf r room es = .ok kinds) : .error ∉ kinds := by
  induction es generalizing kinds with
  | nil =>
    rw [kindsOf] at h
    cases h
    exact List.not_mem_nil
  | cons e es ih' =>
    obtain ⟨kind, rest, hk, hrest, rfl⟩ := kindsOf_cons_iff.1 h
    obtain ⟨he, hes⟩ := List.forall_mem_cons.1 ih
    rw [List.mem_cons, not_or]
    exact ⟨(he kind hk).symm, ih' hes hrest⟩

/-- What is checked without a fault is no error, unless a signature says so. -/
theorem kindOf_ne_error (free : r.ErrorFree) (e : Expr) (kind : Kind)
    (h : kindOf r room e = .ok kind) : kind ≠ .error := by
  induction e generalizing room kind with
  | unary sign operand ih =>
    obtain ⟨room, rfl⟩ := room_of_kindOf h
    obtain ⟨op, k, -, hk, h⟩ := kindOf_unary_iff.1 h
    rw [UnaryOp.boolean_of_kindFor h (ih k hk)]
    intro he
    cases he
  | binary left sign right ihl ihr =>
    obtain ⟨room, rfl⟩ := room_of_kindOf h
    obtain ⟨op, k, k', -, hk, hk', h⟩ := kindOf_binary_iff.1 h
    exact BinaryOp.ne_error_of_kindFor (ihl k hk) (ihr k' hk') h
  | call function arguments ihf iha =>
    obtain ⟨room, rfl⟩ := room_of_kindOf h
    obtain ⟨-, -, -, kinds, hkinds, h⟩ := kindOf_call_iff.1 h
    have right := kindsOf_ne_error (fun e he kind hk => iha e he kind hk) hkinds
    rcases callKind_iff.1 h with ⟨wrong, -⟩ | ⟨-, s, hs, rfl⟩
    · exact absurd wrong right
    · exact free _ s (Registry.mem_overloads.1 (List.mem_of_find?_eq_some hs)).1
  | program body ih =>
    obtain ⟨room, rfl⟩ := room_of_kindOf h
    rw [kindOf] at h
    exact ih kind h
  | absent | foreign kind' identity =>
    obtain ⟨room, rfl⟩ := room_of_kindOf h
    rw [kindOf] at h
    cases h
  | _ =>
    obtain ⟨room, rfl⟩ := room_of_kindOf h
    rw [kindOf] at h
    cases h
    intro he
    cases he

theorem UnaryOp.not_interrupts_of_kindFor {op : UnaryOp} {k : Kind} {fault : TypeFault}
    (h : op.kindFor k = .error fault) : ¬ fault.interrupts := by
  unfold kindFor at h
  split at h <;> cases h
  exact nofun

theorem BinaryOp.not_interrupts_of_kindFor {op : BinaryOp} {left right : Expr} {k k' : Kind}
    {fault : TypeFault} (h : kindFor left op right k k' = .error fault) : ¬ fault.interrupts := by
  obtain ⟨hk, hk'⟩ := known_of_kindFor h
  rw [kindFor_of_known hk hk'] at h
  split at h
  · cases h
    exact nofun
  · split at h <;> cases h
    exact nofun

theorem not_interrupts_of_callKind {name : String} {candidates : List Signature}
    {found : List Kind} {fault : TypeFault} (h : callKind name candidates found = .error fault) :
    ¬ fault.interrupts := by
  rw [callKind] at h
  split at h
  · cases h
  · split at h <;> cases h
    exact Bool.false_ne_true

/-- A tree that can be written out is checked to the end, unless there is too little room for it. -/
theorem nested_of_kindOf {e : Expr} {fault : TypeFault} (legible : e.Legible)
    (h : kindOf r room e = .error fault) (ends : fault.interrupts) :
    fault = .nestedTooDeeply ∧ room < e.height := by
  induction room generalizing e with
  | zero =>
    rw [kindOf] at h
    cases h
    exact ⟨rfl, e.height_pos⟩
  | succ room ih =>
    cases e with
    | unary sign operand =>
      rcases kindOf_unary_error h with ⟨-, rfl⟩ | h | ⟨op, k, h⟩
      · cases ends
      · exact (ih (Expr.legible_unary.1 legible) h).imp_right Nat.succ_lt_succ
      · exact absurd ends (UnaryOp.not_interrupts_of_kindFor h)
    | binary left sign right =>
      obtain ⟨legible, legible'⟩ := Expr.legible_binary.1 legible
      rcases kindOf_binary_error h with ⟨-, rfl⟩ | h | h | ⟨op, k, k', -, -, -, h⟩
      · cases ends
      · obtain ⟨deep, lt⟩ := ih legible h
        exact ⟨deep, Nat.succ_lt_succ (lt_max_of_lt_left lt)⟩
      · obtain ⟨deep, lt⟩ := ih legible' h
        exact ⟨deep, Nat.succ_lt_succ (lt_max_of_lt_right lt)⟩
      · exact absurd ends (BinaryOp.not_interrupts_of_kindFor h)
    | call function arguments =>
      obtain ⟨written, legible⟩ := Expr.legible_call.1 legible
      rcases kindOf_call_error h with
        ⟨deep, rfl⟩ | illegible | ⟨-, goes⟩ | h | ⟨kinds, -, h⟩
      · exact ⟨rfl, Nat.succ_lt_succ (lt_max_of_lt_left deep)⟩
      · exact absurd written illegible
      · exact absurd ends goes
      · obtain ⟨e, mem, h⟩ := kindsOf_error h
        obtain ⟨deep, lt⟩ := ih (legible e mem) h
        have lt := Nat.lt_of_lt_of_le lt (Expr.height_le_heights mem)
        exact ⟨deep, Nat.succ_lt_succ (lt_max_of_lt_right lt)⟩
      · exact absurd ends (not_interrupts_of_callKind h)
    | program body =>
      rw [kindOf] at h
      by_cases none : body = .absent
      · -- A program without a body can be written out, though nothing stands where it would.
        subst none
        cases room with
        | zero =>
          rw [kindOf] at h
          cases h
          exact ⟨rfl, by decide⟩
        | succ room =>
          rw [kindOf] at h
          cases h
          cases ends
      · exact (ih ((Expr.legible_program none).1 legible) h).imp_right Nat.succ_lt_succ
    | absent | foreign kind identity =>
      rw [kindOf] at h
      cases h
      cases ends
    | _ =>
      rw [kindOf] at h
      cases h

section

variable [Nesting]

theorem exists_check (r : Registry) {e : Expr} (shallow : e.height ≤ Nesting.limit)
    (legible : e.Legible) : ∃ kind messages, check r e = .ok (kind, messages) := by
  rw [check_eq_conclude]
  cases h : kindOf r Nesting.limit e with
  | ok kind => exact ⟨kind, [], rfl⟩
  | error fault =>
    have ends : ¬ fault.interrupts := fun ends =>
      Nat.not_lt.2 shallow (nested_of_kindOf legible h ends).2
    exact ⟨_, _, if_neg ends⟩

theorem length_check_le {e : Expr} {kind : Kind} {messages : List String}
    (h : check r e = .ok (kind, messages)) : messages.length ≤ 1 := by
  rw [check_eq_conclude] at h
  cases hk : kindOf r Nesting.limit e with
  | ok kind =>
    rw [hk] at h
    cases h
    exact Nat.zero_le 1
  | error fault =>
    rw [hk, conclude] at h
    split at h <;> cases h
    exact Nat.le_refl 1

theorem check_eq_error_iff (free : r.ErrorFree) {e : Expr} {kind : Kind} {messages : List String}
    (h : check r e = .ok (kind, messages)) :
    (kind = .error ↔ ∃ message, messages = [message]) ∧ (kind ≠ .error ↔ messages = []) := by
  rw [check_eq_conclude] at h
  cases hk : kindOf r Nesting.limit e with
  | ok kind =>
    have ne := kindOf_ne_error free e kind hk
    rw [hk] at h
    cases h
    refine ⟨⟨fun h => absurd h ne, ?_⟩, fun _ => rfl, fun _ => ne⟩
    rintro ⟨message, h⟩
    cases h
  | error fault =>
    rw [hk, conclude] at h
    split at h <;> cases h
    refine ⟨⟨fun _ => ⟨_, rfl⟩, fun _ => rfl⟩, fun h => absurd rfl h, ?_⟩
    intro h
    cases h

end

end Criterion
