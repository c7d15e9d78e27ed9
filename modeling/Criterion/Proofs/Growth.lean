import Criterion.Proofs.Evaluation.Rules
import Criterion.Proofs.Typing.Soundness

namespace Criterion

namespace Registry

def enter (f : Builtin) (signatures : List Signature) : EStateM Fault Registry Unit := do
  let r ← get
  if r.isFrozen then throw (.frozen f.name)
  else if r.contains f.name then throw (.taken f.name)
  else set { r with functions := r.functions.insert f.name ⟨f, signatures⟩ }

inductive Request
  | register (f : Builtin) (signatures : List Signature)
  | freeze

def Request.act : Request → EStateM Fault Registry Unit
  | register f signatures => enter f signatures
  | freeze => modify Registry.freeze

/-- The registry after a request, whether it was rejected or not. -/
def after (r : Registry) (request : Request) : Registry :=
  match request.act.run r with
  | .ok _ next => next
  | .error _ next => next

def grow (r : Registry) (requests : List Request) : Registry := requests.foldl after r

variable {r next : Registry} {f : Builtin}

theorem enter_run (r : Registry) (f : Builtin) (signatures : List Signature) :
    (enter f signatures).run r =
      match r.register f signatures with
      | .ok next => .ok () next
      | .error fault => .error fault r := by
  have opened : (enter f signatures).run r =
      (if r.isFrozen then throw (.frozen f.name)
        else if r.contains f.name then throw (.taken f.name)
        else set { r with functions := r.functions.insert f.name ⟨f, signatures⟩ } :
        EStateM Fault Registry Unit) r := rfl
  rw [opened, register]
  split
  · rfl
  · split
    · rfl
    · rfl

theorem after_register (r : Registry) (f : Builtin) (signatures : List Signature) :
    r.after (.register f signatures) =
      match r.register f signatures with
      | .ok next => next
      | .error _ => r := by
  rw [after, Request.act, enter_run]
  cases r.register f signatures with
  | ok next => rfl
  | error fault => rfl

theorem after_freeze (r : Registry) : r.after .freeze = r.freeze := rfl

theorem register_eq_error_iff (r : Registry) (f : Builtin) (signatures : List Signature) :
    (∃ fault, r.register f signatures = .error fault) ↔ r.isFrozen ∨ r.contains f.name := by
  rw [register]
  by_cases hf : r.isFrozen
  · rw [if_pos hf]
    exact ⟨fun _ => .inl hf, fun _ => ⟨_, rfl⟩⟩
  · rw [if_neg hf]
    by_cases hn : r.contains f.name
    · rw [if_pos hn]
      exact ⟨fun _ => .inr hn, fun _ => ⟨_, rfl⟩⟩
    · rw [if_neg hn]
      constructor
      · rintro ⟨fault, h⟩
        cases h
      · intro h
        exact absurd h (not_or.2 ⟨hf, hn⟩)

/-- A registry knows what another one does, under the same names. -/
def Extends (next r : Registry) : Prop :=
  ∀ name known, r.functions.get? name = some known → next.functions.get? name = some known

theorem Extends.refl (r : Registry) : r.Extends r := fun _ _ known => known

theorem Extends.trans {last : Registry} (h : last.Extends next) (h' : next.Extends r) :
    last.Extends r :=
  fun name known hk => h name known (h' name known hk)

theorem Extends.get? (h : next.Extends r) {name : String} (known : r.get? name = some f) :
    next.get? name = some f := by
  obtain ⟨entry, hentry, rfl⟩ := Option.map_eq_some_iff.1 known
  rw [Registry.get?, h name entry hentry]
  rfl

theorem Extends.signatures (h : next.Extends r) {name : String} {known : Registration}
    (hk : r.functions.get? name = some known) : next.signatures name = r.signatures name := by
  rw [Registry.signatures, Registry.signatures, hk, h name known hk]

theorem Extends.overloads (h : next.Extends r) {name : String} {arity : Nat}
    (fits : r.overloads name arity ≠ []) :
    next.overloads name arity = r.overloads name arity := by
  cases hk : r.functions.get? name with
  | none =>
    have none : r.signatures name = [] := by rw [Registry.signatures, hk]; rfl
    exact absurd none (signatures_ne_nil fits)
  | some known => rw [Registry.overloads, Registry.overloads, h.signatures hk]

theorem extends_after (r : Registry) (request : Request) : (r.after request).Extends r := by
  cases request with
  | freeze => exact .refl r
  | register f signatures =>
    rw [after_register]
    cases hr : r.register f signatures with
    | error fault => exact .refl r
    | ok next =>
      intro name known hk
      have free : ¬ r.contains f.name := by
        intro taken
        obtain ⟨fault, hf⟩ := (register_eq_error_iff r f signatures).2 (.inr taken)
        rw [hr] at hf
        cases hf
      have other : name ≠ f.name := by
        rintro rfl
        exact free (by rw [contains, Table.contains, hk]; rfl)
      rw [functions_of_register hr, Table.get?_insert, if_neg other]
      exact hk

/-- Requests add to a registry at most, however many there are. -/
theorem extends_grow (requests : List Request) (r : Registry) : (r.grow requests).Extends r := by
  induction requests generalizing r with
  | nil => exact .refl r
  | cons request requests ih => exact (ih (r.after request)).trans (extends_after r request)

theorem after_of_frozen (frozen : r.isFrozen) (request : Request) : r.after request = r := by
  cases request with
  | freeze =>
    rw [after_freeze, freeze, ← frozen]
  | register f signatures =>
    obtain ⟨fault, hf⟩ := (register_eq_error_iff r f signatures).2 (.inl frozen)
    rw [after_register, hf]

theorem grow_of_frozen (frozen : r.isFrozen) (requests : List Request) :
    r.grow requests = r := by
  induction requests with
  | nil => rfl
  | cons request requests ih =>
    rw [grow, List.foldl_cons, after_of_frozen frozen]
    exact ih

end Registry

section

variable {host : Host} {r next : Registry} {env : Environment} {room : Nat}

theorem kindsOf_extends {es : List Expr} {kinds : List Kind}
    (ih : ∀ e ∈ es, ∀ kind, kindOf r room e = .ok kind → kindOf next room e = .ok kind)
    (h : kindsOf r room es = .ok kinds) : kindsOf next room es = .ok kinds := by
  induction es generalizing kinds with
  | nil =>
    rw [kindsOf] at h ⊢
    exact h
  | cons e es ih' =>
    obtain ⟨kind, rest, hk, hrest, rfl⟩ := kindsOf_cons_iff.1 h
    obtain ⟨he, hes⟩ := List.forall_mem_cons.1 ih
    exact kindsOf_cons_iff.2 ⟨kind, rest, he kind hk, ih' hes hrest, rfl⟩

/-- What is checked without a fault is checked so with any registry that knows more. -/
theorem kindOf_extends (more : next.Extends r) {e : Expr} {kind : Kind}
    (h : kindOf r room e = .ok kind) : kindOf next room e = .ok kind := by
  induction e generalizing room kind with
  | unary sign operand ih =>
    obtain ⟨room, rfl⟩ := room_of_kindOf h
    obtain ⟨op, k, hop, hk, h⟩ := kindOf_unary_iff.1 h
    exact kindOf_unary_iff.2 ⟨op, k, hop, ih hk, h⟩
  | binary left sign right ihl ihr =>
    obtain ⟨room, rfl⟩ := room_of_kindOf h
    obtain ⟨op, k, k', hop, hk, hk', h⟩ := kindOf_binary_iff.1 h
    exact kindOf_binary_iff.2 ⟨op, k, k', hop, ihl hk, ihr hk', h⟩
  | call function arguments ihf iha =>
    obtain ⟨room, rfl⟩ := room_of_kindOf h
    obtain ⟨shallow, legible, fits, kinds, hkinds, h⟩ := kindOf_call_iff.1 h
    have hkinds := kindsOf_extends (fun e he kind hk => iha e he hk) hkinds
    rw [kindOf_call_iff, more.overloads fits]
    exact ⟨shallow, legible, fits, kinds, hkinds, h⟩
  | program body ih =>
    obtain ⟨room, rfl⟩ := room_of_kindOf h
    rw [kindOf] at h ⊢
    exact ih h
  | _ =>
    obtain ⟨room, rfl⟩ := room_of_kindOf h
    rw [kindOf] at h ⊢
    exact h

variable {past : List Call} {v : Value}

theorem lookUp_extends (more : next.Extends r) {name : String}
    (h : (lookUp r env name past).result = .ok v) : lookUp next env name = lookUp r env name := by
  rw [lookUp, lookUp]
  rw [lookUp] at h
  cases henv : env.get? name with
  | some bound => rfl
  | none =>
    rw [henv] at h
    cases hf : r.get? name with
    | none =>
      rw [hf] at h
      cases h
    | some f => rw [more.get? hf]

theorem conclude_extends (more : next.Extends r) {e : Expr} {values : List Value}
    (h : (e.conclude host r env values past).result = .ok v) :
    e.conclude host next env values = e.conclude host r env values := by
  unfold Expr.conclude at h ⊢
  split
  · exact lookUp_extends more h
  all_goals rfl

theorem evaluateAllIn_extends {es : List Expr} {vs : List Value}
    (ih : ∀ e past v, (evaluateIn host r env room e past).result = .ok v →
      evaluateIn host next env room e past = evaluateIn host r env room e past)
    (h : (evaluateAllIn host r env room es past).result = .ok vs) :
    evaluateAllIn host next env room es past = evaluateAllIn host r env room es past := by
  induction es generalizing vs past with
  | nil => rw [evaluateAllIn, evaluateAllIn]
  | cons e es ih' =>
    rw [evaluateAllIn] at h
    obtain ⟨v, hv, h⟩ := Run.eq_ok_of_bind h
    obtain ⟨ws, hws, -⟩ := Run.eq_ok_of_bind h
    have head := ih e past v hv
    rw [evaluateAllIn, evaluateAllIn]
    refine Run.bind_congr head fun w hw => ?_
    obtain rfl : v = w := by rw [head, hv] at hw; exact Except.ok.inj hw
    rw [head]
    exact Run.bind_congr (ih' hws) fun _ _ => rfl

/-- What has a value has it with any registry that knows more, and makes the same calls. -/
theorem evaluateIn_extends (more : next.Extends r) {e : Expr}
    (h : (evaluateIn host r env room e past).result = .ok v) :
    evaluateIn host next env room e past = evaluateIn host r env room e past := by
  induction room generalizing e past v with
  | zero => rw [evaluateIn, evaluateIn]
  | succ room ih =>
    rw [evaluateIn_eq] at h
    obtain ⟨values, hvalues, h⟩ := Run.eq_ok_of_bind h
    have parts := evaluateAllIn_extends (fun _ _ _ => ih) hvalues
    rw [evaluateIn_eq, evaluateIn_eq]
    refine Run.bind_congr parts fun values' hvalues' => ?_
    rw [parts, hvalues] at hvalues'
    obtain rfl := Except.ok.inj hvalues'
    rw [conclude_extends more h]

theorem Outcome.result_of_value {outcome : Outcome Value} (h : outcome.value = .ok v)
    (proper : v.isError = false) : outcome.result = .ok v := by
  rw [value] at h
  split at h
  · next w hw =>
    cases h
    exact hw
  · cases h
    cases proper
  all_goals cases h

variable [Nesting]

/-- Whatever is asked of a registry later on, what is checked without a fault has the same kind
still, and what has a value that is no error has it still, with the same calls. A rejected
registration leaves the registry as it was, which is one under a name that is taken or in a frozen
registry; and a frozen registry is left as it was by everything. -/
theorem check_and_evaluate_grow (r : Registry) (requests : List Registry.Request) :
    (∀ e kind, check r e = .ok (kind, []) → check (r.grow requests) e = .ok (kind, [])) ∧
    (∀ host env e past v, (evaluate host r env e past).value = .ok v → v.isError = false →
      evaluate host (r.grow requests) env e past = evaluate host r env e past) ∧
    (∀ f signatures fault left, (Registry.enter f signatures).run r = .error fault left →
      left = r) ∧
    (∀ f signatures, (∃ fault left, (Registry.enter f signatures).run r = .error fault left) ↔
      r.isFrozen ∨ r.contains f.name) ∧
    r.freeze.grow requests = r.freeze := by
  have more := Registry.extends_grow requests r
  refine ⟨?_, ?_, ?_, ?_, Registry.grow_of_frozen rfl requests⟩
  · intro e kind h
    rw [check, checkAfter, if_pos List.isEmpty_nil, kindOf_extends more (kindOf_of_check h)]
  · intro host env e past v h proper
    exact evaluateIn_extends more (Outcome.result_of_value h proper)
  · intro f signatures fault left h
    rw [Registry.enter_run] at h
    cases hr : r.register f signatures with
    | ok next =>
      rw [hr] at h
      cases h
    | error fault' =>
      rw [hr] at h
      cases h
      rfl
  · intro f signatures
    rw [← Registry.register_eq_error_iff r f signatures, Registry.enter_run]
    cases r.register f signatures with
    | error fault => exact ⟨fun _ => ⟨fault, rfl⟩, fun _ => ⟨fault, r, rfl⟩⟩
    | ok next =>
      constructor
      · rintro ⟨fault, left, h⟩
        cases h
      · rintro ⟨fault, h⟩
        cases h

end

open Nesting

theorem check_and_evaluate_grow_length :
    check .standard (.call (.identifier "len") [.string "ab"]) = .ok (.integer, []) ∧
    check (Registry.standard.grow
      [.register ⟨"len", .host 0⟩ [], .register ⟨"f", .host 0⟩ [⟨[], []⟩], .freeze,
        .register ⟨"g", .host 1⟩ []]) (.call (.identifier "len") [.string "ab"]) =
      .ok (.integer, []) ∧
    (evaluate (fun _ _ _ => .nothing) .standard .empty
      (.call (.identifier "len") [.string "ab"]) []).value = .ok (.integer 2) ∧
    evaluate (fun _ _ _ => .nothing) (Registry.standard.grow
      [.register ⟨"len", .host 0⟩ [], .register ⟨"f", .host 0⟩ [⟨[], []⟩], .freeze,
        .register ⟨"g", .host 1⟩ []]) .empty (.call (.identifier "len") [.string "ab"]) [] =
      evaluate (fun _ _ _ => .nothing) .standard .empty
        (.call (.identifier "len") [.string "ab"]) [] ∧
    ∃ fault left, (Registry.enter ⟨"len", .host 0⟩ []).run Registry.standard =
      .error fault left ∧ left = .standard := by
  obtain ⟨checked, evaluated, kept, rejected, -⟩ := check_and_evaluate_grow .standard
    [.register ⟨"len", .host 0⟩ [], .register ⟨"f", .host 0⟩ [⟨[], []⟩], .freeze,
      .register ⟨"g", .host 1⟩ []]
  have kind : check .standard (.call (.identifier "len") [.string "ab"]) = .ok (.integer, []) := rfl
  have value : (evaluate (fun _ _ _ => .nothing) .standard .empty
      (.call (.identifier "len") [.string "ab"]) []).value = .ok (.integer 2) := by rfl
  obtain ⟨fault, left, h⟩ := (rejected ⟨"len", .host 0⟩ []).2 (.inr (by decide))
  exact ⟨kind, checked _ _ kind, value, evaluated _ _ _ _ _ value rfl, fault, left, h,
    kept _ _ _ _ h⟩

end Criterion
