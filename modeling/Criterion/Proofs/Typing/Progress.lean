import Criterion.Proofs.Evaluation.Order
import Criterion.Proofs.FrontEnds
import Criterion.Proofs.Typing.Standard

namespace Criterion

namespace Run

variable {α β : Type} {p : α → Prop} {q : β → Prop}

/-- A run that has a result with a property, unless it divides by zero, whatever was called
before. -/
def Settles (run : Run α) (p : α → Prop) : Prop :=
  ∀ past, (run past).result = .error (.fault .divisionByZero) ∨
    ∃ a, (run past).result = .ok a ∧ p a

theorem Settles.pure {a : α} (h : p a) : (Pure.pure a : Run α).Settles p :=
  fun _ => .inr ⟨a, rfl, h⟩

theorem Settles.bind {run : Run α} {next : α → Run β} (h : run.Settles p)
    (hn : ∀ a, p a → (next a).Settles q) : (run >>= next).Settles q := by
  intro past
  rcases h past with hd | ⟨a, ha, hp⟩
  · rw [bind_of_error hd]
    exact .inl rfl
  · rw [bind_of_ok ha]
    exact hn a hp _

end Run

namespace BinaryOp

variable {op : BinaryOp} {rule : OperandRule} {v w : Value}

theorem kinds_of_mem (h : rule ∈ op.rules) :
    (rule.left, rule.right) ∈ [(Kind.integer, Kind.integer), (.string, .string),
      (.boolean, .boolean), (.integer, .integerArray), (.string, .stringArray)] := by
  have all : ∀ rule ∈ op.rules, (rule.left, rule.right) ∈ [(Kind.integer, Kind.integer),
      (.string, .string), (.boolean, .boolean), (.integer, .integerArray),
      (.string, .stringArray)] := by
    cases op <;> decide
  exact all rule h

theorem integerOp_settles {a b : Int} {kind : Kind} (h : ⟨.integer, .integer, kind⟩ ∈ op.rules) :
    Value.integerOp op a b = .error .divisionByZero ∨ ∃ x, Value.integerOp op a b = .ok x := by
  cases op with
  | divide =>
    simp only [Value.integerOp]
    split
    · exact .inr ⟨_, rfl⟩
    · exact .inl rfl
  | and | or | member => simp [rules] at h
  | _ => exact .inr ⟨_, rfl⟩

theorem stringOp_settles {a b : String} {kind : Kind} (h : ⟨.string, .string, kind⟩ ∈ op.rules) :
    ∃ x, Value.stringOp op a b = .ok x := by
  cases op with
  | and | or | member | subtract | multiply | divide => simp [rules] at h
  | _ => exact ⟨_, rfl⟩

theorem settles_of_mem (h : rule ∈ op.rules) (hv : v.kind = rule.left) (hw : w.kind = rule.right) :
    v.binaryOp op.text w = .error .divisionByZero ∨ ∃ x, v.binaryOp op.text w = .ok x := by
  obtain ⟨l, r, kind⟩ := rule
  have pair := kinds_of_mem h
  simp only [List.mem_cons, Prod.mk.injEq, List.not_mem_nil, or_false] at pair
  simp only [Value.binaryOp, ofText?_text]
  rcases pair with ⟨rfl, rfl⟩ | ⟨rfl, rfl⟩ | ⟨rfl, rfl⟩ | ⟨rfl, rfl⟩ | ⟨rfl, rfl⟩
  · cases v <;> cases hv
    cases w <;> cases hw
    exact integerOp_settles h
  · cases v <;> cases hv
    cases w <;> cases hw
    exact .inr (stringOp_settles h)
  · cases v <;> cases hv
    cases w <;> cases hw
    right
    cases op with
    | and | or | equal | notEqual => exact ⟨_, rfl⟩
    | _ => simp [rules] at h
  · cases v <;> cases hv
    cases w <;> cases hw
    right
    cases op with
    | and | or | member => exact ⟨_, rfl⟩
    | _ => simp [rules] at h
  · cases v <;> cases hv
    cases w <;> cases hw
    right
    cases op with
    | and | or | member => exact ⟨_, rfl⟩
    | _ => simp [rules] at h

end BinaryOp

theorem Value.exists_unaryOp (op : UnaryOp) (v : Value) : ∃ x, v.unaryOp op.text = .ok x := by
  cases op
  cases v <;> exact ⟨_, rfl⟩

namespace Expr

mutual

/-- Every name of a tree is that of the function of a call. -/
def NamesCalled : Expr → Prop
  | identifier _ => False
  | unary _ operand => operand.NamesCalled
  | binary left _ right => left.NamesCalled ∧ right.NamesCalled
  | call function arguments =>
    ((∃ name, function = identifier name) ∨ function.NamesCalled) ∧ AllNamesCalled arguments
  | program body => body.NamesCalled
  | integer _ | boolean _ | string _ | integers _ | strings _ | absent | foreign _ _ => True

def AllNamesCalled : List Expr → Prop
  | [] => True
  | e :: es => e.NamesCalled ∧ AllNamesCalled es

end

theorem NamesCalled.not_isName {e : Expr} (h : e.NamesCalled) : ¬ IsName e.text := by
  induction e with
  | program body ih => exact ih h
  | identifier name => exact h.elim
  | _ =>
    intro isName
    rcases eq_of_isName isName with ⟨name, he⟩ | ⟨body, he⟩ <;> cases he

theorem eq_identifier_of_called {e : Expr} (h : (∃ name, e = identifier name) ∨ e.NamesCalled)
    (isName : IsName e.text) : e = identifier e.text := by
  rcases h with ⟨name, rfl⟩ | closed
  · rw [text]
  · exact absurd isName closed.not_isName

end Expr

section

variable {host : Host} {env : Environment}

theorem lookUp_length (free : env.get? "len" = none) :
    lookUp .standard env "len" = pure (.function Registry.lengthFunction.builtin) := by
  rw [lookUp, free, Registry.builtin_standard]
  rfl

theorem callKind_length {kind k : Kind} (known : k.Known)
    (h : callKind "len" Registry.lengthFunction.signatures [k] = .ok kind) :
    kind = .integer ∧ Registry.lengthFunction.signatures.any (·.accepts [k]) := by
  rcases callKind_iff.1 h with ⟨error, -⟩ | ⟨-, s, hs, rfl⟩
  · exact absurd (List.mem_singleton.1 error).symm known.2
  · have mem := List.mem_of_find?_eq_some hs
    have integer : ∀ s ∈ Registry.lengthFunction.signatures, s.result = .integer := by decide
    have accepts : s.accepts [k] := by simpa using List.find?_some hs
    exact ⟨integer s mem, List.any_eq_true.2 ⟨s, mem, accepts⟩⟩

theorem length_settles {v : Value}
    (h : Registry.lengthFunction.signatures.any (·.accepts [v.kind])) :
    (callValue host (.function Registry.lengthFunction.builtin) [v]).Settles (·.Has .integer) := by
  rw [← Value.isOk_length] at h
  cases hx : Value.length [v] with
  | error f =>
    rw [hx] at h
    cases h
  | ok x =>
    have integer := Value.kind_of_length hx
    intro past
    rw [callValue, Builtin.apply_length rfl, hx]
    exact .inr ⟨x, rfl, Kind.Known.has (by decide) integer⟩

theorem call_length_settles (free : env.get? "len" = none) {argument : Expr} {room : Nat}
    {k kind : Kind} (known : k.Known)
    (h : callKind "len" Registry.lengthFunction.signatures [k] = .ok kind)
    (settles : (evaluateIn host .standard env (room + 1) argument).Settles (·.Has k)) :
    kind.Known ∧ (evaluateIn host .standard env (room + 2)
      (.call (.identifier "len") [argument])).Settles (·.Has kind) := by
  obtain ⟨rfl, accepted⟩ := callKind_length known h
  refine ⟨by decide, ?_⟩
  rw [evaluateIn, evaluateIn, lookUp_length free, evaluateAllIn, evaluateAllIn]
  apply Run.Settles.bind (p := (· = .function Registry.lengthFunction.builtin)) (.pure rfl)
  rintro callee rfl
  apply Run.Settles.bind (p := fun values => ∃ v, values = [v] ∧ v.Has k)
  · apply settles.bind
    intro v hv
    exact .pure ⟨v, rfl, hv⟩
  · rintro values ⟨v, rfl, hv⟩
    rw [← hv.kind_eq known.1] at accepted
    exact length_settles accepted

variable (host) in
/-- A checked tree whose only names are those of functions that it calls has a value of its kind,
which is never unknown, unless it divides by zero. -/
theorem Expr.settles (free : env.get? "len" = none) {e : Expr} {room : Nat} {kind : Kind}
    (closed : e.NamesCalled) (h : kindOf .standard room e = .ok kind) :
    kind.Known ∧ (evaluateIn host .standard env room e).Settles (·.Has kind) := by
  induction e generalizing room kind with
  | identifier name => exact closed.elim
  | unary sign operand ih =>
    obtain ⟨room, rfl⟩ := room_of_kindOf h
    obtain ⟨op, k, hop, hoperand, hk⟩ := kindOf_unary_iff.1 h
    obtain ⟨known, settles⟩ := ih closed hoperand
    obtain rfl := UnaryOp.boolean_of_kindFor hk known.2
    refine ⟨by decide, ?_⟩
    rw [evaluateIn, ← UnaryOp.text_of_ofText? hop]
    apply settles.bind
    intro v hv
    obtain ⟨x, hx⟩ := Value.exists_unaryOp op v
    rw [hx]
    exact .pure (UnaryOp.has_of_kindFor hk hv hx)
  | binary left sign right ihl ihr =>
    obtain ⟨room, rfl⟩ := room_of_kindOf h
    obtain ⟨op, k, k', hop, hleft, hright, hk⟩ := kindOf_binary_iff.1 h
    obtain ⟨known, settles⟩ := ihl closed.1 hleft
    obtain ⟨known', settles'⟩ := ihr closed.2 hright
    have mem := (BinaryOp.kindFor_iff known known').1 hk
    refine ⟨BinaryOp.known_result mem, ?_⟩
    rw [evaluateIn, ← BinaryOp.text_of_ofText? hop]
    apply settles.bind
    intro v hv
    apply settles'.bind
    intro w hw
    rcases BinaryOp.settles_of_mem mem (hv.kind_eq known.1) (hw.kind_eq known'.1) with hd | ⟨x, hx⟩
    · rw [hd]
      exact fun _ => .inl rfl
    · rw [hx]
      exact .pure (BinaryOp.has_of_kindFor hk hv hw hx)
  | call function arguments ihf iha =>
    obtain ⟨room, rfl⟩ := room_of_kindOf h
    obtain ⟨name, shallow, argument, k, rfl, hargument, hk⟩ := kindOf_call_standard h
    obtain ⟨known, settles⟩ := iha argument (List.mem_singleton_self _) closed.2.1 hargument
    obtain ⟨room, rfl⟩ := exists_room shallow
    rw [eq_identifier_of_called closed.1 (name ▸ Registry.isName_length), name]
    exact call_length_settles free known hk settles
  | program body ih =>
    obtain ⟨room, rfl⟩ := room_of_kindOf h
    rw [kindOf] at h
    rw [evaluateIn]
    exact ih closed h
  | absent | foreign kind identity =>
    obtain ⟨room, rfl⟩ := room_of_kindOf h
    rw [kindOf] at h
    cases h
  | _ =>
    obtain ⟨room, rfl⟩ := room_of_kindOf h
    rw [kindOf] at h
    cases h
    rw [evaluateIn]
    exact ⟨by decide, .pure (Kind.Known.has (by decide) rfl)⟩

theorem height_le_of_kindOf {r : Registry} {e : Expr} {room : Nat} {kind : Kind}
    (h : kindOf r room e = .ok kind) : e.height ≤ room := by
  induction e generalizing room kind with
  | unary sign operand ih =>
    obtain ⟨room, rfl⟩ := room_of_kindOf h
    obtain ⟨op, k, -, hk, -⟩ := kindOf_unary_iff.1 h
    exact Nat.succ_le_succ (ih hk)
  | binary left sign right ihl ihr =>
    obtain ⟨room, rfl⟩ := room_of_kindOf h
    obtain ⟨op, k, k', -, hk, hk', -⟩ := kindOf_binary_iff.1 h
    exact Nat.succ_le_succ (Nat.max_le.2 ⟨ihl hk, ihr hk'⟩)
  | call function arguments ihf iha =>
    obtain ⟨room, rfl⟩ := room_of_kindOf h
    obtain ⟨shallow, -, -, kinds, hkinds, -⟩ := kindOf_call_iff.1 h
    refine Nat.succ_le_succ (Nat.max_le.2 ⟨shallow, ?_⟩)
    clear h
    induction arguments generalizing kinds with
    | nil => exact Nat.zero_le _
    | cons e es ih =>
      obtain ⟨k, ks, hk, hks, -⟩ := kindsOf_cons_iff.1 hkinds
      obtain ⟨he, hes⟩ := List.forall_mem_cons.1 iha
      exact Nat.max_le.2 ⟨he hk, ih hes ks hks⟩
  | program body ih =>
    obtain ⟨room, rfl⟩ := room_of_kindOf h
    rw [kindOf] at h
    exact Nat.succ_le_succ (ih h)
  | _ =>
    obtain ⟨room, rfl⟩ := room_of_kindOf h
    exact Nat.succ_le_succ (Nat.zero_le _)

theorem Reading.kind_of_clean [Nesting] {front : FrontEnd} {r : Registry} {source : String}
    (clean : (ofSource front r source).messages = []) :
    ∃ kind, kindOf r Nesting.limit (ofSource front r source).program = .ok kind := by
  have none := messages_eq_nil.1 clean
  have typing : ∀ d ∈ (ofSource front r source).diagnostics, ∃ fault, d = .typing fault :=
    fun d hd => absurd (none ▸ hd) List.not_mem_nil
  obtain ⟨e, -, read⟩ := exists_checked typing
  rw [read] at clean ⊢
  cases hk : kindOf r Nesting.limit (Expr.ofBody (some e)) with
  | ok kind =>
    rw [checked, hk]
    exact ⟨kind, hk⟩
  | error fault =>
    rw [checked, hk] at clean
    cases fault <;> cases clean

/-- A condition that is read without fault, whose only names are those of functions that it calls,
comes to a value of its kind or divides by zero, whatever else its names are bound to. Only a node
that divides an integer by zero makes it do so, and every node comes to what the rules conclude from
the values of its parts. -/
theorem evaluate_settles [Nesting] (host : Host) {front : FrontEnd} {source : String}
    (clean : (Reading.ofSource front .standard source).messages = [])
    (closed : (Reading.ofSource front .standard source).program.NamesCalled)
    (free : env.get? "len" = none) (past : List Call) :
    let program := (Reading.ofSource front .standard source).program
    let visits := program.visits host .standard env past
    ∃ kind, check .standard program = .ok (kind, []) ∧ kind ≠ .unknown ∧
      (∃ v, (evaluate host .standard env program past).value = .ok v ∧
        (v = .error "division by zero" ∧
            (∃ visit ∈ visits, visit.DividesByZero host .standard env) ∨
          ¬ v.isError ∧ v.kind = kind)) ∧
      ∀ visit ∈ visits, visit.Regular host .standard env := by
  obtain ⟨kind, hk⟩ := Reading.kind_of_clean clean
  have shallow := height_le_of_kindOf hk
  obtain ⟨known, settles⟩ := Expr.settles host free closed hk
  refine ⟨kind, ?_, known.1, ?_, fun _ mem => Expr.regular_of_mem_visits shallow mem⟩
  · rw [check, checkAfter, if_pos List.isEmpty_nil, hk]
  · rw [← evaluate] at settles
    rcases settles past with hd | ⟨v, hv, hasKind⟩
    · refine ⟨.error "division by zero", by rw [Outcome.value, hd]; rfl, .inl ⟨rfl, ?_⟩⟩
      exact exists_of_divisionByZero shallow hd
    · refine ⟨v, by rw [Outcome.value, hv], .inr ⟨?_, hasKind.kind_eq known.1⟩⟩
      exact mt Value.isError_iff.1 hasKind.1

end

open Nesting

theorem evaluate_settles_quotient :
    ∃ kind, check .standard (Reading.ofSource .grammar .standard "len(\"a\") / 0").program =
        .ok (kind, []) ∧ kind ≠ .unknown ∧
      ∃ v, (evaluate (fun _ _ _ => .nothing) .standard .empty
          (Reading.ofSource .grammar .standard "len(\"a\") / 0").program []).value = .ok v ∧
        (v = .error "division by zero" ∨ ¬ v.isError ∧ v.kind = kind) := by
  have clean : (Reading.ofSource .grammar .standard "len(\"a\") / 0").messages = [] := by
    decide +kernel
  have program : (Reading.ofSource .grammar .standard "len(\"a\") / 0").program =
      .program (.binary (.call (.identifier "len") [.string "a"]) "/" (.integer 0)) := by
    decide +kernel
  have closed : (Reading.ofSource .grammar .standard "len(\"a\") / 0").program.NamesCalled := by
    rw [program]
    exact ⟨⟨.inl ⟨"len", rfl⟩, trivial, trivial⟩, trivial⟩
  have free : Environment.empty.get? "len" = none := rfl
  obtain ⟨kind, checked, known, ⟨v, value, settled⟩, -⟩ :=
    evaluate_settles (fun _ _ _ => .nothing) clean closed free []
  exact ⟨kind, checked, known, v, value, settled.imp_left And.left⟩

end Criterion
