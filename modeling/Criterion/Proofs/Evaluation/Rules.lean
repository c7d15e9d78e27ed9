import Criterion.Condition
import Criterion.Proofs.Evaluation.Run
import Criterion.Proofs.Tree
import Criterion.Proofs.Typing.Inversion

/-!
The rules of evaluation. A tree is evaluated by evaluating the trees that it is made of, one after
the other, and then concluding from what they come to.
-/

namespace Criterion

def Reply.result : Reply → Except Halt Value
  | nothing => .ok .null
  | value (.error message) => .error (.fault (.reported message))
  | value v => .ok v
  | foreign kind => .error (.foreign kind)
  | refused messages => .error (.refused messages)
  | exhausted => .error (.fault .nestedTooDeeply)
  | raised e => .error (.raised e)

theorem Reply.run_apply (reply : Reply) (past : List Call) :
    reply.run past = ⟨[], reply.result⟩ := by
  cases reply with
  | value v => cases v <;> rfl
  | _ => rfl

namespace Expr

/-- The trees that a node is made of, in the order of evaluation. -/
def parts : Expr → List Expr
  | unary _ operand => [operand]
  | binary left _ right => [left, right]
  | call function arguments => function :: arguments
  | program body => [body]
  | _ => []

theorem height_eq (e : Expr) : e.height = heights e.parts + 1 := by
  cases e <;> simp [height, parts, heights]

theorem height_le_of_mem_parts {p e : Expr} {room : Nat} (h : p ∈ e.parts)
    (shallow : e.height ≤ room + 1) : p.height ≤ room := by
  rw [height_eq] at shallow
  exact Nat.le_trans (height_le_heights h) (Nat.le_of_succ_le_succ shallow)

theorem induct_parts {motive : Expr → Prop} (node : ∀ e, (∀ p ∈ e.parts, motive p) → motive e)
    (e : Expr) : motive e := by
  induction e with
  | unary op operand ih => exact node _ (List.forall_mem_singleton.2 ih)
  | binary left op right ihl ihr =>
    exact node _ (List.forall_mem_cons.2 ⟨ihl, List.forall_mem_singleton.2 ihr⟩)
  | call function arguments ihf iha => exact node _ (List.forall_mem_cons.2 ⟨ihf, iha⟩)
  | program body ih => exact node _ (List.forall_mem_singleton.2 ih)
  | _ => exact node _ nofun

end Expr

section

variable (host : Host) (r : Registry) (env : Environment)

/-- The last step of a node, once its parts have come to values. -/
def Expr.conclude (e : Expr) (values : List Value) : Run Value :=
  match e, values with
  | .identifier name, _ => lookUp r env name
  | .integer value, _ => pure (.integer value)
  | .boolean value, _ => pure (.boolean value)
  | .string value, _ => pure (.string value)
  | .integers elements, _ => pure (.integers elements)
  | .strings elements, _ => pure (.strings elements)
  | .unary op _, [v] => Run.ofExcept (v.unaryOp op)
  | .binary _ op _, [v, w] => Run.ofExcept (v.binaryOp op w)
  | .call _ _, callee :: arguments => callValue host callee arguments
  | .program _, [v] => pure v
  | .foreign kind _, _ => Run.fail (.unsupported kind)
  | _, _ => Run.fail .empty

/-- What a node comes to by itself, and the calls that it makes: `past` are the calls made before,
and `values` is what its parts have come to. -/
inductive Expr.Concludes (past : List Call) :
    Expr → List Value → List Call → Except Halt Value → Prop
  | literal {e : Expr} {v : Value} (h : e.literal? = some v) : Concludes past e [] [] (.ok v)
  | bound {name : String} {v : Value} (h : env.get? name = some v) (clean : ¬ v.isError) :
      Concludes past (.identifier name) [] [] (.ok v)
  | boundError {name message : String} (h : env.get? name = some (.error message)) :
      Concludes past (.identifier name) [] [] (.error (.fault (.reported message)))
  | registered {name : String} {f : Builtin} (free : env.get? name = none)
      (h : r.get? name = some f) : Concludes past (.identifier name) [] [] (.ok (.function f))
  | notFound {name : String} (free : env.get? name = none) (unknown : r.get? name = none) :
      Concludes past (.identifier name) [] [] (.error (.fault (.notFound name)))
  | unary {op : String} {operand : Expr} {v : Value} :
      Concludes past (.unary op operand) [v] [] ((v.unaryOp op).mapError .fault)
  | binary {op : String} {left right : Expr} {v w : Value} :
      Concludes past (.binary left op right) [v, w] [] ((v.binaryOp op w).mapError .fault)
  | program {body : Expr} {v : Value} : Concludes past (.program body) [v] [] (.ok v)
  | length {function : Expr} {arguments : List Expr} {f : Builtin} {values : List Value}
      (h : f.routine = .length) :
      Concludes past (.call function arguments) (.function f :: values) [⟨f, values⟩]
        ((Value.length values).mapError .fault)
  | host {function : Expr} {arguments : List Expr} {f : Builtin} {values : List Value}
      {number : Nat} (h : f.routine = .host number) :
      Concludes past (.call function arguments) (.function f :: values) [⟨f, values⟩]
        (host past number values).result
  | notFunction {function : Expr} {arguments : List Expr} {callee : Value} {values : List Value}
      (h : ∀ f, callee ≠ .function f) :
      Concludes past (.call function arguments) (callee :: values) []
        (.error (.fault (.notFunction callee.kind)))
  | absent : Concludes past .absent [] [] (.error (.fault .empty))
  | foreign {kind : String} {identity : Nat} :
      Concludes past (.foreign kind identity) [] [] (.error (.fault (.unsupported kind)))

end

section

variable {host : Host} {r : Registry} {env : Environment} {past : List Call}

/-- A tree is evaluated by evaluating its parts and concluding. -/
theorem evaluateIn_eq (room : Nat) (e : Expr) :
    evaluateIn host r env (room + 1) e =
      evaluateAllIn host r env room e.parts >>= e.conclude host r env := by
  cases e <;>
    simp only [evaluateIn, Expr.parts, evaluateAllIn, Expr.conclude, bind_assoc, pure_bind]
  -- a body concludes with what it comes to
  exact (bind_pure _).symm

theorem concludes_conclude {e : Expr} {values : List Value}
    (count : values.length = e.parts.length) :
    e.Concludes host r env past values (e.conclude host r env values past).calls
      (e.conclude host r env values past).result := by
  cases e with
  | identifier name =>
    obtain rfl := List.length_eq_zero_iff.1 count
    rw [Expr.conclude, lookUp]
    cases bound : env.get? name with
    | some v =>
      by_cases error : v.isError
      · cases v <;> first | exact .boundError bound | cases error
      · dsimp only
        rw [Run.ofValue_apply (mt Value.isError_iff.2 error)]
        exact .bound bound error
    | none =>
      cases known : r.get? name with
      | some f => exact .registered bound known
      | none => exact .notFound bound known
  | unary op operand =>
    obtain ⟨v, rfl⟩ := List.length_eq_one_iff.1 count
    rw [Expr.conclude, Run.ofExcept_apply]
    exact .unary
  | binary left op right =>
    obtain ⟨v, rest, rfl⟩ := List.exists_cons_of_length_eq_add_one count
    obtain ⟨w, rfl⟩ := List.length_eq_one_iff.1 (Nat.succ.inj count)
    rw [Expr.conclude, Run.ofExcept_apply]
    exact .binary
  | call function arguments =>
    obtain ⟨callee, values, rfl⟩ := List.exists_cons_of_length_eq_add_one count
    rw [Expr.conclude]
    by_cases isFunction : ∃ f, callee = .function f
    · obtain ⟨f, rfl⟩ := isFunction
      rw [callValue]
      cases routine : f.routine with
      | length =>
        rw [Builtin.apply_length routine]
        exact .length routine
      | host number =>
        rw [Builtin.apply_host routine, Reply.run_apply]
        exact .host routine
    · have other : ∀ f, callee ≠ .function f := fun f hf => isFunction ⟨f, hf⟩
      have result : callValue host callee values = Run.fail (.notFunction callee.kind) := by
        cases callee with
        | function f => exact absurd rfl (other f)
        | _ => rfl
      rw [result]
      exact .notFunction other
  | program body =>
    obtain ⟨v, rfl⟩ := List.length_eq_one_iff.1 count
    exact .program
  | absent =>
    obtain rfl := List.length_eq_zero_iff.1 count
    exact .absent
  | foreign kind identity =>
    obtain rfl := List.length_eq_zero_iff.1 count
    exact .foreign
  | _ =>
    obtain rfl := List.length_eq_zero_iff.1 count
    exact .literal rfl

theorem Expr.Concludes.kind_ne_error {e : Expr} {values : List Value} {calls : List Call}
    {v : Value} (h : e.Concludes host r env past values calls (.ok v))
    (clean : ∀ v ∈ values, v.kind ≠ .error) : v.kind ≠ .error := by
  generalize hr : (Except.ok v : Except Halt Value) = result at h
  cases h with
  | literal h =>
    cases hr
    cases e <;> cases h <;> exact nofun
  | bound _ clean =>
    cases hr
    exact mt Value.isError_iff.2 clean
  | registered =>
    cases hr
    exact nofun
  | program =>
    cases hr
    exact clean _ (List.mem_singleton_self _)
  | unary =>
    rw [Value.kind_of_unaryOp (mapError_eq_ok.1 hr.symm)]
    exact nofun
  | binary =>
    have mem := Value.kind_mem_of_binaryOp (mapError_eq_ok.1 hr.symm)
    intro error
    rw [error] at mem
    exact absurd mem (by decide)
  | length =>
    rw [Value.kind_of_length (mapError_eq_ok.1 hr.symm)]
    exact nofun
  | @host _ _ _ values number =>
    cases reply : host past number values with
    | value w =>
      rw [reply] at hr
      cases w <;> cases hr <;> exact nofun
    | nothing =>
      rw [reply] at hr
      cases hr
      exact nofun
    | _ =>
      rw [reply] at hr
      cases hr
  | _ => cases hr

theorem Value.eq_of_divisionByZero {sign : String} {v w : Value}
    (h : v.binaryOp sign w = .error .divisionByZero) :
    sign = "/" ∧ ∃ a, v = .integer a ∧ w = .integer 0 := by
  cases hop : BinaryOp.ofText? sign with
  | none =>
    rw [binaryOp, hop] at h
    cases h
  | some op =>
    obtain rfl := BinaryOp.text_of_ofText? hop
    rw [binaryOp, hop] at h
    dsimp only at h
    split at h
    · next a b =>
      cases op with
      | divide =>
        refine ⟨rfl, a, rfl, ?_⟩
        by_cases zero : b = 0
        · rw [zero]
        · rw [integerOp, Word.quotient?, if_neg zero] at h
          cases h
      | _ => cases h
    · cases op <;> cases h
    · rw [mixedOp.eq_def] at h
      split at h <;> cases h

theorem Expr.Concludes.divides {e : Expr} {values : List Value} {calls : List Call}
    (h : e.Concludes host r env past values calls (.error (.fault .divisionByZero))) :
    ∃ left right a, e = .binary left "/" right ∧ values = [.integer a, .integer 0] := by
  generalize hr : (Except.error (.fault .divisionByZero) : Except Halt Value) = result at h
  cases h with
  | unary =>
    obtain ⟨fault, hx, hf⟩ := mapError_eq_error.1 hr.symm
    cases hf
    unfold Value.unaryOp at hx
    split at hx
    · cases hx
    · split at hx <;> cases hx
  | binary =>
    obtain ⟨fault, hx, hf⟩ := mapError_eq_error.1 hr.symm
    cases hf
    obtain ⟨rfl, a, rfl, rfl⟩ := Value.eq_of_divisionByZero hx
    exact ⟨_, _, a, rfl, rfl⟩
  | length =>
    obtain ⟨fault, hx, hf⟩ := mapError_eq_error.1 hr.symm
    cases hf
    unfold Value.length at hx
    split at hx <;> cases hx
  | @host _ _ _ values number =>
    cases reply : host past number values with
    | value w =>
      rw [reply] at hr
      cases w <;> cases hr
    | _ =>
      rw [reply] at hr
      cases hr
  | _ => cases hr

theorem evaluateAllIn_congr {room room' : Nat} {es : List Expr}
    (h : ∀ e ∈ es, evaluateIn host r env room e = evaluateIn host r env room' e) :
    evaluateAllIn host r env room es = evaluateAllIn host r env room' es := by
  induction es with
  | nil => rw [evaluateAllIn, evaluateAllIn]
  | cons e es ih =>
    obtain ⟨he, hes⟩ := List.forall_mem_cons.1 h
    rw [evaluateAllIn, evaluateAllIn, he, ih hes]

/-- A level more than a tree has makes no difference to its evaluation. -/
theorem evaluateIn_succ {e : Expr} {room : Nat} (h : e.height ≤ room) :
    evaluateIn host r env (room + 1) e = evaluateIn host r env room e := by
  induction room generalizing e with
  | zero => exact absurd e.height_pos (Nat.not_lt.2 h)
  | succ room ih =>
    rw [evaluateIn_eq, evaluateIn_eq,
      evaluateAllIn_congr fun p hp => ih (Expr.height_le_of_mem_parts hp h)]

theorem length_of_evaluateAllIn {room : Nat} {es : List Expr} {vs : List Value}
    (h : (evaluateAllIn host r env room es past).result = .ok vs) : vs.length = es.length := by
  induction es generalizing vs past with
  | nil =>
    rw [evaluateAllIn] at h
    cases h
    rfl
  | cons e es ih =>
    rw [evaluateAllIn] at h
    obtain ⟨v, -, h⟩ := Run.eq_ok_of_bind h
    obtain ⟨ws, hws, h⟩ := Run.eq_ok_of_bind h
    cases h
    rw [List.length_cons, List.length_cons, ih hws]

theorem kind_of_evaluateAllIn {room : Nat} {es : List Expr} {vs : List Value}
    (ih : ∀ e ∈ es, ∀ past v, (evaluateIn host r env room e past).result = .ok v → v.kind ≠ .error)
    (h : (evaluateAllIn host r env room es past).result = .ok vs) : ∀ v ∈ vs, v.kind ≠ .error := by
  induction es generalizing vs past with
  | nil =>
    rw [evaluateAllIn] at h
    cases h
    exact nofun
  | cons e es ih' =>
    obtain ⟨he, hes⟩ := List.forall_mem_cons.1 ih
    rw [evaluateAllIn] at h
    obtain ⟨v, hv, h⟩ := Run.eq_ok_of_bind h
    obtain ⟨ws, hws, h⟩ := Run.eq_ok_of_bind h
    cases h
    exact List.forall_mem_cons.2 ⟨he _ _ hv, ih' hes hws⟩

/-- No tree has an error as its result: an error value is a fault by then. -/
theorem kind_of_evaluateIn {e : Expr} {room : Nat} {v : Value}
    (h : (evaluateIn host r env room e past).result = .ok v) : v.kind ≠ .error := by
  induction room generalizing e past v with
  | zero =>
    rw [evaluateIn] at h
    cases h
  | succ room ih =>
    rw [evaluateIn_eq] at h
    obtain ⟨values, hparts, hv⟩ := Run.eq_ok_of_bind h
    have concludes := @concludes_conclude host r env
      (past ++ (evaluateAllIn host r env room e.parts past).calls) e values
      (length_of_evaluateAllIn hparts)
    rw [hv] at concludes
    exact concludes.kind_ne_error (kind_of_evaluateAllIn (fun _ _ _ _ h => ih h) hparts)

variable [Nesting]

variable (host r env) in
def evaluateAll (es : List Expr) : Run (List Value) := evaluateAllIn host r env Nesting.limit es

theorem evaluateAll_nil : evaluateAll host r env [] = pure [] := by
  rw [evaluateAll, evaluateAllIn]

theorem evaluateAll_cons {e : Expr} {es : List Expr} :
    evaluateAll host r env (e :: es) =
      evaluate host r env e >>= fun v =>
        evaluateAll host r env es >>= fun vs => pure (v :: vs) := by
  rw [evaluateAll, evaluateAllIn]
  rfl

theorem evaluate_eq {e : Expr} (h : e.height ≤ Nesting.limit) :
    evaluate host r env e = evaluateAll host r env e.parts >>= e.conclude host r env := by
  obtain ⟨room, limit⟩ := Expr.exists_room h
  rw [limit] at h
  rw [evaluate, evaluateAll, limit, evaluateIn_eq, evaluateAllIn_congr fun p hp =>
    (evaluateIn_succ (Expr.height_le_of_mem_parts hp h)).symm]

variable (host r env) in
/-- A tree comes to a value that is no error, after some calls. -/
def Expr.Yields (past : List Call) (e : Expr) (v : Value) : Prop :=
  (evaluate host r env e past).value = .ok v ∧ ¬ v.isError

theorem Expr.yields_iff {e : Expr} {v : Value} :
    e.Yields host r env past v ↔ (evaluate host r env e past).result = .ok v := by
  constructor
  · rintro ⟨hv, clean⟩
    rw [Outcome.value] at hv
    split at hv
    · next hr =>
      cases hv
      exact hr
    · cases hv
      exact absurd rfl clean
    all_goals cases hv
  · intro h
    exact ⟨by rw [Outcome.value, h], mt Value.isError_iff.1 (kind_of_evaluateIn h)⟩

variable (host r env) in
/-- Several trees come to values, each after the calls that those before it have made; together they
have made `calls`. -/
inductive YieldInTurn : List Call → List Expr → List Value → List Call → Prop
  | nil {past : List Call} : YieldInTurn past [] [] []
  | cons {past calls : List Call} {e : Expr} {es : List Expr} {v : Value} {vs : List Value}
      (head : e.Yields host r env past v)
      (rest : YieldInTurn (past ++ (evaluate host r env e past).calls) es vs calls) :
      YieldInTurn past (e :: es) (v :: vs) ((evaluate host r env e past).calls ++ calls)

theorem yieldInTurn_iff {es : List Expr} {vs : List Value} {calls : List Call} :
    YieldInTurn host r env past es vs calls ↔ evaluateAll host r env es past = ⟨calls, .ok vs⟩ := by
  induction es generalizing past vs calls with
  | nil =>
    rw [evaluateAll_nil]
    constructor
    · rintro ⟨⟩
      rfl
    · rintro ⟨⟩
      exact .nil
  | cons e es ih =>
    rw [evaluateAll_cons]
    constructor
    · rintro (_ | ⟨head, rest⟩)
      rw [Run.bind_of_ok (Expr.yields_iff.1 head), Run.bind_of_ok (by rw [ih.1 rest]), ih.1 rest,
        Run.pure_apply, List.append_nil]
    · intro h
      obtain ⟨v, hv, h'⟩ := Run.eq_ok_of_bind (congrArg Outcome.result h)
      obtain ⟨ws, hws, h'⟩ := Run.eq_ok_of_bind h'
      rw [Run.bind_of_ok hv, Run.bind_of_ok hws, Run.pure_apply, List.append_nil] at h
      cases h
      exact .cons (Expr.yields_iff.2 hv) (ih.2 (by rw [← hws]))

/-- What every node comes to, from what its parts come to. -/
theorem evaluate_concludes {e : Expr} (h : e.height ≤ Nesting.limit) {values : List Value}
    {calls : List Call} (parts : YieldInTurn host r env past e.parts values calls) :
    ∃ own result, e.Concludes host r env (past ++ calls) values own result ∧
      evaluate host r env e past = ⟨calls ++ own, result⟩ := by
  have ran := yieldInTurn_iff.1 parts
  have count := length_of_evaluateAllIn (congrArg Outcome.result ran)
  refine ⟨_, _, concludes_conclude count, ?_⟩
  rw [evaluate_eq h, Run.bind_of_ok (congrArg Outcome.result ran), ran]

end

end Criterion
