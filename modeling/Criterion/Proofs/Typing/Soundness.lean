import Criterion.Proofs.Evaluation.Run
import Criterion.Proofs.Except
import Criterion.Proofs.Rendering.Decimal
import Criterion.Proofs.Rendering.Layout
import Criterion.Proofs.Scan.Words
import Criterion.Proofs.Typing.Inversion

namespace Criterion

namespace Run

variable {α β : Type} {p : α → Prop} {q : β → Prop}

/-- A run that ends in a fault, or in a result with a property, whatever was called before. -/
def Safe (run : Run α) (p : α → Prop) : Prop :=
  ∀ past, (∃ f, (run past).result = .error (.fault f)) ∨ ∃ a, (run past).result = .ok a ∧ p a

theorem Safe.fail (f : Fault) : (Run.fail f : Run α).Safe p := fun _ => .inl ⟨f, rfl⟩

theorem Safe.pure {a : α} (h : p a) : (Pure.pure a : Run α).Safe p := fun _ => .inr ⟨a, rfl, h⟩

theorem Safe.mono {p' : α → Prop} {run : Run α} (h : run.Safe p) (imp : ∀ a, p a → p' a) :
    run.Safe p' := by
  intro past
  rcases h past with hf | ⟨a, ha, hp⟩
  · exact .inl hf
  · exact .inr ⟨a, ha, imp a hp⟩

theorem Safe.bind {run : Run α} {next : α → Run β} (h : run.Safe p)
    (hn : ∀ a, p a → (next a).Safe q) : (run >>= next).Safe q := by
  intro past
  rcases h past with ⟨f, hf⟩ | ⟨a, ha, hp⟩
  · exact .inl ⟨f, by rw [bind_of_error hf]⟩
  · rw [bind_of_ok ha]
    exact hn a hp _

theorem Safe.ofExcept {x : Except Fault α} (h : ∀ a, x = .ok a → p a) : (ofExcept x).Safe p := by
  cases x with
  | ok a => exact .pure (h a rfl)
  | error f => exact .fail f

theorem Safe.ofValue {v : Value} {p : Value → Prop} (h : v.kind ≠ .error → p v) :
    (ofValue v).Safe p := by
  cases v with
  | error message => exact .fail _
  | _ => exact .pure (h nofun)

theorem Safe.value {run : Run Value} {p : Value → Prop} (h : run.Safe p) (past : List Call) :
    ∃ v, (run past).value = .ok v ∧ (v.isError ∨ p v) := by
  rcases h past with ⟨f, hf⟩ | ⟨v, hv, hp⟩
  · exact ⟨.error f.message, by rw [Outcome.value, hf], .inl rfl⟩
  · exact ⟨v, by rw [Outcome.value, hv], .inr hp⟩

end Run

/-- No name is bound to a function. -/
def Environment.NoFunction (env : Environment) : Prop :=
  ∀ name f, env.get? name ≠ some (.function f)

/-- A registry whose functions do what their signatures say: a name that has any is one that a
condition can write, and a function that is called with as many values as one of its signatures
declares, none of them an error, answers with an error or a value of the kind declared there,
whatever was called before. -/
structure Registry.Honest (host : Host) (r : Registry) : Prop where
  named : ∀ name, r.signatures name ≠ [] → IsName name
  answers : ∀ name f, r.get? name = some f → ∀ s ∈ r.signatures name, ∀ arguments : List Value,
    arguments.length = s.arguments.length → (∀ v ∈ arguments, ¬ v.isError) →
      ∀ past, ∃ v, (f.apply host arguments past).value = .ok v ∧
        (v.isError ∨ v.kind = s.result ∨ s.result = .unknown)

theorem Registry.Honest.apply {host : Host} {r : Registry} (hr : r.Honest host) {name : String}
    {f : Builtin} (hf : r.get? name = some f) {s : Signature} (hs : s ∈ r.signatures name)
    {arguments : List Value} (length : arguments.length = s.arguments.length)
    (clean : ∀ v ∈ arguments, v.kind ≠ .error) :
    (f.apply host arguments).Safe (·.Has s.result) := by
  intro past
  have noError : ∀ v ∈ arguments, ¬ v.isError := fun v hv => mt Value.isError_iff.1 (clean v hv)
  obtain ⟨v, hv, hk⟩ := hr.answers name f hf s hs arguments length noError past
  rw [Outcome.value] at hv
  split at hv
  · next w hw =>
    cases hv
    have ne := Builtin.kind_of_apply hw
    exact .inr ⟨v, hw, ne, hk.resolve_left (mt Value.isError_iff.1 ne)⟩
  · next f hf => exact .inl ⟨f, hf⟩
  all_goals cases hv

section

variable {host : Host} {r : Registry} {env : Environment}

theorem lookUp_safe (he : env.NoFunction) (name : String) :
    (lookUp r env name).Safe fun v =>
      v.kind ≠ .error ∧ ∀ f, v = .function f → r.get? name = some f := by
  unfold lookUp
  split
  · next v hv =>
    refine .ofValue fun ne => ⟨ne, ?_⟩
    rintro f rfl
    exact absurd hv (he name f)
  · split
    · next f hf =>
      refine .pure ⟨nofun, ?_⟩
      rintro g hg
      cases hg
      exact hf
    · exact .fail _

/-- The text of a tree is a name only if the tree is one, by itself or as a program. -/
theorem Expr.eq_of_isName {e : Expr} (h : IsName e.text) :
    (∃ name, e = .identifier name) ∨ ∃ body, e = .program body := by
  obtain ⟨some, letters, keyword, -⟩ := h
  have not_letter {c : Char} (hc : c ∈ e.text.toList) (other : isLetter c = false) : False :=
    absurd (letters c hc) (by simp [other])
  cases e with
  | identifier name => exact .inl ⟨name, rfl⟩
  | program body => exact .inr ⟨body, rfl⟩
  | integer value =>
    obtain ⟨c, hc⟩ := List.exists_mem_of_ne_nil _ (Text.digits_ne_nil value.natAbs)
    have digit : isDigit c := isDigit_of_core (Text.isDigit_of_mem_digits hc)
    refine (not_letter (c := c) ?_ (not_letter_of_digit digit)).elim
    rw [text, Text.decimal, String.toList_ofList]
    split
    · exact List.mem_cons_of_mem _ hc
    · exact hc
  | boolean value => cases value <;> exact absurd keyword (by decide)
  | string value => exact (not_letter (c := '"') (by simp [text, quote]) rfl).elim
  | integers values =>
    refine (not_letter (c := '[') ?_ rfl).elim
    rw [text, toList_array]
    exact List.mem_cons_self ..
  | strings values =>
    refine (not_letter (c := '[') ?_ rfl).elim
    rw [text, toList_array]
    exact List.mem_cons_self ..
  | unary op operand =>
    refine (not_letter (c := '(') ?_ rfl).elim
    rw [toList_unary]
    exact List.mem_cons_self ..
  | binary left op right =>
    refine (not_letter (c := '(') ?_ rfl).elim
    rw [toList_binary]
    exact List.mem_cons_self ..
  | call function arguments =>
    refine (not_letter (c := '(') ?_ rfl).elim
    rw [toList_call]
    exact List.mem_append_right _ (List.mem_cons_self ..)
  | absent => exact absurd rfl some
  | foreign kind identity => exact absurd rfl some

theorem callee_safe (he : env.NoFunction) {e : Expr} {room : Nat} (h : IsName e.text) :
    (evaluateIn host r env room e).Safe fun v => ∀ f, v = .function f → r.get? e.text = some f := by
  induction room generalizing e with
  | zero =>
    rw [evaluateIn]
    exact .fail _
  | succ room ih =>
    obtain ⟨name, rfl⟩ | ⟨body, rfl⟩ := Expr.eq_of_isName h
    · rw [evaluateIn, Expr.text]
      exact (lookUp_safe he name).mono fun v hv => hv.2
    · rw [evaluateIn, Expr.text]
      exact ih h

variable (host r env) in
/-- A tree that is checked without fault comes to a fault or to a value of its kind. -/
def Expr.Sound (e : Expr) : Prop :=
  ∀ room limit kind, kindOf r limit e = .ok kind → (evaluateIn host r env room e).Safe (·.Has kind)

variable (host r env) in
def Expr.AllSound (es : List Expr) : Prop :=
  ∀ room limit kinds, kindsOf r limit es = .ok kinds →
    (evaluateAllIn host r env room es).Safe fun vs =>
      vs.length = es.length ∧ (∀ v ∈ vs, v.kind ≠ .error) ∧ .error ∉ kinds

namespace Expr.Sound

theorem of_succ {e : Expr}
    (h : ∀ room limit kind, kindOf r (limit + 1) e = .ok kind →
      (evaluateIn host r env (room + 1) e).Safe (·.Has kind)) : e.Sound host r env := by
  intro room limit kind hk
  cases limit with
  | zero =>
    rw [kindOf] at hk
    cases hk
  | succ limit =>
    cases room with
    | zero =>
      rw [evaluateIn]
      exact .fail _
    | succ room => exact h room limit kind hk

theorem literal {e : Expr} (v : Value)
    (value : ∀ room, evaluateIn host r env (room + 1) e = pure v)
    (checked : ∀ limit, kindOf r (limit + 1) e = .ok v.kind) (ne : v.kind ≠ .error) :
    e.Sound host r env := by
  refine of_succ fun room limit kind hk => ?_
  rw [checked] at hk
  cases hk
  rw [value]
  exact .pure ⟨ne, .inl rfl⟩

theorem unary {op : String} {operand : Expr} (h : operand.Sound host r env) :
    (Expr.unary op operand).Sound host r env := by
  refine of_succ fun room limit kind hk => ?_
  rw [kindOf] at hk
  split at hk
  · cases hk
  · next known hop =>
    obtain ⟨k, hoperand, hk⟩ := bind_eq_ok.1 hk
    rw [evaluateIn]
    refine (h room limit k hoperand).bind fun v hv => .ofExcept fun x hx => ?_
    rw [← UnaryOp.text_of_ofText? hop] at hx
    exact UnaryOp.has_of_kindFor hk hv hx

theorem binary {left right : Expr} {op : String} (hl : left.Sound host r env)
    (hr : right.Sound host r env) : (Expr.binary left op right).Sound host r env := by
  refine of_succ fun room limit kind hk => ?_
  rw [kindOf] at hk
  split at hk
  · cases hk
  · next known hop =>
    obtain ⟨k, hleft, hk⟩ := bind_eq_ok.1 hk
    obtain ⟨k', hright, hk⟩ := bind_eq_ok.1 hk
    rw [evaluateIn]
    refine (hl room limit k hleft).bind fun v hv => ?_
    refine (hr room limit k' hright).bind fun w hw => .ofExcept fun x hx => ?_
    rw [← BinaryOp.text_of_ofText? hop] at hx
    exact BinaryOp.has_of_kindFor hk hv hw hx

theorem call (hr : r.Honest host) (he : env.NoFunction) {function : Expr} {arguments : List Expr}
    (h : Expr.AllSound host r env arguments) : (Expr.call function arguments).Sound host r env := by
  refine of_succ fun room limit kind hk => ?_
  obtain ⟨-, -, declared, kinds, harguments, hk⟩ := kindOf_call_iff.1 hk
  have isName : IsName function.text := hr.named _ (Registry.signatures_ne_nil declared)
  rw [evaluateIn]
  refine (callee_safe he isName).bind fun callee hcallee => ?_
  refine (h room limit kinds harguments).bind fun values ⟨length, clean, known⟩ => ?_
  -- A bound name comes to no function, so whatever is called is what the signatures describe.
  obtain ⟨wrong, -⟩ | ⟨-, s, hs, rfl⟩ := callKind_iff.1 hk
  · exact absurd wrong known
  · obtain ⟨mem, count⟩ := Registry.mem_overloads.1 (List.mem_of_find?_eq_some hs)
    cases callee with
    | function f => exact hr.apply (hcallee f rfl) mem (length.trans count.symm) clean
    | _ => exact .fail _

end Expr.Sound

theorem Expr.AllSound.nil : Expr.AllSound host r env [] := by
  intro room limit kinds hk
  rw [kindsOf] at hk
  cases hk
  rw [evaluateAllIn]
  exact .pure ⟨rfl, List.forall_mem_nil _, List.not_mem_nil⟩

theorem Expr.AllSound.cons {e : Expr} {es : List Expr} (h : e.Sound host r env)
    (hs : Expr.AllSound host r env es) : Expr.AllSound host r env (e :: es) := by
  intro room limit kinds hk
  rw [kindsOf] at hk
  obtain ⟨k, he, hk⟩ := bind_eq_ok.1 hk
  obtain ⟨ks, hes, hk⟩ := bind_eq_ok.1 hk
  cases hk
  rw [evaluateAllIn]
  refine (h room limit k he).bind fun v hv => ?_
  refine (hs room limit ks hes).bind fun vs hvs => .pure ?_
  obtain ⟨length, clean, known⟩ := hvs
  refine ⟨?_, ?_, ?_⟩
  · rw [List.length_cons, List.length_cons, length]
  · exact List.forall_mem_cons.2 ⟨hv.1, clean⟩
  · rw [List.mem_cons, not_or]
    exact ⟨hv.ne_error.symm, known⟩

mutual

theorem Expr.sound (hr : r.Honest host) (he : env.NoFunction) : ∀ e : Expr, e.Sound host r env
  | .identifier name => .of_succ fun room limit kind hk => by
    rw [kindOf] at hk
    cases hk
    rw [evaluateIn]
    exact (lookUp_safe he name).mono fun v hv => ⟨hv.1, .inr rfl⟩
  | .integer value => .literal (.integer value) (fun _ => by rw [evaluateIn])
    (fun _ => by rw [kindOf, Value.kind]) nofun
  | .boolean value => .literal (.boolean value) (fun _ => by rw [evaluateIn])
    (fun _ => by rw [kindOf, Value.kind]) nofun
  | .string value => .literal (.string value) (fun _ => by rw [evaluateIn])
    (fun _ => by rw [kindOf, Value.kind]) nofun
  | .integers values => .literal (.integers values) (fun _ => by rw [evaluateIn])
    (fun _ => by rw [kindOf, Value.kind]) nofun
  | .strings values => .literal (.strings values) (fun _ => by rw [evaluateIn])
    (fun _ => by rw [kindOf, Value.kind]) nofun
  | .unary op operand => (operand.sound hr he).unary
  | .binary left op right => (left.sound hr he).binary (right.sound hr he)
  | .call function arguments => .call hr he (Expr.allSound hr he arguments)
  | .program body => .of_succ fun room limit kind hk => by
    rw [kindOf] at hk
    rw [evaluateIn]
    exact body.sound hr he room limit kind hk
  | .absent => .of_succ fun room limit kind hk => by
    rw [kindOf] at hk
    exact nomatch hk
  | .foreign _ _ => .of_succ fun room limit kind hk => by
    rw [kindOf] at hk
    exact nomatch hk

theorem Expr.allSound (hr : r.Honest host) (he : env.NoFunction) :
    ∀ es : List Expr, Expr.AllSound host r env es
  | [] => .nil
  | e :: es => .cons (e.sound hr he) (Expr.allSound hr he es)

end

theorem kindOf_of_check [Nesting] {e : Expr} {kind : Kind} (h : check r e = .ok (kind, [])) :
    kindOf r Nesting.limit e = .ok kind := by
  rw [check, checkAfter, if_pos List.isEmpty_nil] at h
  split at h
  · next k hk =>
    cases h
    exact hk
  · split at h <;> exact nomatch h

/-- Type soundness: with functions that do what their signatures say and no function among the
bound values, whatever is checked without fault evaluates to an error or to a value of the kind that
it was given, if that is known. -/
theorem evaluate_sound [Nesting] (hr : r.Honest host) (he : env.NoFunction) {e : Expr} {kind : Kind}
    (h : check r e = .ok (kind, [])) (past : List Call) :
    ∃ v, (evaluate host r env e past).value = .ok v ∧
      (v.isError ∨ v.kind = kind ∨ kind = .unknown) := by
  have safe := e.sound hr he Nesting.limit Nesting.limit kind (kindOf_of_check h)
  exact (safe.mono fun v hv => hv.2).value past

end

theorem Registry.get?_standard (name : String) :
    standard.functions.get? name = if name = "len" then some lengthFunction else none :=
  Table.get?_insert ..

/-- The functions of the language itself do what their signatures say. -/
theorem Registry.honest_standard (host : Host) : standard.Honest host := by
  refine ⟨fun name declared => ?_, fun name f hf s hs arguments _ _ past => ?_⟩
  · by_cases hn : name = "len"
    · subst hn
      have letters : "len".toList.all isLetter := by decide
      exact ⟨by decide, List.all_eq_true.1 letters, by decide, by decide⟩
    · rw [signatures, get?_standard, if_neg hn] at declared
      exact absurd rfl declared
  · by_cases hn : name = "len"
    · rw [get?, get?_standard, if_pos hn] at hf
      rw [signatures, get?_standard, if_pos hn] at hs
      cases hf
      have result : s.result = .integer := by
        have all : ∀ s ∈ lengthFunction.signatures, s.result = .integer := by decide
        exact all s hs
      have safe :
          (Builtin.apply host lengthFunction.builtin arguments).Safe (·.kind = .integer) := by
        intro past
        rw [Builtin.apply_length rfl]
        cases length : Value.length arguments with
        | error fault => exact .inl ⟨fault, rfl⟩
        | ok v => exact .inr ⟨v, rfl, Value.kind_of_length length⟩
      rw [result]
      exact (safe.mono fun v hv => .inl hv).value past
    · rw [get?, get?_standard, if_neg hn] at hf
      cases hf

open Nesting

theorem evaluate_sound_length :
    ∃ v, (evaluate (fun _ _ _ => .nothing) .standard
          ⟨Table.empty.insert "tags" ⟨.strings ["a"], false⟩⟩
          (.binary (.call (.identifier "len") [.identifier "tags"]) ">" (.integer 0)) []).value =
            .ok v ∧
        (v.isError ∨ v.kind = .boolean ∨ Kind.boolean = .unknown) := by
  have found : kindOf .standard Nesting.limit
      (.binary (.call (.identifier "len") [.identifier "tags"]) ">" (.integer 0)) =
        .ok .boolean := by
    rfl
  have checked : check .standard
      (.binary (.call (.identifier "len") [.identifier "tags"]) ">" (.integer 0)) =
        .ok (.boolean, []) := by
    rw [check, checkAfter, if_pos List.isEmpty_nil, found]
  refine evaluate_sound (Registry.honest_standard _) (fun name f => ?_) checked []
  rw [Environment.get?, Table.get?_insert]
  split
  · intro h
    cases h
  · intro h
    cases h

end Criterion
