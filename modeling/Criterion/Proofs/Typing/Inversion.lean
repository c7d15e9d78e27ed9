import Criterion.Proofs.Except
import Criterion.Proofs.Rendering.Legible
import Criterion.Proofs.Typing.Operators

namespace Criterion

def Registry.overloads (r : Registry) (name : String) (arity : Nat) : List Signature :=
  (r.signatures name).filter (·.arguments.length == arity)

theorem Registry.mem_overloads {r : Registry} {name : String} {arity : Nat} {s : Signature} :
    s ∈ r.overloads name arity ↔ s ∈ r.signatures name ∧ s.arguments.length = arity := by
  rw [overloads, List.mem_filter, beq_iff_eq]

theorem Registry.signatures_ne_nil {r : Registry} {name : String} {arity : Nat}
    (h : r.overloads name arity ≠ []) : r.signatures name ≠ [] := by
  intro none
  rw [overloads, none] at h
  exact h rfl

/-- A kind that a value may have and that checking tells. -/
def Kind.Known (k : Kind) : Prop := k ≠ .unknown ∧ k ≠ .error

instance (k : Kind) : Decidable k.Known := inferInstanceAs (Decidable (_ ∧ _))

theorem Kind.Known.has {k : Kind} {v : Value} (known : k.Known) (h : v.kind = k) : v.Has k :=
  ⟨h ▸ known.2, .inl h⟩

theorem UnaryOp.boolean_of_kindFor {op : UnaryOp} {k kind : Kind} (h : op.kindFor k = .ok kind)
    (ne : k ≠ .error) : kind = .boolean := by
  unfold kindFor at h
  split at h
  · exact (Except.ok.inj h).symm
  · exact (Except.ok.inj h).symm
  · exact absurd rfl ne
  · cases h

namespace BinaryOp

variable {op : BinaryOp} {left right : Expr} {l r kind : Kind}

theorem kindFor_of_error (h : l = .error ∨ r = .error) :
    kindFor left op right l r = .ok .error := by
  rw [kindFor, if_pos (by simpa using h)]

theorem kindFor_of_unknown (hl : l ≠ .error) (hr : r ≠ .error) (h : l = .unknown ∨ r = .unknown) :
    kindFor left op right l r = .ok (op.resultOfUnknown l r) := by
  rw [kindFor, if_neg (by simp [hl, hr]), if_pos (by simpa using h)]

theorem kindFor_of_known (hl : l.Known) (hr : r.Known) :
    kindFor left op right l r = match op.ruleFor? l with
      | none => .error (.leftOperand left op right l)
      | some rule =>
        if rule.right = r then .ok rule.result else .error (.rightOperand op rule.right r) :=
  (if_neg (by simp [hl.2, hr.2])).trans (if_neg (by simp [hl.1, hr.1]))

/-- Between operands of known kinds an operator has the kind that a rule for them says. -/
theorem kindFor_iff (hl : l.Known) (hr : r.Known) :
    kindFor left op right l r = .ok kind ↔ ⟨l, r, kind⟩ ∈ op.rules := by
  rw [kindFor_of_known hl hr]
  constructor
  · intro h
    split at h
    · cases h
    · next rule hrule =>
      split at h
      · next hright =>
        have mem : rule ∈ op.rules := List.mem_of_find?_eq_some hrule
        have hleft := List.find?_some hrule
        rw [beq_iff_eq] at hleft
        cases h
        rw [← hleft, ← hright]
        exact mem
      · cases h
  · intro mem
    simp only [ruleFor?_of_mem mem, if_true]

theorem result_mem {rule : OperandRule} (h : rule ∈ op.rules) :
    rule.result ∈ [Kind.integer, .string, .boolean] := by
  have all : ∀ rule ∈ op.rules, rule.result ∈ [Kind.integer, .string, .boolean] := by
    cases op <;> decide
  exact all rule h

theorem known_result {rule : OperandRule} (h : rule ∈ op.rules) : rule.result.Known := by
  have all : ∀ k ∈ [Kind.integer, .string, .boolean], k.Known := by decide
  exact all _ (result_mem h)

theorem known_of_kindFor {fault : TypeFault} (h : kindFor left op right l r = .error fault) :
    l.Known ∧ r.Known := by
  by_cases he : l = .error ∨ r = .error
  · rw [kindFor_of_error he] at h
    cases h
  · rw [not_or] at he
    by_cases hu : l = .unknown ∨ r = .unknown
    · rw [kindFor_of_unknown he.1 he.2 hu] at h
      cases h
    · rw [not_or] at hu
      exact ⟨⟨hu.1, he.1⟩, hu.2, he.2⟩

end BinaryOp

theorem Value.kind_mem_of_binaryOp {sign : String} {v w x : Value}
    (h : v.binaryOp sign w = .ok x) : x.kind ∈ [Kind.integer, .string, .boolean] := by
  cases hop : BinaryOp.ofText? sign with
  | none =>
    rw [binaryOp, hop] at h
    cases h
  | some op =>
    rw [← BinaryOp.text_of_ofText? hop] at h
    rcases kind_of_binaryOp h with ⟨-, boolean⟩ | mem
    · rw [boolean]
      decide
    · exact BinaryOp.result_mem mem

variable {r : Registry} {room : Nat} {kind : Kind}

theorem room_of_kindOf {e : Expr} (h : kindOf r room e = .ok kind) : ∃ rest, room = rest + 1 := by
  cases room with
  | zero =>
    rw [kindOf] at h
    cases h
  | succ rest => exact ⟨rest, rfl⟩

theorem kindOf_unary_iff {sign : String} {operand : Expr} :
    kindOf r (room + 1) (.unary sign operand) = .ok kind ↔
      ∃ op k, UnaryOp.ofText? sign = some op ∧ kindOf r room operand = .ok k ∧
        op.kindFor k = .ok kind := by
  rw [kindOf]
  cases UnaryOp.ofText? sign with
  | none => exact ⟨nofun, fun ⟨_, _, hop, _⟩ => nomatch hop⟩
  | some op =>
    rw [bind_eq_ok]
    constructor
    · rintro ⟨k, hk, h⟩
      exact ⟨op, k, rfl, hk, h⟩
    · rintro ⟨_, k, ⟨⟩, hk, h⟩
      exact ⟨k, hk, h⟩

theorem kindOf_binary_iff {left right : Expr} {sign : String} :
    kindOf r (room + 1) (.binary left sign right) = .ok kind ↔
      ∃ op k k', BinaryOp.ofText? sign = some op ∧ kindOf r room left = .ok k ∧
        kindOf r room right = .ok k' ∧ BinaryOp.kindFor left op right k k' = .ok kind := by
  rw [kindOf]
  cases BinaryOp.ofText? sign with
  | none => exact ⟨nofun, fun ⟨_, _, _, hop, _⟩ => nomatch hop⟩
  | some op =>
    simp only [bind_eq_ok]
    constructor
    · rintro ⟨k, hk, k', hk', h⟩
      exact ⟨op, k, k', rfl, hk, hk', h⟩
    · rintro ⟨_, k, k', ⟨⟩, hk, hk', h⟩
      exact ⟨k, hk, k', hk', h⟩

theorem kindOf_call_of_legible {function : Expr} {arguments : List Expr} (h : function.Legible) :
    kindOf r (room + 1) (.call function arguments) =
      if room < function.height then .error .nestedTooDeeply
      else if (r.signatures function.text).isEmpty then .error (.unknownFunction function.text)
      else if (r.overloads function.text arguments.length).isEmpty then
        .error (.arity function.text ((r.signatures function.text).map (·.arguments.length))
          arguments.length)
      else kindsOf r room arguments >>=
        callKind function.text (r.overloads function.text arguments.length) := by
  rw [kindOf, h]
  rfl

theorem kindOf_call_of_not_legible {function : Expr} {arguments : List Expr}
    (h : ¬ function.Legible) :
    ∃ fault, fault.interrupts ∧ kindOf r (room + 1) (.call function arguments) = .error fault := by
  rw [kindOf]
  split
  · exact ⟨_, rfl, rfl⟩
  · split
    · exact ⟨_, rfl, rfl⟩
    · next text written => exact absurd (Expr.legible_of_render written) h

theorem kindOf_call_iff {function : Expr} {arguments : List Expr} :
    kindOf r (room + 1) (.call function arguments) = .ok kind ↔
      function.height ≤ room ∧ function.Legible ∧
        r.overloads function.text arguments.length ≠ [] ∧
        ∃ kinds, kindsOf r room arguments = .ok kinds ∧
          callKind function.text (r.overloads function.text arguments.length) kinds = .ok kind := by
  by_cases legible : function.Legible
  · rw [kindOf_call_of_legible legible]
    split
    · next deep => exact ⟨nofun, fun ⟨le, _⟩ => absurd le (Nat.not_le.2 deep)⟩
    · next shallow =>
      split
      · next unknown =>
        refine ⟨nofun, fun ⟨_, _, fits, _⟩ => ?_⟩
        exact absurd (List.isEmpty_iff.1 unknown) (Registry.signatures_ne_nil fits)
      · split
        · next misfit =>
          exact ⟨nofun, fun ⟨_, _, fits, _⟩ => absurd (List.isEmpty_iff.1 misfit) fits⟩
        · next fits =>
          rw [bind_eq_ok]
          have room := Nat.not_lt.1 shallow
          exact ⟨fun h => ⟨room, legible, mt List.isEmpty_iff.2 fits, h⟩, fun h => h.2.2.2⟩
  · obtain ⟨fault, -, error⟩ := @kindOf_call_of_not_legible r room function arguments legible
    rw [error]
    exact ⟨nofun, fun ⟨_, h, _⟩ => absurd h legible⟩

theorem kindsOf_cons_iff {e : Expr} {es : List Expr} {kinds : List Kind} :
    kindsOf r room (e :: es) = .ok kinds ↔
      ∃ k ks, kindOf r room e = .ok k ∧ kindsOf r room es = .ok ks ∧ kinds = k :: ks := by
  rw [kindsOf, bind_eq_ok]
  simp only [bind_eq_ok]
  constructor
  · rintro ⟨k, hk, ks, hks, ⟨⟩⟩
    exact ⟨k, ks, hk, hks, rfl⟩
  · rintro ⟨k, ks, hk, hks, rfl⟩
    exact ⟨k, hk, ks, hks, rfl⟩

theorem callKind_iff {name : String} {candidates : List Signature} {found : List Kind} :
    callKind name candidates found = .ok kind ↔
      .error ∈ found ∧ kind = .error ∨
        .error ∉ found ∧ ∃ s, candidates.find? (·.accepts found) = some s ∧ s.result = kind := by
  rw [callKind]
  split
  · next h => simp_all [eq_comm]
  · next h =>
    cases hs : candidates.find? (·.accepts found) with
    | none => simp_all
    | some s => simp_all

variable {fault : TypeFault}

theorem kindOf_unary_error {sign : String} {operand : Expr}
    (h : kindOf r (room + 1) (.unary sign operand) = .error fault) :
    UnaryOp.ofText? sign = none ∧ fault = .unknownUnary sign ∨
      kindOf r room operand = .error fault ∨ ∃ op k, UnaryOp.kindFor op k = .error fault := by
  rw [kindOf] at h
  cases hop : UnaryOp.ofText? sign with
  | none =>
    rw [hop] at h
    cases h
    exact .inl ⟨rfl, rfl⟩
  | some op =>
    rw [hop] at h
    rcases bind_eq_error.1 h with h | ⟨k, -, h⟩
    · exact .inr (.inl h)
    · exact .inr (.inr ⟨op, k, h⟩)

theorem kindOf_binary_error {left right : Expr} {sign : String}
    (h : kindOf r (room + 1) (.binary left sign right) = .error fault) :
    BinaryOp.ofText? sign = none ∧ fault = .unknownBinary sign ∨
      kindOf r room left = .error fault ∨ kindOf r room right = .error fault ∨
      ∃ op k k', BinaryOp.ofText? sign = some op ∧ kindOf r room left = .ok k ∧
        kindOf r room right = .ok k' ∧ BinaryOp.kindFor left op right k k' = .error fault := by
  rw [kindOf] at h
  cases hop : BinaryOp.ofText? sign with
  | none =>
    rw [hop] at h
    cases h
    exact .inl ⟨rfl, rfl⟩
  | some op =>
    rw [hop] at h
    rcases bind_eq_error.1 h with h | ⟨k, hk, h⟩
    · exact .inr (.inl h)
    · rcases bind_eq_error.1 h with h | ⟨k', hk', h⟩
      · exact .inr (.inr (.inl h))
      · exact .inr (.inr (.inr ⟨op, k, k', rfl, hk, hk', h⟩))

theorem kindOf_call_error {function : Expr} {arguments : List Expr}
    (h : kindOf r (room + 1) (.call function arguments) = .error fault) :
    room < function.height ∧ fault = .nestedTooDeeply ∨ ¬ function.Legible ∨
      r.overloads function.text arguments.length = [] ∧ ¬ fault.interrupts ∨
      kindsOf r room arguments = .error fault ∨
      ∃ kinds, kindsOf r room arguments = .ok kinds ∧
        callKind function.text (r.overloads function.text arguments.length) kinds =
          .error fault := by
  by_cases legible : function.Legible
  · rw [kindOf_call_of_legible legible] at h
    split at h
    · next deep =>
      cases h
      exact .inl ⟨deep, rfl⟩
    · split at h
      · next unknown =>
        cases h
        right; right; left
        rw [Registry.overloads, List.isEmpty_iff.1 unknown, List.filter_nil]
        exact ⟨rfl, nofun⟩
      · split at h
        · next misfit =>
          cases h
          exact .inr (.inr (.inl ⟨List.isEmpty_iff.1 misfit, nofun⟩))
        · rcases bind_eq_error.1 h with h | ⟨kinds, hkinds, h⟩
          · exact .inr (.inr (.inr (.inl h)))
          · exact .inr (.inr (.inr (.inr ⟨kinds, hkinds, h⟩)))
  · exact .inr (.inl legible)

theorem kindsOf_error {es : List Expr} (h : kindsOf r room es = .error fault) :
    ∃ e ∈ es, kindOf r room e = .error fault := by
  induction es with
  | nil =>
    rw [kindsOf] at h
    cases h
  | cons e es ih =>
    rw [kindsOf] at h
    rcases bind_eq_error.1 h with h | ⟨k, -, h⟩
    · exact ⟨e, List.mem_cons_self .., h⟩
    · rcases bind_eq_error.1 h with h | ⟨ks, -, h⟩
      · obtain ⟨e', mem, h⟩ := ih h
        exact ⟨e', List.mem_cons_of_mem _ mem, h⟩
      · cases h

theorem callKind_error {name : String} {candidates : List Signature} {found : List Kind}
    (h : callKind name candidates found = .error fault) :
    ∀ s ∈ candidates, ¬ s.accepts found := by
  rw [callKind] at h
  split at h
  · cases h
  · split at h
    · cases h
    · next none => exact List.find?_eq_none.1 none

end Criterion
