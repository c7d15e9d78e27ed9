import Criterion.Proofs.Parse.Nesting
import Criterion.Proofs.Parse.Soundness

/-!
Whatever is derivable is read without complaint, unless it is nested too deeply. A derivation is
read by one reader of an expression, which then looks for operators after what was derived.
-/

namespace Criterion

open Grammar

/-- How tightly the first of some words binds what stands before it. -/
def Grammar.precedenceOf (ws : List Word) : Nat :=
  match ws with
  | [] => Precedence.lowest
  | w :: _ => w.precedence

/-- The greatest floor above which all that derives from a level is read as one expression. -/
def Grammar.Level.ceiling : Level → Nat
  | logical => 1
  | equality => 2
  | relation => 3
  | sum => 4
  | product => 5
  | unary | call | atom => 7

theorem Grammar.Level.ceiling_le_tighter (level : Level) :
    level.ceiling ≤ level.tighter.ceiling := by
  cases level <;> decide

theorem Grammar.Level.ceiling_of_operator {level : Level} {op : BinaryOp}
    (known : op ∈ level.operators) :
    level.ceiling < op.precedence ∧ op.precedence = level.rank + 1 ∧
      op.precedence ≤ level.tighter.ceiling := by
  cases level <;> cases op <;> first | decide | exact absurd known (by decide)

namespace Parse

variable {s t : Stream} {room floor : Nat} {level : Level} {rest : List Word}

theorem Stream.precedence_kind (s : Stream) : s.kind.precedence = precedenceOf s.words := by
  by_cases h : s.kind = .endOfInput
  · rw [words_of_end h, h]
    rfl
  · rw [words_of_more h]
    exact (Token.precedence_word s.current).symm

def Same {α : Type} (o : Outcome α s) (o' : Outcome α t) : Prop :=
  o.result = o'.result ∧ o.complaints = o'.complaints ∧ o.after = o'.after

theorem Same.following {α : Type} {r : Stream} {o : Outcome α s} {o' : Outcome α t}
    {complaints : List Complaint} {le : t.left ≤ r.left} (h : Same o (o'.following complaints le))
    (none : complaints = []) : Same o o' := by
  subst none
  exact h

theorem expression_of_shallow (h : Shallow (expression room floor s).complaints) :
    ∃ room', room = room' + 1 := by
  cases room with
  | zero =>
    rw [expression] at h
    exact absurd rfl (h _ (List.mem_cons_self ..))
  | succ room' => exact ⟨room', rfl⟩

end Parse

namespace Grammar

open Parse

variable {level : Level}

/-- What a derivation derives is read, and then operators are looked for after it. -/
def Derivation.Read (d : Derivation level) : Prop :=
  ∀ e, d.tree? = some e → ∀ room floor (s : Stream) rest, s.words = d.words ++ rest →
    floor ≤ level.ceiling → precedenceOf rest ≤ level.rank + 1 →
    Shallow (expression room floor s).complaints →
    ∃ room' t, room = room' + 1 ∧ t.words = rest ∧
      Same (expression room floor s) (operators room' floor (some e) t)

def Arguments.Read (as : Arguments) : Prop :=
  ∀ es, as.trees? = some es → ∀ room (s : Stream) rest, s.words = as.words ++ rest →
    precedenceOf rest = Precedence.lowest → Shallow (arguments room s).complaints →
    ∃ t, t.words = rest ∧
      (arguments room s).result = (moreArguments room t).result.map (es ++ ·) ∧
      (arguments room s).complaints = (moreArguments room t).complaints ∧
      (arguments room s).after = (moreArguments room t).after

/-- Where nothing that follows binds more tightly than the floor, a derivation is all that is
read. -/
theorem Derivation.Read.complete {d : Derivation level} (h : d.Read) {e : Expr}
    (he : d.tree? = some e) {room floor : Nat} {s : Stream} {rest : List Word}
    (hw : s.words = d.words ++ rest) (hf : floor ≤ level.ceiling)
    (hr : precedenceOf rest ≤ level.rank + 1) (stop : precedenceOf rest ≤ floor)
    (hn : Shallow (expression room floor s).complaints) :
    (expression room floor s).result = some e ∧ (expression room floor s).complaints = [] ∧
      (expression room floor s).after.words = rest := by
  obtain ⟨room', t, -, ht, hs⟩ := h e he room floor s rest hw hf hr hn
  rw [operators_stop (by rw [t.precedence_kind, ht]; omega)] at hs
  obtain ⟨hs, hc, ha⟩ := hs
  exact ⟨hs, hc, by rw [ha, ht]⟩

theorem Derivation.Read.tighter {d : Derivation level.tighter} (h : d.Read)
    (loose : level ≠ .atom) : (Derivation.tighter loose d).Read := by
  intro e he room floor s rest hw hf hr hn
  have hrank := level.rank_le_tighter
  exact h e he room floor s rest hw (Nat.le_trans hf level.ceiling_le_tighter) (by omega) hn

theorem Derivation.Read.operator {left : Derivation level} (h : left.Read) {op : BinaryOp}
    {e : Expr} {room floor : Nat} {s : Stream} {rest : List Word} (he : left.tree? = some e)
    (known : op ∈ level.operators) (hw : s.words = left.words ++ .sign op :: rest)
    (hf : floor ≤ level.ceiling) (hn : Shallow (expression room floor s).complaints) :
    ∃ room' t, room = room' + 1 ∧ t.words = rest ∧
      Same (expression room floor s)
        ((operators room' floor ((expression room' op.precedence t).result.map (.binary e op.text))
          (expression room' op.precedence t).after).following
          (expression room' op.precedence t).complaints
          (expression room' op.precedence t).left_le) := by
  obtain ⟨hlow, hop, -⟩ := Level.ceiling_of_operator known
  obtain ⟨room', t, rfl, ht, hs⟩ := h e he room floor s _ hw hf (Nat.le_of_eq hop) hn
  obtain ⟨more, hword, hnext⟩ := Stream.words_eq_cons ht
  have hkind : t.kind.binaryOp? = some op := Token.word_eq_sign.1 hword
  have hgo : t.kind ≠ .endOfInput ∧ floor < t.kind.precedence := by
    refine ⟨more, ?_⟩
    rw [TokenKind.precedence_of_binaryOp? hkind]
    omega
  rw [operators_binary hgo hkind] at hs
  exact ⟨room', t.next, rfl, hnext, hs⟩

theorem Derivation.Read.binary {left : Derivation level} {right : Derivation level.tighter}
    {op : BinaryOp} (hl : left.Read) (hr : right.Read) (known : op ∈ level.operators) :
    (Derivation.binary left op known right).Read := by
  intro e he room floor s rest hw hf hrest hn
  simp only [tree?, Option.bind_eq_bind, Option.bind_eq_some_iff, Option.pure_def,
    Option.some.injEq] at he
  obtain ⟨l, hel, r, her, rfl⟩ := he
  obtain ⟨-, hop, hhigh⟩ := Level.ceiling_of_operator known
  have hrank := level.rank_le_tighter
  have hw' : s.words = left.words ++ (.sign op :: (right.words ++ rest)) := by
    simpa [words] using hw
  obtain ⟨room', t, rfl, ht, hs⟩ := hl.operator hel known hw' hf hn
  rw [hs.2.1] at hn
  obtain ⟨hres, hcom, haft⟩ := hr.complete her ht hhigh (by omega) (by omega)
    (shallow_append.1 hn).1
  rw [hres] at hs
  exact ⟨room', _, rfl, haft, hs.following hcom⟩

theorem read_of_operand {e : Expr} {room floor : Nat} {s : Stream} {rest : List Word}
    (start : s.kind.startsOperand)
    (h : ∀ room', room = room' + 1 → Shallow (operand room' s).complaints →
      (operand room' s).result = some e ∧ (operand room' s).complaints = [] ∧
        (operand room' s).after.words = rest)
    (hn : Shallow (expression room floor s).complaints) :
    ∃ room' t, room = room' + 1 ∧ t.words = rest ∧
      Same (expression room floor s) (operators room' floor (some e) t) := by
  obtain ⟨room', rfl⟩ := expression_of_shallow hn
  have he : expression (room' + 1) floor s =
      (operators room' floor (operand room' s).result (operand room' s).after).following
        (operand room' s).complaints (operand room' s).left_le := expression_of_start start
  rw [he] at hn ⊢
  obtain ⟨hr, hc, ha⟩ := h room' rfl (shallow_append.1 hn).1
  refine ⟨room', _, rfl, ha, ?_⟩
  rw [hr, hc]
  exact ⟨rfl, rfl, rfl⟩

theorem Derivation.Read.negation {operand : Derivation .unary} (h : operand.Read) :
    (Derivation.negation operand).Read := by
  intro e he room floor s rest hw hf hrest hn
  simp only [tree?, Option.bind_eq_bind, Option.bind_eq_some_iff, Option.pure_def,
    Option.some.injEq] at he
  obtain ⟨e, he, rfl⟩ := he
  have hk : s.kind = .bang := Stream.kind_of_words hw (by decide)
  refine read_of_operand (by rw [hk]; rfl) ?_ hn
  intro room' _ hn
  rw [operand_bang hk] at hn ⊢
  obtain ⟨hr, hc, ha⟩ :=
    h.complete he (Stream.words_eq_cons hw).2.2 (Nat.le_refl Precedence.unary) hrest hrest hn
  exact ⟨by rw [hr]; rfl, hc, ha⟩

theorem Derivation.Read.group {inner : Derivation .logical} (h : inner.Read) :
    (Derivation.group inner).Read := by
  intro e he room floor s rest hw hf hrest hn
  have hk : s.kind = .leftParen := Stream.kind_of_words hw (by decide)
  have hw' : s.next.words = inner.words ++ .rightParen :: rest := by
    simpa using (Stream.words_eq_cons hw).2.2
  refine read_of_operand (by rw [hk]; rfl) ?_ hn
  intro room' _ hn
  rw [operand_leftParen hk] at hn ⊢
  obtain ⟨hr, hc, ha⟩ := h.complete he hw' (Nat.le_refl Precedence.lowest)
    (Nat.le_succ 1) (Nat.le_refl 1) (shallow_append.1 hn).1
  have hp : (expression room' Precedence.lowest s.next).after.kind = .rightParen :=
    Stream.kind_of_words ha (by decide)
  simp only [expect_of_kind hp, hr, hc]
  exact ⟨rfl, rfl, (Stream.words_eq_cons ha).2.2⟩

theorem Derivation.Read.array (elements : List Element) : (Derivation.array elements).Read := by
  intro e he room floor s rest hw hf hrest hn
  have hk : s.kind = .leftBracket := Stream.kind_of_words hw (by decide)
  have hw' : s.next.words = listed elements ++ .rightBracket :: rest := by
    simpa [listed] using (Stream.words_eq_cons hw).2.2
  refine read_of_operand (by rw [hk]; rfl) ?_ hn
  intro room' _ _
  rw [operand_leftBracket hk]
  exact array_complete he hw'

theorem Derivation.Read.word {d : Derivation .atom} {w : Word} (hd : d.words = [w])
    (h : ∀ e room (s : Stream), d.tree? = some e → s.current.word = w → s.kind.startsOperand ∧
      operand room s = .accept e s.next s.left_next_le) : d.Read := by
  intro e he room floor s rest hw hf hrest hn
  rw [hd] at hw
  obtain ⟨-, hword, hnext⟩ := Stream.words_eq_cons hw
  refine read_of_operand (h e room s he hword).1 ?_ hn
  intro room' _ _
  rw [(h e room' s he hword).2]
  exact ⟨rfl, rfl, hnext⟩

theorem Derivation.read_name (text : String) : (Derivation.name text).Read := by
  refine .word rfl fun e room s he hw => ?_
  obtain ⟨hk, ht⟩ := Token.word_eq_name.1 hw
  rw [operand_identifier hk, ht]
  cases he
  exact ⟨by rw [Stream.kind, hk]; rfl, rfl⟩

theorem Derivation.read_numeral (text : String) : (Derivation.numeral text).Read := by
  refine .word rfl fun e room s he hw => ?_
  obtain ⟨hk, ht⟩ := Token.word_eq_numeral.1 hw
  rw [operand_integer hk, integer, ht]
  rw [tree?] at he
  cases hv : Numeral.read text with
  | ok value =>
    rw [hv] at he
    cases he
    exact ⟨by rw [Stream.kind, hk]; rfl, rfl⟩
  | error fault =>
    rw [hv] at he
    cases he

theorem Derivation.read_quotation (content : String) : (Derivation.quotation content).Read := by
  refine .word rfl fun e room s he hw => ?_
  obtain ⟨hk, ht⟩ := Token.word_eq_quotation.1 hw
  rw [operand_string hk, ht]
  cases he
  exact ⟨by rw [Stream.kind, hk]; rfl, rfl⟩

theorem Derivation.read_truth (value : Bool) : (Derivation.truth value).Read := by
  refine .word rfl fun e room s he hw => ?_
  cases he
  cases value with
  | true =>
    have hk : s.kind = .trueWord := Token.kind_of_word hw (by decide)
    rw [operand_trueWord hk, hk]
    exact ⟨rfl, rfl⟩
  | false =>
    have hk : s.kind = .falseWord := Token.kind_of_word hw (by decide)
    rw [operand_falseWord hk, hk]
    exact ⟨rfl, rfl⟩

theorem Derivation.Read.opening {function : Derivation .call} (h : function.Read) {e : Expr}
    {room floor : Nat} {s : Stream} {rest : List Word} (he : function.tree? = some e)
    (hw : s.words = function.words ++ .leftParen :: rest) (hf : floor ≤ Level.call.ceiling)
    (hn : Shallow (expression room floor s).complaints) :
    ∃ room' t, room = room' + 1 ∧ t.words = rest ∧
      Same (expression room floor s)
        ((operators room' floor ((Parse.arguments room' t).result.map (.call e))
          (Parse.arguments room' t).after).following (Parse.arguments room' t).complaints
          (Parse.arguments room' t).left_le) := by
  obtain ⟨room', t, rfl, ht, hs⟩ := h e he room floor s _ hw hf (Nat.le_refl 8) hn
  have hk : t.kind = .leftParen := Stream.kind_of_words ht (by decide)
  have hgo : t.kind ≠ .endOfInput ∧ floor < t.kind.precedence := by
    rw [hk]
    exact ⟨by decide, Nat.lt_succ_of_le hf⟩
  rw [operators_call hgo (by rw [hk]; rfl)] at hs
  exact ⟨room', t.next, rfl, (Stream.words_eq_cons ht).2.2, hs⟩

theorem Derivation.Read.call {function : Derivation .call} (h : function.Read) :
    (Derivation.call function).Read := by
  intro e he room floor s rest hw hf hrest hn
  simp only [tree?, Option.bind_eq_bind, Option.bind_eq_some_iff, Option.pure_def,
    Option.some.injEq] at he
  obtain ⟨f, he, rfl⟩ := he
  have hw' : s.words = function.words ++ (.leftParen :: .rightParen :: rest) := by
    simpa [words] using hw
  obtain ⟨room', t, rfl, ht, hs⟩ := h.opening he hw' hf hn
  have hend : t.kind = .rightParen := Stream.kind_of_words ht (by decide)
  rw [arguments_of_end hend] at hs
  exact ⟨room', _, rfl, (Stream.words_eq_cons ht).2.2, hs.following rfl⟩

theorem Derivation.Read.callWith {function : Derivation .call} {arguments : Arguments}
    (hf : function.Read) (ha : arguments.Read) : (Derivation.callWith function arguments).Read := by
  intro e he room floor s rest hw hfloor hrest hn
  simp only [tree?, Option.bind_eq_bind, Option.bind_eq_some_iff, Option.pure_def,
    Option.some.injEq] at he
  obtain ⟨f, hef, es, hes, rfl⟩ := he
  have hw' : s.words =
      function.words ++ (.leftParen :: (arguments.words ++ .rightParen :: rest)) := by
    simpa [words] using hw
  obtain ⟨room', t, rfl, ht, hs⟩ := hf.opening hef hw' hfloor hn
  rw [hs.2.1] at hn
  obtain ⟨t', ht', hres, hcom, haft⟩ := ha es hes room' t _ ht rfl (shallow_append.1 hn).1
  have hend : t'.kind = .rightParen := Stream.kind_of_words ht' (by decide)
  rw [moreArguments_of_rightParen hend] at hres hcom haft
  have hres' : (Parse.arguments room' t).result = some es := by
    simpa [Outcome.accept] using hres
  rw [hres'] at hs
  refine ⟨room', _, rfl, ?_, hs.following hcom⟩
  rw [haft]
  exact (Stream.words_eq_cons ht').2.2

theorem Derivation.kind_ne_rightParen (d : Derivation level) {s : Stream} {rest : List Word}
    (h : s.words = d.words ++ rest) : s.kind ≠ .rightParen := by
  intro hk
  obtain ⟨w, ws, hw, opens⟩ := d.exists_first
  have hs := Stream.words_of_kind hk (by decide)
  rw [h, hw] at hs
  cases (List.cons.inj hs).1
  cases opens

theorem Arguments.Read.one {d : Derivation .logical} (h : d.Read) : (Arguments.one d).Read := by
  intro es hes room s rest hw hrest hn
  simp only [trees?, Option.bind_eq_bind, Option.bind_eq_some_iff, Option.pure_def,
    Option.some.injEq] at hes
  obtain ⟨e, he, rfl⟩ := hes
  rw [arguments_of_more (d.kind_ne_rightParen hw)] at hn ⊢
  obtain ⟨hr, hc, ha⟩ := h.complete he hw (Nat.le_refl Precedence.lowest)
    (hrest ▸ Nat.le_succ 1) (Nat.le_of_eq hrest) (shallow_append.1 hn).1
  refine ⟨_, ha, ?_, ?_, rfl⟩
  · simp [hr]
  · simp [hc]

theorem Arguments.Read.snoc {before : Arguments} {d : Derivation .logical} (hb : before.Read)
    (h : d.Read) : (Arguments.snoc before d).Read := by
  intro es hes room s rest hw hrest hn
  simp only [trees?, Option.bind_eq_bind, Option.bind_eq_some_iff, Option.pure_def,
    Option.some.injEq] at hes
  obtain ⟨es, hes, e, he, rfl⟩ := hes
  have hw' : s.words = before.words ++ (.comma :: (d.words ++ rest)) := by
    simpa [words] using hw
  obtain ⟨t, ht, hr, hc, ha⟩ := hb es hes room s _ hw' rfl hn
  have hk : t.kind = .comma := Stream.kind_of_words ht (by decide)
  rw [moreArguments_of_comma hk] at hr hc ha
  rw [hc] at hn
  obtain ⟨hr', hc', ha'⟩ := h.complete he (Stream.words_eq_cons ht).2.2
    (Nat.le_refl Precedence.lowest) (hrest ▸ Nat.le_succ 1) (Nat.le_of_eq hrest)
    (shallow_append.1 hn).1
  refine ⟨_, ha', ?_, ?_, ha⟩
  · rw [hr]
    simp [hr', Function.comp_def]
  · rw [hc]
    simp [hc']

mutual

theorem Derivation.read {level : Level} : ∀ d : Derivation level, d.Read
  | .tighter loose d => d.read.tighter loose
  | .binary left _ known right => left.read.binary right.read known
  | .negation operand => operand.read.negation
  | .call function => function.read.call
  | .callWith function arguments => function.read.callWith arguments.read
  | .name text => Derivation.read_name text
  | .numeral text => Derivation.read_numeral text
  | .quotation content => Derivation.read_quotation content
  | .truth value => Derivation.read_truth value
  | .array elements => .array elements
  | .group inner => inner.read.group

theorem Arguments.read : ∀ as : Arguments, as.Read
  | .one d => .one d.read
  | .snoc before d => .snoc before.read d.read

end

end Grammar

end Criterion
