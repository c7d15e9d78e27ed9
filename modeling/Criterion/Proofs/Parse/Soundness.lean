import Criterion.Proofs.Parse.Equations
import Criterion.Proofs.Parse.Literals

namespace Criterion

open Grammar

theorem TokenKind.precedence_le (kind : TokenKind) : kind.precedence ≤ 8 := by
  cases kind <;> decide

theorem BinaryOp.precedence_pos (op : BinaryOp) : 1 ≤ op.precedence := by
  cases op <;> decide

theorem TokenKind.precedence_of_binaryOp? {kind : TokenKind} {op : BinaryOp}
    (h : kind.binaryOp? = some op) : kind.precedence = op.precedence := by
  rw [precedence, h]

theorem TokenKind.eq_leftParen {kind : TokenKind} (none : kind.binaryOp? = none)
    (h : 1 < kind.precedence) : kind = .leftParen := by
  rw [precedence, none] at h
  by_cases hk : kind = .leftParen
  · exact hk
  · simp [hk, Precedence.lowest] at h

namespace Parse

variable {s t : Stream} {room floor : Nat} {level : Level} {us ws : List Word}

/-- What is read, together with the words before it, is derivable from a level as tight as the
floor, and does not go on. -/
def Reads (floor : Nat) (us : List Word) (o : Outcome Expr s) : Prop :=
  ∃ e ws level, o.result = some e ∧ s.words = ws ++ o.after.words ∧ Derives level e (us ++ ws) ∧
    min floor 6 ≤ level.rank ∧ o.after.kind.precedence ≤ floor

def ReadsOperand (o : Outcome Expr s) : Prop :=
  ∃ e ws level, o.result = some e ∧ s.words = ws ++ o.after.words ∧ Derives level e ws ∧
    6 ≤ level.rank ∧ o.after.kind.precedence ≤ level.rank + 1

def ReadsArguments (o : Outcome (List Expr) s) : Prop :=
  ∃ es ws, o.result = some es ∧ s.words = ws ++ .rightParen :: o.after.words ∧
    (es = [] ∧ ws = [] ∨ DerivesAll es ws)

def ReadsMore (o : Outcome (List Expr) s) : Prop :=
  ∃ es ws, o.result = some es ∧ s.words = ws ++ .rightParen :: o.after.words ∧
    ∀ bs us, DerivesAll bs us → DerivesAll (bs ++ es) (us ++ ws)

theorem Reads.following {o : Outcome Expr t} {complaints : List Complaint} {le : t.left ≤ s.left}
    (h : Reads floor (us ++ ws) o) (hw : s.words = ws ++ t.words) :
    Reads floor us (o.following complaints le) := by
  obtain ⟨e, vs, level, hr, ht, hd, hl, hp⟩ := h
  refine ⟨e, ws ++ vs, level, hr, ?_, by rwa [List.append_assoc] at hd, hl, hp⟩
  rw [hw, ht, List.append_assoc]
  rfl

theorem ReadsOperand.accept {e : Expr} {w : Word} {le : s.next.left ≤ s.left}
    (hw : s.words = w :: s.next.words) (hd : Derives .atom e [w]) :
    ReadsOperand (.accept e s.next le : Outcome Expr s) :=
  ⟨e, [w], .atom, rfl, hw, hd, by decide, Nat.le_succ_of_le (TokenKind.precedence_le _)⟩

theorem Reads.stop {e : Expr} (hd : Derives level e us) (hl : min floor 6 ≤ level.rank)
    (one : 1 ≤ floor) (h : ¬ (s.kind ≠ .endOfInput ∧ floor < s.kind.precedence)) :
    Reads floor us (operators room floor (some e) s) := by
  rw [operators_stop h]
  refine ⟨e, [], level, rfl, rfl, by rwa [List.append_nil], hl, ?_⟩
  change s.kind.precedence ≤ floor
  by_cases hk : s.kind = .endOfInput
  · rw [hk]
    exact one
  · exact Nat.le_of_not_lt fun lt => h ⟨hk, lt⟩

theorem Reads.binary {l : Expr} {op : BinaryOp} (hd : Derives level l us)
    (hp : s.kind.precedence ≤ level.rank + 1)
    (h : s.kind ≠ .endOfInput ∧ floor < s.kind.precedence) (hop : s.kind.binaryOp? = some op)
    (hr : Reads op.precedence [] (expression room op.precedence s.next))
    (ho : ∀ e vs known, (expression room op.precedence s.next).result = some e →
      Derives known (.binary l op.text e) vs → min floor 6 ≤ known.rank →
      (expression room op.precedence s.next).after.kind.precedence ≤ known.rank + 1 →
      Reads floor vs (operators room floor
        ((expression room op.precedence s.next).result.map (.binary l op.text))
        (expression room op.precedence s.next).after)) :
    Reads floor us (operators room floor (some l) s) := by
  obtain ⟨e, vs, tight, he, hw, hr, hl, hs⟩ := hr
  obtain ⟨known, mem, hk⟩ := op.exists_level
  have hlow := Level.rank_le_of_operator mem
  have hop' := TokenKind.precedence_of_binaryOp? hop
  have left : Derives known l us := hd.loosen (by omega)
  have right : Derives known.tighter e vs := by
    refine Derives.loosen (by simpa using hr) ?_
    rw [Level.rank_tighter (Level.ne_atom_of_operator mem)]
    omega
  rw [operators_binary h hop]
  refine (ho e _ known he (left.binary mem right) (by omega) (by omega)).following ?_
  rw [Stream.words_of_more h.1, Token.word_eq_sign.2 hop, hw]
  rfl

theorem Reads.call {l : Expr} (hd : Derives level l us)
    (hp : s.kind.precedence ≤ level.rank + 1) (one : 1 ≤ floor)
    (h : s.kind ≠ .endOfInput ∧ floor < s.kind.precedence) (hop : s.kind.binaryOp? = none)
    (hr : ReadsArguments (arguments room s.next))
    (ho : ∀ es vs, (arguments room s.next).result = some es → Derives .call (.call l es) vs →
      Reads floor vs (operators room floor ((arguments room s.next).result.map (.call l))
        (arguments room s.next).after)) :
    Reads floor us (operators room floor (some l) s) := by
  obtain ⟨es, vs, he, hw, ha⟩ := hr
  have hk := TokenKind.eq_leftParen hop (Nat.lt_of_le_of_lt one h.2)
  have function : Derives .call l us := by
    refine hd.loosen ?_
    rw [hk] at hp
    exact Nat.le_of_succ_le_succ hp
  have whole : Derives .call (.call l es) (us ++ .leftParen :: (vs ++ [.rightParen])) := by
    rcases ha with ⟨rfl, rfl⟩ | ha
    · exact function.call
    · exact function.callWith ha
  rw [operators_call h hop]
  refine (ho es _ he whole).following ?_
  rw [Stream.words_of_kind hk (by decide), hw]
  simp [TokenKind.word]

theorem Reads.logical {o : Outcome Expr s} (h : Reads Precedence.lowest [] o) :
    ∃ e ws, o.result = some e ∧ s.words = ws ++ o.after.words ∧ Derives .logical e ws := by
  obtain ⟨e, ws, level, he, hw, hd, -⟩ := h
  exact ⟨e, ws, he, hw, Derives.loosen (by simpa using hd) level.rank_pos⟩

theorem ReadsArguments.more (more : s.kind ≠ .rightParen)
    (ho : Reads Precedence.lowest [] (expression room Precedence.lowest s))
    (hm : ReadsMore (moreArguments room (expression room Precedence.lowest s).after)) :
    ReadsArguments (arguments room s) := by
  obtain ⟨e, ws, he, hw, hd⟩ := ho.logical
  obtain ⟨es, vs, hes, hv, hds⟩ := hm
  rw [arguments_of_more more]
  refine ⟨e :: es, ws ++ vs, by simp [he, hes], ?_, .inr (hds [e] ws (.one hd))⟩
  rw [hw, hv, List.append_assoc]

theorem ReadsMore.comma (hc : s.kind = .comma)
    (ho : Reads Precedence.lowest [] (expression room Precedence.lowest s.next))
    (hm : ReadsMore (moreArguments room (expression room Precedence.lowest s.next).after)) :
    ReadsMore (moreArguments room s) := by
  obtain ⟨e, ws, he, hw, hd⟩ := ho.logical
  obtain ⟨es, vs, hes, hv, hds⟩ := hm
  rw [moreArguments_of_comma hc]
  refine ⟨e :: es, .comma :: (ws ++ vs), by simp [he, hes], ?_, ?_⟩
  · rw [Stream.words_of_kind hc (by decide), hw, hv]
    simp [TokenKind.word]
  · intro bs us hb
    have hs := hds (bs ++ [e]) (us ++ .comma :: ws) (hb.snoc hd)
    simpa using hs

theorem rightParen_of_expect (h : (expect .rightParen s).complaints = []) :
    s.kind = .rightParen := by
  false_or_by_contra
  rename_i other
  rw [expect_of_other other] at h
  exact nomatch h

theorem ReadsMore.end (hc : s.kind ≠ .comma) (h : (moreArguments room s).complaints = []) :
    ReadsMore (moreArguments room s) := by
  rw [moreArguments_of_end hc] at h ⊢
  have hp := rightParen_of_expect h
  refine ⟨[], [], by simp [expect_of_kind hp, Outcome.accept], ?_, fun bs us hb => ?_⟩
  · simp only [expect_of_kind hp, Outcome.accept]
    exact Stream.words_of_kind hp (by decide)
  · simpa using hb

theorem ReadsOperand.negation (hb : s.kind = .bang)
    (ho : Reads Precedence.unary [] (expression room Precedence.unary s.next)) :
    ReadsOperand (operand room s) := by
  obtain ⟨e, ws, level, he, hw, hd, hl, hp⟩ := ho
  have hd' : Derives .unary e ws := Derives.loosen (by simpa using hd) hl
  rw [operand_bang hb]
  refine ⟨_, .bang :: ws, .unary, by rw [he]; rfl, ?_, hd'.negation, by decide, hp⟩
  rw [Stream.words_of_kind hb (by decide), hw]
  rfl

theorem ReadsOperand.group (hp : s.kind = .leftParen)
    (ho : Reads Precedence.lowest [] (expression room Precedence.lowest s.next))
    (hc : (expression room Precedence.lowest s.next).after.kind = .rightParen) :
    ReadsOperand (operand room s) := by
  obtain ⟨e, ws, he, hw, hd⟩ := ho.logical
  rw [operand_leftParen hp]
  simp only [expect_of_kind hc, Outcome.accept]
  refine ⟨e, .leftParen :: (ws ++ [.rightParen]), .atom, by simp [he], ?_, hd.group, by decide,
    Nat.le_succ_of_le (TokenKind.precedence_le _)⟩
  rw [Stream.words_of_kind hp (by decide), hw, Stream.words_of_kind hc (by decide)]
  simp [TokenKind.word]

theorem ReadsOperand.integer (hk : s.kind = .integer) (h : (integer s).complaints = []) :
    ReadsOperand (integer s) := by
  rw [Parse.integer] at h ⊢
  split at h
  · next value hv =>
    refine .accept (Stream.words_of_kind hk (by decide)) ⟨.numeral s.current.text, rfl, ?_⟩
    rw [Derivation.tree?, hv]
    rfl
  · exact nomatch h

theorem ReadsOperand.array (hk : s.kind = .leftBracket) (h : (array s.next).complaints = []) :
    ReadsOperand (operand room s) := by
  obtain ⟨e, es, hr, ht, hw⟩ := array_sound s.next h
  rw [operand_leftBracket hk]
  refine ⟨e, .leftBracket :: (listed es ++ [.rightBracket]), .atom, hr, ?_,
    ⟨.array es, rfl, ht⟩, by decide, Nat.le_succ_of_le (TokenKind.precedence_le _)⟩
  rw [Stream.words_of_kind hk (by decide), hw]
  simp [TokenKind.word, Outcome.following]

/-- Whatever the readers read without complaint they read as the grammar has it. -/
theorem readers_sound :
    (∀ room floor s, 1 ≤ floor → (expression room floor s).complaints = [] →
      Reads floor [] (expression room floor s)) ∧
    (∀ room floor left s, ∀ l us level, left = some l → Derives level l us →
      min floor 6 ≤ level.rank → s.kind.precedence ≤ level.rank + 1 → 1 ≤ floor →
      (operators room floor left s).complaints = [] →
      Reads floor us (operators room floor left s)) ∧
    (∀ room s, (arguments room s).complaints = [] → ReadsArguments (arguments room s)) ∧
    (∀ room s, (moreArguments room s).complaints = [] → ReadsMore (moreArguments room s)) ∧
    ∀ room s, (operand room s).complaints = [] → ReadsOperand (operand room s) := by
  apply expression.mutual_induct
    (fun room floor s => 1 ≤ floor → (expression room floor s).complaints = [] →
      Reads floor [] (expression room floor s))
    (fun room floor left s => ∀ l us level, left = some l → Derives level l us →
      min floor 6 ≤ level.rank → s.kind.precedence ≤ level.rank + 1 → 1 ≤ floor →
      (operators room floor left s).complaints = [] →
      Reads floor us (operators room floor left s))
    (fun room s => (arguments room s).complaints = [] →
      ReadsArguments (arguments room s))
    (fun room s => (moreArguments room s).complaints = [] →
      ReadsMore (moreArguments room s))
    (fun room s => (operand room s).complaints = [] → ReadsOperand (operand room s))
  case case1 => -- no room
    intro floor s _ h
    rw [expression] at h
    cases h
  case case2 => -- an operand, then operators
    intro floor s room start o ho hs one h
    rw [expression_of_start start] at h ⊢
    obtain ⟨ho', hs'⟩ := List.append_eq_nil_iff.1 h
    obtain ⟨e, ws, level, he, hw, hd, hl, hp⟩ := ho ho'
    exact (hs e ws level he hd (by omega) hp one hs').following hw
  case case3 => -- no operand
    intro floor s room start _ h
    rw [expression_of_no_start start] at h
    cases h
  case case4 => -- an operator without a left operand
    intro room floor s _ o _ _ l us level hl
    cases hl
  case case5 => -- an operator
    intro room floor s more l op hop o ho hs l' us level hl hd hf hp one h
    cases hl
    rw [operators_binary more hop] at h
    obtain ⟨ho', hs'⟩ := List.append_eq_nil_iff.1 h
    refine Reads.binary hd hp more hop (ho op.precedence_pos ho') ?_
    intro e vs known he hb hf' hk
    exact hs (.binary l op.text e) vs known (by rw [he]; rfl) hb hf' hk one hs'
  case case6 => -- a call
    intro room floor s more l hop o ho hs l' us level hl hd hf hp one h
    cases hl
    rw [operators_call more hop] at h
    obtain ⟨ho', hs'⟩ := List.append_eq_nil_iff.1 h
    refine Reads.call hd hp one more hop (ho ho') ?_
    intro es vs he hc
    refine hs (.call l es) vs .call (by rw [he]; rfl) hc ?_ (TokenKind.precedence_le _) one hs'
    exact Nat.le_trans (Nat.min_le_right _ _) (by decide)
  case case7 => -- no further operator
    intro room floor left s stop l us level hl hd hf hp one _
    cases hl
    exact Reads.stop hd hf one stop
  case case8 => -- no arguments
    intro room s hk _
    rw [arguments_of_end hk]
    exact ⟨[], [], rfl, Stream.words_of_kind hk (by decide), .inl ⟨rfl, rfl⟩⟩
  case case9 => -- a first argument
    intro room s hk o ho _ hm h
    rw [arguments_of_more hk] at h
    obtain ⟨ho', hm'⟩ := List.append_eq_nil_iff.1 h
    exact .more hk (ho (Nat.le_refl _) ho') (hm hm')
  case case10 => -- a further argument
    intro room s hk o ho _ hm h
    rw [moreArguments_of_comma hk] at h
    obtain ⟨ho', hm'⟩ := List.append_eq_nil_iff.1 h
    exact .comma hk (ho (Nat.le_refl _) ho') (hm hm')
  case case11 => -- no further argument
    intro room s hk h
    exact .end hk h
  case case12 => -- a name
    intro room s hk _
    rw [operand_identifier hk]
    exact .accept (Stream.words_of_kind hk (by decide)) ⟨.name s.current.text, rfl, rfl⟩
  case case13 => -- a numeral
    intro room s hk h
    rw [operand_integer hk] at h ⊢
    exact .integer hk h
  case case14 => -- a quotation
    intro room s hk _
    rw [operand_string hk]
    exact .accept (Stream.words_of_kind hk (by decide)) ⟨.quotation s.current.text, rfl, rfl⟩
  case case15 => -- true
    intro room s hk _
    rw [operand_trueWord hk]
    exact .accept (Stream.words_of_kind hk (by decide)) ⟨.truth true, rfl, rfl⟩
  case case16 => -- false
    intro room s hk _
    rw [operand_falseWord hk]
    exact .accept (Stream.words_of_kind hk (by decide)) ⟨.truth false, rfl, rfl⟩
  case case17 => -- an array
    intro room s hk h
    rw [operand_leftBracket hk] at h
    exact .array hk h
  case case18 => -- a negation
    intro room s hk ho h
    rw [operand_bang hk] at h
    exact .negation hk (ho (by decide) h)
  case case19 => -- a group
    intro room s hk ho h
    rw [operand_leftParen hk] at h
    obtain ⟨ho', hc⟩ := List.append_eq_nil_iff.1 h
    exact .group hk (ho (Nat.le_refl _) ho') (rightParen_of_expect hc)
  case case20 => -- nothing that an operand starts with
    intro room s h₁ h₂ h₃ h₄ h₅ h₆ h₇ h₈ h
    rw [operand] at h
    split at h <;> contradiction

end Parse

end Criterion
