import Criterion.Proofs.Grammar.Recognition

/-!
What the machine is in the middle of is always the start of something derivable: its frames stand
for words that wait for more, and its drafts are those of derivations.
-/

namespace Criterion.Grammar

open Machine

variable {level : Level} {stack : List Frame} {us vs ws : List Word} {draft : Draft}

/-- Drafts are those of the arguments before the one that is due. -/
def Opened (drafts : List Draft) (ws : List Word) : Prop :=
  drafts = [] ∧ ws = [] ∨ ∃ as : Arguments, as.Drafts drafts ∧ ws = as.words ++ [.comma]

/-- Frames stand for words that wait for more. -/
inductive Stacked : List Frame → List Word → Prop
  | nil : Stacked [] []
  | negation {stack : List Frame} {ws : List Word} (below : Stacked stack ws) :
      Stacked (.negation UnaryOp.not.text :: stack) (ws ++ [.bang])
  | pending {stack : List Frame} {ws : List Word} {level : Level} {left : Draft} {op : BinaryOp}
      (below : Stacked stack ws) (d : Derivation level) (drafts : d.Drafts left)
      (known : op ∈ level.operators) (free : OpenFor level.rank stack) :
      Stacked (.pending left level.rank op.text :: stack) (ws ++ d.words ++ [.sign op])
  | group {stack : List Frame} {ws : List Word} (below : Stacked stack ws) :
      Stacked (.group :: stack) (ws ++ [.leftParen])
  | call {stack : List Frame} {ws vs : List Word} {f : Draft} {as : List Draft}
      (below : Stacked stack ws) (d : Derivation .call) (drafts : d.Drafts f)
      (opened : Opened as vs) :
      Stacked (.call f as :: stack) (ws ++ d.words ++ [.leftParen] ++ vs)

/-- What derives from a level of a rank can be the operand that the top of a stack waits for. -/
def Fits (rank : Nat) : List Frame → Prop
  | .negation _ :: _ => Level.unary.rank ≤ rank
  | .pending _ l _ :: _ => l < rank
  | _ => True

theorem OpenFor.fits {k : Nat} (h : OpenFor k stack) : Fits k stack := by
  cases stack with
  | nil => trivial
  | cons frame stack =>
    cases frame with
    | negation sign => exact h.elim
    | pending left l sign => exact h
    | group => trivial
    | call function arguments => trivial

theorem Stacked.fits {rank : Nat} (h : Stacked stack ws) (hr : Level.unary.rank ≤ rank) :
    Fits rank stack := by
  cases h with
  | nil => trivial
  | negation below => exact hr
  | pending below d drafts known free =>
    exact Nat.lt_of_lt_of_le (Nat.lt_succ_of_le (Level.rank_le_of_operator known)) hr
  | group below => trivial
  | call below d drafts opened => trivial

theorem Derivation.loosen_drafts (other : Level) (d : Derivation level) (hd : d.Drafts draft)
    (le : other.rank ≤ level.rank) :
    ∃ d' : Derivation other, d'.words = d.words ∧ d'.Drafts draft :=
  Derivation.exists_loose (p := fun _ d' => d'.words = d.words ∧ d'.Drafts draft)
    (fun _ _ _ h => h) ⟨d, rfl, hd⟩ le

/-- Settling keeps what a stack and a draft stand for together. -/
theorem Stacked.settle {k : Nat} (h : Stacked stack us) (d : Derivation level)
    (hd : d.Drafts draft) (hf : Fits level.rank stack) (hk : k ≤ level.rank)
    (low : k ≤ Level.unary.rank) :
    ∃ level' vs, ∃ d' : Derivation level', Stacked (Machine.settle k stack draft).1 vs ∧
      d'.Drafts (Machine.settle k stack draft).2 ∧ vs ++ d'.words = us ++ d.words ∧
      k ≤ level'.rank ∧ OpenFor k (Machine.settle k stack draft).1 := by
  induction h generalizing level draft with
  | nil => exact ⟨level, _, d, .nil, hd, rfl, hk, trivial⟩
  | negation below ih =>
    obtain ⟨d', hw, hd'⟩ := d.loosen_drafts .unary hd hf
    obtain ⟨level', vs, e, hs, he, hv, hl, ho⟩ :=
      ih (.negation d') ⟨_, rfl, hd'⟩ (below.fits (Nat.le_refl _)) low
    refine ⟨level', vs, e, hs, he, ?_, hl, ho⟩
    rw [hv, Derivation.words, hw, List.append_assoc, List.singleton_append]
  | @pending stack ws known left op below dl drafts mem free ih =>
    by_cases hl : k ≤ known.rank
    · have tight : known.tighter.rank ≤ level.rank := by
        rw [Level.rank_tighter (Level.ne_atom_of_operator mem)]
        exact hf
      obtain ⟨d', hw, hd'⟩ := d.loosen_drafts _ hd tight
      obtain ⟨level', vs, e, hs, he, hv, hl', ho⟩ :=
        ih (.binary dl op mem d') ⟨_, _, rfl, drafts, hd'⟩ free.fits hl
      rw [Machine.settle, if_pos hl]
      refine ⟨level', vs, e, hs, he, ?_, hl', ho⟩
      rw [hv, Derivation.words, hw]
      simp
    · rw [Machine.settle, if_neg hl]
      exact ⟨level, _, d, below.pending dl drafts mem free, hd, rfl, hk, Nat.lt_of_not_le hl⟩
  | group below ih => exact ⟨level, _, d, below.group, hd, rfl, hk, trivial⟩
  | call below df drafts opened ih =>
    exact ⟨level, _, d, below.call df drafts opened, hd, rfl, hk, trivial⟩

theorem Arguments.not_drafts_nil (as : Arguments) : ¬ as.Drafts [] := by
  cases as with
  | one d =>
    rintro ⟨e, he, -⟩
    exact nomatch he
  | snoc before d =>
    rintro ⟨es, e, he, -⟩
    cases es <;> exact nomatch he

/-- What the machine is in the middle of stands for the words that it has taken. -/
def Machine.Holds (ws : List Word) : Machine → Prop
  | operand stack => Stacked stack ws
  | after stack draft =>
    ∃ us level, ∃ d : Derivation level, Stacked stack us ∧ d.Drafts draft ∧
      Level.call.rank ≤ level.rank ∧ ws = us ++ d.words
  | element stack taken =>
    ∃ (us : List Word) (es : List Element), Stacked stack us ∧
      taken.map Lexeme.word = es.map Element.word ∧
      (es = [] ∧ ws = us ++ [.leftBracket] ∨
        ws = us ++ .leftBracket :: ((es.map Element.word).intersperse .comma ++ [.comma]) ∧ es ≠ [])
  | afterElement stack taken =>
    ∃ (us : List Word) (es : List Element), Stacked stack us ∧
      taken.map Lexeme.word = es.map Element.word ∧
      ws = us ++ .leftBracket :: (es.map Element.word).intersperse .comma ∧ es ≠ []

theorem holds_after {d : Derivation level} (hs : Stacked stack us) (hd : d.Drafts draft)
    (hr : Level.call.rank ≤ level.rank) (hw : ws = us ++ d.words) : (after stack draft).Holds ws :=
  ⟨us, level, d, hs, hd, hr, hw⟩

theorem holds_stepOperand {l : Lexeme} {w : Word} {m : Machine} (hl : l.Spells w)
    (hs : Stacked stack ws) (h : stepOperand stack l = some m) : m.Holds (ws ++ [w]) := by
  cases w with
  | name text =>
    obtain ⟨ht, rfl⟩ := hl
    simp only [stepOperand, ht, Option.some.injEq] at h
    subst h
    exact holds_after (d := .name l.text) hs rfl (by decide) rfl
  | numeral text =>
    obtain ⟨ht, rfl⟩ := hl
    simp only [stepOperand, ht, Option.some.injEq] at h
    subst h
    exact holds_after (d := .numeral l.text) hs rfl (by decide) rfl
  | quotation content =>
    obtain ⟨ht, hx⟩ := hl
    simp only [stepOperand, ht, Option.some.injEq] at h
    subst h
    exact holds_after (d := .quotation content) hs ⟨l, rfl, hx⟩ (by decide) rfl
  | truth value =>
    cases value with
    | true =>
      have ht : l.terminal = .trueWord := hl
      simp only [stepOperand, ht, Option.some.injEq] at h
      subst h
      exact holds_after (d := .truth true) hs rfl (by decide) rfl
    | false =>
      have ht : l.terminal = .falseWord := hl
      simp only [stepOperand, ht, Option.some.injEq] at h
      subst h
      exact holds_after (d := .truth false) hs rfl (by decide) rfl
  | bang =>
    obtain ⟨ht, hx⟩ := hl
    simp only [stepOperand, ht, hx, Option.some.injEq] at h
    subst h
    exact hs.negation
  | leftParen =>
    have ht : l.terminal = .leftParen := hl
    simp only [stepOperand, ht, Option.some.injEq] at h
    subst h
    exact hs.group
  | leftBracket =>
    have ht : l.terminal = .leftBracket := hl
    simp only [stepOperand, ht, Option.some.injEq] at h
    subst h
    exact ⟨ws, [], hs, rfl, .inl ⟨rfl, rfl⟩⟩
  | rightParen =>
    have ht : l.terminal = .rightParen := hl
    simp only [stepOperand, ht] at h
    split at h
    · next f stack =>
      cases h
      cases hs with
      | call below d drafts opened =>
        rcases opened with ⟨-, rfl⟩ | ⟨as, ha, -⟩
        · exact holds_after (d := .call d) below ⟨f, rfl, drafts⟩ (by decide)
            (by simp [Derivation.words])
        · exact absurd ha as.not_drafts_nil
    · cases h
  | sign op =>
    obtain ⟨ht, -⟩ := hl
    cases op <;> simp [stepOperand, ht, BinaryOp.terminal] at h
  | rightBracket =>
    have ht : l.terminal = .rightBracket := hl
    simp [stepOperand, ht] at h
  | comma =>
    have ht : l.terminal = .comma := hl
    simp [stepOperand, ht] at h
  | stray => exact hl.elim

theorem Opened.snoc {drafts : List Draft} (h : Opened drafts vs) (d : Derivation .logical)
    (hd : d.Drafts draft) :
    ∃ as : Arguments, as.Drafts (drafts ++ [draft]) ∧ as.words = vs ++ d.words := by
  rcases h with ⟨rfl, rfl⟩ | ⟨before, hb, rfl⟩
  · exact ⟨.one d, ⟨draft, rfl, hd⟩, rfl⟩
  · exact ⟨.snoc before d, ⟨drafts, draft, rfl, hb, hd⟩, by simp [Arguments.words]⟩

theorem Stacked.settle_all (hs : Stacked stack us) (d : Derivation level) (hd : d.Drafts draft)
    (hr : Level.call.rank ≤ level.rank) {frames : List Frame} {whole : Draft}
    (h : Machine.settle 0 stack draft = (frames, whole)) :
    ∃ vs, ∃ e : Derivation .logical, Stacked frames vs ∧ e.Drafts whole ∧
      vs ++ e.words = us ++ d.words := by
  have high : Level.unary.rank ≤ level.rank := Nat.le_trans (by decide) hr
  obtain ⟨level', vs, d', hs', hd', hw, -, -⟩ :=
    hs.settle (k := 0) d hd (hs.fits high) (Nat.zero_le _) (Nat.zero_le _)
  rw [h] at hs' hd'
  obtain ⟨e, he, hde⟩ := d'.loosen_drafts .logical hd' level'.rank_pos
  exact ⟨vs, e, hs', hde, by rw [he, hw]⟩

theorem holds_stepAfter {l : Lexeme} {w : Word} {m : Machine} (hl : l.Spells w)
    (hs : (after stack draft).Holds ws) (h : stepAfter stack draft l = some m) :
    m.Holds (ws ++ [w]) := by
  obtain ⟨us, level, d, hs, hd, hr, rfl⟩ := hs
  cases w with
  | sign op =>
    obtain ⟨ht, hx⟩ := hl
    obtain ⟨known, mem, -⟩ := op.exists_level
    have low := Level.rank_le_of_operator mem
    have high : 7 ≤ level.rank := hr
    have hlevel : l.terminal.level? = some known.rank := by rw [ht, BinaryOp.level?_terminal mem]
    obtain ⟨level', vs, d', hs', hd', hw, hk, free⟩ :=
      hs.settle (k := known.rank) d hd (hs.fits (Nat.le_trans (by decide) hr)) (by omega)
        (Nat.le_trans low (by decide))
    obtain ⟨e, he, hde⟩ := d'.loosen_drafts _ hd' hk
    simp only [stepAfter, hlevel, hx, Option.some.injEq] at h
    subst h
    rw [← hw, ← he]
    exact hs'.pending e hde mem free
  | leftParen =>
    have ht : l.terminal = .leftParen := hl
    simp only [stepAfter, ht, Terminal.level?, Option.some.injEq] at h
    subst h
    obtain ⟨e, he, hde⟩ := d.loosen_drafts .call hd hr
    have hc := hs.call e hde (.inl ⟨rfl, rfl⟩)
    rw [he] at hc
    simpa [Machine.Holds] using hc
  | rightParen =>
    have ht : l.terminal = .rightParen := hl
    simp only [stepAfter, ht, Terminal.level?] at h
    split at h
    · next frames whole hsettle =>
      cases h
      obtain ⟨vs, e, hs', he, hw⟩ := hs.settle_all d hd hr hsettle
      cases hs' with
      | group below =>
        refine holds_after (d := .group e) below he (by decide) ?_
        rw [← hw, Derivation.words]
        simp
    · next f as frames whole hsettle =>
      cases h
      obtain ⟨vs, e, hs', he, hw⟩ := hs.settle_all d hd hr hsettle
      cases hs' with
      | call below df drafts opened =>
        obtain ⟨args, hargs, hwords⟩ := opened.snoc e he
        refine holds_after (d := .callWith df args) below ⟨f, _, rfl, drafts, hargs⟩ (by decide) ?_
        rw [← hw, Derivation.words, hwords]
        simp
    · cases h
  | comma =>
    have ht : l.terminal = .comma := hl
    simp only [stepAfter, ht, Terminal.level?] at h
    split at h
    · next f as frames whole hsettle =>
      cases h
      obtain ⟨vs, e, hs', he, hw⟩ := hs.settle_all d hd hr hsettle
      cases hs' with
      | call below df drafts opened =>
        obtain ⟨args, hargs, hwords⟩ := opened.snoc e he
        have hc := below.call df drafts (.inr ⟨args, hargs, rfl⟩)
        rw [← hw]
        simpa [Machine.Holds, hwords] using hc
    · cases h
  | name text =>
    obtain ⟨ht, -⟩ := hl
    simp [stepAfter, ht, Terminal.level?] at h
  | numeral text =>
    obtain ⟨ht, -⟩ := hl
    simp [stepAfter, ht, Terminal.level?] at h
  | quotation content =>
    obtain ⟨ht, -⟩ := hl
    simp [stepAfter, ht, Terminal.level?] at h
  | truth value =>
    cases value <;> simp [Lexeme.Spells] at hl <;> simp [stepAfter, hl, Terminal.level?] at h
  | bang =>
    obtain ⟨ht, -⟩ := hl
    simp [stepAfter, ht, Terminal.level?] at h
  | leftBracket =>
    have ht : l.terminal = .leftBracket := hl
    simp [stepAfter, ht, Terminal.level?] at h
  | rightBracket =>
    have ht : l.terminal = .rightBracket := hl
    simp [stepAfter, ht, Terminal.level?] at h
  | stray => exact hl.elim

theorem intersperse_concat {α : Type} {c x : α} : ∀ {xs : List α}, xs ≠ [] →
    (xs ++ [x]).intersperse c = xs.intersperse c ++ [c, x]
  | [], h => absurd rfl h
  | [_], _ => rfl
  | y :: z :: xs, _ => by
    have ih : (z :: xs ++ [x]).intersperse c = (z :: xs).intersperse c ++ [c, x] :=
      intersperse_concat nofun
    rw [List.cons_append, List.cons_append, List.intersperse_cons_cons, ← List.cons_append, ih]
    rfl

theorem holds_element {l : Lexeme} {taken : List Lexeme} {e : Element} (hl : l.word = e.word)
    (hs : (element stack taken).Holds ws) :
    (afterElement stack (taken ++ [l])).Holds (ws ++ [l.word]) := by
  obtain ⟨us, es, hs, ht, ⟨rfl, rfl⟩ | ⟨rfl, some⟩⟩ := hs
  · exact ⟨us, [e], hs, by simp [List.map_eq_nil_iff.1 ht, hl], by simp [hl], nofun⟩
  · refine ⟨us, es ++ [e], hs, by simp [ht, hl], ?_, by simp⟩
    rw [List.map_append, List.map_cons, List.map_nil, intersperse_concat (by simpa using some)]
    simp [hl]

theorem holds_stepElement {l : Lexeme} {taken : List Lexeme} {m : Machine}
    (hs : (element stack taken).Holds ws)
    (h : stepElement stack taken l = some m) : m.Holds (ws ++ [l.word]) := by
  rw [stepElement] at h
  split at h
  · next ht =>
    cases h
    exact holds_element (e := .numeral l.text) (by simp [Lexeme.word, ht, Element.word]) hs
  · next ht =>
    cases h
    exact holds_element (e := .quotation l.content) (by simp [Lexeme.word, ht, Element.word]) hs
  · next ht =>
    split at h
    · next none =>
      cases h
      obtain rfl := List.isEmpty_iff.1 none
      obtain ⟨us, es, hs, hw, ⟨rfl, rfl⟩ | ⟨-, some⟩⟩ := hs
      · exact holds_after (d := .array []) hs ⟨[], rfl, rfl⟩ (by decide)
          (by simp [Lexeme.word, ht, Derivation.words])
      · cases es with
        | nil => exact absurd rfl some
        | cons e es => cases hw
    · cases h
  · cases h

theorem holds_stepAfterElement {l : Lexeme} {taken : List Lexeme} {m : Machine}
    (hs : (afterElement stack taken).Holds ws)
    (h : stepAfterElement stack taken l = some m) : m.Holds (ws ++ [l.word]) := by
  obtain ⟨us, es, hs, hw, rfl, some⟩ := hs
  rw [stepAfterElement] at h
  split at h
  · next ht =>
    cases h
    exact ⟨us, es, hs, hw, .inr ⟨by simp [Lexeme.word, ht], some⟩⟩
  · next ht =>
    cases h
    exact holds_after (d := .array es) hs ⟨taken, rfl, hw⟩ (by decide)
      (by simp [Lexeme.word, ht, Derivation.words])
  · cases h

/-- A step of the machine keeps what it stands for, and adds the word of the lexeme. -/
theorem Machine.holds_step {m m' : Machine} {l : Lexeme} (proper : l.word ≠ .stray)
    (hm : m.Holds ws) (h : m.step l = some m') : m'.Holds (ws ++ [l.word]) := by
  have spells := Lexeme.spells_of_word rfl proper
  cases m with
  | operand stack => exact holds_stepOperand spells hm h
  | after stack draft => exact holds_stepAfter spells hm h
  | element stack taken => exact holds_stepElement hm h
  | afterElement stack taken => exact holds_stepAfterElement hm h

theorem Machine.holds_run {m m' : Machine} {ls : List Lexeme}
    (proper : ∀ l ∈ ls, l.word ≠ .stray) (hm : m.Holds ws) (h : m.run ls = .ok m') :
    m'.Holds (ws ++ ls.map Lexeme.word) := by
  induction ls generalizing m ws with
  | nil =>
    cases h
    simpa using hm
  | cons l ls ih =>
    rw [run] at h
    split at h
    · next next hstep =>
      have hnext := holds_step (proper l (List.mem_cons_self ..)) hm hstep
      have hrun := ih (fun l hl => proper l (List.mem_cons_of_mem _ hl)) hnext h
      simpa using hrun
    · cases h

/-- What the machine takes to the end is a condition, and its draft is that of a derivation. -/
theorem Machine.run_sound {m : Machine} {ls : List Lexeme} (proper : ∀ l ∈ ls, l.word ≠ .stray)
    (h : start.run ls = .ok m) (hf : m.finish = some draft) :
    ∃ d : Derivation .logical, d.words = ls.map Lexeme.word ∧ d.Drafts draft := by
  have initial : start.Holds [] := .nil
  have hm : m.Holds ([] ++ ls.map Lexeme.word) := holds_run proper initial h
  cases m with
  | after stack last =>
    obtain ⟨us, level, d, hs, hd, hr, hw⟩ := hm
    simp only [finish] at hf
    split at hf
    · next whole hsettle =>
      cases hf
      obtain ⟨vs, e, hs', he, hv⟩ := hs.settle_all d hd hr hsettle
      cases hs'
      exact ⟨e, hv.trans hw.symm, he⟩
    · cases hf
  | operand stack => cases hf
  | element stack taken => cases hf
  | afterElement stack taken => cases hf

end Criterion.Grammar
