import Criterion.Proofs.Grammar.Invariant

namespace Criterion.Grammar

open Machine

variable {level : Level} {stack : List Frame} {m m' : Machine} {us vs ws : List Word} {w : Word}

/-- A lexeme that is spelled as a word is; what no word is spelled as stands for the stray one. -/
def Word.lexeme : Word → Lexeme
  | .name text => ⟨.word, text, .start⟩
  | .numeral text => ⟨.number, text, .start⟩
  | .quotation content =>
    ⟨.quotation, String.ofList (Text.quotationMark :: (content.toList ++ [Text.quotationMark])),
      .start⟩
  | .truth true => ⟨.trueWord, "true", .start⟩
  | .truth false => ⟨.falseWord, "false", .start⟩
  | .sign op => ⟨op.terminal, op.text, .start⟩
  | .bang => ⟨.bang, UnaryOp.not.text, .start⟩
  | .leftParen => ⟨.leftParen, "(", .start⟩
  | .rightParen => ⟨.rightParen, ")", .start⟩
  | .leftBracket => ⟨.leftBracket, "[", .start⟩
  | .rightBracket => ⟨.rightBracket, "]", .start⟩
  | .comma => ⟨.comma, ",", .start⟩
  | .stray => ⟨.bang, "", .start⟩

theorem Word.word_lexeme (w : Word) : w.lexeme.word = w := by
  cases w with
  | quotation content => simp [lexeme, Lexeme.word, Lexeme.content]
  | truth value => cases value <;> rfl
  | sign op => cases op <;> rfl
  | _ => rfl

theorem Word.map_lexeme (ws : List Word) : (ws.map Word.lexeme).map Lexeme.word = ws := by
  have same : Lexeme.word ∘ Word.lexeme = id := funext word_lexeme
  rw [List.map_map, same, List.map_id]

def Machine.pass (m : Machine) (w : Word) : Option Machine :=
  if w = .stray then none else m.step w.lexeme

def Machine.passAll (m : Machine) (ws : List Word) : Option Machine := ws.foldlM Machine.pass m

theorem Machine.pass_stray (m : Machine) : m.pass .stray = none := rfl

theorem Machine.pass_eq (m : Machine) (proper : w ≠ .stray) : m.pass w = m.step w.lexeme :=
  if_neg proper

@[simp] theorem Machine.passAll_nil (m : Machine) : m.passAll [] = some m := rfl

theorem Machine.passAll_cons (m : Machine) (w : Word) (ws : List Word) :
    m.passAll (w :: ws) = (m.pass w).bind (·.passAll ws) := by
  rw [passAll, List.foldlM_cons]
  rfl

theorem Machine.passAll_append (m : Machine) (us vs : List Word) :
    m.passAll (us ++ vs) = (m.passAll us).bind (·.passAll vs) := by
  rw [passAll, List.foldlM_append]
  rfl

theorem Machine.passAll_eq_some :
    m.passAll ws = some m' ↔ .stray ∉ ws ∧ m.run (ws.map Word.lexeme) = .ok m' := by
  induction ws generalizing m with
  | nil => simp [run]
  | cons w ws ih =>
    rw [passAll_cons, List.mem_cons, not_or, List.map_cons, run]
    by_cases hw : w = .stray
    · subst hw
      simp [pass_stray]
    · rw [pass_eq m hw]
      cases m.step w.lexeme with
      | none => simp
      | some next => simp [ih, Ne.symm hw]

/-- The machine passes the words of a derivation where one of its level can stand. -/
theorem Derivation.passAll (d : Derivation level) (stack : List Frame)
    (free : level.rank ≤ 5 → OpenFor level.rank stack) :
    ∃ frames draft, (operand stack).passAll d.words = some (after frames draft) := by
  obtain ⟨frames, draft, hr, -⟩ := d.taken _ [] stack (Word.map_lexeme d.words) free
  rw [List.append_nil] at hr
  exact ⟨frames, draft, passAll_eq_some.2 ⟨d.stray_notMem, hr⟩⟩

theorem Derivation.passAll_enclosed (d : Derivation .logical) (stack : List Frame)
    (free : OpenFor 0 stack) :
    ∃ frames draft whole, (operand stack).passAll d.words = some (after frames draft) ∧
      settle 0 frames draft = (stack, whole) := by
  obtain ⟨frames, draft, whole, hr, hs, -⟩ :=
    d.taken.enclosed stack [] (Word.map_lexeme d.words) free
  rw [List.append_nil] at hr
  exact ⟨frames, draft, whole, passAll_eq_some.2 ⟨d.stray_notMem, hr⟩, hs⟩

theorem Arguments.passAll (as : Arguments) (stack : List Frame) (f : Draft) :
    ∃ frames draft before last,
      (operand (.call f [] :: stack)).passAll as.words = some (after frames draft) ∧
      settle 0 frames draft = (.call f before :: stack, last) := by
  obtain ⟨frames, draft, before, last, hr, hs, -⟩ :=
    as.taken _ [] stack f (Word.map_lexeme as.words)
  rw [List.append_nil] at hr
  exact ⟨frames, draft, before, last, passAll_eq_some.2 ⟨as.stray_notMem, hr⟩, hs⟩

/-- Words that some condition begins with. -/
def Viable (ws : List Word) : Prop :=
  ∃ (d : Derivation .logical) (more : List Word), d.words = ws ++ more

theorem Viable.of_append (vs : List Word) (h : Viable (ws ++ vs)) : Viable ws := by
  obtain ⟨d, more, hd⟩ := h
  exact ⟨d, vs ++ more, by rw [hd, List.append_assoc]⟩

theorem Derivation.loosen_words (other : Level) (d : Derivation level)
    (le : other.rank ≤ level.rank) : ∃ d' : Derivation other, d'.words = d.words :=
  Derivation.exists_loose (p := fun _ d' => d'.words = d.words) (fun _ _ _ h => h) ⟨d, rfl⟩ le

theorem Opened.exists_words {drafts : List Draft} (h : Opened drafts vs) (d : Derivation .logical) :
    ∃ as : Arguments, as.words = vs ++ d.words := by
  rcases h with ⟨-, rfl⟩ | ⟨before, -, rfl⟩
  · exact ⟨.one d, rfl⟩
  · exact ⟨.snoc before d, by simp [Arguments.words]⟩

theorem Stacked.viable (h : Stacked stack us) (d : Derivation level)
    (fits : Fits level.rank stack) : Viable (us ++ d.words) := by
  induction h generalizing level with
  | nil =>
    obtain ⟨whole, hw⟩ := d.loosen_words .logical level.rank_pos
    exact ⟨whole, [], by simp [hw]⟩
  | negation below ih =>
    obtain ⟨operand, hw⟩ := d.loosen_words .unary fits
    have h := ih (.negation operand) (below.fits (Nat.le_refl _))
    simpa [Derivation.words, hw] using h
  | @pending stack ws known left op below dl drafts mem free ih =>
    obtain ⟨right, hw⟩ := d.loosen_words known.tighter (by
      rw [Level.rank_tighter (Level.ne_atom_of_operator mem)]
      exact fits)
    have h := ih (.binary dl op mem right) free.fits
    simpa [Derivation.words, hw] using h
  | group below ih =>
    obtain ⟨inner, hw⟩ := d.loosen_words .logical level.rank_pos
    have h := ih (.group inner) (below.fits (by decide))
    refine .of_append [.rightParen] ?_
    simpa [Derivation.words, hw] using h
  | call below df drafts opened ih =>
    obtain ⟨last, hw⟩ := d.loosen_words .logical level.rank_pos
    obtain ⟨as, ha⟩ := opened.exists_words last
    have h := ih (.callWith df as) (below.fits (by decide))
    refine .of_append [.rightParen] ?_
    simpa [Derivation.words, hw, ha] using h

/-- The words that the machine has taken are those that some condition begins with: what is still
open can always be closed. -/
theorem Machine.Holds.viable (h : m.Holds ws) : Viable ws := by
  cases m with
  | operand stack =>
    have hs : Stacked stack ws := h
    exact .of_append _ (hs.viable (.name "x") (hs.fits (by decide)))
  | after stack draft =>
    obtain ⟨us, level, d, hs, -, hr, rfl⟩ := h
    exact hs.viable d (hs.fits (Nat.le_trans (by decide) hr))
  | element stack taken =>
    obtain ⟨us, es, hs, -, ⟨-, rfl⟩ | ⟨rfl, some⟩⟩ := h
    · refine .of_append [.rightBracket] ?_
      simpa [Derivation.words] using hs.viable (.array []) (hs.fits (by decide))
    · have h := hs.viable (.array (es ++ [.numeral "0"])) (hs.fits (by decide))
      refine .of_append [.numeral "0", .rightBracket] ?_
      rw [Derivation.words, List.map_append, List.map_singleton,
        intersperse_concat (by simpa using some)] at h
      simpa [Element.word] using h
  | afterElement stack taken =>
    obtain ⟨us, es, hs, -, rfl, -⟩ := h
    refine .of_append [.rightBracket] ?_
    simpa [Derivation.words] using hs.viable (.array es) (hs.fits (by decide))

theorem Derivation.passed (d : Derivation .logical) :
    ∃ m, start.passAll d.words = some m ∧ m.finish ≠ none := by
  obtain ⟨m, draft, hr, hf, -⟩ := run_complete d (Word.map_lexeme d.words)
  exact ⟨m, passAll_eq_some.2 ⟨d.stray_notMem, hr⟩, by simp [hf]⟩

/-- The words that some condition begins with are those that the machine passes. -/
theorem viable_iff : Viable ws ↔ ∃ m, start.passAll ws = some m := by
  constructor
  · rintro ⟨d, more, hd⟩
    obtain ⟨m, hm, -⟩ := d.passed
    rw [hd, passAll_append] at hm
    obtain ⟨next, hn, -⟩ := Option.bind_eq_some_iff.1 hm
    exact ⟨next, hn⟩
  · rintro ⟨m, hm⟩
    obtain ⟨proper, hr⟩ := passAll_eq_some.1 hm
    have initial : start.Holds [] := .nil
    have h := holds_run (fun l hl => ?_) initial hr
    · rw [Word.map_lexeme, List.nil_append] at h
      exact h.viable
    · obtain ⟨w, hw, rfl⟩ := List.mem_map.1 hl
      rw [w.word_lexeme]
      exact fun he => proper (he ▸ hw)

theorem not_viable_of_pass (hm : start.passAll ws = some m) (h : m.pass w = none) :
    ¬ Viable (ws ++ [w]) := by
  intro hv
  obtain ⟨next, hn⟩ := viable_iff.1 hv
  rw [passAll_append, hm, Option.bind_some, passAll_cons, h] at hn
  cases hn

theorem not_derived_of_finish (hm : start.passAll ws = some m) (h : m.finish = none)
    (d : Derivation .logical) : d.words ≠ ws := by
  rintro rfl
  obtain ⟨last, hl, hf⟩ := d.passed
  cases hm.symm.trans hl
  exact hf h

end Criterion.Grammar
