import Criterion.Proofs.Parse.Words
import Criterion.Token.Scan

namespace Criterion

open Grammar

theorem drop_length_takeWhile {α : Type} (p : α → Bool) (xs : List α) :
    xs.drop (xs.takeWhile p).length = xs.dropWhile p := by
  induction xs with
  | nil => rfl
  | cons x xs ih => by_cases hx : p x <;> simp [hx, ih]

theorem takeWhile_append_eq_left {p : Char → Bool} {raw more : List Char} :
    (raw ++ more).takeWhile p = raw ↔ (∀ c ∈ raw, p c) ∧ ∀ c ∈ more.head?, ¬ p c := by
  constructor
  · intro h
    have all : ∀ c ∈ raw, p c := by
      rw [← h]
      exact List.all_eq_true.1 List.all_takeWhile
    refine ⟨all, ?_⟩
    rw [List.takeWhile_append_of_pos all] at h
    have none := List.append_cancel_left (h.trans (List.append_nil raw).symm)
    intro c hc hp
    cases more with
    | nil => cases hc
    | cons d more =>
      cases hc
      rw [List.takeWhile_cons_of_pos hp] at none
      cases none
  · rintro ⟨all, stop⟩
    rw [List.takeWhile_append_of_pos all]
    cases more with
    | nil => rw [List.takeWhile_nil, List.append_nil]
    | cons d more => rw [List.takeWhile_cons_of_neg (stop d rfl), List.append_nil]

theorem take_length_takeWhile {α : Type} (p : α → Bool) (xs : List α) :
    xs.take (xs.takeWhile p).length = xs.takeWhile p :=
  (List.prefix_iff_eq_take.1 (List.takeWhile_prefix p)).symm

theorem isDigit_iff {c : Char} : isDigit c ↔ 48 ≤ c.toNat ∧ c.toNat ≤ 57 := by
  simp only [isDigit, Bool.and_eq_true, decide_eq_true_eq, Char.le_def, UInt32.le_iff_toNat_le]
  rfl

theorem isLetter_iff {c : Char} :
    isLetter c ↔ (97 ≤ c.toNat ∧ c.toNat ≤ 122 ∨ 65 ≤ c.toNat ∧ c.toNat ≤ 90) ∨ c.toNat = 95 := by
  simp only [isLetter, Bool.and_eq_true, Bool.or_eq_true, decide_eq_true_eq, Char.le_def,
    UInt32.le_iff_toNat_le, ← Char.toNat_inj]
  rfl

theorem not_letter_of_digit {c : Char} (h : isDigit c) : isLetter c = false := by
  rw [isDigit_iff] at h
  rw [Bool.eq_false_iff, Ne, isLetter_iff]
  omega

theorem ne_mark_of_digit {c : Char} (h : isDigit c) : c ≠ Text.quotationMark := by
  rintro rfl
  exact absurd h (by decide)

theorem not_digit_of_letter {c : Char} (h : isLetter c) : isDigit c = false := by
  cases hd : isDigit c with
  | false => rfl
  | true => exact absurd h (by simp [not_letter_of_digit hd])

theorem ne_mark_of_letter {c : Char} (h : isLetter c) : c ≠ Text.quotationMark := by
  rintro rfl
  exact absurd h (by decide)

/-- A character of none of the classes that stand for more than themselves. -/
def Bare (c : Char) : Prop := c ≠ Text.quotationMark ∧ isDigit c = false ∧ isLetter c = false

instance {c : Char} : Decidable (Bare c) := inferInstanceAs (Decidable (_ ∧ _ ∧ _))

theorem exists_quotation (cs : List Char) :
    ∃ body close rest, cs = body ++ (close ++ rest) ∧
      cs.takeWhile (· != Text.quotationMark) = body ∧ (∀ d ∈ body, d ≠ Text.quotationMark) ∧
      (close = [] ∧ rest = [] ∨ close = [Text.quotationMark]) := by
  have inner : ∀ d ∈ cs.takeWhile (· != Text.quotationMark), d ≠ Text.quotationMark := by
    intro d hd
    simpa using List.all_eq_true.1 List.all_takeWhile d hd
  have hcs := (List.takeWhile_append_dropWhile (p := (· != Text.quotationMark)) (l := cs)).symm
  cases hd : cs.dropWhile (· != Text.quotationMark) with
  | nil => exact ⟨_, [], [], by simpa [hd] using hcs, rfl, inner, .inl ⟨rfl, rfl⟩⟩
  | cons mark more =>
    have hmark : mark = Text.quotationMark := by
      have hnot := List.head_dropWhile_not (· != Text.quotationMark) (l := cs) (by simp [hd])
      simpa [hd] using hnot
    rw [hd, hmark] at hcs
    exact ⟨_, [Text.quotationMark], more, hcs, rfl, inner, .inr rfl⟩

namespace Cursor

theorem rest_skipSpacing (c : Cursor) : c.skipSpacing.rest = c.rest.dropWhile isSpacing := by
  rw [skipSpacing, skipWhile, rest_advance, drop_length_takeWhile]

/-- The word at the front of a text with a given first character, and the text after it. -/
def wordAt (first : Char) (cs : List Char) : Word × List Char :=
  (((⟨[], cs, .start⟩ : Cursor).tokenAt first).1.word,
    ((⟨[], cs, .start⟩ : Cursor).tokenAt first).2.rest)

theorem word_tokenAt (first : Char) (c : Cursor) :
    ((c.tokenAt first).1.word, (c.tokenAt first).2.rest) = wordAt first c.rest := by
  simp only [wordAt, tokenAt]
  split
  · rfl
  · split
    · rfl
    · split
      · rfl
      · split <;> rfl

theorem wordAt_quotation (cs : List Char) :
    wordAt Text.quotationMark (Text.quotationMark :: cs) =
      (.quotation (.ofList (cs.takeWhile (· != Text.quotationMark))),
        cs.drop ((cs.takeWhile (· != Text.quotationMark)).length + 1)) := rfl

theorem wordAt_digit {c : Char} {cs : List Char} (h : isDigit c) :
    wordAt c cs =
      (.numeral (.ofList (cs.take (integerLength cs))), cs.drop (integerLength cs)) := by
  simp only [wordAt, tokenAt, if_neg (ne_mark_of_digit h), if_pos h]
  rfl

theorem wordAt_letter {c : Char} {cs : List Char} (h : isLetter c) :
    wordAt c cs =
      ((TokenKind.ofWord (.ofList (cs.take (cs.takeWhile isLetter).length))).word
        (.ofList (cs.take (cs.takeWhile isLetter).length)),
        cs.drop (cs.takeWhile isLetter).length) := by
  simp only [wordAt, tokenAt, if_neg (ne_mark_of_letter h), not_digit_of_letter h, if_pos h]
  rfl

theorem wordAt_sign {c : Char} {cs : List Char} (hq : c ≠ Text.quotationMark) (hd : ¬ isDigit c)
    (hl : ¬ isLetter c) :
    wordAt c cs =
      match symbolAt? cs with
      | some (text, kind) => (kind.word text, cs.drop text.length)
      | none => (.stray, cs.drop 1) := by
  simp only [wordAt, tokenAt, if_neg hq, if_neg hd, if_neg hl]
  cases symbolAt? cs <;> rfl

theorem kind_ofWord (text : String) :
    TokenKind.ofWord text ∈ [.trueWord, .falseWord, .inWord, .illegal, .identifier] := by
  have known : ∀ entry ∈ keywords,
      entry.2 ∈ [TokenKind.trueWord, .falseWord, .inWord, .illegal, .identifier] := by decide
  rw [TokenKind.ofWord]
  split
  · next kind h =>
    obtain ⟨before, after, hk, -⟩ := List.lookup_eq_some_iff.1 h
    exact known (text, kind) (hk ▸ List.mem_append_right before (List.mem_cons_self ..))
  · split
    · decide
    · decide

theorem ofWord_ne {kind : TokenKind}
    (h : kind ∉ [.trueWord, .falseWord, .inWord, .illegal, .identifier]) (text : String) :
    TokenKind.ofWord text ≠ kind := by
  rintro rfl
  exact h (kind_ofWord text)

theorem kind_tokenAt (first : Char) (c : Cursor) : (c.tokenAt first).1.kind ≠ .endOfInput := by
  have known : ∀ entry ∈ symbols, entry.2 ≠ TokenKind.endOfInput := by decide
  simp only [tokenAt]
  split
  · intro h
    cases h
  · split
    · intro h
      cases h
    · split
      · exact ofWord_ne (by decide) _
      · split
        · next text kind h => exact known _ (List.mem_of_find?_eq_some h)
        · intro h
          cases h

theorem next_of_nil {c : Cursor} (h : c.rest.dropWhile isSpacing = []) :
    c.next.1.kind = .endOfInput := by
  rw [← rest_skipSpacing] at h
  simp only [next, h]

theorem next_of_cons {c : Cursor} {first : Char} {cs : List Char}
    (h : c.rest.dropWhile isSpacing = first :: cs) :
    c.next = c.skipSpacing.tokenAt first := by
  rw [← rest_skipSpacing] at h
  simp only [next, h]

theorem tokens_of_end {c : Cursor} (h : c.next.1.kind = .endOfInput) : c.tokens = [c.next.1] := by
  rw [tokens, if_pos h]

theorem tokens_of_next {c : Cursor} (h : c.next.1.kind ≠ .endOfInput) :
    c.tokens = c.next.1 :: c.next.2.tokens := by
  rw [tokens, if_neg h]

end Cursor

theorem wordsOf_cons {t : Token} {ts : List Token} (h : t.kind ≠ .endOfInput) :
    wordsOf (t :: ts) = t.word :: wordsOf ts := by
  simp [wordsOf, h]

/-- The words of the tokens of a text. -/
def sourceWords (cs : List Char) : List Word := wordsOf (⟨[], cs, .start⟩ : Cursor).tokens

theorem Cursor.wordsOf_tokens_nil {c : Cursor} (h : c.rest.dropWhile isSpacing = []) :
    wordsOf c.tokens = [] := by
  have hk := next_of_nil h
  rw [tokens_of_end hk]
  simp [wordsOf, hk]

theorem Cursor.wordsOf_tokens_cons {c : Cursor} {first : Char} {cs : List Char}
    (h : c.rest.dropWhile isSpacing = first :: cs) :
    wordsOf c.tokens = (wordAt first (first :: cs)).1 ::
      wordsOf (c.skipSpacing.tokenAt first).2.tokens := by
  have hn := next_of_cons h
  have hk : c.next.1.kind ≠ .endOfInput := by
    rw [hn]
    exact kind_tokenAt first _
  rw [tokens_of_next hk, wordsOf_cons hk, hn]
  have hw := word_tokenAt first c.skipSpacing
  rw [rest_skipSpacing, h] at hw
  rw [← hw]

theorem Cursor.rest_tokenAt {c : Cursor} {first : Char} {cs : List Char}
    (h : c.rest.dropWhile isSpacing = first :: cs) :
    (c.skipSpacing.tokenAt first).2.rest = (wordAt first (first :: cs)).2 := by
  have hw := word_tokenAt first c.skipSpacing
  rw [rest_skipSpacing, h] at hw
  rw [← hw]

theorem Cursor.length_wordAt {c : Cursor} {first : Char} {cs : List Char}
    (h : c.rest.dropWhile isSpacing = first :: cs) :
    (wordAt first (first :: cs)).2.length < c.rest.length := by
  have hrest : c.skipSpacing.rest = first :: cs := by rw [rest_skipSpacing, h]
  have shorter := tokenAt_shrinks hrest
  have spaced : c.skipSpacing.rest.length ≤ c.rest.length := by
    rw [rest_skipSpacing]
    exact (List.dropWhile_sublist _).length_le
  rw [rest_tokenAt h] at shorter
  omega

/-- The words of the tokens depend on what is left of the text alone. -/
theorem Cursor.wordsOf_tokens (c : Cursor) : wordsOf c.tokens = sourceWords c.rest := by
  induction hn : c.rest.length using Nat.strongRecOn generalizing c with
  | ind n ih =>
    rw [sourceWords]
    cases hr : c.rest.dropWhile isSpacing with
    | nil =>
      rw [wordsOf_tokens_nil hr, wordsOf_tokens_nil (c := ⟨[], c.rest, .start⟩) hr]
    | cons first cs =>
      rw [wordsOf_tokens_cons hr, wordsOf_tokens_cons (c := ⟨[], c.rest, .start⟩) hr]
      have shorter := hn ▸ length_wordAt hr
      have hd := rest_tokenAt (c := ⟨[], c.rest, .start⟩) hr
      rw [ih _ shorter _ (by rw [rest_tokenAt hr]), ih _ shorter _ (by rw [hd]), rest_tokenAt hr,
        hd]

@[simp] theorem sourceWords_nil : sourceWords [] = [] := Cursor.wordsOf_tokens_nil rfl

theorem sourceWords_spacing {c : Char} {cs : List Char} (h : isSpacing c) :
    sourceWords (c :: cs) = sourceWords cs := by
  have hd : (c :: cs).dropWhile isSpacing = cs.dropWhile isSpacing := by simp [h]
  rw [sourceWords, sourceWords]
  cases hr : cs.dropWhile isSpacing with
  | nil =>
    rw [Cursor.wordsOf_tokens_nil (c := ⟨[], cs, .start⟩) hr,
      Cursor.wordsOf_tokens_nil (c := ⟨[], c :: cs, .start⟩) (hd.trans hr)]
  | cons first rest =>
    rw [Cursor.wordsOf_tokens_cons (c := ⟨[], cs, .start⟩) hr,
      Cursor.wordsOf_tokens_cons (c := ⟨[], c :: cs, .start⟩) (hd.trans hr),
      Cursor.wordsOf_tokens, Cursor.wordsOf_tokens,
      Cursor.rest_tokenAt (c := ⟨[], cs, .start⟩) hr,
      Cursor.rest_tokenAt (c := ⟨[], c :: cs, .start⟩) (hd.trans hr)]

theorem sourceWords_cons {c : Char} {cs : List Char} (h : isSpacing c = false) :
    sourceWords (c :: cs) =
      (Cursor.wordAt c (c :: cs)).1 :: sourceWords (Cursor.wordAt c (c :: cs)).2 := by
  have hr : (c :: cs).dropWhile isSpacing = c :: cs := by simp [h]
  rw [sourceWords, Cursor.wordsOf_tokens_cons (c := ⟨[], c :: cs, .start⟩) hr,
    Cursor.wordsOf_tokens, Cursor.rest_tokenAt (c := ⟨[], c :: cs, .start⟩) hr]

theorem wordsOf_tokenize (source : String) :
    wordsOf (tokenize source) = sourceWords source.toList :=
  Cursor.wordsOf_tokens (.start source)

end Criterion
