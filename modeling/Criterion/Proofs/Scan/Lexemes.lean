import Criterion.Proofs.Grammar.Drafts
import Criterion.Proofs.Scan.Words

/-!
The two ways to cut a text agree: where a terminal matches, the longest match is the token there,
and where none does, the token is one that no condition has. They differ in one thing only: the
terminals let a reserved word pass as a name.
-/

namespace Criterion

open Grammar

/-- A word, or a stray one in place of a reserved name. -/
def Grammar.Word.strict : Word → Word
  | .name text => if reservedWords.contains text then .stray else .name text
  | w => w

def Agree (c : Char) (cs : List Char) : Prop :=
  match Terminal.longestMatch? (c :: cs) with
  | none => (Cursor.wordAt c (c :: cs)).1 = .stray
  | some (t, n) =>
    ∀ p, ∃ w, (⟨t.ofMatch (.ofList ((c :: cs).take n)), .ofList ((c :: cs).take n), p⟩ :
        Lexeme).word = w ∧ w ≠ .stray ∧ Cursor.wordAt c (c :: cs) = (w.strict, (c :: cs).drop n)

variable {c : Char} {cs : List Char}

theorem agree_of_match {t : Terminal} {n : Nat} {w : Word}
    (h : Terminal.longestMatch? (c :: cs) = some (t, n))
    (hl : ∀ p, (⟨t.ofMatch (.ofList ((c :: cs).take n)), .ofList ((c :: cs).take n), p⟩ :
      Lexeme).word = w)
    (hw : Cursor.wordAt c (c :: cs) = (w.strict, (c :: cs).drop n)) (proper : w ≠ .stray) :
    Agree c cs := by
  rw [Agree, h]
  exact fun p => ⟨w, hl p, proper, hw⟩

theorem agree_of_none (h : Terminal.longestMatch? (c :: cs) = none)
    (hw : (Cursor.wordAt c (c :: cs)).1 = .stray) : Agree c cs := by
  rw [Agree, h]
  exact hw

/-- The ways in which a terminal is spelled, if they are fixed. -/
def Grammar.Terminal.spellings : Terminal → List String
  | andSign => ["&&"]
  | orSign => ["||"]
  | equality => ["==", "!="]
  | relation => ["<=", ">=", "<", ">"]
  | sum => ["+", "-"]
  | product => ["*", "/"]
  | bang => ["!"]
  | leftParen => ["("]
  | rightParen => [")"]
  | leftBracket => ["["]
  | rightBracket => ["]"]
  | comma => [","]
  | _ => []

def openings : List Char :=
  ['&', '|', '=', '!', '<', '>', '+', '-', '*', '/', '(', ')', '[', ']', ',']

def startsIn (signs : List Char) (s : String) : Bool := s.toList.head?.any signs.contains

theorem exists_of_startsIn {signs : List Char} {s : String} (h : startsIn signs s) :
    ∃ d ds, s.toList = d :: ds ∧ d ∈ signs := by
  cases ht : s.toList with
  | nil => simp [startsIn, ht] at h
  | cons d ds => exact ⟨d, ds, rfl, by simpa [startsIn, ht] using h⟩

theorem startsIn_openings (t : Terminal) : t.spellings.all (startsIn openings) := by
  cases t <;> decide

def Grammar.Terminal.IsSign (t : Terminal) : Prop := t ≠ .word ∧ t ≠ .number ∧ t ≠ .quotation

theorem spellingLength_eq_zero {spellings : List String}
    (h : ∀ s ∈ spellings, s.toList.isPrefixOf cs = false) :
    Terminal.spellingLength spellings cs = 0 := by
  have none : (spellings.filter fun s => s.toList.isPrefixOf cs) = [] := by
    rw [List.filter_eq_nil_iff]
    intro s hs
    simp [h s hs]
  rw [Terminal.spellingLength, none]
  rfl

theorem spellingLength_of_notMem (t : Terminal) (h : c ∉ openings) :
    Terminal.spellingLength t.spellings (c :: cs) = 0 := by
  refine spellingLength_eq_zero fun s hs => ?_
  obtain ⟨d, ds, hds, hd⟩ := exists_of_startsIn (List.all_eq_true.1 (startsIn_openings t) s hs)
  rw [hds, List.isPrefixOf_cons_cons, Bool.and_eq_false_iff]
  refine .inl (beq_false_of_ne ?_)
  rintro rfl
  exact h hd

theorem matchLength_of_isSign {t : Terminal} (sign : t.IsSign) (cs : List Char) :
    t.matchLength cs = Terminal.spellingLength t.spellings cs := by
  cases t with
  | word => exact absurd rfl sign.1
  | number => exact absurd rfl sign.2.1
  | quotation => exact absurd rfl sign.2.2
  | _ => rfl

theorem matchLength_sign {t : Terminal} (sign : t.IsSign) (h : c ∉ openings) :
    t.matchLength (c :: cs) = 0 := by
  rw [matchLength_of_isSign sign, spellingLength_of_notMem t h]

theorem matchLength_word (h : isLetter c = false) : Terminal.word.matchLength (c :: cs) = 0 := by
  simp [Terminal.matchLength, h]

theorem matchLength_number (cs : List Char) :
    Terminal.number.matchLength cs = integerLength cs := by
  by_cases h : ∃ marker rest, cs = '0' :: marker :: rest
  · obtain ⟨marker, rest, rfl⟩ := h
    simp [Terminal.matchLength, integerLength, Nat.add_comm]
  · have other : ∀ marker rest, cs = '0' :: marker :: rest → False :=
      fun marker rest hc => h ⟨marker, rest, hc⟩
    rw [Terminal.matchLength, integerLength]
    · exact other
    · exact other

theorem integerLength_of_not_digit (h : isDigit c = false) : integerLength (c :: cs) = 0 := by
  unfold integerLength
  split
  · next marker rest hc =>
    obtain ⟨rfl, -⟩ := List.cons.inj hc
    exact absurd h (by decide)
  · simp [h]

theorem matchLength_quotation (h : c ≠ Text.quotationMark) :
    Terminal.quotation.matchLength (c :: cs) = 0 := by
  simp [Terminal.matchLength, h]

theorem foldl_longer {t : Terminal} {n : Nat} {best : Terminal × Nat} (pos : 0 < n) :
    ∀ {found : List (Terminal × Nat)}, (∀ m ∈ found, m = (t, n) ∨ m.2 = 0) →
      (best = (t, n) ∨ best.2 = 0 ∧ (t, n) ∈ found) → found.foldl Terminal.longer best = (t, n)
  | [], _, h => by
    rcases h with h | ⟨-, h⟩
    · exact h
    · exact nomatch h
  | m :: found, hf, h => by
    have hfound := (List.forall_mem_cons.1 hf).2
    rw [List.foldl_cons]
    refine foldl_longer pos hfound ?_
    rcases h with rfl | ⟨hz, hm⟩
    · rcases (List.forall_mem_cons.1 hf).1 with rfl | hm
      · exact .inl (by simp [Terminal.longer])
      · exact .inl (by simp [Terminal.longer, hm])
    · rcases (List.forall_mem_cons.1 hf).1 with rfl | hm'
      · exact .inl (by simp [Terminal.longer, hz, pos])
      · refine .inr ⟨by simp [Terminal.longer, hz, hm'], ?_⟩
        rcases List.mem_cons.1 hm with rfl | hm
        · exact absurd hm' (Nat.ne_of_gt pos)
        · exact hm

theorem longestMatch?_of_only {t : Terminal} (known : t ∈ Terminal.matched)
    (pos : 0 < t.matchLength cs)
    (others : ∀ t' ∈ Terminal.matched, t' ≠ t → t'.matchLength cs = 0) :
    Terminal.longestMatch? cs = some (t, t.matchLength cs) := by
  have hfold : (Terminal.matched.map fun t => (t, t.matchLength cs)).foldl Terminal.longer
      (.word, 0) = (t, t.matchLength cs) := by
    refine foldl_longer pos (fun m hm => ?_) (.inr ⟨rfl, List.mem_map.2 ⟨t, known, rfl⟩⟩)
    obtain ⟨t', ht', rfl⟩ := List.mem_map.1 hm
    by_cases h : t' = t
    · exact .inl (by rw [h])
    · exact .inr (others t' ht' h)
  simp only [Terminal.longestMatch?, hfold]
  rw [if_neg (Nat.ne_of_gt pos)]

theorem Grammar.Terminal.cases_isSign (t : Terminal) :
    t = .word ∨ t = .number ∨ t = .quotation ∨ t.IsSign := by
  cases t <;> simp [IsSign]

theorem notMem_of_all {p : Char → Bool} {signs : List Char} (none : signs.all (!p ·)) (h : p c) :
    c ∉ signs := by
  intro hm
  have hn := List.all_eq_true.1 none c hm
  rw [h] at hn
  exact nomatch hn

theorem agree_digit (h : isDigit c) : Agree c cs := by
  have pos : 0 < Terminal.number.matchLength (c :: cs) := by
    rw [matchLength_number]
    exact Cursor.integerLength_pos h
  have hm : Terminal.longestMatch? (c :: cs) =
      some (.number, Terminal.number.matchLength (c :: cs)) := by
    refine longestMatch?_of_only (by decide) pos fun t _ other => ?_
    rcases t.cases_isSign with rfl | rfl | rfl | sign
    · exact matchLength_word (not_letter_of_digit h)
    · exact absurd rfl other
    · exact matchLength_quotation (ne_mark_of_digit h)
    · exact matchLength_sign sign (notMem_of_all (by decide) h)
  rw [matchLength_number] at hm
  exact agree_of_match (w := .numeral _) hm (fun _ => rfl) (Cursor.wordAt_digit h) nofun

theorem word_ofMatch (text : String) (p : Position) :
    ∃ w, (⟨Terminal.word.ofMatch text, text, p⟩ : Lexeme).word = w ∧ w ≠ .stray ∧
      (TokenKind.ofWord text).word text = w.strict := by
  by_cases ht : text = "true"
  · subst ht
    exact ⟨.truth true, rfl, by decide, rfl⟩
  by_cases hf : text = "false"
  · subst hf
    exact ⟨.truth false, rfl, by decide, rfl⟩
  by_cases hi : text = "in"
  · subst hi
    exact ⟨.sign .member, rfl, by decide, rfl⟩
  have none : keywords.lookup text = none := by
    simp [keywords, List.lookup_cons, beq_false_of_ne ht, beq_false_of_ne hf, beq_false_of_ne hi]
  refine ⟨.name text, by simp [Terminal.ofMatch, ht, hf, hi, Lexeme.word], by simp, ?_⟩
  rw [TokenKind.ofWord, none, Word.strict]
  simp only
  split <;> rfl

theorem agree_letter (h : isLetter c) : Agree c cs := by
  have pos : 0 < Terminal.word.matchLength (c :: cs) := by
    simp [Terminal.matchLength, h]
  have hm : Terminal.longestMatch? (c :: cs) =
      some (.word, Terminal.word.matchLength (c :: cs)) := by
    refine longestMatch?_of_only (by decide) pos fun t _ other => ?_
    rcases t.cases_isSign with rfl | rfl | rfl | sign
    · exact absurd rfl other
    · rw [matchLength_number, integerLength_of_not_digit (not_digit_of_letter h)]
    · exact matchLength_quotation (ne_mark_of_letter h)
    · exact matchLength_sign sign (notMem_of_all (by decide) h)
  rw [Agree, hm]
  intro p
  obtain ⟨w, hl, proper, hw⟩ := word_ofMatch
    (.ofList ((c :: cs).take (Terminal.word.matchLength (c :: cs)))) p
  refine ⟨w, hl, proper, ?_⟩
  rw [Cursor.wordAt_letter h, ← hw]
  rfl

theorem content_quotation {body close : List Char} {p : Position}
    (inner : ∀ d ∈ body, d ≠ Text.quotationMark)
    (hc : close = [] ∨ close = [Text.quotationMark]) :
    (⟨.quotation, .ofList (Text.quotationMark :: (body ++ close)), p⟩ : Lexeme).content =
      .ofList body := by
  rcases hc with rfl | rfl
  · have open' : body.getLast? ≠ some Text.quotationMark := fun h =>
      inner _ (List.mem_of_getLast? h) rfl
    simp [Lexeme.content, open']
  · simp [Lexeme.content]

theorem agree_quotation : Agree Text.quotationMark cs := by
  obtain ⟨body, close, rest, hcs, hbody, inner, hclose⟩ := exists_quotation cs
  have hlen : Terminal.quotation.matchLength (Text.quotationMark :: cs) =
      (Text.quotationMark :: (body ++ close)).length := by
    have hdrop : cs.drop body.length = close ++ rest := by rw [hcs, List.drop_left]
    simp only [Terminal.matchLength, if_true, hbody, hdrop]
    rcases hclose with ⟨rfl, rfl⟩ | rfl
    · simp [Nat.add_comm]
    · simp [Nat.add_comm]
  have pos : 0 < Terminal.quotation.matchLength (Text.quotationMark :: cs) := by
    rw [hlen]
    exact Nat.succ_pos _
  have hm : Terminal.longestMatch? (Text.quotationMark :: cs) =
      some (.quotation, Terminal.quotation.matchLength (Text.quotationMark :: cs)) := by
    refine longestMatch?_of_only (by decide) pos fun t _ other => ?_
    rcases t.cases_isSign with rfl | rfl | rfl | sign
    · exact matchLength_word (by decide)
    · rw [matchLength_number, integerLength_of_not_digit (by decide)]
    · exact absurd rfl other
    · exact matchLength_sign sign (by decide)
  have hwhole : Text.quotationMark :: cs = (Text.quotationMark :: (body ++ close)) ++ rest := by
    rw [hcs]
    simp
  have hclose' : close = [] ∨ close = [Text.quotationMark] := hclose.imp_left And.left
  rw [hlen] at hm
  refine agree_of_match (w := .quotation (.ofList body)) hm (fun p => ?_) ?_ (by simp)
  · rw [hwhole, List.take_left, Terminal.ofMatch, if_neg (by decide)]
    exact congrArg Word.quotation (content_quotation inner hclose')
  · rw [Cursor.wordAt_quotation, hbody, hwhole, List.drop_left, hcs]
    rcases hclose with ⟨rfl, rfl⟩ | rfl
    · simp [Word.strict]
    · simp [Word.strict]

theorem longestMatch?_of_sign {t : Terminal} {n : Nat} (bare : Bare c)
    (known : t ∈ Terminal.matched) (pos : 0 < n)
    (h : ∀ t' : Terminal, Terminal.spellingLength t'.spellings (c :: cs) = if t' = t then n else 0)
    (sign : t.IsSign) : Terminal.longestMatch? (c :: cs) = some (t, n) := by
  have hn : t.matchLength (c :: cs) = n := by rw [matchLength_of_isSign sign, h, if_pos rfl]
  have hm : Terminal.longestMatch? (c :: cs) = some (t, t.matchLength (c :: cs)) := by
    refine longestMatch?_of_only known (by rw [hn]; exact pos) fun t' _ other => ?_
    rcases t'.cases_isSign with rfl | rfl | rfl | sign'
    · exact matchLength_word bare.2.2
    · rw [matchLength_number, integerLength_of_not_digit bare.2.1]
    · exact matchLength_quotation bare.1
    · rw [matchLength_of_isSign sign', h, if_neg other]
  rw [hm, hn]

theorem longestMatch?_none (h : ∀ t ∈ Terminal.matched, t.matchLength cs = 0) :
    Terminal.longestMatch? cs = none := by
  have hz : ∀ (found : List (Terminal × Nat)) (best : Terminal × Nat), best.2 = 0 →
      (∀ m ∈ found, m.2 = 0) → (found.foldl Terminal.longer best).2 = 0 := by
    intro found
    induction found with
    | nil => exact fun best hb _ => hb
    | cons m found ih =>
      intro best hb hf
      refine ih _ ?_ (List.forall_mem_cons.1 hf).2
      simp [Terminal.longer, hb, (List.forall_mem_cons.1 hf).1]
  have hfound : ∀ m ∈ Terminal.matched.map fun t => (t, t.matchLength cs), m.2 = 0 := by
    intro m hm
    obtain ⟨t, ht, rfl⟩ := List.mem_map.1 hm
    exact h t ht
  simp only [Terminal.longestMatch?]
  rw [if_pos (hz _ _ rfl hfound)]

theorem longestMatch?_of_bare (bare : Bare c)
    (h : ∀ t : Terminal, Terminal.spellingLength t.spellings (c :: cs) = 0) :
    Terminal.longestMatch? (c :: cs) = none := by
  refine longestMatch?_none fun t _ => ?_
  rcases t.cases_isSign with rfl | rfl | rfl | sign
  · exact matchLength_word bare.2.2
  · rw [matchLength_number, integerLength_of_not_digit bare.2.1]
  · exact matchLength_quotation bare.1
  · rw [matchLength_of_isSign sign, h]

theorem wordAt_of_symbol (text : String) (kind : TokenKind) (bare : Bare c)
    (h : symbolAt? (c :: cs) = some (text, kind)) :
    Cursor.wordAt c (c :: cs) = (kind.word text, (c :: cs).drop text.length) := by
  rw [Cursor.wordAt_sign bare.1 (by simp [bare.2.1]) (by simp [bare.2.2]), h]

theorem wordAt_of_no_symbol (bare : Bare c) (h : symbolAt? (c :: cs) = none) :
    Cursor.wordAt c (c :: cs) = (.stray, cs) := by
  rw [Cursor.wordAt_sign bare.1 (by simp [bare.2.1]) (by simp [bare.2.2]), h]
  rfl

theorem agree_short (h : c ∈ ['+', '-', '*', '/', '(', ')', '[', ']', ',']) : Agree c cs := by
  simp only [List.mem_cons, List.not_mem_nil, or_false] at h
  rcases h with rfl | rfl | rfl | rfl | rfl | rfl | rfl | rfl | rfl
  · exact agree_of_match (w := .sign .add) rfl (fun _ => rfl) rfl nofun
  · exact agree_of_match (w := .sign .subtract) rfl (fun _ => rfl) rfl nofun
  · exact agree_of_match (w := .sign .multiply) rfl (fun _ => rfl) rfl nofun
  · exact agree_of_match (w := .sign .divide) rfl (fun _ => rfl) rfl nofun
  · exact agree_of_match (w := .leftParen) rfl (fun _ => rfl) rfl nofun
  · exact agree_of_match (w := .rightParen) rfl (fun _ => rfl) rfl nofun
  · exact agree_of_match (w := .leftBracket) rfl (fun _ => rfl) rfl nofun
  · exact agree_of_match (w := .rightBracket) rfl (fun _ => rfl) rfl nofun
  · exact agree_of_match (w := .comma) rfl (fun _ => rfl) rfl nofun

theorem agree_doubled {d : Char} (hd : d ≠ c) (h : c ∈ ['&', '|', '=']) : Agree c (d :: cs) := by
  have other : (c == d) = false := beq_false_of_ne hd.symm
  simp only [List.mem_cons, List.not_mem_nil, or_false] at h
  rcases h with rfl | rfl | rfl
  all_goals
    refine agree_of_none (longestMatch?_of_bare (by decide) fun t => ?_) ?_
    · cases t <;> simp [Terminal.spellingLength, Terminal.spellings, List.isPrefixOf, other]
    · rw [wordAt_of_no_symbol (by decide)]
      simp [symbolAt?, symbols, List.isPrefixOf, other]

theorem agree_comparison {d : Char} (hd : d ≠ '=') (h : c ∈ ['<', '>', '!']) :
    Agree c (d :: cs) := by
  have other : ('=' == d) = false := beq_false_of_ne hd.symm
  simp only [List.mem_cons, List.not_mem_nil, or_false] at h
  rcases h with rfl | rfl | rfl
  · have hm : Terminal.longestMatch? ('<' :: d :: cs) = some (.relation, 1) :=
      longestMatch?_of_sign (by decide) (by decide) (by decide) (fun t => by
        cases t <;> simp [Terminal.spellingLength, Terminal.spellings, List.isPrefixOf, other]
        rfl) ⟨nofun, nofun, nofun⟩
    refine agree_of_match (w := .sign .less) hm (fun _ => rfl) ?_ nofun
    rw [wordAt_of_symbol "<" .less (by decide)
      (by simp [symbolAt?, symbols, List.isPrefixOf, other])]
    rfl
  · have hm : Terminal.longestMatch? ('>' :: d :: cs) = some (.relation, 1) :=
      longestMatch?_of_sign (by decide) (by decide) (by decide) (fun t => by
        cases t <;> simp [Terminal.spellingLength, Terminal.spellings, List.isPrefixOf, other]
        rfl) ⟨nofun, nofun, nofun⟩
    refine agree_of_match (w := .sign .greater) hm (fun _ => rfl) ?_ nofun
    rw [wordAt_of_symbol ">" .greater (by decide)
      (by simp [symbolAt?, symbols, List.isPrefixOf, other])]
    rfl
  · have hm : Terminal.longestMatch? ('!' :: d :: cs) = some (.bang, 1) :=
      longestMatch?_of_sign (by decide) (by decide) (by decide) (fun t => by
        cases t <;> simp [Terminal.spellingLength, Terminal.spellings, List.isPrefixOf, other]
        rfl) ⟨nofun, nofun, nofun⟩
    refine agree_of_match (w := .bang) hm (fun _ => rfl) ?_ nofun
    rw [wordAt_of_symbol "!" .bang (by decide)
      (by simp [symbolAt?, symbols, List.isPrefixOf, other])]
    rfl

theorem agree_tilde : Agree '~' cs := by
  cases cs with
  | nil => exact agree_of_none rfl rfl
  | cons d cs =>
    refine agree_of_none (longestMatch?_of_bare (by decide) fun t => ?_) ?_
    · cases t <;> simp [Terminal.spellingLength, Terminal.spellings, List.isPrefixOf]
    · by_cases hd : d = '='
      · subst hd
        rfl
      · have other : ('=' == d) = false := beq_false_of_ne (Ne.symm hd)
        rw [wordAt_of_no_symbol (by decide)]
        simp [symbolAt?, symbols, List.isPrefixOf, other]

theorem startsIn_symbols : symbols.all fun entry => startsIn ('~' :: ';' :: openings) entry.1 := by
  decide

theorem symbolAt?_none (h : c ∉ '~' :: ';' :: openings) : symbolAt? (c :: cs) = none := by
  rw [symbolAt?, List.find?_eq_none]
  intro entry he hp
  obtain ⟨d, ds, hds, hd⟩ := exists_of_startsIn (List.all_eq_true.1 startsIn_symbols entry he)
  simp only [hds, List.isPrefixOf_cons_cons, Bool.and_eq_true, beq_iff_eq] at hp
  rw [hp.1] at hd
  exact h hd

theorem agree_other (bare : Bare c) (h : c ∉ '~' :: ';' :: openings) : Agree c cs := by
  have ho : c ∉ openings := fun hm => h (List.mem_cons_of_mem _ (List.mem_cons_of_mem _ hm))
  refine agree_of_none (longestMatch?_of_bare bare fun t => spellingLength_of_notMem t ho) ?_
  rw [wordAt_of_no_symbol bare (symbolAt?_none h)]

theorem agree_opening (h : c ∈ '~' :: ';' :: openings) : Agree c cs := by
  by_cases short : c ∈ ['+', '-', '*', '/', '(', ')', '[', ']', ',']
  · exact agree_short short
  by_cases doubled : c ∈ ['&', '|', '=']
  · cases cs with
    | nil =>
      simp only [List.mem_cons, List.not_mem_nil, or_false] at doubled
      rcases doubled with rfl | rfl | rfl
      · exact agree_of_none rfl rfl
      · exact agree_of_none rfl rfl
      · exact agree_of_none rfl rfl
    | cons d cs =>
      by_cases hd : d = c
      · subst hd
        simp only [List.mem_cons, List.not_mem_nil, or_false] at doubled
        rcases doubled with rfl | rfl | rfl
        · exact agree_of_match (w := .sign .and) rfl (fun _ => rfl) rfl nofun
        · exact agree_of_match (w := .sign .or) rfl (fun _ => rfl) rfl nofun
        · exact agree_of_match (w := .sign .equal) rfl (fun _ => rfl) rfl nofun
      · exact agree_doubled hd doubled
  by_cases comparison : c ∈ ['<', '>', '!']
  · cases cs with
    | nil =>
      simp only [List.mem_cons, List.not_mem_nil, or_false] at comparison
      rcases comparison with rfl | rfl | rfl
      · exact agree_of_match (w := .sign .less) rfl (fun _ => rfl) rfl nofun
      · exact agree_of_match (w := .sign .greater) rfl (fun _ => rfl) rfl nofun
      · exact agree_of_match (w := .bang) rfl (fun _ => rfl) rfl nofun
    | cons d cs =>
      by_cases hd : d = '='
      · subst hd
        simp only [List.mem_cons, List.not_mem_nil, or_false] at comparison
        rcases comparison with rfl | rfl | rfl
        · exact agree_of_match (w := .sign .lessEqual) rfl (fun _ => rfl) rfl nofun
        · exact agree_of_match (w := .sign .greaterEqual) rfl (fun _ => rfl) rfl nofun
        · exact agree_of_match (w := .sign .notEqual) rfl (fun _ => rfl) rfl nofun
      · exact agree_comparison hd comparison
  by_cases semicolon : c = ';'
  · subst semicolon
    exact agree_of_none rfl rfl
  · have tilde : c = '~' := by
      simp only [openings, List.mem_cons, List.not_mem_nil, or_false] at h short doubled comparison
      simp_all
    subst tilde
    exact agree_tilde

/-- At every character the two ways to cut a text agree. -/
theorem agree (c : Char) (cs : List Char) : Agree c cs := by
  by_cases hq : c = Text.quotationMark
  · subst hq
    exact agree_quotation
  cases hd : isDigit c with
  | true => exact agree_digit hd
  | false =>
    cases hl : isLetter c with
    | true => exact agree_letter hl
    | false =>
      by_cases ho : c ∈ '~' :: ';' :: openings
      · exact agree_opening ho
      · exact agree_other ⟨hq, hd, hl⟩ ho

theorem longestMatch?_pos {t : Terminal} {n : Nat} (h : Terminal.longestMatch? cs = some (t, n)) :
    0 < n := by
  simp only [Terminal.longestMatch?] at h
  split at h
  · exact nomatch h
  · next hne =>
    have hn := congrArg Prod.snd (Option.some.inj h)
    simp only at hn
    omega

/-- What the lexemes of a text say of its words, with reserved names as stray words: all of them, or
those before one that no condition has. -/
def Tells (cs : List Char) (found : List Lexeme × Option Stray) : Prop :=
  (∀ l ∈ found.1, l.word ≠ .stray) ∧
    match found.2 with
    | none => sourceWords cs = found.1.map (·.word.strict)
    | some _ => ∃ more, sourceWords cs = found.1.map (·.word.strict) ++ .stray :: more

theorem lexemes_tell (p : Position) (cs : List Char) : Tells cs (lexemes p cs) := by
  induction p, cs using lexemes.induct with
  | case1 p =>
    rw [lexemes]
    exact ⟨nofun, sourceWords_nil⟩
  | case2 p c rest hs ih =>
    rw [lexemes, if_pos hs]
    rw [Tells, sourceWords_spacing hs]
    exact ih
  | case3 p c rest hs hm =>
    have hw := agree c rest
    rw [Agree, hm] at hw
    rw [lexemes, if_neg hs]
    simp only [hm]
    refine ⟨nofun, sourceWords (Cursor.wordAt c (c :: rest)).2, ?_⟩
    rw [sourceWords_cons (by simpa using hs), hw]
    rfl
  | case4 p c rest hs t n hm cut more stray hl ih =>
    have hw := agree c rest
    rw [Agree, hm] at hw
    obtain ⟨w, hword, proper, hat⟩ := hw p
    obtain ⟨k, rfl⟩ := Nat.exists_eq_succ_of_ne_zero (Nat.ne_of_gt (longestMatch?_pos hm))
    rw [lexemes, if_neg hs]
    simp only [hm]
    simp only [Nat.succ_eq_add_one, Nat.add_sub_cancel, List.take_succ_cons,
      List.drop_succ_cons] at hword hat ⊢
    change Tells (rest.drop k) (lexemes (p.after (c :: rest.take k)) (rest.drop k)) at ih
    generalize lexemes (p.after (c :: rest.take k)) (rest.drop k) = found at ih
    obtain ⟨ls, s⟩ := found
    obtain ⟨hp, htell⟩ := ih
    refine ⟨List.forall_mem_cons.2 ⟨hword ▸ proper, hp⟩, ?_⟩
    rw [sourceWords_cons (by simpa using hs), hat]
    cases s with
    | none =>
      simp only at htell ⊢
      rw [List.map_cons, hword, htell]
    | some s =>
      obtain ⟨others, ho⟩ := htell
      exact ⟨others, by rw [List.map_cons, hword, ho, List.cons_append]⟩

end Criterion
