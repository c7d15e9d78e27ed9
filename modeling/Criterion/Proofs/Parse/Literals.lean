import Criterion.Proofs.Parse.Words

namespace Criterion

open Grammar

def Token.element (t : Token) : Element :=
  if t.kind = .string then .quotation t.text else .numeral t.text

def Token.IsElement (t : Token) : Prop := t.kind = .integer ∨ t.kind = .string

theorem Token.word_element {t : Token} (h : t.IsElement) : t.element.word = t.word := by
  rcases h with h | h <;> simp [element, word, TokenKind.word, h, Element.word]

namespace Parse

theorem numbers_eq {ts : List Token} {values : List Int} :
    numbers ts = (values, []) ↔ (ts.map (·.text)).map Numeral.read = values.map .ok := by
  induction ts generalizing values with
  | nil => cases values <;> simp [numbers]
  | cons t ts ih =>
    rcases hn : numbers ts with ⟨vs, faults⟩
    cases hr : Numeral.read t.text with
    | error fault =>
      cases values <;> simp [numbers, hn, hr]
    | ok value =>
      cases values with
      | nil => simp [numbers, hn, hr]
      | cons v values =>
        have ih' := @ih values
        rw [hn, Prod.mk.injEq] at ih'
        simp only [numbers, hn, hr, List.map_cons, List.cons.injEq, Prod.mk.injEq,
          Except.ok.injEq, and_assoc, ih']

theorem arrayOf_strings {ts : List Token} (h : ∀ t ∈ ts, t.kind = .string) :
    arrayOf ts = .ok (.strings (ts.map (·.text))) := by
  rw [arrayOf, if_pos (by simpa using h)]

theorem arrayOf_integers {ts : List Token} {values : List Int} (some : ts ≠ [])
    (h : ∀ t ∈ ts, t.kind = .integer)
    (hv : (ts.map (·.text)).map Numeral.read = values.map .ok) :
    arrayOf ts = .ok (.integers values) := by
  have other : ¬ ts.all (·.kind = .string) := by
    obtain ⟨t, ht⟩ := List.exists_mem_of_ne_nil ts some
    intro hs
    have hk := List.all_eq_true.1 hs t ht
    simp [h t ht] at hk
  rw [arrayOf, if_neg other, if_pos (by simpa using h), numbers_eq.2 hv]

theorem eq_of_arrayOf {ts : List Token} {e : Expr} (h : arrayOf ts = .ok e) :
    (∀ t ∈ ts, t.kind = .string) ∧ e = .strings (ts.map (·.text)) ∨
      ∃ values : List Int, (∀ t ∈ ts, t.kind = .integer) ∧
        (ts.map (·.text)).map Numeral.read = values.map .ok ∧ e = .integers values := by
  rw [arrayOf] at h
  split at h
  · next hs => exact .inl ⟨by simpa using hs, (Except.ok.inj h).symm⟩
  · split at h
    · next hi =>
      split at h
      · next values hn =>
        exact .inr ⟨values, by simpa using hi, numbers_eq.1 hn, (Except.ok.inj h).symm⟩
      · exact nomatch h
    · exact nomatch h

theorem map_element_strings {ts : List Token} (h : ∀ t ∈ ts, t.kind = .string) :
    ts.map Token.element = (ts.map (·.text)).map .quotation := by
  rw [List.map_map]
  exact List.map_congr_left fun t ht => by simp [Token.element, h t ht]

theorem map_element_integers {ts : List Token} (h : ∀ t ∈ ts, t.kind = .integer) :
    ts.map Token.element = (ts.map (·.text)).map .numeral := by
  rw [List.map_map]
  exact List.map_congr_left fun t ht => by simp [Token.element, h t ht]

theorem arrayOf_eq_ok {ts : List Token} {e : Expr} (some : ts ≠ [])
    (hk : ∀ t ∈ ts, t.IsElement) :
    arrayOf ts = .ok e ↔ arrayTree? (ts.map Token.element) = .some e := by
  have some' : ts.map Token.element ≠ [] := by simpa using some
  rw [arrayTree?_eq_some]
  constructor
  · intro h
    rcases eq_of_arrayOf h with ⟨hs, rfl⟩ | ⟨values, hi, hv, rfl⟩
    · exact ⟨some', .inl ⟨_, map_element_strings hs, rfl⟩⟩
    · exact ⟨some', .inr ⟨_, values, map_element_integers hi, hv, rfl⟩⟩
  · rintro ⟨-, ⟨contents, he, rfl⟩ | ⟨texts, values, he, hv, rfl⟩⟩
    · have hs : ∀ t ∈ ts, t.kind = .string := by
        intro t ht
        obtain ⟨c, -, hc⟩ := List.mem_map.1 (he ▸ List.mem_map_of_mem ht)
        rcases hk t ht with h | h
        · simp [Token.element, h] at hc
        · exact h
      rw [arrayOf_strings hs]
      rw [map_element_strings hs] at he
      rw [(List.map_inj_right fun _ _ => Element.quotation.inj).1 he]
    · have hi : ∀ t ∈ ts, t.kind = .integer := by
        intro t ht
        obtain ⟨c, -, hc⟩ := List.mem_map.1 (he ▸ List.mem_map_of_mem ht)
        rcases hk t ht with h | h
        · exact h
        · simp [Token.element, h] at hc
      rw [map_element_integers hi] at he
      obtain rfl := (List.map_inj_right fun _ _ => Element.numeral.inj).1 he
      exact arrayOf_integers some hi hv

/-- The words between the brackets of an array. -/
def listed (es : List Element) : List Word := (es.map Element.word).intersperse .comma

theorem listed_cons (e : Element) {es : List Element} (some : es ≠ []) :
    listed (e :: es) = e.word :: .comma :: listed es := by
  cases es with
  | nil => exact absurd rfl some
  | cons f es => rfl

theorem kind_ne_end_of_element {s : Stream} (h : s.kind = .integer ∨ s.kind = .string) :
    s.kind ≠ .endOfInput := by
  rcases h with h | h <;> simp [h]

theorem words_of_element {s : Stream} (h : s.kind = .integer ∨ s.kind = .string) :
    s.words = s.current.element.word :: s.next.words := by
  rw [Token.word_element h]
  exact Stream.words_of_more (kind_ne_end_of_element h)

theorem elements_sound (s : Stream) (h : (elements s).complaints = []) :
    ∃ ts, (elements s).result = some ts ∧ ts ≠ [] ∧ (∀ t ∈ ts, t.IsElement) ∧
      s.words = listed (ts.map Token.element) ++ .rightBracket :: (elements s).after.words := by
  induction s using elements.induct with
  | case1 s hk t hc _ ih =>
    rw [elements, dif_pos hk, if_pos hc] at h ⊢
    obtain ⟨ts, hr, some, he, hw⟩ := ih h
    refine ⟨s.current :: ts, by simp [hr], by simp, List.forall_mem_cons.2 ⟨hk, he⟩, ?_⟩
    have hs : s.next.words = .comma :: s.next.next.words := Stream.words_of_kind hc (by decide)
    rw [words_of_element hk, hs, hw, List.map_cons, listed_cons _ (by simpa using some)]
    rfl
  | case2 s hk t hc hb =>
    rw [elements, dif_pos hk, if_neg hc, if_pos hb]
    refine ⟨[s.current], rfl, by simp, List.forall_mem_singleton.2 hk, ?_⟩
    have hs : s.next.words = .rightBracket :: s.next.next.words :=
      Stream.words_of_kind hb (by decide)
    rw [words_of_element hk, hs]
    rfl
  | case3 s hk t hc hb =>
    rw [elements, dif_pos hk, if_neg hc, if_neg hb] at h
    exact nomatch h
  | case4 s hk =>
    rw [elements, dif_neg hk] at h
    exact nomatch h

theorem element_of_word {t : Token} {e : Element} (h : t.word = e.word) :
    t.IsElement ∧ t.element = e := by
  rcases t with ⟨kind, text, line, column⟩
  cases e <;> cases kind <;>
    simp_all [Token.word, TokenKind.word, Element.word, Token.IsElement, Token.element]

theorem elements_complete {s : Stream} {es : List Element} {rest : List Word} (some : es ≠ [])
    (h : s.words = listed es ++ .rightBracket :: rest) :
    ∃ ts, (elements s).result = Option.some ts ∧ (elements s).complaints = [] ∧
      (elements s).after.words = rest ∧ (∀ t ∈ ts, t.IsElement) ∧ ts.map Token.element = es := by
  induction es generalizing s with
  | nil => exact absurd rfl some
  | cons e es ih =>
    by_cases hes : es = []
    · subst hes
      obtain ⟨-, he, hs⟩ := Stream.words_eq_cons h
      obtain ⟨hk : s.kind = .integer ∨ s.kind = .string, he⟩ := element_of_word he
      have hb : s.next.kind = .rightBracket := Stream.kind_of_words hs (by decide)
      have hc : s.next.kind ≠ .comma := by simp [hb]
      rw [elements, dif_pos hk, if_neg hc, if_pos hb]
      exact ⟨[s.current], rfl, rfl, (Stream.words_eq_cons hs).2.2,
        List.forall_mem_singleton.2 hk, congrArg (· :: []) he⟩
    · rw [listed_cons e hes] at h
      obtain ⟨-, he, hs⟩ := Stream.words_eq_cons h
      obtain ⟨hk : s.kind = .integer ∨ s.kind = .string, he⟩ := element_of_word he
      have hc : s.next.kind = .comma := Stream.kind_of_words hs (by decide)
      obtain ⟨ts, hr, hp, hw, hts, hes'⟩ := ih hes (Stream.words_eq_cons hs).2.2
      rw [elements, dif_pos hk, if_pos hc]
      exact ⟨s.current :: ts, by simp [hr], hp, hw, List.forall_mem_cons.2 ⟨hk, hts⟩,
        by simp [he, hes']⟩

theorem arrayOf_ne_error_nil (ts : List Token) : arrayOf ts ≠ .error [] := by
  intro h
  rw [arrayOf] at h
  split at h
  · exact nomatch h
  · split at h
    · split at h
      · exact nomatch h
      · next values faults some hn =>
        rw [Except.error.injEq, List.map_eq_nil_iff] at h
        exact some h
    · exact nomatch h

theorem listed_ne {es : List Element} {w : Word} {ws rest : List Word} (some : es ≠ [])
    (h : listed es ++ rest = w :: ws) : ∃ e : Element, e.word = w := by
  cases es with
  | nil => exact absurd rfl some
  | cons e es =>
    cases es with
    | nil => exact ⟨e, (List.cons.inj h).1⟩
    | cons f es => exact ⟨e, (List.cons.inj h).1⟩

theorem kind_ne_rightBracket {s : Stream} {es : List Element} {rest : List Word} (some : es ≠ [])
    (h : s.words = listed es ++ rest) : s.kind ≠ .rightBracket := by
  intro hb
  have hs := Stream.words_of_kind hb (by decide)
  obtain ⟨e, he⟩ := listed_ne some (h.symm.trans hs)
  cases e with
  | numeral text => cases he
  | quotation content => cases he

/-- Tokens that are read as an array without complaint write it. -/
theorem array_sound (s : Stream) (h : (array s).complaints = []) :
    ∃ e es, (array s).result = some e ∧ arrayTree? es = some e ∧
      s.words = listed es ++ .rightBracket :: (array s).after.words := by
  by_cases hb : s.kind = .rightBracket
  · rw [array, if_pos hb] at h
    exact nomatch h
  · rw [array, if_neg hb] at h ⊢
    cases hr : (elements s).result with
    | none =>
      simp only [hr] at h
      obtain ⟨ts, hts, -⟩ := elements_sound s h
      rw [hr] at hts
      exact nomatch hts
    | some ts =>
      simp only [hr] at h ⊢
      cases ha : arrayOf ts with
      | ok e =>
        simp only [ha] at h ⊢
        obtain ⟨ts', hts, some, hk, hw⟩ := elements_sound s h
        obtain rfl := Option.some.inj (hr.symm.trans hts)
        exact ⟨e, ts.map Token.element, rfl, (arrayOf_eq_ok some hk).1 ha, hw⟩
      | error problems =>
        simp only [ha, List.append_eq_nil_iff, List.map_eq_nil_iff] at h
        exact absurd (h.2 ▸ ha) (arrayOf_ne_error_nil ts)

/-- Tokens that write an array are read as that array without complaint. -/
theorem array_complete {s : Stream} {es : List Element} {e : Expr} {rest : List Word}
    (ha : arrayTree? es = some e) (h : s.words = listed es ++ .rightBracket :: rest) :
    (array s).result = some e ∧ (array s).complaints = [] ∧ (array s).after.words = rest := by
  have some : es ≠ [] := (arrayTree?_eq_some.1 ha).1
  obtain ⟨ts, hr, hp, hw, hk, rfl⟩ := elements_complete some h
  rw [array, if_neg (kind_ne_rightBracket some h)]
  simp only [hr, (arrayOf_eq_ok (by simpa using some) hk).2 ha]
  exact ⟨trivial, hp, hw⟩

end Parse

end Criterion
