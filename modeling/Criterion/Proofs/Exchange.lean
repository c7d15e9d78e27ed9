import Mathlib.Data.Set.List
import Criterion.Failure
import Criterion.Proofs.Except

namespace Criterion

/-- A value that a host can take out and pass in again. -/
def Value.Portable : Value → Prop
  | null | boolean _ | string _ => True
  | integer n => Word.Fits n
  | integers ns => ns ≠ [] ∧ ∀ n ∈ ns, Word.Fits n
  | strings ss => ss ≠ []
  | error _ | function _ => False

namespace Plain

/-- Data that has a value. A list must not be empty, and hold texts alone or words alone. -/
def Convertible : Plain → Prop
  | null | boolean _ | text _ => True
  | integer n => Word.Fits n
  | list items | tuple items => items ≠ [] ∧ ((∀ item ∈ items, ∃ s, item = text s) ∨
      ∀ item ∈ items, ∃ n, Word.Fits n ∧ item = integer n)
  | converted _ | other _ => False

/-- Data as it comes back from its value: a tuple as the list of its items. -/
def asList : Plain → Plain
  | tuple items => list items
  | p => p

variable {p : Plain} {items : List Plain} {v : Value}

theorem toValue_asList (p : Plain) : p.asList.toValue = p.toValue := by
  cases p <;> rfl

theorem convertible_asList (p : Plain) : p.asList.Convertible ↔ p.Convertible := by
  cases p <;> rfl

theorem text?_eq_some (p : Plain) (s : String) : p.text? = some s ↔ p = text s := by
  cases p <;> simp [text?]

theorem integer?_eq_some (p : Plain) (n : Int) : p.integer? = some n ↔ p = integer n := by
  cases p <;> simp [integer?]

theorem word_eq_ok {n m : Int} : word n = .ok m ↔ Word.Fits n ∧ n = m := by
  rw [word]
  split
  · next fits => simp [fits]
  · next unfit => simp [unfit]

theorem mapM_word_eq_ok {ns ms : List Int} :
    ns.mapM word = .ok ms ↔ (∀ n ∈ ns, Word.Fits n) ∧ ns = ms := by
  induction ns generalizing ms with
  | nil => simp [pure, Except.pure]
  | cons n ns ih =>
    simp only [List.mapM_cons, bind_eq_ok, word_eq_ok, ih, List.forall_mem_cons]
    constructor
    · rintro ⟨_, ⟨fits, rfl⟩, _, ⟨rest, rfl⟩, ⟨⟩⟩
      exact ⟨⟨fits, rest⟩, rfl⟩
    · rintro ⟨⟨fits, rest⟩, rfl⟩
      exact ⟨n, ⟨fits, rfl⟩, ns, ⟨rest, rfl⟩, rfl⟩

theorem eq_of_array (h : array items = .ok v) :
    (∃ ss, ss ≠ [] ∧ items = ss.map text ∧ v = .strings ss) ∨
      ∃ ns, ns ≠ [] ∧ (∀ n ∈ ns, Word.Fits n) ∧ items = ns.map integer ∧ v = .integers ns := by
  rw [array] at h
  split at h
  · cases h
  · next some =>
    split at h
    · next ss texts =>
      left
      cases h
      obtain rfl := (mapM_eq_some_iff_map text?_eq_some).1 texts
      exact ⟨ss, by simpa using some, rfl, rfl⟩
    · next ns numbers _ =>
      right
      obtain rfl := (mapM_eq_some_iff_map integer?_eq_some).1 numbers
      cases hw : ns.mapM word with
      | error fault =>
        rw [hw] at h
        cases h
      | ok ms =>
        rw [hw] at h
        cases h
        obtain ⟨fits, rfl⟩ := mapM_word_eq_ok.1 hw
        exact ⟨ns, by simpa using some, fits, rfl, rfl⟩
    · cases h

theorem array_texts {ss : List String} (some : ss ≠ []) :
    array (ss.map text) = .ok (.strings ss) := by
  rw [array, if_neg (by simpa using some), (mapM_eq_some_iff_map text?_eq_some).2 rfl]

theorem array_integers {ns : List Int} (some : ns ≠ []) (fits : ∀ n ∈ ns, Word.Fits n) :
    array (ns.map integer) = .ok (.integers ns) := by
  have other : (ns.map integer).mapM text? = none := by
    cases ns with
    | nil => exact absurd rfl some
    | cons n ns => rfl
  rw [array, if_neg (by simpa using some), other, (mapM_eq_some_iff_map integer?_eq_some).2 rfl]
  dsimp only
  rw [mapM_word_eq_ok.2 ⟨fits, rfl⟩]
  rfl

/-- Data has the value that it is got back from, if that is a portable one. -/
theorem toValue_eq_ok_iff (raw : ∀ v, p ≠ converted v) :
    p.toValue = .ok v ↔ v.Portable ∧ v.toPlain = .ok (.inl p.asList) := by
  constructor
  · intro h
    cases p with
    | null =>
      cases h
      exact ⟨trivial, rfl⟩
    | boolean b =>
      cases h
      exact ⟨trivial, rfl⟩
    | integer n =>
      cases hw : word n with
      | error fault =>
        rw [toValue, hw] at h
        cases h
      | ok m =>
        rw [toValue, hw] at h
        cases h
        obtain ⟨fits, rfl⟩ := word_eq_ok.1 hw
        exact ⟨fits, rfl⟩
    | text s =>
      cases h
      exact ⟨trivial, rfl⟩
    | list items | tuple items =>
      rcases eq_of_array h with ⟨ss, some, rfl, rfl⟩ | ⟨ns, some, fits, rfl, rfl⟩
      · exact ⟨some, rfl⟩
      · exact ⟨⟨some, fits⟩, rfl⟩
    | converted w => exact absurd rfl (raw w)
    | other kind => cases h
  · rintro ⟨portable, h⟩
    rw [← toValue_asList]
    generalize p.asList = q at h
    cases v with
    | null =>
      cases h
      rfl
    | integer n =>
      cases h
      rw [toValue, word_eq_ok.2 ⟨portable, rfl⟩]
      rfl
    | string s =>
      cases h
      rfl
    | boolean b =>
      cases h
      rfl
    | integers ns =>
      cases h
      exact array_integers portable.1 portable.2
    | strings ss =>
      cases h
      exact array_texts portable
    | error message => cases h
    | function f => cases h

theorem exists_value (h : p.Convertible) :
    ∃ v : Value, v.Portable ∧ v.toPlain = .ok (.inl p.asList) := by
  cases p with
  | null => exact ⟨.null, trivial, rfl⟩
  | boolean b => exact ⟨.boolean b, trivial, rfl⟩
  | integer n => exact ⟨.integer n, h, rfl⟩
  | text s => exact ⟨.string s, trivial, rfl⟩
  | list items | tuple items =>
    obtain ⟨some, texts | words⟩ := h
    · have alike : items ∈ Set.range (List.map text) := by
        rw [Set.range_list_map]
        intro item mem
        obtain ⟨s, rfl⟩ := texts item mem
        exact ⟨s, rfl⟩
      obtain ⟨ss, rfl⟩ := alike
      exact ⟨.strings ss, by simpa [Value.Portable] using some, rfl⟩
    · have alike : items ∈ Set.range (List.map integer) := by
        rw [Set.range_list_map]
        intro item mem
        obtain ⟨n, -, rfl⟩ := words item mem
        exact ⟨n, rfl⟩
      obtain ⟨ns, rfl⟩ := alike
      refine ⟨.integers ns, ⟨by simpa using some, ?_⟩, rfl⟩
      intro n mem
      obtain ⟨m, fits, same⟩ := words (integer n) (List.mem_map_of_mem mem)
      cases same
      exact fits
  | converted w => cases h
  | other kind => cases h

end Plain

theorem Value.exists_toPlain {v : Value} (portable : v.Portable) :
    ∃ p : Plain, v.toPlain = .ok (.inl p) ∧ p.Convertible := by
  cases v with
  | null => exact ⟨.null, rfl, trivial⟩
  | integer n => exact ⟨.integer n, rfl, portable⟩
  | string s => exact ⟨.text s, rfl, trivial⟩
  | boolean b => exact ⟨.boolean b, rfl, trivial⟩
  | integers ns =>
    refine ⟨.list (ns.map .integer), rfl, by simpa using portable.1, .inr ?_⟩
    intro item mem
    obtain ⟨n, hn, rfl⟩ := List.mem_map.1 mem
    exact ⟨n, portable.2 n hn, rfl⟩
  | strings ss =>
    refine ⟨.list (ss.map .text), rfl, by simpa [Value.Portable] using portable, .inl ?_⟩
    intro item mem
    obtain ⟨s, -, rfl⟩ := List.mem_map.1 mem
    exact ⟨s, rfl⟩
  | error message => cases portable
  | function f => cases portable

theorem Plain.asList_of_toPlain {v : Value} {p : Plain} (h : v.toPlain = .ok (.inl p)) :
    p.asList = p := by
  cases v with
  | error message => cases h
  | function f => cases h
  | _ =>
    cases h
    rfl

/-- Data that is no value already has a value just if it is convertible, and is got back from that
value, a tuple as the list of its items. A portable value is got back from the data that is taken
out of it. -/
theorem plain_values_exchange :
    (∀ p : Plain, (∀ w, p ≠ .converted w) →
      ((∃ v, p.toValue = .ok v) ↔ p.Convertible) ∧
      ∀ v, p.toValue = .ok v → v.Portable ∧
        ((∀ items, p ≠ .tuple items) → v.toPlain = .ok (.inl p)) ∧
        ∀ items, p = .tuple items → v.toPlain = .ok (.inl (.list items))) ∧
    ∀ v : Value, v.Portable →
      ∃ p : Plain, v.toPlain = .ok (.inl p) ∧ p.Convertible ∧ p.toValue = .ok v := by
  have raw {p : Plain} (h : p.Convertible) : ∀ w, p ≠ .converted w := by
    rintro w rfl
    cases h
  constructor
  · intro p hp
    refine ⟨⟨?_, ?_⟩, ?_⟩
    · rintro ⟨v, h⟩
      obtain ⟨portable, h⟩ := (Plain.toValue_eq_ok_iff hp).1 h
      obtain ⟨q, hq, convertible⟩ := Value.exists_toPlain portable
      rw [h] at hq
      cases hq
      exact (Plain.convertible_asList p).1 convertible
    · intro h
      obtain ⟨v, hv⟩ := Plain.exists_value h
      exact ⟨v, (Plain.toValue_eq_ok_iff hp).2 hv⟩
    · intro v h
      obtain ⟨portable, back⟩ := (Plain.toValue_eq_ok_iff hp).1 h
      refine ⟨portable, ?_, ?_⟩
      · intro other
        cases p with
        | tuple items => exact absurd rfl (other items)
        | _ => exact back
      · rintro items rfl
        exact back
  · intro v portable
    obtain ⟨p, h, convertible⟩ := Value.exists_toPlain portable
    refine ⟨p, h, convertible, (Plain.toValue_eq_ok_iff (raw convertible)).2 ⟨portable, ?_⟩⟩
    rw [Plain.asList_of_toPlain h]
    exact h

/-- A tuple does not come back as it was. -/
theorem plain_tuple_exchange :
    ∃ v, (Plain.tuple [.text "a", .text "b"]).toValue = .ok v ∧ v = .strings ["a", "b"] ∧
      v.toPlain = .ok (.inl (.list [.text "a", .text "b"])) ∧
      v.toPlain ≠ .ok (.inl (.tuple [.text "a", .text "b"])) := by
  refine ⟨.strings ["a", "b"], rfl, rfl, rfl, ?_⟩
  intro back
  cases back

theorem plain_values_exchange_arrays :
    (∃ v, (Plain.list [.integer (-9223372036854775808), .integer 9223372036854775807]).toValue =
      .ok v ∧ v.toPlain = .ok (.inl (.list [.integer (-9223372036854775808),
        .integer 9223372036854775807]))) ∧
    (∃ v, (Plain.tuple [.integer 1]).toValue = .ok v ∧
      v.toPlain = .ok (.inl (.list [.integer 1]))) ∧
    (¬ ∃ v, (Plain.list [.integer 1, .boolean true]).toValue = .ok v) ∧
    (Value.strings ["a", ""]).Portable ∧
    ∃ p : Plain, (Value.strings ["a", ""]).toPlain = .ok (.inl p) ∧
      p.toValue = .ok (.strings ["a", ""]) := by
  obtain ⟨plain, values⟩ := plain_values_exchange
  refine ⟨?_, ?_, ?_, List.cons_ne_nil _ _, ?_⟩
  · obtain ⟨accepted, back⟩ := plain (.list [.integer (-9223372036854775808),
      .integer 9223372036854775807]) (by rintro w ⟨⟩)
    have convertible : (Plain.list [.integer (-9223372036854775808),
        .integer 9223372036854775807]).Convertible := by
      refine ⟨List.cons_ne_nil _ _, .inr ?_⟩
      simp [Word.Fits, Word.minimum, Word.maximum]
    obtain ⟨v, hv⟩ := accepted.2 convertible
    exact ⟨v, hv, (back v hv).2.1 (by rintro items ⟨⟩)⟩
  · obtain ⟨accepted, back⟩ := plain (.tuple [.integer 1]) (by rintro w ⟨⟩)
    have convertible : (Plain.tuple [.integer 1]).Convertible := by
      refine ⟨List.cons_ne_nil _ _, .inr ?_⟩
      simp [Word.Fits, Word.minimum, Word.maximum]
    obtain ⟨v, hv⟩ := accepted.2 convertible
    exact ⟨v, hv, (back v hv).2.2 _ rfl⟩
  · rw [(plain (.list [.integer 1, .boolean true]) (by rintro w ⟨⟩)).1]
    rintro ⟨-, texts | words⟩
    · obtain ⟨s, hs⟩ := texts (.integer 1) (by simp)
      cases hs
    · obtain ⟨n, -, hn⟩ := words (.boolean true) (by simp)
      cases hn
  · obtain ⟨p, hp, -, h⟩ := values (.strings ["a", ""]) (List.cons_ne_nil _ _)
    exact ⟨p, hp, h⟩

end Criterion
