import Criterion.Text.Blank

namespace Criterion.Text

variable {p : Char → Bool} {c : Char} {cs : List Char}

theorem trimBy_sublist (p : Char → Bool) (cs : List Char) : (trimBy p cs).Sublist cs := by
  have inner := (List.dropWhile_sublist p (l := (cs.dropWhile p).reverse)).reverse
  rw [List.reverse_reverse] at inner
  exact inner.trans (List.dropWhile_sublist p)

theorem exists_trimBy_cons (h : p c = false) (cs : List Char) :
    ∃ ds, trimBy p (c :: cs) = c :: ds := by
  rw [trimBy, List.dropWhile_cons_of_neg (by simp [h]), List.reverse_cons, List.dropWhile_append]
  split
  · rw [List.dropWhile_cons_of_neg (by simp [h])]
    exact ⟨[], rfl⟩
  · rw [List.reverse_append]
    exact ⟨_, rfl⟩

theorem dropWhile_eq_self (h : ∀ c ∈ cs.head?, p c = false) : cs.dropWhile p = cs := by
  cases cs with
  | nil => rfl
  | cons c cs => exact List.dropWhile_cons_of_neg (by simp [h c rfl])

theorem trimBy_eq_self (first : ∀ c ∈ cs.head?, p c = false)
    (last : ∀ c ∈ cs.getLast?, p c = false) : trimBy p cs = cs := by
  rw [trimBy, dropWhile_eq_self first, dropWhile_eq_self, List.reverse_reverse]
  rwa [List.head?_reverse]

theorem head?_dropWhile (p : Char → Bool) (cs : List Char) :
    ∀ c ∈ (cs.dropWhile p).head?, p c = false := by
  intro c hc
  cases hd : cs.dropWhile p with
  | nil =>
    rw [hd] at hc
    cases hc
  | cons d ds =>
    rw [hd] at hc
    cases hc
    have stays := List.head_dropWhile_not p (l := cs) (by simp [hd])
    simpa [hd] using stays

theorem strip_subset (s : String) : (strip s).toList ⊆ s.toList := by
  rw [strip, String.toList_ofList]
  exact (trimBy_sublist isBlank s.toList).subset

theorem splitWord_rest (s : String) :
    (∀ c ∈ (splitWord s).2.toList.head?, isBlank c = false) ∧
      (splitWord s).2.toList ⊆ s.toList := by
  rw [splitWord, String.toList_ofList]
  exact ⟨head?_dropWhile _ _,
    ((List.dropWhile_sublist _).trans (List.dropWhile_sublist _)).subset⟩

theorem strip_eq_self {s : String} (first : ∀ c ∈ s.toList.head?, isBlank c = false)
    (last : ∀ c ∈ s.toList.getLast?, isBlank c = false) : strip s = s := by
  rw [strip, trimBy_eq_self first last, String.ofList_toList]

theorem splitWord_append {word rest : String} (dark : ∀ c ∈ word.toList, isBlank c = false)
    (first : ∀ c ∈ rest.toList.head?, isBlank c = false) :
    splitWord (word ++ " " ++ rest) = (word, rest) := by
  have run : ∀ c ∈ word.toList, (!isBlank c) = true := by simpa using dark
  have text : (word ++ " " ++ rest).toList = word.toList ++ ' ' :: rest.toList := by simp
  have blank : isBlank ' ' = true := by decide
  rw [splitWord, text, List.takeWhile_append_of_pos run, List.dropWhile_append_of_pos run,
    List.takeWhile_cons_of_neg (by simp [blank]), List.dropWhile_cons_of_neg (by simp [blank]),
    List.dropWhile_cons_of_pos blank, dropWhile_eq_self first, List.append_nil,
    String.ofList_toList, String.ofList_toList]

theorem splitAt?_eq_some_iff {mark : Char} {s part rest : String} :
    splitAt? mark s = some (part, rest) ↔
      mark ∉ part.toList ∧ s.toList = part.toList ++ mark :: rest.toList := by
  constructor
  · intro h
    have cut := List.takeWhile_append_dropWhile (p := (· != mark)) (l := s.toList)
    have stop := head?_dropWhile (· != mark) s.toList
    have inner : mark ∉ s.toList.takeWhile (· != mark) := by
      intro mem
      have other := List.all_eq_true.1 List.all_takeWhile mark mem
      simp at other
    rw [splitAt?] at h
    split at h
    · cases h
    · next c after hd =>
      rw [hd] at cut stop
      cases h
      have same : c = mark := by simpa using stop c rfl
      rw [same] at cut
      rw [String.toList_ofList, String.toList_ofList]
      exact ⟨inner, cut.symm⟩
  · rintro ⟨free, text⟩
    have run : ∀ c ∈ part.toList, (c != mark) = true :=
      fun c hc => bne_iff_ne.2 fun same => free (same ▸ hc)
    rw [splitAt?, text, List.dropWhile_append_of_pos run, List.dropWhile_cons_of_neg (by simp)]
    simp only
    rw [List.takeWhile_append_of_pos run, List.takeWhile_cons_of_neg (by simp), List.append_nil,
      String.ofList_toList, String.ofList_toList]

theorem splitAt?_append {part rest : String} (spaceless : ' ' ∉ part.toList) :
    splitAt? ' ' (part ++ " " ++ rest) = some (part, rest) :=
  splitAt?_eq_some_iff.2 ⟨spaceless, by simp⟩

end Criterion.Text
