import Criterion.Proofs.Grammar.Unambiguous
import Criterion.Proofs.Parse.Completeness

namespace Criterion.Parse

open Grammar

theorem any_nested {cs : List Complaint} :
    cs.any (·.problem = .nestedTooDeeply) = true ↔ ¬ Shallow cs := by
  simp [Shallow]

theorem not_shallow_upToNesting {cs : List Complaint} (h : ¬ Shallow cs) :
    ¬ Shallow (upToNesting cs) := by
  induction cs with
  | nil => exact absurd shallow_nil h
  | cons c cs ih =>
    rw [upToNesting]
    split
    · next hc => exact fun hs => hs c (List.mem_cons_self ..) hc
    · next hc =>
      refine fun hs => ih (fun hcs => h ?_) fun c hc => hs c (List.mem_cons_of_mem _ hc)
      exact List.forall_mem_cons.2 ⟨hc, hcs⟩

theorem program_of_end [Nesting] {tokens : List Token}
    (h : (Stream.start tokens).kind = .endOfInput) :
    program tokens = (none, [⟨0, .empty⟩]) := by
  rw [program, if_pos h]
  rfl

theorem program_of_shallow [Nesting] {tokens : List Token}
    (more : (Stream.start tokens).kind ≠ .endOfInput) (h : Shallow (program tokens).2) :
    Shallow (expression Nesting.limit Precedence.lowest (.start tokens)).complaints ∧
      program tokens =
        let o := expression Nesting.limit Precedence.lowest (.start tokens)
        if o.after.kind = .endOfInput then (o.result, o.complaints)
        else (o.result, o.complaints ++ [⟨o.after.position, .trailing o.after.current⟩]) := by
  rw [program, if_neg more] at h ⊢
  by_cases hn : Shallow (expression Nesting.limit Precedence.lowest (.start tokens)).complaints
  · refine ⟨hn, ?_⟩
    rw [if_neg fun ha => any_nested.1 ha hn]
  · simp only [any_nested.2 hn, if_true] at h
    exact absurd h (not_shallow_upToNesting hn)

theorem words_start (tokens : List Token) : (Stream.start tokens).words = wordsOf tokens := rfl

theorem program_sound [Nesting] {tokens : List Token} (h : (program tokens).2 = []) :
    ∃ e, (program tokens).1 = some e ∧ Derives .logical e (wordsOf tokens) := by
  have more : (Stream.start tokens).kind ≠ .endOfInput := by
    intro he
    rw [program_of_end he] at h
    exact nomatch h
  obtain ⟨-, hp⟩ := program_of_shallow more (by rw [h]; exact shallow_nil)
  rw [hp] at h ⊢
  simp only at h ⊢
  split at h
  · next hend =>
    obtain ⟨e, ws, hr, hw, hd⟩ :=
      (readers_sound.1 Nesting.limit Precedence.lowest (.start tokens) (Nat.le_refl 1) h).logical
    rw [if_pos hend]
    rw [words_start, Stream.words_of_end hend, List.append_nil] at hw
    exact ⟨e, hr, hw ▸ hd⟩
  · exact absurd h (by simp)

theorem program_complete [Nesting] {tokens : List Token} {e : Expr} (h : Shallow (program tokens).2)
    (hd : Derives .logical e (wordsOf tokens)) : program tokens = (some e, []) := by
  obtain ⟨d, hw, he⟩ := hd
  have more : (Stream.start tokens).kind ≠ .endOfInput := by
    intro hend
    obtain ⟨w, ws, hws, -⟩ := d.exists_first
    rw [← words_start, Stream.words_of_end hend, hws] at hw
    exact nomatch hw
  obtain ⟨hn, hp⟩ := program_of_shallow more h
  have hw' : (Stream.start tokens).words = d.words ++ [] := by
    rw [List.append_nil, hw, words_start]
  obtain ⟨hr, hc, ha⟩ := Derivation.Read.complete d.read he hw' (Nat.le_refl Precedence.lowest)
    (Nat.le_succ 1) (Nat.le_refl 1) hn
  rw [hp]
  simp only [hr, hc, Stream.end_of_words_nil ha, if_true]

/-- Tokens are read as a program without complaint exactly if those before the end have a meaningful
derivation, which is then the only one and stands for the tree that is made of them. -/
theorem program_iff_derivable [Nesting] (tokens : List Token)
    (shallow : Shallow (program tokens).2) :
    ((program tokens).2 = [] ↔
      ∃ d : Derivation .logical, d.words = wordsOf tokens ∧ d.Meaningful) ∧
    ∀ d : Derivation .logical, d.words = wordsOf tokens → d.Meaningful →
      (∃ e, d.tree? = some e ∧ (program tokens).1 = some e) ∧
      ∀ d' : Derivation .logical, d'.words = wordsOf tokens → d' = d := by
  refine ⟨⟨fun h => ?_, fun ⟨d, hw, hm⟩ => ?_⟩, fun d hw hm => ⟨?_, fun d' hw' => ?_⟩⟩
  · obtain ⟨e, -, d, hw, he⟩ := program_sound h
    exact ⟨d, hw, d.isSome_tree?.1 (by simp [he])⟩
  · obtain ⟨e, he⟩ := Option.isSome_iff_exists.1 (d.isSome_tree?.2 hm)
    rw [program_complete shallow ⟨d, hw, he⟩]
  · obtain ⟨e, he⟩ := Option.isSome_iff_exists.1 (d.isSome_tree?.2 hm)
    exact ⟨e, he, by rw [program_complete shallow ⟨d, hw, he⟩]⟩
  · exact Derivation.eq_of_words (by decide) (hw'.trans hw.symm)

open Nesting

theorem program_iff_derivable_negation :
    Shallow (program [⟨.bang, "!", 1, 1⟩, ⟨.identifier, "a", 1, 2⟩]).2 ∧
      (program [⟨.bang, "!", 1, 1⟩, ⟨.identifier, "a", 1, 2⟩]).1 =
        some (.unary "!" (.identifier "a")) := by
  have shallow : Shallow (program [⟨.bang, "!", 1, 1⟩, ⟨.identifier, "a", 1, 2⟩]).2 :=
    program_shallow (by decide)
  obtain ⟨-, h⟩ := program_iff_derivable _ shallow
  obtain ⟨d, hw, he⟩ : Derives .logical (.unary "!" (.identifier "a")) [.bang, .name "a"] :=
    Derives.loosen (Derives.negation (.loosen ⟨.name "a", rfl, rfl⟩ (by decide))) (by decide)
  obtain ⟨⟨e, he', hp⟩, -⟩ := h d hw (d.isSome_tree?.1 (by rw [he]; rfl))
  rw [he] at he'
  cases he'
  exact ⟨shallow, hp⟩

end Criterion.Parse
