import Criterion.Proofs.Grammar.Faults
import Criterion.Proofs.Grammar.Prefixes

/-!
Parsers of the grammar. The machine is one, and all of them agree: they draft the same derivation or
blame the same lexeme.
-/

namespace Criterion.Grammar

def Proper (ls : List Lexeme) : Prop := ∀ l ∈ ls, l.word ≠ .stray

/-- A parser of the grammar. It drafts the derivation of the lexemes that it is given. Where there
is none it blames the first lexeme that no condition goes on with, or none if it is the end that
comes too early. -/
structure Parser where
  draft : Drafter
  sound : ∀ {ls : List Lexeme} {D : Draft}, Proper ls → draft ls = .ok D →
    ∃ d : Derivation .logical, d.words = ls.map Lexeme.word ∧ d.Drafts D
  complete : ∀ {ls : List Lexeme} (d : Derivation .logical), ls.map Lexeme.word = d.words →
    ∃ D, draft ls = .ok D ∧ d.Drafts D
  blames : ∀ {ls : List Lexeme} {l : Lexeme}, Proper ls → draft ls = .error (some l) →
    ∃ before after, ls = before ++ l :: after ∧ Viable (before.map Lexeme.word) ∧
      ¬ Viable ((before ++ [l]).map Lexeme.word)
  blames_end : ∀ {ls : List Lexeme}, Proper ls → draft ls = .error none →
    Viable (ls.map Lexeme.word)

namespace Machine

variable {m : Machine} {ls : List Lexeme} {l : Lexeme}

theorem exists_of_run_error (h : m.run ls = .error l) :
    ∃ before after m', ls = before ++ l :: after ∧ m.run before = .ok m' ∧
      ∀ more, m.run (before ++ l :: more) = .error l := by
  induction ls generalizing m with
  | nil => cases h
  | cons head ls ih =>
    rw [run] at h
    cases hstep : m.step head with
    | none =>
      rw [hstep] at h
      cases h
      refine ⟨[], ls, m, rfl, rfl, fun more => ?_⟩
      rw [List.nil_append, run, hstep]
    | some next =>
      rw [hstep] at h
      obtain ⟨before, after, m', rfl, hrun, stops⟩ := ih h
      refine ⟨head :: before, after, m', rfl, ?_, fun more => ?_⟩
      · rw [run, hstep]
        exact hrun
      · rw [List.cons_append, run, hstep]
        exact stops more

theorem viable_of_run (proper : Proper ls) (h : start.run ls = .ok m) :
    Viable (ls.map Lexeme.word) := by
  have initial : start.Holds [] := .nil
  have holds := holds_run proper initial h
  rw [List.nil_append] at holds
  exact holds.viable

def parser : Parser where
  draft := drafter
  sound proper h := by
    rw [drafter] at h
    split at h
    · cases h
    · next m hrun =>
      split at h
      · next D hfin =>
        cases h
        exact run_sound proper hrun hfin
      · cases h
  complete d h := by
    obtain ⟨m, D, hrun, hfin, hd⟩ := run_complete d h
    exact ⟨D, by simp only [drafter, hrun, hfin], hd⟩
  blames := by
    intro ls l proper h
    rw [drafter] at h
    split at h
    · next hrun =>
      cases h
      obtain ⟨before, after, m, rfl, hbefore, stops⟩ := exists_of_run_error hrun
      have properBefore : Proper before := fun l hl => proper l (List.mem_append_left _ hl)
      refine ⟨before, after, rfl, viable_of_run properBefore hbefore, ?_⟩
      rintro ⟨d, more, hd⟩
      -- a condition that goes on with the lexeme would be taken to its end
      have spelled : (before ++ l :: more.map Word.lexeme).map Lexeme.word = d.words := by
        rw [hd, List.map_append, List.map_cons, Word.map_lexeme, List.map_append,
          List.append_assoc]
        rfl
      obtain ⟨m', D, hrun', -⟩ := run_complete d spelled
      rw [stops] at hrun'
      cases hrun'
    · split at h <;> cases h
  blames_end := by
    intro ls proper h
    rw [drafter] at h
    split at h
    · cases h
    · next m hrun => exact viable_of_run proper hrun

end Machine

/-- The lexeme that a parser blames is the first that no condition goes on with, so there is but one
to blame. -/
theorem eq_of_blames {before after before' after' : List Lexeme} {l l' : Lexeme}
    (same : before ++ l :: after = before' ++ l' :: after')
    (viable : Viable (before.map Lexeme.word)) (viable' : Viable (before'.map Lexeme.word))
    (stop : ¬ Viable ((before ++ [l]).map Lexeme.word))
    (stop' : ¬ Viable ((before' ++ [l']).map Lexeme.word)) : l = l' := by
  have longer {us vs : List Lexeme} {k : Lexeme} (h : ¬ Viable ((us ++ [k]).map Lexeme.word)) :
      ¬ Viable ((us ++ k :: vs).map Lexeme.word) := by
    intro hv
    refine h (.of_append (vs.map Lexeme.word) ?_)
    simpa using hv
  rcases List.append_eq_append_iff.1 same with
    ⟨_ | ⟨k, ks⟩, rfl, h⟩ | ⟨_ | ⟨k, ks⟩, rfl, h⟩
  · exact (List.cons.inj h).1
  · obtain ⟨rfl, -⟩ := List.cons.inj h
    exact absurd viable' (longer stop)
  · exact (List.cons.inj h).1.symm
  · obtain ⟨rfl, -⟩ := List.cons.inj h
    exact absurd viable (longer stop')

namespace Parser

variable (p q : Parser) {ls : List Lexeme}

/-- Two parsers draft the same derivation or blame the same lexeme. -/
theorem agree (proper : Proper ls) :
    (∃ (d : Derivation .logical) (D D' : Draft), p.draft ls = .ok D ∧ q.draft ls = .ok D' ∧
        d.Drafts D ∧ d.Drafts D') ∨
      ∃ blamed, p.draft ls = .error blamed ∧ q.draft ls = .error blamed := by
  cases hp : p.draft ls with
  | ok D =>
    obtain ⟨d, hw, hd⟩ := p.sound proper hp
    obtain ⟨D', hq, hd'⟩ := q.complete d hw.symm
    exact .inl ⟨d, D, D', rfl, hq, hd, hd'⟩
  | error blamed =>
    cases hq : q.draft ls with
    | ok D' =>
      obtain ⟨d, hw, -⟩ := q.sound proper hq
      obtain ⟨D, hD, -⟩ := p.complete d hw.symm
      rw [hp] at hD
      cases hD
    | error blamed' =>
      refine .inr ⟨blamed, rfl, ?_⟩
      have stops (r r' : Parser) {l : Lexeme} (h : r.draft ls = .error (some l)) :
          r'.draft ls ≠ .error none := by
        intro h'
        obtain ⟨before, after, split, -, stop⟩ := r.blames proper h
        refine stop (.of_append (after.map Lexeme.word) ?_)
        have viable := r'.blames_end proper h'
        rw [split] at viable
        simpa using viable
      cases blamed with
      | none =>
        cases blamed' with
        | none => rfl
        | some l' => exact absurd hp (stops q p hq)
      | some l =>
        cases blamed' with
        | none => exact absurd hq (stops p q hp)
        | some l' =>
          obtain ⟨before, after, split, viable, stop⟩ := p.blames proper hp
          obtain ⟨before', after', split', viable', stop'⟩ := q.blames proper hq
          rw [eq_of_blames (split.symm.trans split') viable viable' stop stop']

end Parser

/-- Two attempts have the same result, or say the same about why they have none. -/
def Alike {α : Type} (x y : Except Refusal α) : Prop :=
  x.mapError Refusal.message = y.mapError Refusal.message

theorem Alike.bind {α β : Type} {x y : Except Refusal α} {f g : α → Except Refusal β}
    (h : Alike x y) (hf : ∀ a, Alike (f a) (g a)) : Alike (x >>= f) (y >>= g) := by
  have next : (fun a => (f a).mapError Refusal.message) =
      fun a => (g a).mapError Refusal.message := funext hf
  rw [Alike, mapError_bind, mapError_bind, h, next]

theorem arrayOf_alike {ls ls' : List Lexeme} {elements : List Element}
    (h : ls.map Lexeme.word = elements.map Element.word)
    (h' : ls'.map Lexeme.word = elements.map Element.word) : Alike (arrayOf ls) (arrayOf ls') := by
  obtain ⟨hk, rfl⟩ := Lexeme.elements_of_words h
  obtain ⟨hk', same⟩ := Lexeme.elements_of_words h'
  rw [Alike]
  cases hf : arrayFault? (ls.map Lexeme.element) with
  | some f =>
    obtain ⟨refusal, he, hm⟩ := arrayOf_refuses hk hf
    obtain ⟨refusal', he', hm'⟩ := arrayOf_refuses hk' (same ▸ hf)
    rw [he, he']
    exact congrArg Except.error (hm.trans hm'.symm)
  | none =>
    obtain ⟨e, he⟩ := Derivation.exists_tree (d := .array (ls.map Lexeme.element)) hf
    rw [(arrayOf_eq_ok hk).2 he, (arrayOf_eq_ok hk').2 (same ▸ he)]

mutual

/-- Drafts of one derivation become the same tree, or are refused in the same words. -/
theorem Derivation.resolve_alike {level : Level} {D D' : Draft} {room : Nat} :
    ∀ d : Derivation level, d.Drafts D → d.Drafts D' → Alike (D.resolve room) (D'.resolve room)
  | .tighter _ d, h, h' => d.resolve_alike h h'
  | .group inner, h, h' => inner.resolve_alike h h'
  | .binary left op _ right, h, h' => by
    obtain ⟨l, r, rfl, hl, hr⟩ := h
    obtain ⟨l', r', rfl, hl', hr'⟩ := h'
    cases room with
    | zero => rfl
    | succ room =>
      rw [Draft.resolve, Draft.resolve]
      refine (left.resolve_alike hl hl').bind fun _ => ?_
      exact (right.resolve_alike hr hr').bind fun _ => rfl
  | .negation operand, h, h' => by
    obtain ⟨e, rfl, he⟩ := h
    obtain ⟨e', rfl, he'⟩ := h'
    cases room with
    | zero => rfl
    | succ room =>
      rw [Draft.resolve, Draft.resolve]
      exact (operand.resolve_alike he he').bind fun _ => rfl
  | .call function, h, h' => by
    obtain ⟨f, rfl, hf⟩ := h
    obtain ⟨f', rfl, hf'⟩ := h'
    cases room with
    | zero => rfl
    | succ room =>
      rw [Draft.resolve, Draft.resolve]
      exact (function.resolve_alike hf hf').bind fun _ => rfl
  | .callWith function arguments, h, h' => by
    obtain ⟨f, as, rfl, hf, ha⟩ := h
    obtain ⟨f', as', rfl, hf', ha'⟩ := h'
    cases room with
    | zero => rfl
    | succ room =>
      rw [Draft.resolve, Draft.resolve]
      refine (function.resolve_alike hf hf').bind fun _ => ?_
      exact (arguments.resolveAll_alike ha ha').bind fun _ => rfl
  | .quotation content, h, h' => by
    obtain ⟨l, rfl, hl⟩ := h
    obtain ⟨l', rfl, hl'⟩ := h'
    cases room with
    | zero => rfl
    | succ room => rw [Draft.resolve, Draft.resolve, hl, hl', Alike]
  | .array elements, h, h' => by
    obtain ⟨ls, rfl, hw⟩ := h
    obtain ⟨ls', rfl, hw'⟩ := h'
    cases room with
    | zero => rfl
    | succ room =>
      rw [Draft.resolve, Draft.resolve]
      exact arrayOf_alike hw hw'
  | .name _, h, h' => by
    cases h
    cases h'
    rfl
  | .numeral _, h, h' => by
    cases h
    cases h'
    rfl
  | .truth _, h, h' => by
    cases h
    cases h'
    rfl

theorem Arguments.resolveAll_alike {Ds Ds' : List Draft} {room : Nat} :
    ∀ as : Arguments, as.Drafts Ds → as.Drafts Ds' →
      Alike (resolveAll room Ds) (resolveAll room Ds')
  | .one d, h, h' => by
    obtain ⟨D, rfl, hd⟩ := h
    obtain ⟨D', rfl, hd'⟩ := h'
    rw [resolveAll, resolveAll]
    exact (d.resolve_alike hd hd').bind fun _ => rfl
  | .snoc before d, h, h' => by
    obtain ⟨Ds, D, rfl, hs, hd⟩ := h
    obtain ⟨Ds', D', rfl, hs', hd'⟩ := h'
    rw [resolveAll_concat, resolveAll_concat]
    refine (before.resolveAll_alike hs hs').bind fun _ => ?_
    exact (d.resolve_alike hd hd').bind fun _ => rfl

end

end Criterion.Grammar
