import Mathlib
import Criterion.Proofs.Parse.Places
import Criterion.Proofs.Scan.Lookahead

/-!
Texts that are laid out differently. The tokens of a text can be written out again with any spacing
between them: where spacing follows no token goes on, and reading by descent does not look at the
places of tokens.
-/

namespace Criterion

/-- Characters in which the pieces of a text are written out one after the other, with some spacing
between two of them and any after the last. Nothing stands after a string that is not closed. -/
inductive Written : List Piece → List Char → Prop
  | nil : Written [] []
  | cons {p : Piece} {ps : List Piece} {gap cs : List Char} (spacing : ∀ c ∈ gap, isSpacing c)
      (apart : ps ≠ [] → gap ≠ []) (closed : p.raw ≠ p.token.raw → gap = [])
      (rest : Written ps cs) : Written (p :: ps) (p.raw ++ (gap ++ cs))

/-- A text has the tokens of another one written out with other spacing. -/
def Reformats (source other : String) : Prop :=
  ∃ gap body, (∀ c ∈ gap, isSpacing c) ∧ other.toList = gap ++ body ∧ Written (pieces source) body

theorem not_joining_of_spacing {c : Char} (h : isSpacing c) : ¬ isJoining c := by
  simp only [isSpacing, Bool.or_eq_true, decide_eq_true_eq] at h
  rcases h with ((rfl | rfl) | rfl) | rfl <;> decide

theorem endsAs_spacing {gap cs more : List Char} (spacing : ∀ c ∈ gap, isSpacing c)
    (none : gap = [] → cs = []) : EndsAs (gap ++ cs) more := by
  intro c hc joining
  cases gap with
  | nil =>
    rw [none rfl] at hc
    cases hc
  | cons d gap =>
    cases hc
    exact absurd joining (not_joining_of_spacing (spacing c (List.mem_cons_self ..)))

namespace Cursor

variable {source : List Char} {c d : Cursor} {gap body : List Char}

theorem content_next_of_end (h : c.next.1.kind = .endOfInput) :
    c.next.1.content = (.endOfInput, "") := by
  cases hr : c.skipSpacing.rest with
  | nil => simp only [next, hr, Token.content]
  | cons first cs =>
    rw [rest_skipSpacing] at hr
    rw [next_of_cons hr] at h
    exact absurd h (kind_tokenAt first _)

/-- What a token is depends on the characters that are left and not on where they stand. -/
theorem tokenAt_of_rest (first : Char) (h : d.rest = c.rest) :
    (d.tokenAt first).1.content = (c.tokenAt first).1.content ∧
      (d.tokenAt first).2.rest = (c.tokenAt first).2.rest := by
  simp only [tokenAt, readString, readInteger, readWord, readText, h]
  split
  · exact ⟨rfl, congrArg (List.drop _) h⟩
  · split
    · exact ⟨rfl, congrArg (List.drop _) h⟩
    · split
      · exact ⟨rfl, congrArg (List.drop _) h⟩
      · split
        · exact ⟨rfl, congrArg (List.drop _) h⟩
        · exact ⟨rfl, congrArg (List.drop _) h⟩

theorem next_of_rest (next : c.next.1.kind ≠ .endOfInput)
    (h : d.skipSpacing.rest = c.skipSpacing.rest) :
    d.next.1.content = c.next.1.content ∧ d.next.2.rest = c.next.2.rest := by
  cases hr : c.skipSpacing.rest with
  | nil =>
    rw [rest_skipSpacing] at hr
    exact absurd (next_of_nil hr) next
  | cons first cs =>
    have hd := h.trans hr
    rw [rest_skipSpacing] at hr hd
    rw [next_of_cons hr, next_of_cons hd]
    exact tokenAt_of_rest first h

theorem skipSpacing_of_piece {raw more rest : List Char} (hd : d.rest = gap ++ (raw ++ rest))
    (spacing : ∀ e ∈ gap, isSpacing e) (hc : c.skipSpacing.rest = raw ++ more) (some : raw ≠ []) :
    d.skipSpacing.rest = raw ++ rest := by
  obtain ⟨first, tail, rfl⟩ := List.exists_cons_of_ne_nil some
  have start : ¬ isSpacing first := by
    have stop := List.head_dropWhile_not isSpacing (l := c.rest) (by
      rw [← rest_skipSpacing, hc]
      exact List.cons_ne_nil _ _)
    simpa [← rest_skipSpacing, hc] using stop
  rw [rest_skipSpacing, hd, List.dropWhile_append_of_pos spacing, List.cons_append,
    List.dropWhile_cons_of_neg start]

/-- A piece that is written out again gives the same token, and what stands after it is left. -/
theorem next_written {p : Piece} {ps : List Piece} {cs : List Char}
    (next : c.next.1.kind ≠ .endOfInput) (token : p.token = c.next.1)
    (hc : c.skipSpacing.rest = p.raw ++ c.next.2.rest)
    (lies : p.Lies c.before.reverse c.next.2.rest) (later : c.next.2.pieces = ps)
    (hd : d.skipSpacing.rest = p.raw ++ (gap ++ cs)) (spacing : ∀ e ∈ gap, isSpacing e)
    (apart : ps ≠ [] → gap ≠ []) (closed : p.raw ≠ p.token.raw → gap = [])
    (rest : Written ps cs) :
    d.next.1.content = c.next.1.content ∧ d.next.2.rest = gap ++ cs := by
  by_cases full : p.raw = p.token.raw
  · rw [full, token] at hc hd
    refine next_endsAs next hc hd (endsAs_spacing spacing ?_)
    rintro rfl
    cases rest with
    | nil => rfl
    | cons => exact absurd rfl (apart (List.cons_ne_nil _ _))
  · -- An open string has run to the end of its text, so it is also the end of the other one.
    obtain ⟨-, -, stop⟩ := lies.read.resolve_left full
    rw [pieces_of_end (next_of_nil (by rw [stop]; rfl))] at later
    subst later
    cases rest
    rw [closed full, List.append_nil] at hd ⊢
    rw [stop] at hc
    obtain ⟨content, same⟩ := next_of_rest next (hd.trans hc.symm)
    exact ⟨content, same.trans stop⟩

/-- The tokens from a cursor on are the same wherever the pieces from there on are written out. -/
theorem tokens_written (hc : c.In source) (spacing : ∀ e ∈ gap, isSpacing e)
    (hd : d.rest = gap ++ body) (h : Written c.pieces body) :
    d.tokens.map Token.content = c.tokens.map Token.content := by
  induction c using pieces.induct generalizing d gap body with
  | case1 c hend =>
    rw [pieces_of_end hend] at h
    cases h
    have blank : d.rest.dropWhile isSpacing = [] := by
      rw [hd, List.append_nil, List.dropWhile_eq_nil_iff]
      exact spacing
    have hend' := next_of_nil blank
    rw [tokens_of_end hend', tokens_of_end hend, List.map_singleton, List.map_singleton,
      content_next_of_end hend, content_next_of_end hend']
  | case2 c hnext ih =>
    obtain ⟨p, hp, token, stands, -, text, -, lies⟩ := exists_pieces hc hnext
    rw [hp] at h
    cases h with
    | cons spacing' apart closed rest =>
      -- What is left of the other text starts with the gap after this piece.
      have place := skipSpacing_of_piece hd spacing text lies.some
      obtain ⟨content, after⟩ :=
        next_written hnext token text lies rfl place spacing' apart closed rest
      have hnext' : d.next.1.kind ≠ .endOfInput := by
        rw [show d.next.1.kind = c.next.1.kind from congrArg Prod.fst content]
        exact hnext
      rw [tokens_of_next hnext', tokens_of_next hnext, List.map_cons, List.map_cons, content,
        ih stands spacing' after rest]

end Cursor

theorem Reformats.content {source other : String} (h : Reformats source other) :
    (tokenize other).map Token.content = (tokenize source).map Token.content := by
  obtain ⟨gap, body, spacing, text, written⟩ := h
  exact Cursor.tokens_written (c := .start source) (d := .start other) (Cursor.in_start source)
    spacing text written

theorem placeless_of_content {tokens others : List Token}
    (h : others.map Token.content = tokens.map Token.content) :
    others.map Token.placeless = tokens.map Token.placeless := by
  have placed (ts : List Token) : ts.map Token.placeless =
      (ts.map Token.content).map fun (kind, text) => ⟨kind, text, 0, 0⟩ := by
    rw [List.map_map]
    rfl
  rw [placed, placed, h]

theorem Diagnostic.message_placeless {d : Diagnostic} (h : ∀ t, d ≠ .problem (.illegal t)) :
    d.placeless.message = d.message := by
  cases d with
  | problem p => exact Parse.Problem.message_placeless fun t ht => h t (congrArg problem ht)
  | _ => rfl

namespace Reading

/-- Tokens with the same contents are read as the same tree, and the same is wrong with them but for
the places that are told. -/
theorem ofTokens_content [Nesting] {tokens others : List Token} (r : Registry)
    (h : others.map Token.content = tokens.map Token.content) :
    (ofTokens r others).body = (ofTokens r tokens).body ∧
      (ofTokens r others).diagnostics.map Diagnostic.placeless =
        (ofTokens r tokens).diagnostics.map Diagnostic.placeless := by
  have bare := (ofTokens_placeless r others).symm.trans
    ((congrArg (ofTokens r) (placeless_of_content h)).trans (ofTokens_placeless r tokens))
  obtain ⟨body, diagnostics⟩ := Reading.mk.inj bare
  exact ⟨body, diagnostics⟩

theorem mem_illegal_of_placeless {ds others : List Diagnostic}
    (h : others.map Diagnostic.placeless = ds.map Diagnostic.placeless) {t : Token}
    (illegal : .problem (.illegal t) ∈ others) : ∃ t', .problem (.illegal t') ∈ ds := by
  have bare : Diagnostic.placeless (.problem (.illegal t)) ∈ ds.map Diagnostic.placeless :=
    h ▸ List.mem_map_of_mem illegal
  obtain ⟨d, hd, same⟩ := List.mem_map.1 bare
  cases d with
  | problem p =>
    obtain ⟨t', rfl⟩ := Parse.Problem.eq_illegal (Diagnostic.problem.inj same)
    exact ⟨t', hd⟩
  | _ => cases same

theorem messages_of_placeless {reading other : Reading}
    (h : other.diagnostics.map Diagnostic.placeless =
      reading.diagnostics.map Diagnostic.placeless)
    (legal : ∀ t, .problem (.illegal t) ∉ reading.diagnostics) :
    other.messages = reading.messages := by
  have bare {given : Reading} (legal : ∀ t, .problem (.illegal t) ∉ given.diagnostics) :
      (given.diagnostics.map Diagnostic.placeless).map Diagnostic.message = given.messages := by
    rw [messages, List.map_map]
    refine List.map_congr_left fun d hd => Diagnostic.message_placeless ?_
    rintro t rfl
    exact legal t hd
  have legal' : ∀ t, .problem (.illegal t) ∉ other.diagnostics := by
    intro t illegal
    obtain ⟨t', ht'⟩ := mem_illegal_of_placeless h illegal
    exact legal t' ht'
  rw [← bare legal, ← bare legal', h]

/-- Writing the tokens of a text out again with other spacing changes neither what the tokens are
nor the program that is read, and none of the messages unless one tells where an illegal token
stands. -/
theorem reading_reformatted [Nesting] {source other : String} (h : Reformats source other)
    (r : Registry) :
    (tokenize other).map Token.content = (tokenize source).map Token.content ∧
      (ofSource .descent r other).program = (ofSource .descent r source).program ∧
      ((∀ t, .problem (.illegal t) ∉ (ofSource .descent r source).diagnostics) →
        (ofSource .descent r other).messages = (ofSource .descent r source).messages) := by
  obtain ⟨body, diagnostics⟩ := ofTokens_content r h.content
  exact ⟨h.content, congrArg Expr.ofBody body, messages_of_placeless diagnostics⟩

open Nesting

theorem reading_reformatted_touching :
    Reformats "abc123" "\tabc \n123" ∧
      (tokenize "\tabc \n123").map Token.content = (tokenize "abc123").map Token.content ∧
      (ofSource .descent .standard "\tabc \n123").program =
        (ofSource .descent .standard "abc123").program ∧
      (ofSource .descent .standard "\tabc \n123").messages =
        (ofSource .descent .standard "abc123").messages := by
  have text : pieces "abc123" =
      [⟨[], ['a', 'b', 'c'], ⟨.identifier, "abc", 1, 1⟩⟩,
        ⟨[], ['1', '2', '3'], ⟨.integer, "123", 1, 4⟩⟩] := by cbv
  have read : (ofSource .descent .standard "abc123").diagnostics =
      [.problem (.trailing ⟨.integer, "123", 1, 4⟩)] := by cbv
  have reformats : Reformats "abc123" "\tabc \n123" := by
    refine ⟨['\t'], ['a', 'b', 'c', ' ', '\n', '1', '2', '3'], by simp [isSpacing], by cbv, ?_⟩
    rw [text]
    change Written _ (['a', 'b', 'c'] ++ ([' ', '\n'] ++ (['1', '2', '3'] ++ ([] ++ []))))
    refine .cons (by simp [isSpacing]) (by simp) (by simp [Token.raw]) ?_
    exact .cons (by simp) (by simp) (by simp) .nil
  obtain ⟨content, program, messages⟩ := reading_reformatted reformats .standard
  refine ⟨reformats, content, program, messages ?_⟩
  rw [read]
  simp

end Reading

end Criterion
