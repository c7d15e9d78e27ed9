import Mathlib
import Criterion.Proofs.Rendering.RoundTrip
import Criterion.Proofs.Scan.Lookahead

/-!
Conditions put together from the texts of others. A text that is a condition by itself stays one
operand between parentheses: none of its tokens reaches past its end, and none of its words is taken
for one of the words around it.
-/

namespace Criterion

open Grammar

/-- No string of a text lacks its closing mark. -/
def Closed (source : String) : Prop :=
  ∀ p ∈ pieces source, p.token.kind = .string → p.raw = p.token.raw

theorem Stops.endsAs {cs more : List Char} (h : Stops cs) : EndsAs cs more := by
  intro c hc joining
  exact absurd (h c hc) (notMem_of_all (by decide) joining)

theorem sourceWords_spacings {cs : List Char} (h : ∀ c ∈ cs, isSpacing c) (rest : List Char) :
    sourceWords (cs ++ rest) = sourceWords rest := by
  induction cs with
  | nil => rfl
  | cons c cs ih =>
    obtain ⟨hc, hcs⟩ := List.forall_mem_cons.1 h
    rw [List.cons_append, sourceWords_spacing hc, ih hcs]

namespace Cursor

variable {source : List Char} {c : Cursor}

theorem sourceWords_rest (h : c.next.1.kind ≠ .endOfInput) :
    sourceWords c.rest = c.next.1.word :: sourceWords c.next.2.rest := by
  rw [← wordsOf_tokens, tokens_of_next h, wordsOf_cons h, wordsOf_tokens]

theorem skipSpacing_append (c : Cursor) (rest : List Char) (some : c.skipSpacing.rest ≠ []) :
    (⟨[], c.rest ++ rest, .start⟩ : Cursor).skipSpacing.rest = c.skipSpacing.rest ++ rest := by
  rw [rest_skipSpacing] at some ⊢
  rw [rest_skipSpacing, List.dropWhile_append, if_neg (by simpa using some)]

/-- Text with no open string has the same words before any text that goes on with no word. -/
theorem sourceWords_append (c : Cursor) (hc : c.In source) {rest : List Char} (stops : Stops rest)
    (closed : ∀ p ∈ c.pieces, p.token.kind = .string → p.raw = p.token.raw) :
    sourceWords (c.rest ++ rest) = sourceWords c.rest ++ sourceWords rest := by
  induction c using pieces.induct with
  | case1 c h =>
    have spacing := rest_of_end h
    have none := sourceWords_spacings spacing []
    rw [List.append_nil, sourceWords_nil] at none
    rw [sourceWords_spacings spacing, none, List.nil_append]
  | case2 c h ih =>
    obtain ⟨p, hp, token, stands, -, text, -, lies⟩ := exists_pieces hc h
    rw [hp] at closed
    obtain ⟨closed, later⟩ := List.forall_mem_cons.1 closed
    have full : p.raw = c.next.1.raw := by
      rcases lies.read with full | ⟨string, -⟩
      · rw [full, token]
      · rw [closed string, token]
    have some : c.skipSpacing.rest ≠ [] := by
      rw [text]
      exact fun none => lies.some (List.append_eq_nil_iff.1 none).1
    rw [full] at text
    have same := skipSpacing_append c rest some
    rw [text, List.append_assoc] at same
    obtain ⟨content, after⟩ :=
      next_endsAs h text same (endsAs_append _ _ stops.endsAs)
    have kind : (⟨[], c.rest ++ rest, .start⟩ : Cursor).next.1.kind = c.next.1.kind :=
      congrArg Prod.fst content
    have word : (⟨[], c.rest ++ rest, .start⟩ : Cursor).next.1.word = c.next.1.word :=
      congrArg (fun content => content.1.word content.2) content
    have words := sourceWords_rest (kind ▸ h)
    rw [word, after, ih stands later] at words
    rw [words, sourceWords_rest h]
    rfl

end Cursor

theorem Closed.spelled {source : String} (h : Closed source) :
    Spelled source.toList (sourceWords source.toList) := fun _ stops =>
  Cursor.sourceWords_append (.start source) (Cursor.in_start source) stops h

theorem derives_assembled {e₁ e₂ : Expr} {us vs : List Word} (op : BinaryOp)
    (h₁ : Derives .logical e₁ us) (h₂ : Derives .logical e₂ vs) :
    Derives .logical (.binary e₁ op.text e₂)
      (.leftParen :: (us ++ [.rightParen]) ++ .sign op :: .leftParen :: (vs ++ [.rightParen])) := by
  obtain ⟨level, known, -⟩ := op.exists_level
  have atom : Level.atom.rank = 8 := rfl
  have left := h₁.group.loosen (atom ▸ level.rank_le)
  have right := h₂.group.loosen (atom ▸ level.tighter.rank_le)
  exact (left.binary known right).loosen level.rank_pos

theorem spelled_assembled {s₁ s₂ : List Char} {us vs : List Word} (op : BinaryOp)
    (h₁ : Spelled s₁ us) (h₂ : Spelled s₂ vs) :
    Spelled ('(' :: (s₁ ++ ')' :: ' ' :: (op.text.toList ++ ' ' :: '(' :: (s₂ ++ [')']))))
      (.leftParen :: (us ++ [.rightParen]) ++ .sign op :: .leftParen :: (vs ++ [.rightParen])) := by
  have right := Spelled.sign op (h₂.append .rightParen (by decide)).leftParen
  have middle := Spelled.rightParen.append right.space (by decide)
  have whole := (h₁.append middle (by decide)).leftParen
  simpa using whole

theorem spelled_negated {s : List Char} {ws : List Word} (h : Spelled s ws) :
    Spelled ('!' :: '(' :: (s ++ [')'])) (.bang :: .leftParen :: (ws ++ [.rightParen])) :=
  (h.append .rightParen (by decide)).leftParen.bang (by decide)

namespace Reading

/-- Two texts that are read as trees, in parentheses and with an operator between them, are read as
that operator between the two trees, by either front end and with any registry, and nothing is wrong
with the whole but what checking that tree finds. So is the negation of one of them. -/
theorem reading_assembled [Nesting] {front₁ front₂ : FrontEnd} {r₁ r₂ : Registry} {s₁ s₂ : String}
    {e₁ e₂ : Expr} (op : BinaryOp) (h₁ : (ofSource front₁ r₁ s₁).Parses e₁)
    (h₂ : (ofSource front₂ r₂ s₂).Parses e₂) (closed₁ : Closed s₁) (closed₂ : Closed s₂)
    (front : FrontEnd) (r : Registry) :
    ((ofSource front r ("(" ++ s₁ ++ ") " ++ op.text ++ " (" ++ s₂ ++ ")")).Shallow →
      (ofSource front r ("(" ++ s₁ ++ ") " ++ op.text ++ " (" ++ s₂ ++ ")")).Parses
        (.binary e₁ op.text e₂) ∧
      ∃ kind, check r (.program (.binary e₁ op.text e₂)) = .ok
        (kind, (ofSource front r ("(" ++ s₁ ++ ") " ++ op.text ++ " (" ++ s₂ ++ ")")).messages)) ∧
    ((ofSource front r ("!(" ++ s₁ ++ ")")).Shallow →
      (ofSource front r ("!(" ++ s₁ ++ ")")).Parses (.unary "!" e₁) ∧
      ∃ kind, check r (.program (.unary "!" e₁)) = .ok
        (kind, (ofSource front r ("!(" ++ s₁ ++ ")")).messages)) := by
  constructor
  · intro shallow
    apply parses_of_derives shallow
    have text : ("(" ++ s₁ ++ ") " ++ op.text ++ " (" ++ s₂ ++ ")").toList =
        '(' :: (s₁.toList ++ ')' :: ' ' ::
          (op.text.toList ++ ' ' :: '(' :: (s₂.toList ++ [')']))) := by
      simp
    rw [text, (spelled_assembled op closed₁.spelled closed₂.spelled).words]
    exact derives_assembled op h₁.derives h₂.derives
  · intro shallow
    apply parses_of_derives shallow
    have text : ("!(" ++ s₁ ++ ")").toList = '!' :: '(' :: (s₁.toList ++ [')']) := by
      simp
    rw [text, (spelled_negated closed₁.spelled).words]
    exact (h₁.derives.group.loosen (by decide)).negation.loosen (by decide)

open Nesting

theorem reading_assembled_comparison :
    (ofSource .descent .standard "(x == \"y\") || (b)").Parses
      (.binary (.binary (.identifier "x") "==" (.string "y")) "||" (.identifier "b")) ∧
    (ofSource .descent .standard "!(x == \"y\")").Parses
      (.unary "!" (.binary (.identifier "x") "==" (.string "y"))) := by
  have read₁ : ofSource .descent .standard "x == \"y\"" =
      ⟨some (.binary (.identifier "x") "==" (.string "y")), []⟩ := by cbv
  have read₂ : ofSource .descent .standard "b" = ⟨some (.identifier "b"), []⟩ := by cbv
  have closed₁ : Closed "x == \"y\"" := by
    have text : pieces "x == \"y\"" =
      [⟨[], ['x'], ⟨.identifier, "x", 1, 1⟩⟩, ⟨[' '], ['=', '='], ⟨.equal, "==", 1, 3⟩⟩,
        ⟨[' '], ['"', 'y', '"'], ⟨.string, "y", 1, 6⟩⟩] := by cbv
    rw [Closed, text]
    decide
  have closed₂ : Closed "b" := by
    have text : pieces "b" = [⟨[], ['b'], ⟨.identifier, "b", 1, 1⟩⟩] := by cbv
    rw [Closed, text]
    decide
  have clean : (ofSource .descent .standard "(x == \"y\") || (b)").messages = [] := by cbv
  have clean' : (ofSource .descent .standard "!(x == \"y\")").messages = [] := by cbv
  have parses₁ : (ofSource .descent .standard "x == \"y\"").Parses
      (.binary (.identifier "x") "==" (.string "y")) := by
    simp [Parses, read₁]
  have parses₂ : (ofSource .descent .standard "b").Parses (.identifier "b") := by
    simp [Parses, read₂]
  obtain ⟨joined, negated⟩ :=
    reading_assembled .or parses₁ parses₂ closed₁ closed₂ .descent .standard
  exact ⟨(joined (shallow_of_clean clean)).1, (negated (shallow_of_clean clean')).1⟩

end Reading

end Criterion
