import Criterion.Proofs.FrontEnds
import Criterion.Proofs.Rendering.Layout
import Criterion.Proofs.Rendering.Spelling

namespace Criterion

open Grammar

namespace Expr

mutual

/-- A tree that can be written: of names, literals that can be written, and known operators. -/
def WellFormed : Expr → Prop
  | identifier name => IsName name
  | integer value => Writable value
  | boolean _ => True
  | string value => Quotable value
  | integers values => values ≠ [] ∧ ∀ n ∈ values, Writable n
  | strings values => values ≠ [] ∧ ∀ s ∈ values, Quotable s
  | unary op operand => (∃ known : UnaryOp, known.text = op) ∧ operand.WellFormed
  | binary left op right =>
    (∃ known : BinaryOp, known.text = op) ∧ left.WellFormed ∧ right.WellFormed
  | call function arguments => function.WellFormed ∧ AllWellFormed arguments
  | program _ | absent | foreign _ _ => False

def AllWellFormed : List Expr → Prop
  | [] => True
  | e :: es => e.WellFormed ∧ AllWellFormed es

end

end Expr

/-- Characters that hold some words, whatever stops the last one. -/
def Spelled (cs : List Char) (ws : List Word) : Prop :=
  ∀ rest, Stops rest → sourceWords (cs ++ rest) = ws ++ sourceWords rest

namespace Spelled

variable {cs ds : List Char} {us vs ws : List Word}

theorem words (h : Spelled cs ws) : sourceWords cs = ws := by
  rw [← List.append_nil cs, h [] stops_nil, sourceWords_nil, List.append_nil]

theorem append {c : Char} (h : Spelled cs us) (hd : Spelled (c :: ds) vs)
    (hc : c ∈ stopSigns) : Spelled (cs ++ c :: ds) (us ++ vs) := by
  intro rest hr
  have next : Stops (c :: ds ++ rest) := stops_cons hc
  rw [List.append_assoc, h _ next, hd rest hr, List.append_assoc]

theorem leftParen (h : Spelled cs ws) : Spelled ('(' :: cs) (.leftParen :: ws) := by
  intro rest hr
  rw [List.cons_append, sourceWords_leftParen, h rest hr, List.cons_append]

theorem rightParen : Spelled [')'] [.rightParen] := fun rest _ => sourceWords_rightParen rest

theorem rightBracket : Spelled [']'] [.rightBracket] := fun rest _ => sourceWords_rightBracket rest

theorem leftBracket (h : Spelled cs ws) : Spelled ('[' :: cs) (.leftBracket :: ws) := by
  intro rest hr
  rw [List.cons_append, sourceWords_leftBracket, h rest hr, List.cons_append]

theorem comma (h : Spelled cs ws) : Spelled (',' :: cs) (.comma :: ws) := by
  intro rest hr
  rw [List.cons_append, sourceWords_comma, h rest hr, List.cons_append]

theorem space (h : Spelled cs ws) : Spelled (' ' :: cs) ws := by
  intro rest hr
  rw [List.cons_append, sourceWords_space, h rest hr]

theorem sign (op : BinaryOp) (h : Spelled cs ws) :
    Spelled (op.text.toList ++ ' ' :: cs) (.sign op :: ws) := by
  intro rest hr
  rw [List.append_assoc, List.cons_append, sourceWords_op, h rest hr, List.cons_append]

theorem bang {c : Char} (h : Spelled (c :: cs) ws) (other : c ≠ '=') :
    Spelled ('!' :: c :: cs) (.bang :: ws) := by
  intro rest hr
  have first : (c :: cs ++ rest).head? ≠ some '=' := fun he => other (Option.some.inj he)
  rw [List.cons_append, sourceWords_bang first, h rest hr, List.cons_append]

theorem spacing {gap : List Char} (all : ∀ c ∈ gap, isSpacing c) (h : Spelled cs ws) :
    Spelled (gap ++ cs) ws := by
  induction gap with
  | nil => exact h
  | cons c gap ih =>
    obtain ⟨hc, hgap⟩ := List.forall_mem_cons.1 all
    intro rest hr
    rw [List.cons_append, List.cons_append, sourceWords_spacing hc, ih hgap rest hr]

theorem intercalate {α : Type} (separator : String) (gap : List Char) {f : α → String}
    {g : α → Word} {xs : List α} (comma : separator.toList = ',' :: gap)
    (all : ∀ c ∈ gap, isSpacing c) (more : xs ≠ []) (h : ∀ x ∈ xs, Spelled (f x).toList [g x]) :
    Spelled (separator.intercalate (xs.map f)).toList ((xs.map g).intersperse .comma) := by
  induction xs with
  | nil => exact absurd rfl more
  | cons x xs ih =>
    obtain ⟨hx, hxs⟩ := List.forall_mem_cons.1 h
    cases xs with
    | nil =>
      rw [List.map_singleton, String.intercalate_singleton]
      exact hx
    | cons y xs =>
      have text : (separator.intercalate ((x :: y :: xs).map f)).toList =
          (f x).toList ++ ',' :: (gap ++ (separator.intercalate ((y :: xs).map f)).toList) := by
        simp only [List.map_cons, String.intercalate_cons_cons, String.toList_append,
          List.append_assoc, comma, List.cons_append]
      rw [text]
      have rest := (ih (List.cons_ne_nil y xs) hxs).spacing all
      exact hx.append rest.comma (by decide)

end Spelled

theorem spelled_name {text : String} (h : IsName text) : Spelled text.toList [.name text] := by
  intro rest hr
  rw [sourceWords_letters h.1 (List.all_eq_true.2 h.2.1) hr, h.ofWord]
  rfl

theorem spelled_decimal {n : Int} (h : Writable n) :
    Spelled (Text.decimal n).toList [.numeral (Text.decimal n)] := fun _ hr =>
  sourceWords_decimal h.1 hr

theorem spelled_quote {s : String} (h : Quotable s) :
    Spelled (Expr.quote s).toList [.quotation s] := fun rest _ => sourceWords_quote h rest

theorem spelled_truth (value : Bool) :
    Spelled (if value then "true" else "false").toList [.truth value] := fun _ hr =>
  sourceWords_truth value hr

namespace Expr

theorem exists_first : ∀ {e : Expr}, e.WellFormed → ∃ c cs, e.text.toList = c :: cs ∧ c ≠ '='
  | .identifier name, h => by
    obtain ⟨some, letters, -⟩ := h
    cases ht : name.toList with
    | nil => exact absurd (String.toList_eq_nil_iff.1 ht) some
    | cons c cs =>
      refine ⟨c, cs, by rw [text, ht], ?_⟩
      rintro rfl
      exact absurd (letters '=' (ht ▸ List.mem_cons_self ..)) (by decide)
  | .integer value, h => by
    have low : 0 ≤ value := h.1
    cases ht : Text.digits value.natAbs with
    | nil => exact absurd ht (Text.digits_ne_nil _)
    | cons c cs =>
      refine ⟨c, cs, by rw [text, Text.toList_decimal low, ht], ?_⟩
      rintro rfl
      have digit : '='.isDigit := Text.isDigit_of_mem_digits (ht ▸ List.mem_cons_self ..)
      exact absurd digit (by decide)
  | .boolean true, _ => ⟨'t', ['r', 'u', 'e'], rfl, by decide⟩
  | .boolean false, _ => ⟨'f', ['a', 'l', 's', 'e'], rfl, by decide⟩
  | .string value, _ => ⟨'"', value.toList ++ ['"'], by simp [text, quote], by decide⟩
  | .integers values, _ => ⟨'[', _, toList_array .., by decide⟩
  | .strings values, _ => ⟨'[', _, toList_array .., by decide⟩
  | .unary op operand, _ => ⟨'(', _, toList_unary .., by decide⟩
  | .binary left op right, _ => ⟨'(', _, toList_binary .., by decide⟩
  | .call function arguments, h => by
    obtain ⟨c, cs, ht, hc⟩ := exists_first h.1
    refine ⟨c, cs ++ '(' :: ((", ".intercalate (texts arguments)).toList ++ [')']), ?_, hc⟩
    rw [toList_call, ht, List.cons_append]

end Expr

namespace Grammar

def Arguments.prepend (d : Derivation .logical) : Arguments → Arguments
  | .one e => .snoc (.one d) e
  | .snoc before e => .snoc (before.prepend d) e

theorem Arguments.words_prepend (d : Derivation .logical) (as : Arguments) :
    (as.prepend d).words = d.words ++ .comma :: as.words := by
  cases as with
  | one e => rfl
  | snoc before e =>
    simp only [prepend, words, before.words_prepend d, List.append_assoc, List.cons_append]

theorem Arguments.trees?_prepend {d : Derivation .logical} {e : Expr} (hd : d.tree? = some e) :
    ∀ {as : Arguments} {es : List Expr}, as.trees? = some es →
      (as.prepend d).trees? = some (e :: es)
  | .one last, es, h => by
    obtain ⟨x, hx, he⟩ := Option.bind_eq_some_iff.1 h
    cases he
    simp [prepend, trees?, hd, hx]
  | .snoc before last, es, h => by
    obtain ⟨xs, hxs, h⟩ := Option.bind_eq_some_iff.1 h
    obtain ⟨x, hx, he⟩ := Option.bind_eq_some_iff.1 h
    cases he
    simp [prepend, trees?, trees?_prepend hd hxs, hx]

theorem DerivesAll.cons {e : Expr} {es : List Expr} {us vs : List Word}
    (h : Derives .logical e us) (hs : DerivesAll es vs) :
    DerivesAll (e :: es) (us ++ .comma :: vs) := by
  obtain ⟨d, rfl, h⟩ := h
  obtain ⟨as, rfl, hs⟩ := hs
  exact ⟨as.prepend d, as.words_prepend d, Arguments.trees?_prepend h hs⟩

theorem derives_numeral {n : Int} (h : Writable n) :
    Derives .atom (.integer n) [.numeral (Text.decimal n)] := by
  refine ⟨.numeral (Text.decimal n), rfl, ?_⟩
  rw [Derivation.tree?, Numeral.read_decimal h.1 h.2]
  rfl

theorem arrayTree?_integers {values : List Int} (more : values ≠ [])
    (h : ∀ n ∈ values, Writable n) :
    arrayTree? ((values.map Text.decimal).map .numeral) = some (.integers values) := by
  have read : (values.map Text.decimal).map Numeral.read = values.map .ok := by
    rw [List.map_map]
    exact List.map_congr_left fun n hn => Numeral.read_decimal (h n hn).1 (h n hn).2
  refine arrayTree?_eq_some.2 ⟨?_, .inr ⟨_, values, rfl, read, rfl⟩⟩
  simpa using more

theorem arrayTree?_strings {values : List String} (more : values ≠ []) :
    arrayTree? (values.map .quotation) = some (.strings values) := by
  refine arrayTree?_eq_some.2 ⟨?_, .inl ⟨values, rfl, rfl⟩⟩
  simpa using more

theorem derives_integers {values : List Int} (more : values ≠ [])
    (h : ∀ n ∈ values, Writable n) :
    Derives .atom (.integers values) (.leftBracket ::
      ((values.map fun n => .numeral (Text.decimal n)).intersperse .comma ++ [.rightBracket])) := by
  refine ⟨.array ((values.map Text.decimal).map .numeral), ?_, arrayTree?_integers more h⟩
  rw [Derivation.words, List.map_map, List.map_map]
  rfl

theorem derives_strings {values : List String} (more : values ≠ []) :
    Derives .atom (.strings values) (.leftBracket ::
      ((values.map .quotation).intersperse .comma ++ [.rightBracket])) := by
  refine ⟨.array (values.map .quotation), ?_, arrayTree?_strings more⟩
  rw [Derivation.words, List.map_map]
  rfl

theorem Derives.parenthesized {l r : Expr} {us vs : List Word} (op : BinaryOp)
    (hl : Derives .call l us) (hr : Derives .call r vs) :
    Derives .atom (.binary l op.text r)
      (.leftParen :: (us ++ .sign op :: (vs ++ [.rightParen]))) := by
  obtain ⟨level, known, -⟩ := op.exists_level
  have low := Level.rank_le_of_operator known
  have rank := Level.rank_tighter (Level.ne_atom_of_operator known)
  have call : Level.call.rank = 7 := rfl
  have whole : Derives level (.binary l op.text r) (us ++ .sign op :: vs) :=
    .binary (hl.loosen (by omega)) known (hr.loosen (by omega))
  have grouped := Derives.group (whole.loosen level.rank_pos)
  rw [List.append_assoc] at grouped
  exact grouped

end Grammar

namespace Expr

mutual

/-- The text of a tree holds words from which the grammar derives the tree. -/
theorem derives_text : ∀ {e : Expr}, e.WellFormed →
    ∃ ws, Derives .call e ws ∧ Spelled e.text.toList ws
  | .identifier name, h => ⟨_, .loosen ⟨.name name, rfl, rfl⟩ (by decide), spelled_name h⟩
  | .integer value, h => ⟨_, (derives_numeral h).loosen (by decide), spelled_decimal h⟩
  | .boolean value, _ => ⟨_, .loosen ⟨.truth value, rfl, rfl⟩ (by decide), spelled_truth value⟩
  | .string value, h => ⟨_, .loosen ⟨.quotation value, rfl, rfl⟩ (by decide), spelled_quote h⟩
  | .integers values, h => by
    obtain ⟨more, all⟩ := h
    refine ⟨_, (derives_integers more all).loosen (by decide), ?_⟩
    rw [text, toList_array]
    have inner := Spelled.intercalate "," [] rfl (by simp) more fun n hn =>
      spelled_decimal (all n hn)
    exact (inner.append .rightBracket (by decide)).leftBracket
  | .strings values, h => by
    obtain ⟨more, all⟩ := h
    refine ⟨_, (derives_strings more).loosen (by decide), ?_⟩
    rw [text, toList_array]
    have inner := Spelled.intercalate "," [] rfl (by simp) more fun s hs => spelled_quote (all s hs)
    exact (inner.append .rightBracket (by decide)).leftBracket
  | .unary op operand, h => by
    obtain ⟨⟨known, rfl⟩, h⟩ := h
    obtain ⟨ws, hd, hs⟩ := derives_text h
    obtain ⟨c, cs, ht, hc⟩ := exists_first h
    cases known
    have negated : Derives .unary (.unary UnaryOp.not.text operand) (.bang :: ws) :=
      .negation (hd.loosen (by decide))
    refine ⟨_, (Derives.group (negated.loosen (by decide))).loosen (by decide), ?_⟩
    rw [toList_unary]
    -- The sign is one of its own only because no equality sign follows.
    have inner := hs.append .rightParen (by decide)
    rw [ht, List.cons_append] at inner
    rw [ht]
    exact (inner.bang hc).leftParen
  | .binary left op right, h => by
    obtain ⟨⟨known, rfl⟩, hl, hr⟩ := h
    obtain ⟨us, hdl, hsl⟩ := derives_text hl
    obtain ⟨vs, hdr, hsr⟩ := derives_text hr
    refine ⟨_, (Derives.parenthesized known hdl hdr).loosen (by decide), ?_⟩
    rw [toList_binary]
    have inner := Spelled.sign known (hsr.append .rightParen (by decide))
    exact (hsl.append inner.space (by decide)).leftParen
  | .call function [], h => by
    obtain ⟨us, hd, hs⟩ := derives_text h.1
    refine ⟨_, hd.call, ?_⟩
    rw [toList_call]
    exact hs.append (Spelled.rightParen).leftParen (by decide)
  | .call function (e :: es), h => by
    obtain ⟨us, hd, hs⟩ := derives_text h.1
    obtain ⟨vs, hds, hss⟩ := derivesAll_texts (List.cons_ne_nil e es) h.2
    refine ⟨_, hd.callWith hds, ?_⟩
    rw [toList_call]
    exact hs.append (hss.append .rightParen (by decide)).leftParen (by decide)

theorem derivesAll_texts : ∀ {es : List Expr}, es ≠ [] → AllWellFormed es →
    ∃ ws, DerivesAll es ws ∧ Spelled (", ".intercalate (texts es)).toList ws
  | [], more, _ => absurd rfl more
  | [e], _, h => by
    obtain ⟨ws, hd, hs⟩ := derives_text h.1
    refine ⟨ws, .one (hd.loosen (by decide)), ?_⟩
    rw [texts, texts, String.intercalate_singleton]
    exact hs
  | e :: e' :: es, _, h => by
    obtain ⟨us, hd, hs⟩ := derives_text h.1
    obtain ⟨vs, hds, hss⟩ := derivesAll_texts (List.cons_ne_nil e' es) h.2
    refine ⟨_, .cons (hd.loosen (by decide)) hds, ?_⟩
    have text : (", ".intercalate (texts (e :: e' :: es))).toList =
        e.text.toList ++ ',' :: ' ' :: (", ".intercalate (texts (e' :: es))).toList := by
      simp only [texts, String.intercalate_cons_cons, String.toList_append, List.append_assoc]
      rfl
    rw [text]
    exact hs.append hss.space.comma (by decide)

end

/-- Either front end reads the text of a tree that can be written as the program of that tree, and
finds wrong with it what checking the program does, within the limit of nesting. -/
theorem reading_of_text [Nesting] (front : FrontEnd) (r : Registry) {e : Expr} (h : e.WellFormed)
    (shallow : (Reading.ofSource front r e.text).Shallow) :
    (Reading.ofSource front r e.text).program = program e ∧
      ∃ kind, check r (program e) = .ok (kind, (Reading.ofSource front r e.text).messages) := by
  obtain ⟨ws, hd, hs⟩ := derives_text h
  have words : sourceWords e.text.toList = ws := by
    rw [← List.append_nil e.text.toList, hs [] stops_nil, sourceWords_nil, List.append_nil]
  have derives : Derives .logical e (sourceWords e.text.toList) := words ▸ hd.loosen (by decide)
  obtain ⟨⟨body, -⟩, checked⟩ := Reading.parses_of_derives shallow derives
  exact ⟨congrArg ofBody body, checked⟩

open Nesting

theorem reading_of_text_membership :
    (Reading.ofSource .descent .standard "(x in [0,7])").program =
      program (binary (identifier "x") "in" (integers [0, 7])) := by
  have formed : (binary (identifier "x") "in" (integers [0, 7])).WellFormed := by
    have letters : "x".toList.all isLetter := by decide
    have isName : IsName "x" := ⟨by decide, List.all_eq_true.1 letters, by decide, by decide⟩
    refine ⟨⟨.member, rfl⟩, isName, by decide, ?_⟩
    intro n hn
    simp only [List.mem_cons, List.not_mem_nil, or_false] at hn
    rcases hn with rfl | rfl <;> exact ⟨by decide, by decide⟩
  have text : (binary (identifier "x") "in" (integers [0, 7])).text = "(x in [0,7])" := by decide
  have clean : (Reading.ofSource .descent .standard "(x in [0,7])").messages = [] := by cbv
  have shallow := Reading.shallow_of_clean clean
  rw [← text] at shallow ⊢
  exact (reading_of_text .descent .standard formed shallow).1

end Expr

end Criterion
