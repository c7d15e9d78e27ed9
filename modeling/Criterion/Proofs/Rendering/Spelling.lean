import Criterion.Expr.Text
import Criterion.Proofs.Rendering.Decimal
import Criterion.Proofs.Scan.Lexemes

namespace Criterion

open Grammar

/-- The characters that can follow a word in the text of a tree. -/
def stopSigns : List Char := [' ', ',', '(', ')', ']']

/-- Nothing more of a word follows: the text is over or goes on with a space, comma or bracket. -/
def Stops (cs : List Char) : Prop := ∀ c ∈ cs.head?, c ∈ stopSigns

theorem stops_nil : Stops [] := fun _ h => nomatch h

theorem stops_cons {c : Char} {cs : List Char} (h : c ∈ stopSigns) :
    Stops (c :: cs) := by
  intro d hd
  cases hd
  exact h

theorem Stops.takeWhile {p : Char → Bool} {cs rest : List Char} (h : Stops rest)
    (none : stopSigns.all (!p ·)) (all : ∀ c ∈ cs, p c) :
    (cs ++ rest).takeWhile p = cs :=
  takeWhile_append_eq_left.2 ⟨all, fun c hc hp => notMem_of_all none hp (h c hc)⟩

theorem sourceWords_leftParen (cs : List Char) :
    sourceWords ('(' :: cs) = .leftParen :: sourceWords cs :=
  sourceWords_cons rfl

theorem sourceWords_rightParen (cs : List Char) :
    sourceWords (')' :: cs) = .rightParen :: sourceWords cs :=
  sourceWords_cons rfl

theorem sourceWords_leftBracket (cs : List Char) :
    sourceWords ('[' :: cs) = .leftBracket :: sourceWords cs :=
  sourceWords_cons rfl

theorem sourceWords_rightBracket (cs : List Char) :
    sourceWords (']' :: cs) = .rightBracket :: sourceWords cs :=
  sourceWords_cons rfl

theorem sourceWords_comma (cs : List Char) : sourceWords (',' :: cs) = .comma :: sourceWords cs :=
  sourceWords_cons rfl

theorem sourceWords_space (cs : List Char) : sourceWords (' ' :: cs) = sourceWords cs :=
  sourceWords_spacing rfl

theorem sourceWords_bang {cs : List Char} (h : cs.head? ≠ some '=') :
    sourceWords ('!' :: cs) = .bang :: sourceWords cs := by
  cases cs with
  | nil => exact sourceWords_cons rfl
  | cons d cs =>
    have other : ('=' == d) = false := beq_false_of_ne fun he => h (he ▸ rfl)
    rw [sourceWords_cons rfl, wordAt_of_symbol "!" .bang (by decide)
      (by simp [symbolAt?, symbols, List.isPrefixOf, other])]
    rfl

theorem sourceWords_op (op : BinaryOp) (cs : List Char) :
    sourceWords (op.text.toList ++ ' ' :: cs) = .sign op :: sourceWords cs := by
  rw [← sourceWords_space cs]
  cases op <;> exact sourceWords_cons rfl

theorem spacing_eq_false {c : Char} (h : 48 ≤ c.toNat) : isSpacing c = false := by
  rw [Bool.eq_false_iff]
  intro hs
  simp only [isSpacing, Bool.or_eq_true, decide_eq_true_eq] at hs
  rcases hs with ((rfl | rfl) | rfl) | rfl <;> exact absurd h (by decide)

theorem sourceWords_letters {text : String} {rest : List Char} (some : text ≠ "")
    (letters : text.toList.all isLetter) (h : Stops rest) :
    sourceWords (text.toList ++ rest) =
      (TokenKind.ofWord text).word text :: sourceWords rest := by
  have run : (text.toList ++ rest).takeWhile isLetter = text.toList :=
    h.takeWhile (by decide) (List.all_eq_true.1 letters)
  cases ht : text.toList with
  | nil => exact absurd (String.toList_eq_nil_iff.1 ht) some
  | cons c cs =>
    have hc : isLetter c := List.all_eq_true.1 letters c (ht ▸ List.mem_cons_self ..)
    have spacing : isSpacing c = false := spacing_eq_false (by have := isLetter_iff.1 hc; omega)
    rw [ht, List.cons_append] at run
    rw [List.cons_append, sourceWords_cons spacing, Cursor.wordAt_letter hc, run,
      ← List.cons_append, List.take_left, List.drop_left, ← ht, String.ofList_toList]

theorem sourceWords_truth {rest : List Char} (value : Bool) (h : Stops rest) :
    sourceWords ((if value then "true" else "false").toList ++ rest) =
      .truth value :: sourceWords rest := by
  cases value with
  | true => exact sourceWords_letters (by decide) (by decide) h
  | false => exact sourceWords_letters (by decide) (by decide) h

theorem integerLength_of_no_marker {cs : List Char} (h : ∀ c ∈ cs[1]?, isBaseMarker c = false) :
    integerLength cs = (cs.takeWhile isDigit).length := by
  unfold integerLength
  split
  · next marker rest => rw [h marker rfl, if_neg Bool.false_ne_true]
  · rfl

theorem marker_eq_false {c : Char} (h : isDigit c) : isBaseMarker c = false := by
  rw [Bool.eq_false_iff]
  intro hm
  simp only [isBaseMarker, Bool.or_eq_true, decide_eq_true_eq] at hm
  rcases hm with ((((rfl | rfl) | rfl) | rfl) | rfl) | rfl <;> exact absurd h (by decide)

theorem sourceWords_decimal {n : Int} {rest : List Char} (low : 0 ≤ n) (h : Stops rest) :
    sourceWords ((Text.decimal n).toList ++ rest) =
      .numeral (Text.decimal n) :: sourceWords rest := by
  have digits : ∀ c ∈ (Text.decimal n).toList, isDigit c := by
    intro c hc
    rw [Text.toList_decimal low] at hc
    exact isDigit_of_core (Text.isDigit_of_mem_digits hc)
  have run : ((Text.decimal n).toList ++ rest).takeWhile isDigit = (Text.decimal n).toList :=
    h.takeWhile (by decide) digits
  cases ht : (Text.decimal n).toList with
  | nil => exact absurd (Text.toList_decimal low ▸ ht) (Text.digits_ne_nil _)
  | cons c cs =>
    have hc : isDigit c := digits c (ht ▸ List.mem_cons_self ..)
    have spacing : isSpacing c = false := spacing_eq_false (isDigit_iff.1 hc).1
    have marker : ∀ d ∈ (c :: (cs ++ rest))[1]?, isBaseMarker d = false := by
      intro d hd
      cases cs with
      | nil =>
        have stop : d ∈ stopSigns := h d (by simpa [List.head?_eq_getElem?] using hd)
        exact Bool.eq_false_iff.2 fun hm => notMem_of_all (by decide) hm stop
      | cons e cs =>
        cases hd
        exact marker_eq_false (digits d (by simp [ht]))
    rw [ht, List.cons_append] at run
    rw [List.cons_append, sourceWords_cons spacing, Cursor.wordAt_digit hc,
      integerLength_of_no_marker marker, run, ← List.cons_append, List.take_left, List.drop_left,
      ← ht, String.ofList_toList]

theorem sourceWords_quote {s : String} (plain : Text.quotationMark ∉ s.toList) (rest : List Char) :
    sourceWords ((Expr.quote s).toList ++ rest) = .quotation s :: sourceWords rest := by
  have body : (s.toList ++ Text.quotationMark :: rest).takeWhile (· != Text.quotationMark) =
      s.toList := by
    have inside : ∀ c ∈ s.toList, (c != Text.quotationMark) = true := by
      intro c hc
      exact bne_iff_ne.2 fun he => plain (he ▸ hc)
    rw [List.takeWhile_append_of_pos inside, List.takeWhile_cons_of_neg (by simp), List.append_nil]
  have whole : (Expr.quote s).toList ++ rest =
      Text.quotationMark :: (s.toList ++ Text.quotationMark :: rest) := by
    simp [Expr.quote, Text.quotationMark]
  rw [whole, sourceWords_cons rfl, Cursor.wordAt_quotation, body]
  simp

end Criterion
