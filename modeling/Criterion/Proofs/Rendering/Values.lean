import Criterion.Proofs.Rendering.RoundTrip
import Criterion.Proofs.Scan.Pieces
import Criterion.Proofs.Substitution
import Criterion.Proofs.Text

namespace Criterion

open Grammar

namespace Numeral

theorem nonneg_of_natural {found : Option Nat} {n : Int}
    (h : Option.map (fun n : Int => n) (do let a ← found; pure (a : Int)) = some n) : 0 ≤ n := by
  cases found with
  | none => cases h
  | some k =>
    cases h
    exact Int.natCast_nonneg k

theorem nonneg_of_digit {text : String} {n : Int} (digit : StartsWithDigit text)
    (h : value? text = some n) : 0 ≤ n := by
  obtain ⟨c, cs, ht, hc⟩ := digit
  have range := isDigit_iff.1 hc
  rw [value?] at h
  split at h
  · obtain ⟨digits, -, h⟩ := Option.bind_eq_some_iff.1 h
    exact nonneg_of_natural h
  · have kept : plain c = c := plain_of_ascii (by omega)
    have inner : isMargin c = false := isMargin_eq_false (by omega)
    obtain ⟨ds, hds⟩ := Text.exists_trimBy_cons inner (cs.map plain)
    rw [ht, List.map_cons, kept, hds] at h
    cases signs : signed? (c :: ds) with
    | none =>
      rw [signs] at h
      cases h
    | some k =>
      rw [signs] at h
      cases h
      rw [signed?] at signs
      · exact nonneg_of_natural signs
      · rintro rest hr
        cases hr
        exact absurd hc (by decide)
      · rintro rest hr
        cases hr
        exact absurd hc (by decide)

theorem writable_of_read {text : String} {n : Int} (digit : StartsWithDigit text)
    (h : read text = .ok n) : Writable n := by
  rw [read] at h
  cases hv : value? text with
  | none =>
    rw [hv] at h
    cases h
  | some k =>
    rw [hv] at h
    simp only at h
    split at h
    · next fits =>
      cases h
      exact ⟨nonneg_of_digit digit hv, fits.2⟩
    · cases h

theorem writable_of_reads {texts : List String} {values : List Int}
    (digits : ∀ text ∈ texts, StartsWithDigit text)
    (h : texts.map read = values.map .ok) : ∀ n ∈ values, Writable n := by
  intro n hn
  have ok : Except.ok n ∈ texts.map read := h ▸ List.mem_map_of_mem hn
  obtain ⟨text, ht, hr⟩ := List.mem_map.1 ok
  exact writable_of_read (digits text ht) hr

theorem ne_nil_of_reads {texts : List String} {values : List Int} (some : texts ≠ [])
    (h : texts.map read = values.map .ok) : values ≠ [] := by
  rintro rfl
  exact some (List.map_eq_nil_iff.1 h)

end Numeral

/-- A word as it can stand in a text: numerals start with a digit, and quotations hold characters of
the text alone, none of them a mark. -/
def Grammar.Word.StandsIn (source : List Char) : Word → Prop
  | .numeral text => StartsWithDigit text
  | .quotation content => Quotable content ∧ content.toList ⊆ source
  | _ => True

theorem standsIn_sourceWords {source : String} :
    ∀ w ∈ sourceWords source.toList, w.StandsIn source.toList := by
  rw [sourceWords_pieces]
  intro w hw
  obtain ⟨p, hp, rfl⟩ := List.mem_map.1 hw
  obtain ⟨before, after, text, lies⟩ := exists_lies hp
  cases hw : p.token.word with
  | numeral text =>
    obtain ⟨integer, rfl⟩ := Token.word_eq_numeral.1 hw
    exact lies.proper.integer integer
  | quotation content =>
    obtain ⟨string, rfl⟩ := Token.word_eq_quotation.1 hw
    refine ⟨lies.proper.string string, ?_⟩
    intro c hc
    rw [text]
    refine List.mem_append_right _ (List.mem_append_left _ ?_)
    exact List.mem_append_right _ (lies.read.subset hc)
  | _ => trivial

/-- The values of literals, given which strings they can hold. -/
def Value.IsLiteral (holds : String → Prop) : Value → Prop
  | integer n => Writable n
  | boolean _ => True
  | string s => holds s
  | integers ns => ns ≠ [] ∧ ∀ n ∈ ns, Writable n
  | strings ss => ss ≠ [] ∧ ∀ s ∈ ss, holds s
  | null | error _ | function _ => False

theorem Value.IsLiteral.mono {holds holds' : String → Prop} (h : ∀ s, holds s → holds' s)
    {v : Value} (hv : v.IsLiteral holds) : v.IsLiteral holds' := by
  cases v with
  | string s => exact h s hv
  | strings ss => exact ⟨hv.1, fun s hs => h s (hv.2 s hs)⟩
  | _ => exact hv

theorem mem_intersperse_of_mem {α : Type} {c a : α} {xs : List α} (h : a ∈ xs) :
    a ∈ xs.intersperse c := by
  induction xs with
  | nil => cases h
  | cons x xs ih =>
    cases xs with
    | nil => exact h
    | cons y xs =>
      rw [List.intersperse_cons_cons]
      rcases List.mem_cons.1 h with rfl | h
      · exact List.mem_cons_self ..
      · exact List.mem_cons_of_mem _ (List.mem_cons_of_mem _ (ih h))

theorem Grammar.isLiteral_of_arrayTree? {source : List Char} {elements : List Element} {e : Expr}
    {v : Value} (stands : ∀ element ∈ elements, element.word.StandsIn source)
    (h : arrayTree? elements = some e) (literal : e.literal? = some v) :
    v.IsLiteral fun s => Quotable s ∧ s.toList ⊆ source := by
  obtain ⟨some, ⟨contents, rfl, rfl⟩ | ⟨texts, values, rfl, read, rfl⟩⟩ := arrayTree?_eq_some.1 h
  · cases literal
    refine ⟨by simpa using some, ?_⟩
    intro s hs
    exact stands (.quotation s) (List.mem_map_of_mem hs)
  · cases literal
    refine ⟨Numeral.ne_nil_of_reads (by simpa using some) read,
      Numeral.writable_of_reads ?_ read⟩
    intro text ht
    exact stands (.numeral text) (List.mem_map_of_mem ht)

/-- The value of a literal that some words derive is made of these words. -/
theorem Grammar.Derivation.isLiteral {source : List Char} {v : Value} {e : Expr}
    (literal : e.literal? = some v) : ∀ {level : Level} (d : Derivation level),
      (∀ w ∈ d.words, w.StandsIn source) → d.tree? = some e →
      v.IsLiteral fun s => Quotable s ∧ s.toList ⊆ source
  | _, .tighter _ d, stands, h => d.isLiteral literal stands h
  | _, .binary left op _ right, _, h => by
    obtain ⟨l, -, h⟩ := Option.bind_eq_some_iff.1 h
    obtain ⟨r, -, h⟩ := Option.bind_eq_some_iff.1 h
    cases h
    cases literal
  | _, .negation operand, _, h => by
    obtain ⟨x, -, h⟩ := Option.bind_eq_some_iff.1 h
    cases h
    cases literal
  | _, .call function, _, h => by
    obtain ⟨f, -, h⟩ := Option.bind_eq_some_iff.1 h
    cases h
    cases literal
  | _, .callWith function arguments, _, h => by
    obtain ⟨f, -, h⟩ := Option.bind_eq_some_iff.1 h
    obtain ⟨es, -, h⟩ := Option.bind_eq_some_iff.1 h
    cases h
    cases literal
  | _, .name text, _, h => by
    cases h
    cases literal
  | _, .numeral text, stands, h => by
    rw [tree?] at h
    cases read : Numeral.read text with
    | error fault =>
      rw [read] at h
      cases h
    | ok n =>
      rw [read] at h
      cases h
      cases literal
      exact Numeral.writable_of_read (stands (.numeral text) (List.mem_singleton_self _)) read
  | _, .quotation content, stands, h => by
    cases h
    cases literal
    exact stands (.quotation content) (List.mem_singleton_self _)
  | _, .truth value, _, h => by
    cases h
    cases literal
    trivial
  | _, .array elements, stands, h => by
    refine isLiteral_of_arrayTree? ?_ h literal
    intro element he
    refine stands _ (List.mem_cons_of_mem _ (List.mem_append_left _ ?_))
    exact mem_intersperse_of_mem (List.mem_map_of_mem he)
  | _, .group inner, stands, h => by
    refine inner.isLiteral literal ?_ h
    intro w hw
    exact stands w (List.mem_cons_of_mem _ (List.mem_append_left _ hw))

theorem Grammar.derives_array {elements : List Element} {e : Expr}
    (h : arrayTree? elements = some e) :
    Derives .atom e (.leftBracket :: (Parse.listed elements ++ [.rightBracket])) :=
  ⟨.array elements, by rw [Derivation.words, Parse.listed], h⟩

theorem Value.IsLiteral.exists_words {v : Value} (h : v.IsLiteral Quotable) :
    ∃ e ws, e.literal? = some v ∧ Derives .atom e ws ∧ Spelled v.text.toList ws ∧
      (ws.length = 1 ∨ ∃ elements, arrayTree? elements = some e ∧
        ws = .leftBracket :: (Parse.listed elements ++ [.rightBracket])) := by
  cases v with
  | integer n => exact ⟨.integer n, _, rfl, derives_numeral h, spelled_decimal h, .inl rfl⟩
  | string s => exact ⟨.string s, _, rfl, ⟨.quotation s, rfl, rfl⟩, spelled_quote h, .inl rfl⟩
  | boolean b => exact ⟨.boolean b, _, rfl, ⟨.truth b, rfl, rfl⟩, spelled_truth b, .inl rfl⟩
  | integers ns =>
    obtain ⟨more, all⟩ := h
    have tree := arrayTree?_integers more all
    have inner := Spelled.intercalate ", " [' '] rfl (by simp [isSpacing]) more fun n hn =>
      spelled_decimal (all n hn)
    refine ⟨.integers ns, _, rfl, derives_array tree, ?_, .inr ⟨_, tree, rfl⟩⟩
    rw [text, Expr.toList_array, Parse.listed, List.map_map, List.map_map]
    exact (inner.append .rightBracket (by decide)).leftBracket
  | strings ss =>
    obtain ⟨more, all⟩ := h
    have tree := arrayTree?_strings more
    have inner := Spelled.intercalate ", " [' '] rfl (by simp [isSpacing]) more fun s hs =>
      spelled_quote (all s hs)
    refine ⟨.strings ss, _, rfl, derives_array tree, ?_, .inr ⟨_, tree, rfl⟩⟩
    rw [text, Expr.toList_array, Parse.listed, List.map_map]
    exact (inner.append .rightBracket (by decide)).leftBracket
  | null => cases h
  | error message => cases h
  | function f => cases h

section

variable [Nesting]

theorem exists_of_literalValue {r : Registry} {source : String} {v : Value}
    (h : literalValue r source = .ok v) :
    (Reading.ofSource .descent r source).diagnostics = [] ∧
      ∃ e, (Reading.ofSource .descent r source).body = some e ∧ e.literal? = some v := by
  rw [literalValue] at h
  split at h
  · next clean =>
    split at h
    · next v' hv =>
      cases h
      exact ⟨List.isEmpty_iff.1 clean, Option.bind_eq_some_iff.1 hv⟩
    · cases h
  · cases h

theorem isLiteral_of_literalValue {r : Registry} {source : String} {v : Value}
    (h : literalValue r source = .ok v) :
    v.IsLiteral fun s => Quotable s ∧ s.toList ⊆ source.toList := by
  obtain ⟨clean, e, body, literal⟩ := exists_of_literalValue h
  have parses : (Reading.ofSource .descent r source).Parses e := by
    refine ⟨body, ?_⟩
    rw [clean]
    simp
  obtain ⟨d, words, tree⟩ := parses.derives
  exact d.isLiteral literal (words ▸ standsIn_sourceWords) tree

/-- The words of an array that can be read are never nested too deeply, however long it is. -/
theorem Parse.shallow_of_array {tokens : List Token} {elements : List Element} {e : Expr}
    (h : arrayTree? elements = some e)
    (words : wordsOf tokens = .leftBracket :: (listed elements ++ [.rightBracket])) :
    Shallow (program tokens).2 := by
  rw [← words_start] at words
  have kind : (Stream.start tokens).kind = .leftBracket := Stream.kind_of_words words (by decide)
  have rest : (Stream.start tokens).next.words = listed elements ++ [.rightBracket] :=
    (Stream.words_eq_cons words).2.2
  obtain ⟨-, -, after⟩ := array_complete h rest
  have done := Stream.end_of_words_nil after
  obtain ⟨room, limit⟩ := Nesting.exists_room
  refine shallow_of_expression ?_
  rw [limit, expression_of_start (by rw [kind]; rfl), operand_leftBracket kind]
  refine shallow_append.2 ⟨shallow_array (Stream.start tokens).next, ?_⟩
  rw [operators_stop]
  · exact shallow_nil
  · exact fun more => more.1 done

theorem Reading.checked_of_literal {e : Expr} {v : Value} (literal : e.literal? = some v)
    (r : Registry) : checked r (some e) = ⟨some e, []⟩ := by
  obtain ⟨room, limit⟩ := Nesting.exists_room
  have known : kindOf r Nesting.limit (.program e) = .ok v.kind := by
    rw [limit, kindOf]
    exact (Expr.kindOf_of_literal literal r room).1
  rw [checked, Expr.ofBody, Option.getD_some, known]

theorem Reading.ofSource_of_literal {source : String} {e : Expr} {v : Value}
    (literal : e.literal? = some v) (derives : Derives .logical e (sourceWords source.toList))
    (shallow : Parse.Shallow (Parse.program (tokenize source)).2) (r : Registry) :
    ofSource .descent r source = ⟨some e, []⟩ := by
  rw [← wordsOf_tokenize] at derives
  rw [ofSource, ofTokens, Parse.program_complete shallow derives]
  exact checked_of_literal literal r

theorem shallow_of_single {source : String} {w : Word} (h : sourceWords source.toList = [w]) :
    Parse.Shallow (Parse.program (tokenize source)).2 := by
  refine Parse.program_shallow ?_
  have length := congrArg List.length (sourceWords_pieces source)
  rw [h, List.length_map] at length
  rw [length_tokenize, ← length, List.length_singleton]
  exact Nesting.two_lt

/-- The text of a value that a literal can stand for is a literal for it. -/
theorem literalValue_text {r : Registry} {v : Value} (h : v.IsLiteral Quotable) :
    literalValue r v.text = .ok v := by
  obtain ⟨e, ws, literal, derives, spelled, short⟩ := h.exists_words
  have words : sourceWords v.text.toList = ws := Spelled.words spelled
  have shallow : Parse.Shallow (Parse.program (tokenize v.text)).2 := by
    rcases short with one | ⟨elements, tree, rfl⟩
    · obtain ⟨w, rfl⟩ := List.length_eq_one_iff.1 one
      exact shallow_of_single words
    · exact Parse.shallow_of_array tree (wordsOf_tokenize v.text ▸ words)
  have reading := Reading.ofSource_of_literal literal (words ▸ derives.loosen (by decide)) shallow r
  rw [literalValue, reading]
  simp [literal]

theorem evaluate_of_literalValue {r : Registry} {source : String} {v : Value}
    (h : literalValue r source = .ok v) (host : Host) (past : List Call) :
    (evaluate host r .empty (Reading.ofSource .descent r source).program past).value = .ok v := by
  obtain ⟨-, e, body, literal⟩ := exists_of_literalValue h
  have plain : v.kind ≠ .error := (Expr.kindOf_of_literal literal r 0).2
  have program : (Reading.ofSource .descent r source).program = .program e := by
    rw [Reading.program, body]
    rfl
  have reached : evaluate host r .empty (.program e) = Run.ofValue v := by
    obtain ⟨room, limit⟩ := Nesting.exists_room
    rw [evaluate, limit, evaluateIn, Expr.evaluateIn_of_literal literal]
  rw [program, reached, Run.ofValue_apply plain]
  rfl

/-- The values that texts stand for are those that can be written. What is printed for such a value
is a literal for it, and so not printed for any other. A text stands for what evaluating it comes
to. -/
theorem literal_values (r : Registry) (v : Value) :
    ((∃ source, literalValue r source = .ok v) ↔ v.IsLiteral Quotable) ∧
      (v.IsLiteral Quotable → literalValue r v.text = .ok v ∧
        ∀ w : Value, w.IsLiteral Quotable → w.text = v.text → w = v) ∧
      ∀ source, literalValue r source = .ok v →
        (Reading.ofSource .descent r source).diagnostics = [] ∧ ∀ host past,
          (evaluate host r .empty (Reading.ofSource .descent r source).program past).value =
            .ok v := by
  refine ⟨⟨?_, fun h => ⟨v.text, literalValue_text h⟩⟩, ?_, ?_⟩
  · rintro ⟨source, h⟩
    exact (isLiteral_of_literalValue h).mono fun _ hs => hs.1
  · intro h
    refine ⟨literalValue_text h, ?_⟩
    intro w hw same
    have back : literalValue r v.text = .ok w := same ▸ literalValue_text hw
    rw [literalValue_text h] at back
    exact (Except.ok.inj back).symm
  · intro source h
    exact ⟨(exists_of_literalValue h).1, evaluate_of_literalValue h⟩

end

open Nesting

theorem literal_values_strings :
    (Value.strings ["", "],\n["]).IsLiteral Quotable ∧
      literalValue .standard "[\"\", \"],\n[\"]" = .ok (.strings ["", "],\n["]) := by
  have literal : (Value.strings ["", "],\n["]).IsLiteral Quotable := by
    refine ⟨by decide, ?_⟩
    simp [Quotable, Text.quotationMark]
  obtain ⟨-, printed, -⟩ := literal_values .standard (.strings ["", "],\n["])
  exact ⟨literal, (printed literal).1⟩

end Criterion
