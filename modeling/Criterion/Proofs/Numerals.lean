import Criterion.Proofs.Rendering.Values
import Criterion.Proofs.Scan.Lookahead
import Mathlib.Data.Nat.Digits.Defs

namespace Criterion

open Grammar

namespace Numeral

/-- A character is a digit of a base up to 16, with letters in either case. -/
def IsDigitOf (base : Nat) (c : Char) (d : Nat) : Prop :=
  d < base ∧ (c = Nat.digitChar d ∨ c = (Nat.digitChar d).toUpper)

def baseMarkers : List (Char × Nat) :=
  [('x', 16), ('X', 16), ('o', 8), ('O', 8), ('b', 2), ('B', 2)]

/-- The number that a text spells: in decimal digits, of which there can be 4300, or in any number
of digits of a base that is named in front of them. -/
inductive Spells : List Char → Nat → Prop
  | decimal {cs : List Char} {ds : List Nat} (some : cs ≠ []) (short : cs.length ≤ 4300)
      (digits : List.Forall₂ (IsDigitOf 10) cs ds) : Spells cs (Nat.ofDigits 10 ds.reverse)
  | based {marker : Char} {base : Nat} {cs : List Char} {ds : List Nat}
      (mark : (marker, base) ∈ baseMarkers) (some : cs ≠ [])
      (digits : List.Forall₂ (IsDigitOf base) cs ds) :
      Spells ('0' :: marker :: cs) (Nat.ofDigits base ds.reverse)

instance {base d : Nat} {c : Char} : Decidable (IsDigitOf base c d) :=
  inferInstanceAs (Decidable (_ ∧ _))

variable {base d : Nat} {c marker : Char} {cs rest : List Char} {ds : List Nat}

theorem positional_eq_ofDigits (base : Nat) (ds : List Nat) :
    positional base ds = Nat.ofDigits base ds.reverse := by
  rw [Nat.ofDigits_eq_foldr, List.foldr_reverse, positional]
  congr 1
  funext n digit
  exact (Nat.add_comm _ _).trans (congrArg (digit + ·) (Nat.mul_comm n base))

theorem isDigitOf_iff (small : base ≤ 16) :
    IsDigitOf base c d ↔ d < base ∧
      (d < 10 ∧ c.toNat = 48 + d ∨ 10 ≤ d ∧ (c.toNat = 87 + d ∨ c.toNat = 55 + d)) := by
  have codes : ∀ d < 16, (Nat.digitChar d).toNat = (if d < 10 then 48 + d else 87 + d) ∧
      (Nat.digitChar d).toUpper.toNat = if d < 10 then 48 + d else 55 + d := by decide
  rw [IsDigitOf, ← Char.toNat_inj, ← Char.toNat_inj]
  refine and_congr_right fun below => ?_
  obtain ⟨lower, upper⟩ := codes d (Nat.lt_of_lt_of_le below small)
  rw [lower, upper]
  split
  · omega
  · omega

theorem isAlphanumeric_iff : isAlphanumeric c ↔
    48 ≤ c.toNat ∧ c.toNat ≤ 57 ∨ 97 ≤ c.toNat ∧ c.toNat ≤ 122 ∨ 65 ≤ c.toNat ∧ c.toNat ≤ 90 := by
  simp only [isAlphanumeric, isDigit, Bool.and_eq_true, Bool.or_eq_true, decide_eq_true_eq,
    Char.le_def, UInt32.le_iff_toNat_le, or_assoc]
  rfl

theorem IsDigitOf.isAlphanumeric (small : base ≤ 16) (h : IsDigitOf base c d) :
    isAlphanumeric c := by
  rw [isDigitOf_iff small] at h
  rw [isAlphanumeric_iff]
  omega

theorem isDigitOf_ten_iff : IsDigitOf 10 c d ↔ isDigit c ∧ d = c.toNat - '0'.toNat := by
  have zero : '0'.toNat = 48 := rfl
  rw [isDigitOf_iff (by decide), isDigit_iff, zero]
  omega

theorem digitIn?_eq_some_iff (small : base ≤ 16) :
    digitIn? base c = some d ↔ IsDigitOf base c d := by
  have zero : '0'.toNat = 48 := rfl
  have a : 'a'.toNat = 97 := rfl
  have A : 'A'.toNat = 65 := rfl
  have digit : c.isDigit ↔ 48 ≤ c.toNat ∧ c.toNat ≤ 57 := by
    simp [Char.isDigit, UInt32.le_iff_toNat_le]
  have lower : c.isLower ↔ 97 ≤ c.toNat ∧ c.toNat ≤ 122 := by
    simp [Char.isLower, UInt32.le_iff_toNat_le]
  have upper : c.isUpper ↔ 65 ≤ c.toNat ∧ c.toNat ≤ 90 := by
    simp [Char.isUpper, UInt32.le_iff_toNat_le]
  rw [isDigitOf_iff small]
  simp only [digitIn?, digit, lower, upper, zero, a, A]
  split_ifs <;> simp only [Option.some.injEq, false_iff] <;> omega

theorem exists_digit_of_mem (digits : List.Forall₂ (IsDigitOf base) cs ds) (h : c ∈ cs) :
    ∃ d, IsDigitOf base c d := by
  induction digits with
  | nil => cases h
  | cons digit _ ih =>
    rcases List.mem_cons.1 h with rfl | h
    · exact ⟨_, digit⟩
    · exact ih h

theorem mapM_eq_some_iff {α β : Type} {f : α → Option β} {as : List α} {bs : List β} :
    as.mapM f = some bs ↔ List.Forall₂ (fun a b => f a = some b) as bs := by
  induction as generalizing bs with
  | nil => simp [eq_comm]
  | cons a as ih =>
    simp only [List.mapM_cons, Option.bind_eq_bind, Option.bind_eq_some_iff, Option.pure_def,
      Option.some.injEq, List.forall₂_cons_left_iff, ih]
    constructor
    · rintro ⟨b, hb, bs, hbs, rfl⟩
      exact ⟨b, bs, hb, hbs, rfl⟩
    · rintro ⟨b, bs, hb, hbs, rfl⟩
      exact ⟨b, hb, bs, hbs, rfl⟩

theorem ungroup?_of_plain (some : cs ≠ []) (plain : ∀ c ∈ cs, c ≠ '_') :
    ungroup? cs = Option.some cs := by
  induction cs with
  | nil => exact absurd rfl some
  | cons c cs ih =>
    obtain ⟨head, tail⟩ := List.forall_mem_cons.1 plain
    cases cs with
    | nil => rw [ungroup?, if_neg head]
    | cons d rest =>
      have second : d ≠ '_' := tail d (List.mem_cons_self ..)
      rw [ungroup?, if_neg head, ih (List.cons_ne_nil d rest) tail]
      · rfl
      · exact second

theorem groupedDigits?_eq_some_iff (small : base ≤ 16) (run : ∀ c ∈ cs, isAlphanumeric c) :
    groupedDigits? base cs = some ds ↔ cs ≠ [] ∧ List.Forall₂ (IsDigitOf base) cs ds := by
  by_cases some : cs = []
  · subst some
    simp [groupedDigits?, ungroup?]
  · have plain : ∀ c ∈ cs, c ≠ '_' := by
      rintro c hc rfl
      exact absurd (run '_' hc) (by decide)
    rw [groupedDigits?, ungroup?_of_plain some plain, Option.bind_some, mapM_eq_some_iff]
    simp only [digitIn?_eq_some_iff small]
    exact (and_iff_right some).symm

theorem spells_iff_of_digits {n : Nat} (digits : ∀ c ∈ cs, isDigit c) :
    Spells cs n ↔ cs ≠ [] ∧ cs.length ≤ decimalLimit ∧
      n = positional 10 (cs.map fun c => c.toNat - '0'.toNat) := by
  have all : List.Forall₂ (IsDigitOf 10) cs (cs.map fun c => c.toNat - '0'.toNat) := by
    rw [List.forall₂_map_right_iff, List.forall₂_same]
    exact fun c hc => isDigitOf_ten_iff.2 ⟨digits c hc, rfl⟩
  rw [positional_eq_ofDigits]
  constructor
  · intro h
    cases h with
    | @decimal _ ds some short found =>
      refine ⟨some, short, congrArg (fun ds => Nat.ofDigits 10 (List.reverse ds)) ?_⟩
      clear some short all digits
      induction found with
      | nil => rfl
      | cons head _ ih => rw [List.map_cons, ih, (isDigitOf_ten_iff.1 head).2]
    | @based marker base cs ds mark some found =>
      have digit := digits marker (List.mem_cons_of_mem _ (List.mem_cons_self ..))
      simp only [baseMarkers, List.mem_cons, Prod.mk.injEq, List.not_mem_nil, or_false] at mark
      rcases mark with ⟨rfl, -⟩ | ⟨rfl, -⟩ | ⟨rfl, -⟩ | ⟨rfl, -⟩ | ⟨rfl, -⟩ | ⟨rfl, -⟩ <;>
        exact absurd digit (by decide)
  · rintro ⟨some, short, rfl⟩
    exact .decimal some short all

theorem baseMarkers_known (mark : (marker, base) ∈ baseMarkers) :
    base ≤ 16 ∧ isBaseMarker marker ∧ baseOfMarker? marker = some base ∧ isDigit marker = false ∧
      isAlphanumeric marker ∧ Text.isAnyDigit marker = false := by
  simp only [baseMarkers, List.mem_cons, Prod.mk.injEq, List.not_mem_nil, or_false] at mark
  rcases mark with ⟨rfl, rfl⟩ | ⟨rfl, rfl⟩ | ⟨rfl, rfl⟩ | ⟨rfl, rfl⟩ | ⟨rfl, rfl⟩ | ⟨rfl, rfl⟩ <;>
    decide

theorem exists_base (h : isBaseMarker marker) : ∃ base, (marker, base) ∈ baseMarkers := by
  simp only [isBaseMarker, Bool.or_eq_true, decide_eq_true_eq] at h
  rcases h with ((((rfl | rfl) | rfl) | rfl) | rfl) | rfl
  all_goals simp [baseMarkers]

theorem spells_iff_of_marker {n : Nat} (mark : (marker, base) ∈ baseMarkers)
    (run : ∀ c ∈ rest, isAlphanumeric c) :
    Spells ('0' :: marker :: rest) n ↔
      ∃ ds, groupedDigits? base rest = some ds ∧ n = positional base ds := by
  obtain ⟨small, -, known, other, -⟩ := baseMarkers_known mark
  simp only [groupedDigits?_eq_some_iff small run, positional_eq_ofDigits]
  constructor
  · intro h
    generalize text : '0' :: marker :: rest = cs at h
    cases h with
    | @decimal _ ds some short digits =>
      subst text
      cases digits with
      | cons _ digits =>
        cases digits with
        | cons digit _ => exact absurd (isDigitOf_ten_iff.1 digit).1 (by simp [other])
    | @based marker' base' cs' ds mark' some digits =>
      cases text
      obtain ⟨-, -, known', -⟩ := baseMarkers_known mark'
      cases known.symm.trans known'
      exact ⟨ds, ⟨some, digits⟩, rfl⟩
  · rintro ⟨ds, ⟨some, digits⟩, rfl⟩
    exact .based mark some digits

theorem value?_of_marker {text : String} (mark : (marker, base) ∈ baseMarkers)
    (whole : text.toList = '0' :: marker :: rest) (run : ∀ c ∈ rest, isAlphanumeric c) :
    value? text =
      ((groupedDigits? base rest).map (positional base)).map fun n : Nat => (n : Int) := by
  obtain ⟨-, -, known, -, letter, foreign⟩ := baseMarkers_known mark
  have all : ∀ c ∈ '0' :: marker :: rest, isAlphanumeric c :=
    List.forall_mem_cons.2 ⟨by decide, List.forall_mem_cons.2 ⟨letter, run⟩⟩
  have kept : ('0' :: marker :: rest).map plain = '0' :: marker :: rest := by
    refine (List.map_congr_left fun c hc => ?_).trans (List.map_id _)
    have range := isAlphanumeric_iff.1 (all c hc)
    exact plain_of_ascii (by omega)
  have inner : ∀ c ∈ '0' :: marker :: rest, isMargin c = false := by
    intro c hc
    have range := isAlphanumeric_iff.1 (all c hc)
    exact isMargin_eq_false (by omega)
  have trimmed : Text.trimBy isMargin ('0' :: marker :: rest) = '0' :: marker :: rest :=
    Text.trimBy_eq_self (fun c hc => inner c (List.mem_of_head? hc))
      fun c hc => inner c (List.mem_of_getLast? hc)
  have number : unsigned? ('0' :: marker :: rest) =
      (groupedDigits? base rest).map (positional base) := by
    rw [unsigned?, known]
    rintro body rfl
    exact absurd (run '_' (List.mem_cons_self ..)) (by decide)
  simp only [value?, whole, List.all_cons, foreign, Bool.false_and, Bool.and_false,
    Bool.false_eq_true, if_false, kept, trimmed, signed?, number]
  cases (groupedDigits? base rest).map (positional base) with
  | none => rfl
  | some n => rfl

/-- What is scanned for a numeral is a row of digits, or a zero, a base marker and a row of letters
and digits. -/
theorem exists_marker_of_scan (cs : List Char) :
    (∀ c ∈ cs.take (integerLength cs), isDigit c) ∨
      ∃ marker base rest, cs.take (integerLength cs) = '0' :: marker :: rest ∧
        (marker, base) ∈ baseMarkers ∧ ∀ c ∈ rest, isAlphanumeric c := by
  by_cases based : Based cs
  · obtain ⟨marker, rest, rfl, hm⟩ := based
    obtain ⟨base, mark⟩ := exists_base hm
    exact .inr ⟨marker, base, _, take_integerLength_marker hm, mark,
      List.all_eq_true.1 List.all_takeWhile⟩
  · rw [take_integerLength based]
    exact .inl (List.all_eq_true.1 List.all_takeWhile)

/-- What is scanned for a numeral has the value that it spells, if it spells any. -/
theorem value?_eq_some_iff (c : Cursor) {k : Int} :
    value? c.readInteger.1 = some k ↔ ∃ n : Nat, Spells c.readInteger.1.toList n ∧ k = n := by
  have text : c.readInteger.1.toList = c.rest.take (integerLength c.rest) := String.toList_ofList
  rcases exists_marker_of_scan c.rest with digits | ⟨marker, base, rest, whole, mark, run⟩
  · rw [← text] at digits
    by_cases some : c.readInteger.1.toList = []
    · have none : value? c.readInteger.1 = none := by
        rw [String.toList_eq_nil_iff.1 some]
        decide
      rw [none, some]
      constructor
      · intro h
        cases h
      · rintro ⟨n, h, -⟩
        exact absurd rfl ((spells_iff_of_digits (List.forall_mem_nil _)).1 h).1
    · rw [value?_of_digits some fun c hc => core_of_isDigit (digits c hc)]
      simp only [spells_iff_of_digits digits, decimal?, List.length_map]
      by_cases short : c.readInteger.1.toList.length ≤ decimalLimit
      · simp [short, some, eq_comm]
      · simp [short]
  · rw [← text] at whole
    rw [value?_of_marker mark whole run, whole]
    simp only [spells_iff_of_marker mark run]
    cases groupedDigits? base rest with
    | none => simp
    | some ds => simp [eq_comm]

theorem Spells.scanned {cs : List Char} {n : Nat} (h : Spells cs n) :
    cs.take (integerLength cs) = cs ∧ ∃ c rest, cs = c :: rest ∧ isDigit c := by
  cases h with
  | @decimal _ ds some short digits =>
    have all : ∀ c ∈ cs, isDigit c := by
      intro c hc
      obtain ⟨d, digit⟩ := exists_digit_of_mem digits hc
      exact (isDigitOf_ten_iff.1 digit).1
    have plain : ¬ Based cs := by
      rintro ⟨marker, rest, rfl, hm⟩
      have digit := all marker (List.mem_cons_of_mem _ (List.mem_cons_self ..))
      rw [marker_eq_false digit] at hm
      cases hm
    obtain ⟨c, rest, rfl⟩ := List.exists_cons_of_ne_nil some
    refine ⟨?_, c, rest, rfl, all c (List.mem_cons_self ..)⟩
    rw [take_integerLength plain]
    exact List.takeWhile_eq_self_iff.2 all
  | @based marker base cs ds mark some digits =>
    obtain ⟨small, hm, -⟩ := baseMarkers_known mark
    have all : ∀ c ∈ cs, isAlphanumeric c := by
      intro c hc
      obtain ⟨d, digit⟩ := exists_digit_of_mem digits hc
      exact digit.isAlphanumeric small
    refine ⟨?_, '0', _, rfl, by decide⟩
    rw [take_integerLength_marker hm, List.takeWhile_eq_self_iff.2 all]

theorem read_eq_ok_iff {text : String} {k : Int} :
    read text = .ok k ↔ value? text = some k ∧ Word.Fits k := by
  rw [read]
  cases value? text with
  | none => simp
  | some n =>
    simp only [Option.some.injEq]
    split
    · next fits =>
      constructor
      · intro same
        cases same
        exact ⟨rfl, fits⟩
      · rintro ⟨rfl, -⟩
        rfl
    · next large =>
      constructor
      · intro none
        cases none
      · rintro ⟨rfl, fits⟩
        exact absurd fits large

theorem fits_natCast {n : Nat} : Word.Fits n ↔ (n : Int) ≤ Word.maximum := by
  simp only [Word.Fits, Word.minimum, Word.maximum]
  omega

theorem Spells.sourceWords {text : String} {n : Nat} (h : Spells text.toList n) :
    sourceWords text.toList = [.numeral text] := by
  obtain ⟨whole, c, rest, text', digit⟩ := h.scanned
  have spacing : isSpacing c = false := spacing_eq_false (isDigit_iff.1 digit).1
  have none : (c :: rest).drop (integerLength (c :: rest)) = [] := by
    have length := congrArg List.length whole
    rw [List.length_take, text'] at length
    exact List.drop_eq_nil_of_le (by omega)
  rw [text'] at whole
  rw [text', sourceWords_cons spacing, Cursor.wordAt_digit digit, whole, none, sourceWords_nil,
    ← text', String.ofList_toList]

theorem Spells.readInteger {text : String} {n : Nat} (h : Spells text.toList n) :
    (Cursor.start text).readInteger.1 = text := by
  change String.ofList (text.toList.take (integerLength text.toList)) = text
  rw [h.scanned.1, String.ofList_toList]

theorem Spells.read {text : String} {n : Nat} (h : Spells text.toList n)
    (fits : (n : Int) ≤ Word.maximum) : read text = .ok n := by
  have value := value?_eq_some_iff (.start text) (k := n)
  rw [h.readInteger] at value
  exact read_eq_ok_iff.2 ⟨value.2 ⟨n, h, rfl⟩, fits_natCast.2 fits⟩

end Numeral

theorem Parse.operand_of_spells {s : Stream} {n : Nat} (kind : s.kind = .integer)
    (h : Numeral.Spells s.current.text.toList n) (fits : (n : Int) ≤ Word.maximum) (room : Nat) :
    operand room s = .accept (.integer n) s.next s.left_next_le := by
  rw [operand_integer kind, integer, h.read fits]

def Grammar.Derivation.sole (text : String) : Derivation .logical :=
  .tighter (by decide) <| .tighter (by decide) <| .tighter (by decide) <| .tighter (by decide) <|
    .tighter (by decide) <| .tighter (by decide) <| .tighter (by decide) <| .numeral text

namespace Reading

theorem ofSource_of_spells [Nesting] {text : String} {n : Nat} (h : Numeral.Spells text.toList n)
    (fits : (n : Int) ≤ Word.maximum) (front : FrontEnd) (r : Registry) :
    ofSource front r text = ⟨some (.integer n), []⟩ := by
  have words : (Derivation.sole text).words = sourceWords text.toList := h.sourceWords.symm
  have tree : (Derivation.sole text).tree? = some (.integer n) := by
    change (Numeral.read text).toOption.map Expr.integer = _
    rw [h.read fits]
    rfl
  cases front with
  | descent =>
    exact ofSource_of_literal rfl ⟨Derivation.sole text, words, tree⟩
      (shallow_of_single h.sourceWords) r
  | grammar =>
    obtain ⟨room, limit⟩ := Nesting.exists_room
    obtain ⟨D, drafted, hd, -⟩ := draft_of_words Machine.parser words
    cases (hd : D = .number text)
    have resolved : Grammar.tree Machine.parser.draft text = .ok (.integer n) := by
      rw [Grammar.tree, drafted, limit]
      change (integerOf text).map Expr.integer = _
      rw [integerOf, h.read fits]
      rfl
    have read : ofGrammar Machine.parser.draft r text = checked r (some (.integer n)) := by
      rw [ofGrammar, resolved]
    exact read.trans (checked_of_literal rfl r)

end Reading

namespace Numeral

/-- What is scanned for a numeral is read by position: as the number that it spells, if it spells
one and that is a word; and otherwise one message says that it is out of range, or another that it
spells none. Whatever the spelling of a number, the same is read from it, as the whole of a text by
either front end and as a token among others. -/
theorem read_by_position [Nesting] :
    (∀ (c : Cursor) (k : Int), read c.readInteger.1 = .ok k ↔
      ∃ n : Nat, Spells c.readInteger.1.toList n ∧ (n : Int) ≤ Word.maximum ∧ k = n) ∧
    (∀ (c : Cursor) (n : Nat), Spells c.readInteger.1.toList n → Word.maximum < n →
      (read c.readInteger.1).mapError Fault.message =
        .error ("integer literal " ++ c.readInteger.1 ++ " out of 64-bit range")) ∧
    (∀ c : Cursor, (∀ n, ¬ Spells c.readInteger.1.toList n) →
      (read c.readInteger.1).mapError Fault.message =
        .error ("could not parse " ++ Text.quoted c.readInteger.1 ++ " as integer")) ∧
    ∀ (text : String) (n : Nat), Spells text.toList n → (n : Int) ≤ Word.maximum →
      (Cursor.start text).readInteger.1 = text ∧
        (∀ front r, Reading.ofSource front r text = ⟨some (.integer n), []⟩) ∧
        ∀ (s : Parse.Stream) (room : Nat), s.kind = .integer → s.current.text = text →
          Parse.operand room s = .accept (.integer n) s.next s.left_next_le := by
  refine ⟨?_, ?_, ?_, ?_⟩
  · intro c k
    rw [read_eq_ok_iff, value?_eq_some_iff]
    constructor
    · rintro ⟨⟨n, spelled, rfl⟩, fits⟩
      exact ⟨n, spelled, fits_natCast.1 fits, rfl⟩
    · rintro ⟨n, spelled, fits, rfl⟩
      exact ⟨⟨n, spelled, rfl⟩, fits_natCast.2 fits⟩
  · intro c n spelled large
    have value := (value?_eq_some_iff c).2 ⟨n, spelled, rfl⟩
    have unfit : ¬ Word.Fits n := mt fits_natCast.1 (by omega)
    rw [read, value]
    simp only [if_neg unfit]
    rfl
  · intro c none
    have value : value? c.readInteger.1 = Option.none := by
      rw [Option.eq_none_iff_forall_ne_some]
      intro k hk
      obtain ⟨n, spelled, -⟩ := (value?_eq_some_iff c).1 hk
      exact none n spelled
    rw [read, value]
    rfl
  · intro text n spelled fits
    refine ⟨spelled.readInteger, Reading.ofSource_of_spells spelled fits, ?_⟩
    intro s room kind same
    exact Parse.operand_of_spells kind (same.symm ▸ spelled) fits room

open Nesting

theorem read_by_position_bases :
    Spells "0255".toList 255 ∧ Spells "0XfF".toList 255 ∧
      Reading.ofSource .descent .standard "0255" = ⟨some (.integer 255), []⟩ ∧
      Reading.ofSource .grammar .standard "0XfF" = ⟨some (.integer 255), []⟩ ∧
      Spells "0x8000000000000000".toList (2 ^ 63) ∧
      (read (Cursor.start "0x8000000000000000").readInteger.1).mapError Fault.message =
        .error "integer literal 0x8000000000000000 out of 64-bit range" ∧
      (∀ n, ¬ Spells "0b2".toList n) ∧
      (read (Cursor.start "0b2").readInteger.1).mapError Fault.message =
        .error "could not parse '0b2' as integer" := by
  have decimal : Spells "0255".toList 255 :=
    @Spells.decimal _ [0, 2, 5, 5] (by decide) (by decide) (by decide)
  have based : Spells "0XfF".toList 255 :=
    @Spells.based 'X' 16 ['f', 'F'] [15, 15] (by decide) (by decide) (by decide +kernel)
  have large : Spells "0x8000000000000000".toList (2 ^ 63) :=
    @Spells.based 'x' 16 ('8' :: List.replicate 15 '0') (8 :: List.replicate 15 0) (by decide)
      (by decide) (by decide +kernel)
  have none : ∀ n, ¬ Spells "0b2".toList n := by
    intro n h
    have run : ∀ c ∈ ['2'], isAlphanumeric c := List.forall_mem_singleton.2 (by decide)
    obtain ⟨ds, digits, -⟩ := (@spells_iff_of_marker 2 'b' ['2'] n (by decide) run).1 h
    cases digits
  obtain ⟨-, outOfRange, unreadable, spellings⟩ := read_by_position
  refine ⟨decimal, based, (spellings _ _ decimal (by decide)).2.1 _ _,
    (spellings _ _ based (by decide)).2.1 _ _, large, ?_, none, ?_⟩
  · exact outOfRange (.start "0x8000000000000000") _ large (by decide)
  · exact unreadable (.start "0b2") none

end Numeral

end Criterion
