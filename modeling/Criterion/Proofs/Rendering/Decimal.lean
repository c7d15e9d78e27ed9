import Criterion.Numeral
import Criterion.Text.Decimal
import Criterion.Token.Scan

namespace Criterion

theorem isDigit_of_core {c : Char} (h : c.isDigit) : isDigit c := by
  simpa [isDigit, Char.isDigit, Char.le_def] using h

theorem core_of_isDigit {c : Char} (h : isDigit c) : c.isDigit := by
  simpa [isDigit, Char.isDigit, Char.le_def] using h

namespace Text

theorem toList_decimal {n : Int} (h : 0 ≤ n) : (decimal n).toList = digits n.natAbs := by
  rw [decimal, if_neg (by omega), String.toList_ofList]

theorem decimalValue?_digit {c : Char} (h : c.isDigit) :
    decimalValue? c = some (c.toNat - '0'.toNat) := by
  have range : 48 ≤ c.toNat ∧ c.toNat ≤ 57 := by
    simpa [Char.isDigit, UInt32.le_iff_toNat_le] using h
  have first : decimalZeros.find? (fun start => start ≤ c.toNat && c.toNat < start + 10) =
      some 0x30 := by
    rw [decimalZeros, List.find?_cons_of_pos]
    simp only [Bool.and_eq_true, decide_eq_true_eq]
    omega
  rw [decimalValue?, first]
  rfl

end Text

namespace Numeral

theorem mapM_decimalValue? {cs : List Char} (h : ∀ c ∈ cs, c.isDigit) :
    cs.mapM Text.decimalValue? = some (cs.map fun c => c.toNat - '0'.toNat) := by
  induction cs with
  | nil => rfl
  | cons c cs ih =>
    obtain ⟨hc, hcs⟩ := List.forall_mem_cons.1 h
    rw [List.mapM_cons, Text.decimalValue?_digit hc, ih hcs]
    rfl

theorem positional_digits (n : Nat) :
    positional 10 ((Text.digits n).map fun c => c.toNat - '0'.toNat) = n := by
  have value : Nat.ofDigitChars 10 (Nat.toDigits 10 n) 0 = n := Nat.ofDigitChars_ten_toDigits
  rw [Nat.ofDigitChars_eq_foldl] at value
  rw [positional, Text.digits, List.foldl_map]
  simpa only [Nat.mul_comm 10] using value

theorem plain_of_ascii {c : Char} (h : c.toNat < 0x80) : plain c = c := if_pos h

theorem isMargin_eq_false {c : Char} (h : 0x20 < c.toNat) : isMargin c = false := by
  rw [Bool.eq_false_iff, isMargin, ne_eq, Bool.or_eq_true, Bool.and_eq_true]
  simp only [decide_eq_true_eq]
  rintro (rfl | low)
  · exact absurd h (by decide)
  · omega

theorem value?_of_digits {text : String} (some : text.toList ≠ [])
    (digits : ∀ c ∈ text.toList, c.isDigit) :
    value? text =
      (decimal? (text.toList.map fun c => c.toNat - '0'.toNat)).map fun n : Nat => (n : Int) := by
  have any : text.toList.all Text.isAnyDigit := by
    rw [List.all_eq_true]
    intro c hc
    rw [Text.isAnyDigit, Text.decimalValue?_digit (digits c hc)]
    rfl
  simp only [value?, some, any, ne_eq, not_false_eq_true, decide_true, Bool.and_self, if_true,
    mapM_decimalValue? digits, Option.bind_some]
  cases decimal? (text.toList.map fun c => c.toNat - '0'.toNat) with
  | none => rfl
  | some n => rfl

theorem read_decimal {n : Int} (low : 0 ≤ n) (high : n ≤ Word.maximum) :
    read (Text.decimal n) = .ok n := by
  have whole := Text.toList_decimal low
  have short : (Text.digits n.natAbs).length ≤ decimalLimit := by
    have bound : (Text.digits n.natAbs).length ≤ 19 := by
      rw [Text.digits, Nat.length_toDigits_le_iff (by decide) (by decide)]
      simp only [Word.maximum] at high
      omega
    exact Nat.le_trans bound (by decide)
  have value : value? (Text.decimal n) = some n := by
    rw [value?_of_digits (whole ▸ Text.digits_ne_nil _)
      (whole ▸ fun c hc => Text.isDigit_of_mem_digits hc), whole, decimal?, List.length_map,
      if_pos short, positional_digits]
    exact congrArg some (Int.natAbs_of_nonneg low)
  have fits : Word.Fits n := ⟨Int.le_trans (by decide) low, high⟩
  rw [read, value]
  exact if_pos fits

end Numeral

end Criterion
