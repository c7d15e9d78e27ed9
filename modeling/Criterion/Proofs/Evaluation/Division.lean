import Criterion.Evaluation
import Mathlib.Data.Int.Lemmas

namespace Criterion

namespace Word

/-- The quotient of the sizes of two integers, with a minus sign where they lie on different sides,
zero on the positive one. -/
def sizesQuotient (a b : Int) : Int :=
  if decide (0 ≤ a) = decide (0 ≤ b) then (a.natAbs / b.natAbs : Nat)
  else -(a.natAbs / b.natAbs : Nat)

theorem tdiv_eq_sizesQuotient (a b : Int) : a.tdiv b = sizesQuotient a b := by
  cases a with
  | ofNat m =>
    cases b with
    | ofNat n => rfl
    | negSucc n => rfl
  | negSucc m =>
    cases b with
    | ofNat n => rfl
    | negSucc n => rfl

/-- A remainder of a division by `b` that is rounded toward zero: smaller than the divisor, and zero
or on the side of the dividend. -/
def IsRemainder (a b r : Int) : Prop := r.natAbs < b.natAbs ∧ (r = 0 ∨ r.sign = a.sign)

variable {a b q r s : Int}

theorem isRemainder_tmod (a : Int) (divisor : b ≠ 0) : IsRemainder a b (a.tmod b) := by
  constructor
  · rw [Int.natAbs_tmod]
    exact Nat.mod_lt _ (Int.natAbs_pos.2 divisor)
  · by_cases divides : b ∣ a
    · exact .inl (Int.tmod_eq_zero_of_dvd divides)
    · exact .inr (by rw [Int.sign_tmod, if_neg divides])

theorem IsRemainder.natAbs_sub_lt (hr : IsRemainder a b r) (hs : IsRemainder a b s) :
    (r - s).natAbs < b.natAbs := by
  obtain ⟨small, side⟩ := hr
  obtain ⟨small', side'⟩ := hs
  rcases side with rfl | side
  · rwa [Int.zero_sub, Int.natAbs_neg]
  · rcases side' with rfl | side'
    · rwa [Int.sub_zero]
    · have same : r.sign = s.sign := side.trans side'.symm
      rcases Int.lt_trichotomy 0 r with pos | rfl | neg
      · have pos' : 0 < s := Int.sign_eq_one_iff_pos.1 (same ▸ Int.sign_eq_one_of_pos pos)
        omega
      · rwa [Int.zero_sub, Int.natAbs_neg]
      · have neg' : s < 0 := Int.sign_eq_neg_one_iff_neg.1 (same ▸ Int.sign_eq_neg_one_of_neg neg)
        omega

/-- A quotient and a remainder of the dividend are those of the division that rounds toward zero. -/
theorem tdiv_eq_of_isRemainder (whole : a = b * q + r) (h : IsRemainder a b r) :
    a.tdiv b = q := by
  have divisor : b ≠ 0 := by
    rintro rfl
    exact absurd h.1 (Nat.not_lt_zero _)
  have apart := h.natAbs_sub_lt (isRemainder_tmod a divisor)
  have multiple : r - a.tmod b = b * (a.tdiv b - q) := by
    have other := Int.mul_tdiv_add_tmod a b
    rw [Int.mul_sub]
    omega
  have none : r - a.tmod b = 0 :=
    Int.eq_zero_of_dvd_of_natAbs_lt_natAbs (multiple ▸ Int.dvd_mul_right b _) apart
  rw [none] at multiple
  rcases Int.mul_eq_zero.1 multiple.symm with zero | same
  · exact absurd zero divisor
  · omega

theorem quotient?_eq_some_iff :
    quotient? a b = some q ↔ ∃ r, a = b * q + r ∧ IsRemainder a b r := by
  by_cases divisor : b = 0
  · subst divisor
    rw [quotient?, if_pos rfl]
    constructor
    · intro none
      cases none
    · rintro ⟨r, -, small, -⟩
      exact absurd small (Nat.not_lt_zero _)
  · rw [quotient?, if_neg divisor, Option.some_inj]
    constructor
    · rintro rfl
      exact ⟨a.tmod b, (Int.mul_tdiv_add_tmod a b).symm, isRemainder_tmod a divisor⟩
    · rintro ⟨r, whole, h⟩
      exact tdiv_eq_of_isRemainder whole h

theorem fits_tdiv (ha : Fits a) (other : ¬ (a = minimum ∧ b = -1)) : Fits (a.tdiv b) := by
  have size : (a.tdiv b).natAbs = a.natAbs / b.natAbs := Int.natAbs_tdiv a b
  simp only [Fits, minimum, maximum] at ha other ⊢
  by_cases unit : b = 1 ∨ b = -1
  · rcases unit with rfl | rfl
    · rwa [Int.tdiv_one]
    · rw [Int.tdiv_neg, Int.tdiv_one]
      omega
  · by_cases divisor : b = 0
    · subst divisor
      rw [Int.tdiv_zero]
      omega
    · have half : a.natAbs / b.natAbs ≤ a.natAbs / 2 := Nat.div_le_div_left (by omega) (by decide)
      omega

theorem wrap_tdiv (ha : Fits a) :
    wrap (a.tdiv b) = if a = minimum ∧ b = -1 then minimum else a.tdiv b := by
  by_cases lone : a = minimum ∧ b = -1
  · obtain ⟨rfl, rfl⟩ := lone
    rfl
  · rw [if_neg lone, wrap_of_fits (fits_tdiv ha lone)]

/-- A wrapped quotient of words is that of a machine. -/
theorem wrap_tdiv_eq_sdiv (ha : Fits a) (hb : Fits b) :
    wrap (a.tdiv b) = ((BitVec.ofInt 64 a).sdiv (BitVec.ofInt 64 b)).toInt := by
  have dividend : (BitVec.ofInt 64 a).toInt = a := by
    rw [BitVec.toInt_ofInt]
    exact wrap_of_fits ha
  have divisor : (BitVec.ofInt 64 b).toInt = b := by
    rw [BitVec.toInt_ofInt]
    exact wrap_of_fits hb
  rw [BitVec.toInt_sdiv, dividend, divisor]
  rfl

end Word

namespace Value

theorem binaryOp_divide (a b : Int) :
    (integer a).binaryOp "/" (integer b) =
      if b = 0 then .error .divisionByZero else .ok (.integer (Word.wrap (a.tdiv b))) := by
  have known : BinaryOp.ofText? "/" = some .divide := BinaryOp.ofText?_text .divide
  rw [binaryOp, known]
  change integerOp .divide a b = _
  rw [integerOp, Word.quotient?]
  by_cases divisor : b = 0
  · rw [if_pos divisor, if_pos divisor]
  · rw [if_neg divisor, if_neg divisor]

/-- Division rounds toward zero, by the sizes of its operands, for all integers; and between words
it is an error for the divisor zero alone, wraps in one case alone, and is that of a machine. -/
theorem divide_words (a b : Int) :
    Word.quotient? a b = (if b = 0 then none else some (Word.sizesQuotient a b)) ∧
      (∀ q, Word.quotient? a b = some q ↔
        ∃ r, a = b * q + r ∧ r.natAbs < b.natAbs ∧ (r = 0 ∨ r.sign = a.sign)) ∧
      (Word.Fits a → Word.Fits b →
        (ofResult ((integer a).binaryOp "/" (integer b)) = .error "division by zero" ↔ b = 0) ∧
          (b ≠ 0 → (integer a).binaryOp "/" (integer b) =
            .ok (.integer (if a = Word.minimum ∧ b = -1 then Word.minimum
              else Word.sizesQuotient a b))) ∧
          (b ≠ 0 → (integer a).binaryOp "/" (integer b) =
            .ok (.integer ((BitVec.ofInt 64 a).sdiv (BitVec.ofInt 64 b)).toInt))) := by
  refine ⟨?_, fun q => Word.quotient?_eq_some_iff, ?_⟩
  · rw [Word.quotient?, Word.tdiv_eq_sizesQuotient]
  · intro ha hb
    rw [binaryOp_divide]
    refine ⟨?_, ?_, ?_⟩
    · by_cases divisor : b = 0
      · rw [if_pos divisor]
        exact iff_of_true rfl divisor
      · rw [if_neg divisor]
        refine iff_of_false ?_ divisor
        intro error
        cases error
    · intro divisor
      rw [if_neg divisor, Word.wrap_tdiv ha, Word.tdiv_eq_sizesQuotient]
    · intro divisor
      rw [if_neg divisor, Word.wrap_tdiv_eq_sdiv ha hb]

theorem divide_words_overflow :
    Word.Fits Word.minimum ∧ Word.Fits (-1) ∧
      Word.quotient? Word.minimum (-1) = some (Word.maximum + 1) ∧
      (integer Word.minimum).binaryOp "/" (integer (-1)) = .ok (.integer Word.minimum) := by
  have low : Word.Fits Word.minimum := by decide
  have unit : Word.Fits (-1) := by decide
  obtain ⟨quotient, -, words⟩ := divide_words Word.minimum (-1)
  obtain ⟨-, result, -⟩ := words low unit
  exact ⟨low, unit, quotient.trans (by decide), result (by decide)⟩

end Value

end Criterion
