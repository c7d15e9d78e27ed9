namespace Criterion.Word

def minimum : Int := -0x8000000000000000

def maximum : Int := 0x7FFFFFFFFFFFFFFF

def Fits (n : Int) : Prop := minimum ≤ n ∧ n ≤ maximum

instance (n : Int) : Decidable (Fits n) := inferInstanceAs (Decidable (_ ∧ _))

/-- The word that is congruent to an integer modulo 2^64. -/
def wrap (n : Int) : Int := n.bmod 0x10000000000000000

/-- Division rounding toward zero, for a divisor other than zero. -/
def quotient? (a b : Int) : Option Int := if b = 0 then none else some (a.tdiv b)

def noQuotientMessage : String := "integer division or modulo by zero"

theorem fits_wrap (n : Int) : Fits (wrap n) := by
  have low := Int.le_bmod (x := n) (m := 0x10000000000000000) (by decide)
  have high := Int.bmod_lt (x := n) (m := 0x10000000000000000) (by decide)
  simp only [Fits, wrap, minimum, maximum]
  omega

theorem wrap_of_fits {n : Int} (h : Fits n) : wrap n = n := by
  simp only [Fits, minimum, maximum] at h
  simp only [wrap, Int.bmod_def]
  omega

end Criterion.Word
