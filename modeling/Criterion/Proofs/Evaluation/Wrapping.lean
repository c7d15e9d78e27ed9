import Criterion.Proofs.Evaluation.Run
import Criterion.Proofs.Tree
import Mathlib.Data.Int.Bitwise
import Mathlib.Data.Int.ModEq

/-!
Arithmetic that wraps: a sum, a difference or a product of words is the word that is congruent to
it, so a tree of these operators can be reckoned without bounds and wrapped once at its root.
-/

namespace Criterion

namespace Word

/-- The low 64 bits of an integer in two's complement, less 2^64 where the highest of them is
set. -/
def masked (n : Int) : Int :=
  if (n.land 0xFFFFFFFFFFFFFFFF).land 0x8000000000000000 = 0 then n.land 0xFFFFFFFFFFFFFFFF
  else n.land 0xFFFFFFFFFFFFFFFF - 0x10000000000000000

theorem ldiff_ones (width m : Nat) :
    Nat.ldiff (2 ^ width - 1) m = 2 ^ width - (m % 2 ^ width + 1) := by
  apply Nat.eq_of_testBit_eq
  intro i
  rw [Nat.testBit_ldiff, Nat.testBit_two_pow_sub_one,
    Nat.testBit_two_pow_sub_succ (Nat.mod_lt _ (Nat.two_pow_pos width)), Nat.testBit_mod_two_pow]
  by_cases h : i < width <;> simp [h]

theorem land_ones (width : Nat) (n : Int) : n.land (2 ^ width - 1 : Nat) = n % 2 ^ width := by
  have pos : 0 < 2 ^ width := Nat.two_pow_pos width
  cases n with
  | ofNat m =>
    change ((m &&& (2 ^ width - 1) : Nat) : Int) = _
    rw [Nat.and_two_pow_sub_one_eq_mod]
    rfl
  | negSucc m =>
    have below : m % 2 ^ width + 1 ≤ 2 ^ width := Nat.mod_lt m pos
    change ((Nat.ldiff (2 ^ width - 1) m : Nat) : Int) = _
    rw [ldiff_ones, Int.negSucc_emod m (by exact_mod_cast pos), Nat.cast_sub below]
    push_cast
    omega

theorem land_sign_eq_zero {m : Nat} (h : m < 2 ^ 64) :
    (m : Int).land (2 ^ 63 : Nat) = 0 ↔ m < 2 ^ 63 := by
  have bit : m / 2 ^ 63 % 2 = 1 ↔ ¬ m < 2 ^ 63 := by omega
  change ((m &&& 2 ^ 63 : Nat) : Int) = 0 ↔ _
  rw [Nat.and_two_pow, Nat.testBit_eq_decide_div_mod_eq, decide_eq_decide.2 bit]
  by_cases low : m < 2 ^ 63
  · rw [decide_eq_false (not_not_intro low)]
    simpa using low
  · rw [decide_eq_true low]
    simpa using low

/-- Wrapping is masking, for all integers. -/
theorem wrap_eq_masked (n : Int) : wrap n = masked n := by
  have low : n.land 0xFFFFFFFFFFFFFFFF = n % 2 ^ 64 := land_ones 64 n
  obtain ⟨m, hm⟩ := Int.eq_ofNat_of_zero_le (Int.emod_nonneg n (b := 2 ^ 64) (by decide))
  have below : m < 2 ^ 64 := by
    have bound := Int.emod_lt_of_pos n (b := 2 ^ 64) (by decide)
    omega
  have sign : (m : Int).land 0x8000000000000000 = 0 ↔ m < 2 ^ 63 := land_sign_eq_zero below
  -- With the masks replaced by a residue and a bound, no bits are left.
  rw [masked, low, hm, wrap, Int.bmod_def]
  simp only [sign]
  omega

theorem wrap_add (a b : Int) : wrap (wrap a + wrap b) = wrap (a + b) := by
  simp only [wrap, Int.add_bmod_bmod, Int.bmod_add_bmod]

theorem wrap_sub (a b : Int) : wrap (wrap a - wrap b) = wrap (a - b) := by
  simp only [wrap, Int.sub_bmod_bmod, Int.bmod_sub_bmod]

theorem wrap_mul (a b : Int) : wrap (wrap a * wrap b) = wrap (a * b) := by
  simp only [wrap, Int.mul_bmod_bmod, Int.bmod_mul_bmod]

theorem wrap_modEq (n : Int) : wrap n ≡ n [ZMOD 2 ^ 64] := Int.bmod_emod

theorem wrap_eq_iff {n w : Int} : wrap n = w ↔ Fits w ∧ w ≡ n [ZMOD 2 ^ 64] := by
  constructor
  · rintro rfl
    exact ⟨fits_wrap n, wrap_modEq n⟩
  · rintro ⟨fits, same⟩
    rw [← wrap_of_fits fits, wrap, wrap, ← Int.emod_bmod, ← Int.emod_bmod w]
    exact congrArg (Int.bmod · _) same.symm

theorem wrap_eq_wrap_iff {m n : Int} : wrap m = wrap n ↔ m ≡ n [ZMOD 2 ^ 64] := by
  rw [wrap_eq_iff]
  constructor
  · rintro ⟨-, same⟩
    exact same.symm.trans (wrap_modEq n)
  · intro same
    exact ⟨fits_wrap n, (wrap_modEq n).trans same.symm⟩

end Word

/-- What an operator of arithmetic computes if nothing is bounded. -/
def BinaryOp.exact? : BinaryOp → Option (Int → Int → Int)
  | add => some (· + ·)
  | subtract => some (· - ·)
  | multiply => some (· * ·)
  | _ => none

theorem Value.integerOp_wrap {op : BinaryOp} {f : Int → Int → Int} (known : op.exact? = some f)
    (a b : Int) :
    integerOp op (Word.wrap a) (Word.wrap b) = .ok (.integer (Word.wrap (f a b))) := by
  cases op with
  | add =>
    cases known
    rw [integerOp, Word.wrap_add]
  | subtract =>
    cases known
    rw [integerOp, Word.wrap_sub]
  | multiply =>
    cases known
    rw [integerOp, Word.wrap_mul]
  | _ => cases known

/-- A tree of sums, differences and products over words, given or bound, and the integer it stands
for if nothing is bounded. -/
inductive Expr.Exact (env : Environment) : Expr → Int → Prop
  | integer {n : Int} (fits : Word.Fits n) : Exact env (.integer n) n
  | identifier {name : String} {n : Int} (bound : env.get? name = some (.integer n))
      (fits : Word.Fits n) : Exact env (.identifier name) n
  | binary {op : BinaryOp} {f : Int → Int → Int} {left right : Expr} {a b : Int}
      (known : op.exact? = some f) (hl : Exact env left a) (hr : Exact env right b) :
      Exact env (.binary left op.text right) (f a b)

section

variable {host : Host} {r : Registry} {env : Environment} {e : Expr} {n : Int}

/-- Evaluation wraps at every step and comes to what wrapping once comes to, if there is room for it
at all. -/
theorem evaluateIn_exact (h : e.Exact env n) (room : Nat) :
    evaluateIn host r env room e =
      if e.height ≤ room then pure (.integer (Word.wrap n)) else Run.fail .nestedTooDeeply := by
  induction h generalizing room with
  | integer fits =>
    cases room with
    | zero => rw [evaluateIn, if_neg (by simp [Expr.height])]
    | succ room => rw [evaluateIn, if_pos (by simp [Expr.height]), Word.wrap_of_fits fits]
  | identifier bound fits =>
    cases room with
    | zero => rw [evaluateIn, if_neg (by simp [Expr.height])]
    | succ room =>
      rw [evaluateIn, lookUp, bound, if_pos (by simp [Expr.height]), Word.wrap_of_fits fits]
      rfl
  | @binary op f left right a b known _ _ ihl ihr =>
    cases room with
    | zero => rw [evaluateIn, if_neg (by simp [Expr.height])]
    | succ room =>
      rw [evaluateIn, ihl, ihr, Expr.height]
      by_cases hl : left.height ≤ room
      · by_cases hr : right.height ≤ room
        · have result : (Value.integer (Word.wrap a)).binaryOp op.text (.integer (Word.wrap b)) =
              .ok (.integer (Word.wrap (f a b))) := by
            rw [Value.binaryOp, BinaryOp.ofText?_text]
            exact Value.integerOp_wrap known a b
          have fits : max left.height right.height + 1 ≤ room + 1 := by omega
          rw [if_pos hl, if_pos hr, if_pos fits, pure_bind, pure_bind, result]
          rfl
        · have deep : ¬ max left.height right.height + 1 ≤ room + 1 := by omega
          rw [if_pos hl, if_neg hr, if_neg deep, pure_bind, Run.fail_bind]
      · have deep : ¬ max left.height right.height + 1 ≤ room + 1 := by omega
        rw [if_neg hl, if_neg deep, Run.fail_bind]

variable [Nesting] {past : List Call}

theorem value_exact (h : e.Exact env n) (shallow : e.height ≤ Nesting.limit) :
    (evaluate host r env e past).value = .ok (.integer (Word.wrap n)) := by
  rw [evaluate, evaluateIn_exact h, if_pos shallow]
  rfl

/-- Wrapping at every step is wrapping once: a tree of sums, differences and products over words
comes to its exact value masked, which is the word that is congruent to it, as long as it has no
more levels than are worked on. Two such trees come to the same if and only if their exact values
are congruent. A tree that comes to nothing of the kind is reported as nested too deeply. -/
theorem evaluate_exact (h : e.Exact env n) (host : Host) (r : Registry)
    (past : List Call) :
    (e.height ≤ Nesting.limit →
      (evaluate host r env e past).value = .ok (.integer (Word.masked n)) ∧
        Word.masked n ≡ n [ZMOD 2 ^ 64] ∧ Word.Fits (Word.masked n)) ∧
    (∀ (other : Environment) (f : Expr) (m : Int), f.Exact other m → e.height ≤ Nesting.limit →
      f.height ≤ Nesting.limit →
        ((evaluate host r env e past).value = (evaluate host r other f past).value ↔
          n ≡ m [ZMOD 2 ^ 64])) ∧
    ((evaluate host r env e past).value = .ok (.integer (Word.masked n)) ∨
      (evaluate host r env e past).value = .ok (.error Fault.nestedTooDeeply.message)) := by
  have shallow (fits : e.height ≤ Nesting.limit) :
      (evaluate host r env e past).value = .ok (.integer (Word.masked n)) := by
    rw [← Word.wrap_eq_masked]
    exact value_exact h fits
  refine ⟨?_, ?_, ?_⟩
  · intro fits
    refine ⟨shallow fits, ?_⟩
    rw [← Word.wrap_eq_masked]
    exact ⟨Word.wrap_modEq n, Word.fits_wrap n⟩
  · intro other f m hf fits fits'
    rw [value_exact h fits, value_exact hf fits', ← Word.wrap_eq_wrap_iff]
    simp
  · by_cases fits : e.height ≤ Nesting.limit
    · exact .inl (shallow fits)
    · right
      rw [evaluate, evaluateIn_exact h, if_neg fits]
      rfl

end

def Expr.ones : Nat → Expr
  | 0 => integer 1
  | count + 1 => binary (ones count) "+" (integer 1)

theorem Expr.exact_ones {env : Environment} (count : Nat) : (ones count).Exact env (count + 1) := by
  induction count with
  | zero => exact .integer (by decide)
  | succ count ih => exact @Expr.Exact.binary _ .add _ _ _ _ _ rfl ih (.integer (by decide))

theorem Expr.height_ones (count : Nat) : (ones count).height = count + 1 := by
  induction count with
  | zero => rfl
  | succ count ih =>
    rw [ones, height, ih]
    simp [height]

open Nesting

/-- A sum of 4000 ones has no value. -/
theorem evaluate_exact_deep :
    (Expr.ones 3999).Exact .empty 4000 ∧ Word.Fits 4000 ∧
      (evaluate (fun _ _ _ => .nothing) .standard .empty (Expr.ones 3999) []).value =
        .ok (.error "expression nested too deeply") := by
  refine ⟨Expr.exact_ones 3999, by decide, ?_⟩
  have deep : ¬ (Expr.ones 3999).height ≤ Nesting.limit := by
    rw [Expr.height_ones]
    decide
  rw [evaluate, evaluateIn_exact (Expr.exact_ones 3999), if_neg deep]
  rfl

theorem evaluate_exact_overflow :
    (Expr.binary (.binary (.integer Word.maximum) "+" (.integer 1)) "*" (.integer 2)).Exact .empty
        (2 ^ 64) ∧
      (Expr.integer 0).Exact .empty 0 ∧
      (evaluate (fun _ _ _ => .nothing) .standard .empty
        (.binary (.binary (.integer Word.maximum) "+" (.integer 1)) "*" (.integer 2)) []).value =
        .ok (.integer 0) := by
  have product : (Expr.binary (.binary (.integer Word.maximum) "+" (.integer 1)) "*"
      (.integer 2)).Exact .empty (2 ^ 64) :=
    @Expr.Exact.binary _ .multiply _ _ _ _ _ rfl
      (@Expr.Exact.binary _ .add _ _ _ _ _ rfl (.integer (by decide)) (.integer (by decide)))
      (.integer (by decide))
  have zero : (Expr.integer 0).Exact .empty 0 := .integer (by decide)
  obtain ⟨-, same, -⟩ := evaluate_exact product (fun _ _ _ => .nothing) .standard []
  refine ⟨product, zero, ?_⟩
  exact (same .empty (.integer 0) 0 zero (by decide) (by decide)).2 (by decide)

end Criterion
