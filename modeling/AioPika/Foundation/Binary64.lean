import Mathlib.Algebra.Order.Round
import Mathlib.Data.Int.Log
import Mathlib.Data.Rat.Floor

/-! # Floating point numbers

A number of the format with 53 bits of precision is finite and has a rational
value, or it is infinite, or no number. An operation rounds its exact result to
the nearest value of the format, half to even, and integers of at most 53 bits
are values of the format.
-/

namespace Binary64

/-- The nearest integer, half to even. -/
def roundHalfEven (q : ℚ) : ℤ :=
  if q - ⌊q⌋ < 1 / 2 then ⌊q⌋
  else if 1 / 2 < q - ⌊q⌋ then ⌊q⌋ + 1
  else if Even ⌊q⌋ then ⌊q⌋
  else ⌊q⌋ + 1

/-- The distance of the values next to a number. -/
def ulp (q : ℚ) : ℚ := 2 ^ max (Int.log 2 |q| - 52) (-1074)

def round (q : ℚ) : ℚ := roundHalfEven (q / ulp q) * ulp q

end Binary64

/-- A floating point number; both zeros have the value 0. -/
inductive Binary64 where
  | finite (value : ℚ)
  | infinite (negative : Bool)
  | nan
  deriving DecidableEq, Repr

namespace Binary64

/-- Numbers from here on are rounded to infinity. -/
def overflow : ℚ := 2 ^ 1024 - 2 ^ 970

def ofRat (q : ℚ) : Binary64 :=
  if overflow ≤ |q| then .infinite (decide (q < 0)) else .finite (round q)

def negative : Binary64 → Bool
  | .finite x => decide (x < 0)
  | .infinite negative => negative
  | .nan => false

def mul : Binary64 → Binary64 → Binary64
  | .finite x, .finite y => ofRat (x * y)
  | .nan, _ | _, .nan => .nan
  | .finite 0, _ | _, .finite 0 => .nan
  | x, y => .infinite (xor x.negative y.negative)

def div : Binary64 → Binary64 → Binary64
  | .finite x, .finite y =>
    if y ≠ 0 then ofRat (x / y) else if x = 0 then .nan else .infinite (decide (x < 0))
  | .nan, _ | _, .nan => .nan
  | .infinite _, .infinite _ => .nan
  | .infinite x, .finite y => .infinite (xor x (decide (y < 0)))
  | .finite _, .infinite _ => .finite 0

theorem roundHalfEven_intCast (m : ℤ) : roundHalfEven m = m := by
  simp [roundHalfEven]

/-- The distance of the values next to an integer of at most 53 bits is a power of one half. -/
theorem ulp_intCast {m : ℤ} (h : |m| < 2 ^ 53) : ∃ k : ℕ, ulp m = (2 ^ k)⁻¹ := by
  have habs : |(m : ℚ)| = (m.natAbs : ℚ) := by rw [Nat.cast_natAbs, Int.cast_abs]
  have hlog : Int.log 2 |(m : ℚ)| = Nat.log 2 m.natAbs := by
    rw [habs]
    exact Int.log_natCast 2 m.natAbs
  have hlt : Nat.log 2 m.natAbs < 53 := by
    apply Nat.log_lt_of_lt_pow'
    · decide
    · rw [Int.abs_eq_natAbs] at h
      exact_mod_cast h
  refine ⟨52 - Nat.log 2 m.natAbs, ?_⟩
  have hmax : max (Int.log 2 |(m : ℚ)| - 52) (-1074) = -((52 - Nat.log 2 m.natAbs : ℕ) : ℤ) := by
    rw [hlog]
    omega
  rw [ulp, hmax, zpow_neg, zpow_natCast]

/-- Integers of at most 53 bits are rounded to themselves. -/
theorem round_intCast {m : ℤ} (h : |m| < 2 ^ 53) : round m = m := by
  obtain ⟨k, hk⟩ := ulp_intCast h
  have hpow : (2 : ℚ) ^ k ≠ 0 := pow_ne_zero k two_ne_zero
  have hquot : (m : ℚ) / ulp m = ((m * 2 ^ k : ℤ) : ℚ) := by
    rw [hk, div_inv_eq_mul]
    push_cast
    rfl
  rw [round, hquot, roundHalfEven_intCast, hk]
  push_cast
  exact mul_inv_cancel_right₀ hpow _

theorem le_overflow : (2 : ℚ) ^ 53 ≤ overflow := by
  have hpow : (1 : ℚ) ≤ 2 ^ 970 := one_le_pow₀ one_le_two
  have hsplit : overflow = 2 ^ 970 * 2 ^ 54 - 2 ^ 970 := by rw [overflow, ← pow_add]
  rw [hsplit]
  generalize (2 : ℚ) ^ 970 = p at hpow
  linarith

theorem ofRat_intCast {m : ℤ} (h : |m| < 2 ^ 53) : ofRat m = .finite m := by
  have hlt : |(m : ℚ)| < overflow := by
    have hm : |(m : ℚ)| < 2 ^ 53 := by exact_mod_cast h
    exact hm.trans_le le_overflow
  rw [ofRat, if_neg (not_le.mpr hlt), round_intCast h]

end Binary64
