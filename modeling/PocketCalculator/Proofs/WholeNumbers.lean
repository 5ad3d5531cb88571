import PocketCalculator.Number.Rounding
import Mathlib.Tactic.FieldSimp
import Mathlib.Tactic.Linarith
import Mathlib.Tactic.NormNum
import Mathlib.Tactic.Ring
import Mathlib.Algebra.Field.Rat
import Mathlib.Algebra.Order.Field.Rat
import Mathlib.Algebra.Order.Ring.Abs
import Mathlib.Algebra.Ring.Int.Parity

/-!
# The nearest whole number

A rational has one nearest whole number, the even one of two that are equally near, and rounding a
quotient gives it.

* `IsNearest`, `IsNearest.unique`: the nearest whole number to a rational.
* `IsNearest.le`, `IsNearest.even_of_tie`: what that says of any other one.
* `roundDiv_near`: a quotient is rounded to the nearest whole number.
* `roundDiv_lt_iff`: when it is rounded to a number below an even one.
-/

namespace PocketCalculator

/-- **A nearest whole number**, and the even one of two that are equally near. -/
structure IsNearest (q : ℚ) (n : ℤ) : Prop where
  near : |q - n| ≤ 1 / 2
  even : |q - n| = 1 / 2 → Even n

namespace IsNearest

variable {q : ℚ} {n : ℤ}

theorem neg (h : IsNearest q n) : IsNearest (-q) (-n) := by
  have hdistance : |-q - ((-n : ℤ) : ℚ)| = |q - n| := by
    rw [Int.cast_neg, ← abs_neg (q - n)]
    congr 1
    ring
  exact ⟨hdistance ▸ h.near, fun tie => (h.even (hdistance ▸ tie)).neg⟩

/-- Another whole number is at least half a unit away. -/
theorem half_le (h : IsNearest q n) {z : ℤ} (hne : z ≠ n) : 1 / 2 ≤ |q - z| := by
  have hone : (1 : ℚ) ≤ |(n : ℚ) - z| := by
    rw [← Int.cast_sub, ← Int.cast_abs]
    exact_mod_cast Int.one_le_abs (sub_ne_zero.2 hne.symm)
  have htriangle : |(n : ℚ) - z| ≤ |(n : ℚ) - q| + |q - z| := abs_sub_le _ _ _
  rw [abs_sub_comm (n : ℚ) q] at htriangle
  have hnear := h.near
  linarith

/-- **No whole number is nearer.** -/
theorem le (h : IsNearest q n) (z : ℤ) : |q - n| ≤ |q - z| := by
  by_cases hz : z = n
  · rw [hz]
  · exact h.near.trans (h.half_le hz)

/-- **Of two that are equally near** it is the even one. -/
theorem even_of_tie (h : IsNearest q n) {z : ℤ} (hne : z ≠ n) (tie : |q - z| = |q - n|) : Even n :=
  h.even (le_antisymm h.near (tie ▸ h.half_le hne))

/-- **There is one nearest whole number** at most, for two next to each other are not both even. -/
theorem unique (h : IsNearest q n) {m : ℤ} (hm : IsNearest q m) : m = n := by
  by_contra hne
  have hhalf : |q - m| = 1 / 2 := le_antisymm hm.near (h.half_le hne)
  have hhalf' : |q - n| = 1 / 2 := le_antisymm h.near (hm.half_le (Ne.symm hne))
  have hnext : |m - n| ≤ 1 := by
    have htriangle : |(m : ℚ) - n| ≤ |(m : ℚ) - q| + |q - n| := abs_sub_le _ _ _
    rw [abs_sub_comm (m : ℚ) q, hhalf, hhalf'] at htriangle
    norm_num at htriangle
    exact_mod_cast htriangle
  obtain ⟨a, ha⟩ := hm.even hhalf
  obtain ⟨b, hb⟩ := h.even hhalf'
  rw [abs_le] at hnext
  omega

/-- **Zero is nearest** up to half a unit away from it. -/
theorem eq_zero_iff (h : IsNearest q n) : n = 0 ↔ |q| ≤ 1 / 2 := by
  constructor
  · rintro rfl
    have hnear := h.near
    rwa [Int.cast_zero, sub_zero] at hnear
  · intro hnear
    have hzero : IsNearest q 0 := ⟨by rwa [Int.cast_zero, sub_zero], fun _ => Even.zero⟩
    exact hzero.unique h

end IsNearest

/-- **Rounding a quotient** gives the nearest whole number. -/
theorem roundDiv_near (n : Nat) {d : Nat} (hd : 0 < d) :
    IsNearest ((n : ℚ) / d) (roundDiv n d : ℕ) := by
  have hdouble : (0 : ℚ) < 2 * d := by exact_mod_cast Nat.mul_pos Nat.two_pos hd
  have hdistance : ((n : ℚ) / d - roundDiv n d) * (2 * d) = 2 * n - 2 * (d * roundDiv n d) := by
    field_simp
  have hupper : (2 : ℚ) * (d * roundDiv n d) ≤ 2 * n + d := by
    exact_mod_cast two_mul_roundDiv_le n hd
  have hlower : (2 : ℚ) * n ≤ 2 * (d * roundDiv n d) + d := by
    exact_mod_cast le_two_mul_roundDiv n hd
  constructor
  · rw [Int.cast_natCast, abs_le]
    constructor
    · refine le_of_mul_le_mul_right ?_ hdouble
      rw [hdistance]
      linarith
    · refine le_of_mul_le_mul_right ?_ hdouble
      rw [hdistance]
      linarith
  · intro tie
    rw [Int.cast_natCast] at tie
    rw [Int.even_coe_nat, Nat.even_iff]
    refine roundDiv_mod_two hd ?_
    rcases eq_or_eq_neg_of_abs_eq tie with h | h
    · right
      rw [h] at hdistance
      have heq : (2 : ℚ) * n = 2 * (d * roundDiv n d) + d := by linarith
      exact_mod_cast heq
    · left
      rw [h] at hdistance
      have heq : (2 : ℚ) * (d * roundDiv n d) = 2 * n + d := by linarith
      exact_mod_cast heq

/-! ### Rounding below a bound -/

section

variable {n d m : Nat} (hd : 0 < d)

include hd

theorem roundDiv_le_of_lt (h : n < m * d) : roundDiv n d ≤ m := by
  have hupper := two_mul_roundDiv_le n hd
  by_contra hlt
  have hsteps := Nat.mul_le_mul_left d (Nat.not_le.1 hlt)
  rw [Nat.succ_eq_add_one, Nat.mul_add, Nat.mul_comm d m] at hsteps
  omega

theorem le_roundDiv_of_le (h : m * d ≤ n) : m ≤ roundDiv n d := by
  have hlower := le_two_mul_roundDiv n hd
  by_contra hlt
  have hsteps := Nat.mul_le_mul_left d (Nat.not_le.1 hlt)
  rw [Nat.succ_eq_add_one, Nat.mul_add, Nat.mul_comm d m] at hsteps
  omega

/-- **Below an even whole number** is rounded what is more than half a unit below it. -/
theorem roundDiv_lt_iff (even : Even m) : roundDiv n d < m ↔ 2 * n + d < 2 * (m * d) := by
  constructor
  · intro h
    have hlower := le_two_mul_roundDiv n hd
    have hsteps := Nat.mul_le_mul_left d h
    rw [Nat.succ_eq_add_one, Nat.mul_add, Nat.mul_comm d m] at hsteps
    refine Nat.lt_of_le_of_ne (by omega) fun heq => ?_
    -- half a unit below it is a tie, and the whole number below is odd
    have hbelow : roundDiv n d % 2 = 0 := roundDiv_mod_two hd (.inr (by omega))
    have hnext : d * (roundDiv n d + 1) = d * m := by
      rw [Nat.mul_add, Nat.mul_comm d m]
      omega
    have hm : roundDiv n d + 1 = m := Nat.eq_of_mul_eq_mul_left hd hnext
    rw [Nat.even_iff] at even
    omega
  · intro h
    have hupper := two_mul_roundDiv_le n hd
    by_contra hle
    have hsteps := Nat.mul_le_mul_left d (Nat.not_lt.1 hle)
    rw [Nat.mul_comm d m] at hsteps
    omega

end

end PocketCalculator
