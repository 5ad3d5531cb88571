/-!
# Rounding a quotient to a whole number

`roundDiv n d` is the whole number nearest to `n / d`; of two that are equally
near it is the even one.

* `roundDiv_mul`, `roundDiv_mul_right`: an exact quotient is not changed, and a common factor makes
  no difference.
* `two_mul_roundDiv_le`, `le_two_mul_roundDiv`: the result is within half a unit.
* `roundDiv_mod_two`: of two results that are equally near it is the even one.
-/

namespace PocketCalculator

/-- **The nearest whole number** to `n / d`, a tie going to the even one. -/
def roundDiv (n d : Nat) : Nat :=
  if 2 * (n % d) < d then n / d
  else if d < 2 * (n % d) then n / d + 1
  else n / d + n / d % 2

theorem roundDiv_mul (q : Nat) {d : Nat} (hd : 0 < d) : roundDiv (q * d) d = q := by
  simp [roundDiv, hd]

/-- A common factor makes no difference. -/
theorem roundDiv_mul_right (n d : Nat) {c : Nat} (hc : 0 < c) :
    roundDiv (n * c) (d * c) = roundDiv n d := by
  have scaled : ∀ a b : Nat, a * c < b * c ↔ a < b := fun a b => Nat.mul_lt_mul_right hc
  unfold roundDiv
  rw [Nat.mul_mod_mul_right, Nat.mul_div_mul_right n d hc, ← Nat.mul_assoc]
  simp only [scaled]

/-- The result exceeds the quotient by half a unit at most. -/
theorem two_mul_roundDiv_le (n : Nat) {d : Nat} (hd : 0 < d) :
    2 * (d * roundDiv n d) ≤ 2 * n + d := by
  have hn := Nat.div_add_mod n d
  have hm := Nat.mod_lt n hd
  unfold roundDiv
  split
  · omega
  · split
    · rw [Nat.mul_add]; omega
    · rcases Nat.mod_two_eq_zero_or_one (n / d) with h | h <;> rw [h, Nat.mul_add] <;> omega

/-- The result falls short of the quotient by half a unit at most. -/
theorem le_two_mul_roundDiv (n : Nat) {d : Nat} (hd : 0 < d) :
    2 * n ≤ 2 * (d * roundDiv n d) + d := by
  have hn := Nat.div_add_mod n d
  have hm := Nat.mod_lt n hd
  unfold roundDiv
  split
  · omega
  · split
    · rw [Nat.mul_add]; omega
    · rcases Nat.mod_two_eq_zero_or_one (n / d) with h | h <;> rw [h, Nat.mul_add] <;> omega

/-- **A tie** goes to the even whole number. -/
theorem roundDiv_mod_two {n d : Nat} (hd : 0 < d)
    (tie : 2 * (d * roundDiv n d) = 2 * n + d ∨ 2 * n = 2 * (d * roundDiv n d) + d) :
    roundDiv n d % 2 = 0 := by
  have hn := Nat.div_add_mod n d
  have hm := Nat.mod_lt n hd
  unfold roundDiv at tie ⊢
  split
  · next below =>
    rw [if_pos below] at tie
    omega
  · next below =>
    rw [if_neg below] at tie
    split
    · next above =>
      rw [if_pos above, Nat.mul_add] at tie
      omega
    · omega

end PocketCalculator
