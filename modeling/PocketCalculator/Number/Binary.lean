import PocketCalculator.Number.Rounding

/-!
# The binary64 grid

Every finite binary64 number is, up to its sign, a whole number of units of
`2^-1074`, the least positive one. Its **magnitude** is the stored pattern
without the sign bit, a natural number below `2^63`; magnitudes are ordered as the
numbers they stand for, and from `infinite` on they stand for no finite number.

* `units`: the number of units a magnitude stands for.
* `nearest`: the magnitude nearest to a quotient, ties to the even pattern.
* `magnitude`, `isNegative`, `ofMagnitude`: the two parts of a `Float`, and back.
-/

namespace PocketCalculator.Binary

/-- The leading bit of a stored fraction, `2^52`. -/
def leadingBit : Nat := Nat.pow 2 52

/-- The number of units in one, `2^1074`. -/
def unitsInOne : Nat := Nat.pow 2 1074

/-- The sign bit of a pattern, `2^63`. -/
def signBit : Nat := Nat.pow 2 63

/-- The magnitude of infinity. Greater magnitudes belong to no number at all. -/
def infinite : Nat := 2047 * leadingBit

/-- **Units of a magnitude.** A pattern `k * 2^52 + m` with `2^52 ≤ m < 2^53` stands
for `m * 2^k` units, and a pattern below `2^53` for itself. -/
def units (p : Nat) : Nat :=
  let k := p / leadingBit - 1
  (p - k * leadingBit) * Nat.pow 2 k

/-- **The magnitude nearest to `n / d`**, ties going to the even pattern. Quotients too
large for any finite number give a magnitude of `infinite` or more. -/
def nearest (n d : Nat) : Nat :=
  let scaled := n * unitsInOne
  let k := (scaled / d).log2 - 52
  k * leadingBit + roundDiv scaled (d * Nat.pow 2 k)

theorem units_of_lt {p : Nat} (h : p < 2 * leadingBit) : units p = p := by
  have low : p / leadingBit - 1 = 0 := by
    have := Nat.div_lt_of_lt_mul (Nat.mul_comm 2 leadingBit ▸ h)
    omega
  simp only [units, low, Nat.zero_mul, Nat.sub_zero]
  exact Nat.mul_one p

theorem nearest_zero (d : Nat) : nearest 0 d = 0 := by
  simp only [nearest, Nat.zero_mul, Nat.zero_div, Nat.log2_zero, Nat.zero_sub, Nat.zero_add]
  unfold roundDiv
  split <;> (try split) <;> simp_all

/-- A common factor makes no difference. -/
theorem nearest_mul_right (n d : Nat) {c : Nat} (hc : 0 < c) :
    nearest (n * c) (d * c) = nearest n d := by
  unfold nearest
  simp only
  rw [Nat.mul_right_comm n c, Nat.mul_div_mul_right _ d hc, Nat.mul_right_comm d c,
    roundDiv_mul_right _ _ hc]

/-- The magnitude of a number: its pattern without the sign bit. -/
def magnitude (x : Float) : Nat := x.toBits.toNat % signBit

/-- The sign bit of a number. It is set on the negative zero too. -/
def isNegative (x : Float) : Bool := decide (signBit ≤ x.toBits.toNat)

/-- The number without a sign that has the magnitude `p`. -/
def ofMagnitude (p : Nat) : Float := Float.ofBits (UInt64.ofNat p)

end PocketCalculator.Binary
