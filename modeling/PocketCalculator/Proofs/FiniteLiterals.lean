import PocketCalculator.Expression.Lexeme

/-!
# Finite literals

A numeral is a run of digits with at most one point, and it is a finite literal if the decimal that it
stands for is nearest to a finite number. That is what a literal should be. It is read as one if, moreover,
the signed 32-bit word that counts its digits ends above zero, which it does below `2^31` digits.

* `IsNumeral`, `IsFiniteLiteral`: numerals, and those that stand for a finite number.
* `Literal.wrapped`: the number in a word that counts.
* `Literal.value?_eq_some_iff`: literals are the finite literals whose count ends above zero.
* `Literal.value?_eq_some_iff_of_few`: with fewer than `2^31` digits, all finite literals are.
-/

namespace PocketCalculator

variable {w : List Char} {x : Float}

/-- **Numerals**: digits and at most one point, at least one of them a digit. -/
structure IsNumeral (w : List Char) : Prop where
  chars : ∀ c ∈ w, c.isDigit = true ∨ c = '.'
  digit : ∃ c ∈ w, c.isDigit = true
  point : w.count '.' ≤ 1

theorem isNumeral_iff : IsNumeral w ↔
    (w.all fun c => c.isDigit || c == '.') = true ∧ w.any Char.isDigit = true ∧ w.count '.' ≤ 1 := by
  simp only [List.all_eq_true, Bool.or_eq_true, beq_iff_eq, List.any_eq_true]
  exact ⟨fun ⟨chars, digit, point⟩ => ⟨chars, digit, point⟩,
    fun ⟨chars, digit, point⟩ => ⟨chars, digit, point⟩⟩

instance (w : List Char) : Decidable (IsNumeral w) := decidable_of_iff _ isNumeral_iff.symm

/-- No function has a numeral as its name. -/
theorem IsNumeral.ne_name (h : IsNumeral w) (f : Scientific) : w ≠ f.name.toList := by
  rintro rfl
  have hletters : f.name.toList.all (fun c => c.isDigit || c == '.') = false := by
    cases f <;> decide
  rw [List.all_eq_false] at hletters
  obtain ⟨c, hc, hletter⟩ := hletters
  exact hletter (by simpa using h.chars c hc)

/-- **A finite literal**: digits and at most one point, at least one of them a digit, that stand for
a finite number. -/
structure IsFiniteLiteral (w : List Char) (x : Float) : Prop extends IsNumeral w where
  value : Decimal.toFloat?
    ⟨digitsValue (w.filter Char.isDigit), -((w.dropWhile (· != '.')).length - 1 : Nat)⟩ = some x

/-- A finite literal is read as a decimal, which stands for a finite number. -/
theorem isFiniteLiteral_iff :
    IsFiniteLiteral w x ↔ (Decimal.ofText? w).bind Decimal.toFloat? = some x := by
  have hform : (w.all (fun c => c.isDigit || c == '.') && w.count '.' ≤ 1 &&
      !(w.filter Char.isDigit).isEmpty) = true ↔ IsNumeral w := by
    rw [isNumeral_iff, and_comm (a := w.any Char.isDigit = true), ← and_assoc]
    simp
  unfold Decimal.ofText?
  simp only
  constructor
  · rintro ⟨hnumeral, value⟩
    rw [if_pos (hform.2 hnumeral)]
    exact value
  · intro h
    split at h
    · next ht => exact ⟨hform.1 ht, h⟩
    · cases h

instance (w : List Char) (x : Float) : Decidable (IsFiniteLiteral w x) :=
  decidable_of_iff _ isFiniteLiteral_iff.symm

namespace Literal

/-! ### The count of the digits -/

/-- **The number in a word** that was raised `n` times from zero. It begins again at `-2^31` when it gets
to `2^31`. -/
def wrapped (n : Nat) : Int := (n : Int).bmod 4294967296

theorem toInt_ofNat_eq (n : Nat) : (Int32.ofNat n).toInt = wrapped n := Int32.toInt_ofNat'

theorem wrapped_of_lt {n : Nat} (h : n < 2147483648) : wrapped n = n := by
  rw [← toInt_ofNat_eq, Int32.toInt_ofNat_of_lt h]

/-- Fewer than `2^31` digits are counted as they are. -/
theorem wrapped_pos (h : IsNumeral w) (few : w.countP Char.isDigit < 2147483648) :
    0 < wrapped (w.countP Char.isDigit) := by
  have digits : 0 < w.countP Char.isDigit := List.countP_pos_iff.2 h.digit
  rw [wrapped_of_lt few]
  omega

/-! ### Literals -/

/-- **Literals** are the finite ones whose count of digits ends above zero. -/
theorem value?_eq_some_iff :
    value? w = some x ↔ IsFiniteLiteral w x ∧ 0 < wrapped (w.countP Char.isDigit) := by
  rw [isFiniteLiteral_iff, value?, Option.ite_none_right_eq_some, and_comm]
  refine and_congr_right fun h => ?_
  have hnumeral := (isFiniteLiteral_iff.2 h).toIsNumeral
  have hchars : w.all (fun c => c.isDigit || c == '.') = true := (isNumeral_iff.1 hnumeral).1
  have hpoint : Int32.ofNat (w.count '.') ≤ 1 := by
    rcases Nat.le_one_iff_eq_zero_or_eq_one.1 hnumeral.point with h | h <;> rw [h] <;> decide
  rw [← toInt_ofNat_eq]
  simp [isLiteral, hchars, hpoint, Int32.lt_iff_toInt_lt]

theorem value?_eq_none_iff :
    value? w = none ↔ ∀ x, IsFiniteLiteral w x → wrapped (w.countP Char.isDigit) ≤ 0 := by
  simp only [Option.eq_none_iff_forall_ne_some, ne_eq, value?_eq_some_iff, not_and, Int.not_lt]

/-- **Below `2^31` digits** all finite literals are literals. -/
theorem value?_eq_some_iff_of_few (few : w.countP Char.isDigit < 2147483648) :
    value? w = some x ↔ IsFiniteLiteral w x := by
  rw [value?_eq_some_iff]
  exact ⟨And.left, fun h => ⟨h, wrapped_pos h.toIsNumeral few⟩⟩

/-- Below `2^31` characters there are as few digits. -/
theorem value?_eq_some_iff_of_short (short : w.length < 2147483648) :
    value? w = some x ↔ IsFiniteLiteral w x :=
  value?_eq_some_iff_of_few (Nat.lt_of_le_of_lt List.countP_le_length short)

end Literal

end PocketCalculator
