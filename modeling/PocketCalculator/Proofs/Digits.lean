import PocketCalculator.Number.Decimal
import Mathlib.Algebra.Field.Rat
import Mathlib.Data.List.DropRight
import Mathlib.Tactic.FieldSimp

/-!
# Decimal digits

Runs of digits as numbers: joined, with zeros in front or behind, and with a point between them.

* `digitsValue_append`: the value of two runs.
* `head?_decimalDigits`: only zero is written with a zero in front.
* `digitsValue_lastDigits`: the last digits of a number, zeros included.
* `Decimal.value`, `Decimal.ofText?_whole`, `Decimal.ofText?_point`: the number that digits stand
  for, without a point and with one.
-/

namespace PocketCalculator

/-- All characters are digits. -/
def AllDigits (ds : List Char) : Prop := ∀ c ∈ ds, c.isDigit = true

theorem allDigits_append {a b : List Char} (ha : AllDigits a) (hb : AllDigits b) :
    AllDigits (a ++ b) := by
  intro c hc
  rcases List.mem_append.1 hc with hc | hc
  · exact ha c hc
  · exact hb c hc

theorem AllDigits.subset {a b : List Char} (hb : AllDigits b) (h : a ⊆ b) : AllDigits a :=
  fun c hc => hb c (h hc)

theorem allDigits_zeros (k : Nat) : AllDigits (List.replicate k '0') := by
  intro c hc
  rw [List.eq_of_mem_replicate hc]
  decide

theorem allDigits_decimalDigits (n : Nat) : AllDigits (decimalDigits n) :=
  fun _ hc => Nat.isDigit_of_mem_toDigits (by decide) (by decide) hc

theorem decimalDigits_ne_nil (n : Nat) : decimalDigits n ≠ [] := Nat.toDigits_ne_nil

theorem length_decimalDigits {places n : Nat} (hplaces : 0 < places) (h : n < 10 ^ places) :
    (decimalDigits n).length ≤ places :=
  (Nat.length_toDigits_le_iff (by decide) hplaces).2 h

/-! ### Values -/

theorem digitsValue_append (a b : List Char) :
    digitsValue (a ++ b) = digitsValue a * 10 ^ b.length + digitsValue b := by
  unfold digitsValue
  rw [Nat.ofDigitChars_append, Nat.ofDigitChars_eq_ofDigitChars_zero, Nat.mul_comm]

theorem digitsValue_zeros (k : Nat) : digitsValue (List.replicate k '0') = 0 := by
  unfold digitsValue
  rw [Nat.ofDigitChars_replicate_zero, Nat.mul_zero]

/-- **Only zero** is written with a zero in front. -/
theorem head?_decimalDigits {n : Nat} (h : (decimalDigits n).head? = some '0') : n = 0 := by
  induction n using Nat.strongRecOn with
  | ind n ih =>
    unfold decimalDigits at h
    by_cases hn : n < 10
    · rw [Nat.toDigits_of_lt_base hn, List.head?_singleton, Option.some_inj,
        Nat.digitChar_eq_zero] at h
      exact h
    · rw [Nat.toDigits_of_base_le (by decide) (Nat.not_lt.1 hn), List.head?_append] at h
      have hfront : (Nat.toDigits 10 (n / 10)).head? = some '0' := by
        cases hcs : Nat.toDigits 10 (n / 10) with
        | nil => exact absurd hcs Nat.toDigits_ne_nil
        | cons c rest =>
          rw [hcs] at h
          exact h
      have hzero := ih (n / 10) (by omega) hfront
      omega

/-! ### The last digits -/

section

variable {places : Nat} (hplaces : 0 < places) (n : Nat)

include hplaces

theorem length_lastDigits : (lastDigits places n).length = places := by
  have hlength := length_decimalDigits hplaces (Nat.mod_lt n (Nat.pow_pos (by decide)))
  unfold lastDigits
  rw [List.length_leftpad]
  exact Nat.max_eq_left hlength

omit hplaces in
theorem allDigits_lastDigits : AllDigits (lastDigits places n) :=
  allDigits_append (allDigits_zeros _) (allDigits_decimalDigits _)

omit hplaces in
/-- **The last digits** are the remainder. -/
theorem digitsValue_lastDigits : digitsValue (lastDigits places n) = n % 10 ^ places := by
  unfold lastDigits List.leftpad
  rw [digitsValue_append, digitsValue_zeros, Nat.zero_mul, Nat.zero_add, digitsValue_decimalDigits]
  rfl

/-- A number is its first digits and its last ones. -/
theorem digitsValue_divide :
    digitsValue (decimalDigits (n / Nat.pow 10 places) ++ lastDigits places n) = n := by
  rw [digitsValue_append, length_lastDigits hplaces, digitsValue_lastDigits,
    digitsValue_decimalDigits]
  exact Nat.div_add_mod' n (10 ^ places)

end

/-! ### Digits with a point -/

namespace Decimal

/-- **The number of a decimal.** -/
def value (x : Decimal) : ℚ := x.steps * 10 ^ x.grid

variable {whole fraction : List Char}

theorem filter_isDigit (h : AllDigits whole) : whole.filter Char.isDigit = whole :=
  List.filter_eq_self.2 h

theorem not_point_of_isDigit {c : Char} (h : c.isDigit = true) : (c != '.') = true := by
  rw [bne_iff_ne]
  rintro rfl
  cases h

theorem count_point (h : AllDigits whole) : whole.count '.' = 0 := by
  rw [List.count_eq_zero]
  intro hmem
  cases h '.' hmem

/-- **Digits without a point.** -/
theorem ofText?_whole (h : AllDigits whole) (hne : whole ≠ []) :
    ofText? whole = some ⟨digitsValue whole, 0⟩ := by
  have hall : whole.all (fun c => c.isDigit || c == '.') = true :=
    List.all_eq_true.2 fun c hc => by rw [h c hc, Bool.true_or]
  have hdrop : whole.dropWhile (· != '.') = [] :=
    List.dropWhile_eq_nil_iff.2 fun c hc => not_point_of_isDigit (h c hc)
  unfold ofText?
  simp only [filter_isDigit h, hall, count_point h, hdrop, List.isEmpty_eq_false_iff.2 hne]
  rfl

/-- **Digits with a point.** -/
theorem ofText?_point (h : AllDigits whole) (hne : whole ≠ []) (hf : AllDigits fraction) :
    ofText? (whole ++ '.' :: fraction) =
      some ⟨digitsValue (whole ++ fraction), -(fraction.length : ℤ)⟩ := by
  have hall : (whole ++ '.' :: fraction).all (fun c => c.isDigit || c == '.') = true := by
    rw [List.all_eq_true]
    intro c hc
    rcases List.mem_append.1 hc with hc | hc
    · rw [h c hc, Bool.true_or]
    · rcases List.mem_cons.1 hc with rfl | hc
      · rfl
      · rw [hf c hc, Bool.true_or]
  have hfilter : (whole ++ '.' :: fraction).filter Char.isDigit = whole ++ fraction := by
    rw [List.filter_append, List.filter_cons_of_neg (by decide), filter_isDigit h,
      filter_isDigit hf]
  have hcount : (whole ++ '.' :: fraction).count '.' = 1 := by
    rw [List.count_append, List.count_cons_self, count_point h, count_point hf]
  have hdrop : (whole ++ '.' :: fraction).dropWhile (· != '.') = '.' :: fraction := by
    rw [List.dropWhile_append_of_pos fun c hc => not_point_of_isDigit (h c hc)]
    rfl
  have hsome : (whole ++ fraction).isEmpty = false :=
    List.isEmpty_eq_false_iff.2 (List.append_ne_nil_of_left_ne_nil hne fraction)
  unfold ofText?
  simp only [hall, hfilter, hcount, hdrop, hsome]
  rfl

/-- The number of digits with a point is the whole part and the fraction. -/
theorem value_point (whole fraction : List Char) :
    value ⟨digitsValue (whole ++ fraction), -(fraction.length : ℤ)⟩ =
      digitsValue whole + digitsValue fraction / 10 ^ fraction.length := by
  unfold value
  rw [digitsValue_append, zpow_neg, zpow_natCast]
  push_cast
  field_simp

end Decimal

end PocketCalculator
