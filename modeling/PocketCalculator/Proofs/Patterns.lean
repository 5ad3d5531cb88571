import PocketCalculator.Number.Binary
import Mathlib.Data.Rat.Cast.Lemmas
import Mathlib.Order.Compare

/-!
# The number a pattern stands for

The core library says what a `Float` is by unpacking its pattern: it has a sign, and a mantissa that
is multiplied by a power of two. Here the magnitude is read off the unpacked form, and with it the
exact value and the order of numbers.

* `Binary.unpacked`: the unpacked form of a number, by its magnitude.
* `Binary.value`, `Binary.value_eq`: the exact value, in units.
* `Binary.isFinite_iff`: finite numbers are those below `infinite`.
* `Binary.le_iff`, `Binary.lt_iff`: a number and a positive bound are ordered as their magnitudes.
-/

namespace PocketCalculator.Binary

open Float.Model Float.Model.UnpackedFloat

theorem leadingBit_eq : leadingBit = 4503599627370496 := rfl

theorem infinite_eq : infinite = 9218868437227405312 := rfl

theorem signBit_eq : signBit = 9223372036854775808 := rfl

/-! ### The parts of a pattern -/

theorem toNat_unpackExponent (b : BitVec 64) :
    (@unpackExponent .binary64 b).toNat = b.toNat / 2 ^ 52 % 2 ^ 11 := by
  simp [unpackExponent, BitVec.extractLsb, BitVec.extractLsb'_toNat, Nat.shiftRight_eq_div_pow]

theorem toNat_unpackMantissa (b : BitVec 64) :
    (@unpackMantissa .binary64 b).toNat = b.toNat % 2 ^ 52 := by
  simp [unpackMantissa, BitVec.extractLsb, BitVec.extractLsb'_toNat, Nat.shiftRight_eq_div_pow]

theorem toNat_unpackSign (b : BitVec 64) :
    (@unpackSign .binary64 b).toNat = b.toNat / 2 ^ 63 := by
  have hb := b.isLt
  unfold unpackSign
  simp only [BitVec.extractLsb, BitVec.extractLsb'_toNat, Nat.shiftRight_eq_div_pow,
    BitVec.toNat_cast]
  omega

/-- The sign of a number. -/
def sign (x : Float) : Sign := if isNegative x then .negative else .positive

theorem ofBitVec_unpackSign (x : Float) :
    Sign.ofBitVec (@unpackSign .binary64 x.toBits.toBitVec) = sign x := by
  have hb : x.toBits.toNat < 18446744073709551616 := x.toBits.toNat_lt
  have hs := toNat_unpackSign x.toBits.toBitVec
  rw [UInt64.toNat_toBitVec] at hs
  have hzero : @unpackSign .binary64 x.toBits.toBitVec = 0#1 ↔
      ¬ signBit ≤ x.toBits.toNat := by
    rw [← BitVec.toNat_inj, hs, signBit_eq]
    show _ = 0 ↔ _
    omega
  unfold Sign.ofBitVec sign isNegative
  by_cases h : signBit ≤ x.toBits.toNat
  · rw [if_neg (by rw [hzero]; exact not_not_intro h), if_pos (decide_eq_true h)]
  · rw [if_pos (hzero.2 h), if_neg (by rw [decide_eq_false h]; decide)]

/-! ### The tests of the unpacking -/

section

variable (x : Float)

theorem toNat_exponent : (@unpackExponent .binary64 x.toBits.toBitVec).toNat =
    magnitude x / leadingBit := by
  have hb : x.toBits.toNat < 18446744073709551616 := x.toBits.toNat_lt
  have hp : magnitude x = x.toBits.toNat % 9223372036854775808 := rfl
  rw [toNat_unpackExponent, UInt64.toNat_toBitVec, hp, leadingBit_eq]
  omega

theorem toNat_mantissa : (@unpackMantissa .binary64 x.toBits.toBitVec).toNat =
    magnitude x % leadingBit := by
  have hp : magnitude x = x.toBits.toNat % 9223372036854775808 := rfl
  rw [toNat_unpackMantissa, UInt64.toNat_toBitVec, hp, leadingBit_eq]
  omega

theorem magnitude_lt : magnitude x < signBit := Nat.mod_lt _ (by decide)

theorem exponent_eq_last_iff :
    @unpackExponent .binary64 x.toBits.toBitVec = -1#11 ↔ infinite ≤ magnitude x := by
  have hp := magnitude_lt x
  rw [← BitVec.toNat_inj, toNat_exponent, infinite_eq, leadingBit_eq]
  rw [signBit_eq] at hp
  show _ = 2047 ↔ _
  omega

theorem exponent_eq_zero_iff :
    @unpackExponent .binary64 x.toBits.toBitVec = 0#11 ↔ magnitude x < leadingBit := by
  rw [← BitVec.toNat_inj, toNat_exponent, leadingBit_eq]
  show _ = 0 ↔ _
  omega

theorem mantissa_eq_zero_iff :
    @unpackMantissa .binary64 x.toBits.toBitVec = 0#52 ↔ magnitude x % leadingBit = 0 := by
  rw [← BitVec.toNat_inj, toNat_mantissa]
  rfl

/-- The mantissa with its leading bit. -/
theorem toNat_whole : (1#1 ++ @unpackMantissa .binary64 x.toBits.toBitVec).toNat =
    leadingBit + magnitude x % leadingBit := by
  rw [BitVec.toNat_append, ← Nat.shiftLeft_add_eq_or_of_lt (BitVec.isLt _), toNat_mantissa]
  rfl

end

/-! ### The unpacked form -/

/-- **What a pattern of magnitude `p` is unpacked to.** A finite number other than zero has a
mantissa of 53 bits and an exponent, and the mantissa is shorter for the least exponent only. -/
inductive Unpacked (p : Nat) (s : Sign) : UnpackedFloat → Prop
  | notANumber (above : infinite < p) : Unpacked p s .notANumber
  | infinity (equal : p = infinite) : Unpacked p s (.infinity s)
  | zero (equal : p = 0) : Unpacked p s (.zero s)
  | finite (m k : Nat) (e : ℤ) (positive : 0 < m) (exponent : e = k - (1074 : ℕ))
      (narrow : m < 2 * leadingBit) (wide : k = 0 ∨ leadingBit ≤ m) (bound : k < 2046)
      (parts : p = k * leadingBit + m) : Unpacked p s (.finite s m e positive)

/-- **Numbers are unpacked** by their magnitude and sign. -/
theorem unpacked (x : Float) : Unpacked (magnitude x) (sign x) x.toModel.unpack := by
  have hp := magnitude_lt x
  have hbias : ((Format.exponentBias .binary64 : ℕ) : ℤ) = 1023 := rfl
  have hexponent := toNat_exponent x
  rw [signBit_eq] at hp
  rw [← ofBitVec_unpackSign x]
  show Unpacked _ _ (UnpackedFloat.unpack .binary64 x.toBits.toBitVec)
  unfold UnpackedFloat.unpack
  dsimp only
  by_cases hlast : infinite ≤ magnitude x
  · rw [if_pos ((exponent_eq_last_iff x).2 hlast)]
    rw [infinite_eq] at hlast
    by_cases hempty : magnitude x % leadingBit = 0
    · rw [if_pos ((mantissa_eq_zero_iff x).2 hempty)]
      rw [leadingBit_eq] at hempty
      exact .infinity (by rw [infinite_eq]; omega)
    · rw [if_neg (mt (mantissa_eq_zero_iff x).1 hempty)]
      rw [leadingBit_eq] at hempty
      exact .notANumber (by rw [infinite_eq]; omega)
  · rw [if_neg (mt (exponent_eq_last_iff x).1 hlast)]
    by_cases hfirst : magnitude x < leadingBit
    · rw [if_pos ((exponent_eq_zero_iff x).2 hfirst)]
      by_cases hempty : magnitude x % leadingBit = 0
      · rw [dif_pos ((mantissa_eq_zero_iff x).2 hempty)]
        exact .zero (by rwa [Nat.mod_eq_of_lt hfirst] at hempty)
      · rw [dif_neg (mt (mantissa_eq_zero_iff x).1 hempty)]
        refine .finite _ 0 _ _ ?_ ?_ (.inl rfl) (by omega) ?_
        · rw [hexponent, Nat.div_eq_of_lt hfirst]; rfl
        · rw [toNat_mantissa, Nat.mod_eq_of_lt hfirst]; omega
        · rw [toNat_mantissa, Nat.mod_eq_of_lt hfirst]; omega
    · rw [if_neg (mt (exponent_eq_zero_iff x).1 hfirst)]
      rw [infinite_eq] at hlast
      rw [leadingBit_eq] at hfirst hexponent
      refine .finite _ (magnitude x / leadingBit - 1) _ _ ?_ ?_ (.inr ?_) ?_ ?_
      · rw [leadingBit_eq]; omega
      · rw [toNat_whole, leadingBit_eq]; omega
      · rw [toNat_whole, leadingBit_eq]; omega
      · rw [leadingBit_eq]; omega
      · rw [toNat_whole, leadingBit_eq]; omega

theorem units_of_parts {m k : Nat} (narrow : m < 2 * leadingBit) (wide : k = 0 ∨ leadingBit ≤ m) :
    units (k * leadingBit + m) = m * 2 ^ k := by
  rcases wide with rfl | wide
  · rw [Nat.zero_mul, Nat.zero_add, units_of_lt narrow, Nat.pow_zero, Nat.mul_one]
  · have hk : (k * leadingBit + m) / leadingBit - 1 = k := by
      rw [leadingBit_eq] at *
      omega
    simp only [units, hk, Nat.pow_eq, Nat.add_sub_cancel_left]

/-- Every magnitude is a mantissa of 53 bits with an exponent. -/
theorem exists_parts (p : Nat) : ∃ m k, p = k * leadingBit + m ∧ m < 2 * leadingBit ∧
    (k = 0 ∨ leadingBit ≤ m) ∧ units p = m * 2 ^ k := by
  have hL := leadingBit_eq
  generalize hk : p / leadingBit - 1 = k
  obtain ⟨m, hp⟩ : ∃ m, p = k * leadingBit + m := ⟨p - k * leadingBit, by rw [hL] at *; omega⟩
  have narrow : m < 2 * leadingBit := by rw [hL] at *; omega
  have wide : k = 0 ∨ leadingBit ≤ m := by rw [hL] at *; omega
  exact ⟨m, k, hp, narrow, wide, hp ▸ units_of_parts narrow wide⟩

theorem units_eq_zero_iff {p : Nat} : units p = 0 ↔ p = 0 := by
  obtain ⟨m, k, hp, -, wide, hunits⟩ := exists_parts p
  rw [hunits, Nat.mul_eq_zero]
  constructor
  · rintro (hm | hk)
    · subst hm
      rw [leadingBit_eq] at *
      omega
    · exact absurd hk (Nat.pow_pos Nat.two_pos).ne'
  · rintro rfl
    left
    rw [leadingBit_eq] at *
    omega

/-- **Finite numbers** have magnitudes below `infinite`. -/
theorem isFinite_iff {x : Float} : x.isFinite = true ↔ magnitude x < infinite := by
  have h := unpacked x
  show x.toModel.unpack.isFinite = true ↔ _
  generalize x.toModel.unpack = u at h
  cases h with
  | notANumber above => exact ⟨fun h => (by cases h), fun h => (by omega)⟩
  | infinity equal => exact ⟨fun h => (by cases h), fun h => (by omega)⟩
  | zero equal =>
    refine iff_of_true rfl ?_
    rw [equal]; decide
  | finite m k e positive exponent narrow wide bound parts =>
    refine iff_of_true rfl ?_
    rw [parts, infinite_eq, leadingBit_eq] at *
    omega

/-! ### The exact value -/

/-- **The exact value** of a finite number. -/
def value (x : Float) : ℚ :=
  match x.toModel.unpack with
  | .finite s m e _ => (s.apply m : ℚ) * 2 ^ e
  | _ => 0

/-- A number with a sign. -/
def withSign (negative : Bool) (q : ℚ) : ℚ := if negative then -q else q

theorem two_zpow_sub (k n : ℕ) : (2 : ℚ) ^ ((k : ℤ) - n) = 2 ^ k / (Nat.pow 2 n : ℕ) := by
  rw [Nat.pow_eq, Nat.cast_pow, zpow_sub₀ two_ne_zero, zpow_natCast, zpow_natCast, Nat.cast_ofNat]

theorem unitsInOne_eq_pow : ∃ e, unitsInOne = 2 ^ e := by
  unfold unitsInOne
  generalize 1074 = e
  exact ⟨e, rfl⟩

theorem unitsInOne_pos : 0 < unitsInOne := by
  obtain ⟨e, he⟩ := unitsInOne_eq_pow
  rw [he]
  exact Nat.pow_pos Nat.two_pos

/-- **The value in units**: a finite number is its magnitude's whole number of units. -/
theorem value_eq {x : Float} (hx : x.isFinite = true) :
    value x = withSign (isNegative x) (units (magnitude x) / unitsInOne) := by
  rw [isFinite_iff] at hx
  have h := unpacked x
  unfold value
  unfold sign at h
  generalize x.toModel.unpack = u at h
  cases h with
  | notANumber above => omega
  | infinity equal => omega
  | zero equal =>
    rw [equal, units_of_lt (by decide), Nat.cast_zero, zero_div]
    cases isNegative x <;> rfl
  | finite m k e positive exponent narrow wide bound parts =>
    have hpower : (2 : ℚ) ^ e = 2 ^ k / unitsInOne := by
      rw [exponent]
      unfold unitsInOne
      generalize 1074 = n
      exact two_zpow_sub k n
    rw [parts, units_of_parts narrow wide, Nat.cast_mul, Nat.cast_pow, Nat.cast_ofNat,
      mul_div_assoc, ← hpower]
    cases isNegative x with
    | false => rfl
    | true =>
      show ((-(m : ℤ) : ℤ) : ℚ) * 2 ^ e = -((m : ℚ) * 2 ^ e)
      rw [Int.cast_neg, Int.cast_natCast, neg_mul]

/-! ### The order -/

/-- Mantissas and exponents are ordered as the magnitudes they make up. -/
theorem compare_parts {m k m' k' : Nat} (narrow : m < 2 * leadingBit) (narrow' : m' < 2 * leadingBit)
    (wide : k = 0 ∨ leadingBit ≤ m) (wide' : k' = 0 ∨ leadingBit ≤ m') :
    (compare ((k : ℤ) - (1074 : ℕ)) ((k' : ℤ) - (1074 : ℕ))).then (compare m m') =
      compare (k * leadingBit + m) (k' * leadingBit + m') := by
  rw [leadingBit_eq] at *
  rcases Nat.lt_trichotomy k k' with h | rfl | h
  · rw [compare_lt_iff_lt.2 (by omega : (k : ℤ) - (1074 : ℕ) < k' - (1074 : ℕ))]
    exact (compare_lt_iff_lt.2 (by omega)).symm
  · rw [compare_eq_iff_eq.2 rfl]
    show compare m m' = _
    rcases Nat.lt_trichotomy m m' with h | rfl | h
    · rw [compare_lt_iff_lt.2 h, compare_lt_iff_lt.2 (by omega)]
    · rw [compare_eq_iff_eq.2 rfl, compare_eq_iff_eq.2 rfl]
    · rw [compare_gt_iff_gt.2 h, compare_gt_iff_gt.2 (by omega)]
  · rw [compare_gt_iff_gt.2 (by omega : (k' : ℤ) - (1074 : ℕ) < k - (1074 : ℕ))]
    exact (compare_gt_iff_gt.2 (by omega)).symm

theorem le_iff_unpack {x y : Float} : x ≤ y ↔ x.toModel.unpack.le y.toModel.unpack = true := by
  show x.le y = true ↔ _
  rw [Float.le, decide_eq_true_iff]
  rfl

theorem lt_iff_unpack {x y : Float} : x < y ↔ x.toModel.unpack.lt y.toModel.unpack = true := by
  show x.lt y = true ↔ _
  rw [Float.lt, decide_eq_true_iff]
  rfl

section

variable {c x : Float}

/-- A positive finite number is unpacked to a mantissa and an exponent. -/
theorem unpacked_of_pos (negative : isNegative c = false) (positive : 0 < magnitude c)
    (finite : magnitude c < infinite) : ∃ (m k : ℕ) (hm : 0 < m),
      c.toModel.unpack = .finite .positive m (k - (1074 : ℕ)) hm ∧ m < 2 * leadingBit ∧
        (k = 0 ∨ leadingBit ≤ m) ∧ magnitude c = k * leadingBit + m := by
  have h := unpacked c
  unfold sign at h
  rw [negative] at h
  generalize c.toModel.unpack = u at h ⊢
  cases h with
  | notANumber above => omega
  | infinity equal => omega
  | zero equal => omega
  | finite m k e hm exponent narrow wide bound parts =>
    subst exponent
    exact ⟨m, k, hm, rfl, narrow, wide, parts⟩

/-- **At least a positive number** is what has no sign and at least its magnitude, up to infinity. -/
theorem le_iff (negative : isNegative c = false) (positive : 0 < magnitude c)
    (finite : magnitude c < infinite) :
    c ≤ x ↔ isNegative x = false ∧ magnitude c ≤ magnitude x ∧ magnitude x ≤ infinite := by
  obtain ⟨m, k, hm, hc, narrow, wide, parts⟩ := unpacked_of_pos negative positive finite
  have h := unpacked x
  rw [le_iff_unpack, hc]
  unfold sign at h
  generalize x.toModel.unpack = u at h
  cases h with
  | notANumber above => exact iff_of_false (by rintro ⟨⟩) (by omega)
  | infinity equal =>
    cases isNegative x with
    | false => exact iff_of_true rfl ⟨rfl, by omega⟩
    | true => exact iff_of_false (by rintro ⟨⟩) (by rintro ⟨⟨⟩, -⟩)
  | zero equal => exact iff_of_false (by rintro ⟨⟩) (by omega)
  | finite m' k' e hm' exponent narrow' wide' bound parts' =>
    cases isNegative x with
    | true => exact iff_of_false (by rintro ⟨⟩) (by rintro ⟨⟨⟩, -⟩)
    | false =>
      have horder : UnpackedFloat.le (.finite .positive m (k - (1074 : ℕ)) hm)
          (.finite .positive m' e hm') = (compare (magnitude c) (magnitude x)).isLE := by
        rw [exponent, parts, parts', ← compare_parts narrow narrow' wide wide']
        rfl
      show UnpackedFloat.le _ (.finite .positive m' e hm') = true ↔ _
      rw [horder, Nat.isLE_compare]
      refine ⟨fun h => ⟨rfl, h, ?_⟩, fun h => h.2.1⟩
      rw [parts', infinite_eq, leadingBit_eq] at *
      omega

/-- **Below a positive number** is what has a sign, or a smaller magnitude. -/
theorem lt_iff (negative : isNegative c = false) (positive : 0 < magnitude c)
    (finite : magnitude c < infinite) :
    x < c ↔ (isNegative x = true ∧ magnitude x ≤ infinite) ∨ magnitude x < magnitude c := by
  obtain ⟨m, k, hm, hc, narrow, wide, parts⟩ := unpacked_of_pos negative positive finite
  have h := unpacked x
  rw [lt_iff_unpack, hc]
  unfold sign at h
  generalize x.toModel.unpack = u at h
  cases h with
  | notANumber above => exact iff_of_false (by rintro ⟨⟩) (by omega)
  | infinity equal =>
    cases isNegative x with
    | false => exact iff_of_false (by rintro ⟨⟩) (by rintro (⟨⟨⟩, -⟩ | h); omega)
    | true => exact iff_of_true rfl (.inl ⟨rfl, by omega⟩)
  | zero equal => exact iff_of_true rfl (.inr (by omega))
  | finite m' k' e hm' exponent narrow' wide' bound parts' =>
    cases isNegative x with
    | true =>
      refine iff_of_true rfl (.inl ⟨rfl, ?_⟩)
      rw [parts', infinite_eq, leadingBit_eq] at *
      omega
    | false =>
      have horder : UnpackedFloat.lt (.finite .positive m' e hm')
          (.finite .positive m (k - (1074 : ℕ)) hm) =
            (some (compare (magnitude x) (magnitude c)) == some .lt) := by
        rw [exponent, parts, parts', ← compare_parts narrow' narrow wide' wide]
        rfl
      show UnpackedFloat.lt (.finite .positive m' e hm') _ = true ↔ _
      rw [horder, beq_iff_eq, Option.some_inj, compare_lt_iff_lt]
      exact ⟨.inr, fun h => h.resolve_left (by rintro ⟨⟨⟩, -⟩)⟩

end

end PocketCalculator.Binary
