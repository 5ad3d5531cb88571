import PocketCalculator.Proofs.Grouping
import PocketCalculator.Proofs.ReadBack

/-!
# The number nearest to a decimal

Decimals are rounded on the grid of the magnitudes, which is finer for small numbers. Below the number
found the grid may get finer, but the power of two there is on both grids, so no number is nearer. What
is rounded beyond the greatest finite number is no number at all.

* `Binary.units_strictMono`: magnitudes are ordered as their units.
* `Binary.nearest_parts`: a quotient is rounded to a whole number of steps of its own exponent.
* `Binary.nearest_near`: no magnitude is nearer, and of two that are equally near it is the even one.
* `Binary.nearest_lt_infinite_iff`: the quotients that are rounded to a finite number.
* `IsRounded`, `IsRounded.unique`: the finite number nearest to a rational.
* `Decimal.toFloat?_eq_some_iff`: decimals are rounded to it, up to the bound.
-/

namespace PocketCalculator

namespace Binary

/-! ### The grid -/

/-- Units by a mantissa and an exponent, also where the mantissa has just overflowed. -/
theorem units_of_parts_le {m k : Nat} (narrow : m ≤ 2 * leadingBit) (wide : k = 0 ∨ leadingBit ≤ m) :
    units (k * leadingBit + m) = m * 2 ^ k := by
  rcases Nat.lt_or_eq_of_le narrow with hlt | rfl
  · exact units_of_parts hlt wide
  · have hL : 0 < leadingBit := by decide
    have hparts : k * leadingBit + 2 * leadingBit = (k + 1) * leadingBit + leadingBit := by ring
    rw [hparts, units_of_parts (by omega) (.inr le_rfl), Nat.pow_succ]
    ring

/-- **Magnitudes are ordered** as their units. -/
theorem units_strictMono : StrictMono units := by
  refine strictMono_nat_of_lt_succ fun p => ?_
  obtain ⟨m, k, rfl, narrow, wide, hunits⟩ := exists_parts p
  rw [hunits, Nat.add_assoc, units_of_parts_le narrow (wide.imp_right Nat.le_succ_of_le)]
  exact Nat.mul_lt_mul_of_pos_right (Nat.lt_succ_self m) (Nat.pow_pos Nat.two_pos)

section

variable {n d : Nat} (hd : 0 < d)

include hd

theorem scaled_bounds : let k := (n * unitsInOne / d).log2 - 52
    (k = 0 ∨ leadingBit * (d * 2 ^ k) ≤ n * unitsInOne) ∧
      n * unitsInOne < 2 * leadingBit * (d * 2 ^ k) := by
  generalize n * unitsInOne = s
  intro k
  have hupper : s / d < 2 ^ (53 + k) := by
    refine Nat.lt_of_lt_of_le Nat.lt_log2_self (Nat.pow_le_pow_right Nat.two_pos ?_)
    omega
  constructor
  · by_cases hk : k = 0
    · exact .inl hk
    · right
      have hne : s / d ≠ 0 := by
        intro hzero
        have hk' : k = (s / d).log2 - 52 := rfl
        rw [hzero, Nat.log2_zero] at hk'
        exact hk hk'
      have hlower : 2 ^ (52 + k) ≤ s / d := by
        have hlog : 52 + k = (s / d).log2 := by omega
        rw [hlog]
        exact Nat.log2_self_le hne
      calc leadingBit * (d * 2 ^ k) = 2 ^ (52 + k) * d := by
            rw [Nat.pow_add, show leadingBit = 2 ^ 52 from rfl]; ring
        _ ≤ s := (Nat.le_div_iff_mul_le hd).1 hlower
  · calc s < 2 ^ (53 + k) * d := (Nat.div_lt_iff_lt_mul hd).1 hupper
      _ = 2 * leadingBit * (d * 2 ^ k) := by
        rw [Nat.pow_add, show 2 * leadingBit = 2 ^ 53 from rfl]; ring

/-- **The parts of the nearest magnitude**: a whole number of steps of `2^k` units. The exponent `k` is
that of the quotient, and the steps are the nearest to it. -/
theorem nearest_parts (n : Nat) : ∃ k r, nearest n d = k * leadingBit + r ∧
    r = roundDiv (n * unitsInOne) (d * 2 ^ k) ∧ r ≤ 2 * leadingBit ∧ (k = 0 ∨ leadingBit ≤ r) ∧
    (k = 0 ∨ leadingBit * (d * 2 ^ k) ≤ n * unitsInOne) ∧
    n * unitsInOne < 2 * leadingBit * (d * 2 ^ k) := by
  obtain ⟨hlower, hupper⟩ := scaled_bounds (n := n) hd
  have hstep (k : Nat) : 0 < d * 2 ^ k := Nat.mul_pos hd (Nat.pow_pos Nat.two_pos)
  exact ⟨_, _, rfl, rfl, roundDiv_le_of_lt (hstep _) hupper,
    hlower.imp_right (le_roundDiv_of_le (hstep _)), hlower, hupper⟩

end

/-! ### No magnitude is nearer -/

section

variable {x : ℚ} {k r : Nat}

theorem abs_sub_steps (x : ℚ) (z : ℤ) (k : Nat) : |x - z * 2 ^ k| = |x / 2 ^ k - z| * 2 ^ k := by
  have hpos : (0 : ℚ) < 2 ^ k := pow_pos two_pos k
  have hscaled : x - z * 2 ^ k = (x / 2 ^ k - z) * 2 ^ k := by field_simp
  rw [hscaled, abs_mul, abs_of_pos hpos]

/-- On the grid of the steps nothing is nearer. -/
theorem steps_near (h : IsNearest (x / 2 ^ k) r) (z : ℤ) :
    |x - r * 2 ^ k| ≤ |x - z * 2 ^ k| ∧
      (z ≠ r → |x - z * 2 ^ k| = |x - r * 2 ^ k| → Even r) := by
  have hpos : (0 : ℚ) < 2 ^ k := pow_pos two_pos k
  have hr : |x - r * 2 ^ k| = |x / 2 ^ k - r| * 2 ^ k := abs_sub_steps x r k
  rw [hr, abs_sub_steps]
  refine ⟨mul_le_mul_of_nonneg_right (h.le z) hpos.le, fun hne tie => ?_⟩
  exact (Int.even_coe_nat r).1 (h.even_of_tie hne (mul_right_cancel₀ hpos.ne' tie))

/-- A magnitude of a smaller exponent has fewer units than any mantissa of a greater one. -/
theorem units_lt_of_exponent_lt {m k' : Nat} (narrow : m < 2 * leadingBit) (hk : k' < k) :
    m * 2 ^ k' < leadingBit * 2 ^ k := by
  calc m * 2 ^ k' < 2 * leadingBit * 2 ^ k' :=
        Nat.mul_lt_mul_of_pos_right narrow (Nat.pow_pos Nat.two_pos)
    _ = leadingBit * 2 ^ (k' + 1) := by rw [Nat.pow_succ]; ring
    _ ≤ leadingBit * 2 ^ k := Nat.mul_le_mul_left _ (Nat.pow_le_pow_right Nat.two_pos hk)

/-- **Off the grid of the steps** nothing is nearer either, for a finer grid ends below them. -/
theorem parts_near (h : IsNearest (x / 2 ^ k) r) (lower : k = 0 ∨ (leadingBit * 2 ^ k : ℚ) ≤ x)
    (p : Nat) : |x - (r * 2 ^ k : ℕ)| ≤ |x - units p| ∧
      (units p ≠ r * 2 ^ k → |x - units p| = |x - (r * 2 ^ k : ℕ)| → Even r) := by
  obtain ⟨m, k', -, narrow, -, hunits⟩ := exists_parts p
  push_cast
  by_cases hk : k ≤ k'
  · -- this is a whole number of steps
    obtain ⟨z, hz⟩ : ∃ z : Nat, units p = z * 2 ^ k :=
      ⟨m * 2 ^ (k' - k), by rw [hunits, Nat.mul_assoc, ← Nat.pow_add, Nat.sub_add_cancel hk]⟩
    obtain ⟨hnear, heven⟩ := steps_near h z
    rw [Int.cast_natCast] at hnear heven
    rw [hz]
    push_cast
    refine ⟨hnear, fun hne tie => heven (fun heq => hne ?_) tie⟩
    rw [Int.ofNat_inj.1 heq]
  · -- this is below the least step of the exponent, which is not nearer
    have hlower : (leadingBit * 2 ^ k : ℚ) ≤ x := lower.resolve_left (by omega)
    have hbelow : (units p : ℚ) < leadingBit * 2 ^ k := by
      rw [hunits]
      exact_mod_cast units_lt_of_exponent_lt narrow (Nat.not_le.1 hk)
    have hleast := (steps_near h leadingBit).1
    rw [Int.cast_natCast, abs_of_nonneg (sub_nonneg.2 hlower)] at hleast
    rw [abs_of_pos (sub_pos.2 (hbelow.trans_le hlower))]
    exact ⟨by linarith, fun _ tie => by linarith⟩

end

section

variable {n d : Nat} (hd : 0 < d)

include hd

/-- **No magnitude is nearer** to the quotient, in units, and of two that are equally near it is the
even one. -/
theorem nearest_near (n p : Nat) :
    |(n * unitsInOne / d : ℚ) - units (nearest n d)| ≤ |(n * unitsInOne / d : ℚ) - units p| ∧
      (p ≠ nearest n d →
        |(n * unitsInOne / d : ℚ) - units p| = |(n * unitsInOne / d : ℚ) - units (nearest n d)| →
        Even (nearest n d)) := by
  obtain ⟨k, r, hnearest, hr, narrow, wide, hlower, -⟩ := nearest_parts hd n
  have hdQ : (0 : ℚ) < d := Nat.cast_pos.2 hd
  have hpos : (0 : ℚ) < 2 ^ k := pow_pos two_pos k
  have hsteps : IsNearest ((n * unitsInOne / d : ℚ) / 2 ^ k) r := by
    have h := roundDiv_near (n * unitsInOne) (Nat.mul_pos hd (Nat.pow_pos Nat.two_pos (n := k)))
    rw [← hr] at h
    push_cast at h
    rwa [← div_div] at h
  have hlower' : k = 0 ∨ (leadingBit * 2 ^ k : ℚ) ≤ n * unitsInOne / d := by
    refine hlower.imp_right fun h => (le_div_iff₀ hdQ).2 ?_
    calc (leadingBit * 2 ^ k : ℚ) * d = (leadingBit * (d * 2 ^ k) : ℕ) := by push_cast; ring
      _ ≤ (n * unitsInOne : ℕ) := Nat.cast_le.2 h
      _ = n * unitsInOne := by push_cast; ring
  obtain ⟨hnear, heven⟩ := parts_near hsteps hlower' p
  have hunits : units (nearest n d) = r * 2 ^ k := by
    rw [hnearest]
    exact units_of_parts_le narrow wide
  rw [hunits]
  refine ⟨hnear, fun hne tie => ?_⟩
  have hne' : units p ≠ r * 2 ^ k := fun h => hne (units_strictMono.injective (h.trans hunits.symm))
  have hleading : Even leadingBit := by decide
  rw [hnearest]
  exact (hleading.mul_left k).add (heven hne' tie)

/-- **The bound of an exponent**: quotients below the middle of the last magnitude of the exponent `e`
and the first one behind it are rounded to a magnitude of this exponent or a smaller one. -/
theorem nearest_lt_iff (n e : Nat) : nearest n d < (e + 2) * leadingBit ↔
    2 * (n * unitsInOne) + d * 2 ^ e < 2 * (2 * leadingBit * (d * 2 ^ e)) := by
  obtain ⟨k, r, hnearest, hr, narrow, wide, hlower, hupper⟩ := nearest_parts hd n
  have hL : 0 < leadingBit := by decide
  have hdouble {i j : Nat} (hij : i < j) : 2 * (d * 2 ^ i) ≤ d * 2 ^ j := by
    calc 2 * (d * 2 ^ i) = d * 2 ^ (i + 1) := by rw [Nat.pow_succ]; ring
      _ ≤ d * 2 ^ j := Nat.mul_le_mul_left d (Nat.pow_le_pow_right Nat.two_pos hij)
  rw [hnearest]
  rcases Nat.lt_trichotomy k e with hk | rfl | hk
  · refine iff_of_true ?_ ?_
    · have hparts := Nat.mul_le_mul_right leadingBit (Nat.succ_le_of_lt hk)
      rw [Nat.succ_mul] at hparts
      rw [Nat.add_mul]
      omega
    · have hstep : 0 < d * 2 ^ e := Nat.mul_pos hd (Nat.pow_pos Nat.two_pos)
      have hle := Nat.mul_le_mul_left leadingBit (hdouble hk)
      have hone := Nat.mul_le_mul_right (d * 2 ^ e) hL
      rw [Nat.mul_left_comm] at hle
      rw [Nat.mul_assoc] at hupper ⊢
      omega
  · have heven : Even (2 * leadingBit) := even_two_mul leadingBit
    rw [← roundDiv_lt_iff (Nat.mul_pos hd (Nat.pow_pos Nat.two_pos)) heven, ← hr, Nat.add_mul]
    exact Nat.add_lt_add_iff_left
  · refine iff_of_false ?_ ?_
    · have hparts := Nat.mul_le_mul_right leadingBit (Nat.succ_le_of_lt hk)
      have hfull := wide.resolve_left (by omega)
      rw [Nat.succ_mul] at hparts
      rw [Nat.add_mul]
      omega
    · have hle := Nat.mul_le_mul_left leadingBit (hdouble hk)
      have hlow := hlower.resolve_left (by omega)
      rw [Nat.mul_left_comm] at hle
      rw [Nat.mul_assoc]
      omega

/-- The middle behind the last magnitude of an exponent, where one is `2^a` units. -/
theorem below_middle_iff (n : Nat) {a b c e : Nat} (hc : c = b + 54) (he : e = a + b + 1) :
    2 * (n * 2 ^ a) + d * 2 ^ e < 2 * (2 * leadingBit * (d * 2 ^ e)) ↔
      (n / d : ℚ) < 2 ^ c - 2 ^ b := by
  subst hc he
  have hdQ : (0 : ℚ) < d := Nat.cast_pos.2 hd
  have hscale : (0 : ℚ) < 2 * 2 ^ a := mul_pos two_pos (pow_pos two_pos a)
  have hmiddle : (2 * (2 * leadingBit * (d * 2 ^ (a + b + 1))) : ℚ) =
      d * 2 ^ (a + b + 1) + 2 * 2 ^ a * ((2 ^ (b + 54) - 2 ^ b) * d) := by
    rw [leadingBit_eq]
    push_cast
    ring
  have hleft : (2 * (n * 2 ^ a) : ℚ) = 2 * 2 ^ a * n := by ring
  rw [div_lt_iff₀ hdQ, ← mul_lt_mul_iff_right₀ hscale, ← Nat.cast_lt (α := ℚ)]
  push_cast
  rw [hmiddle, hleft, add_comm, add_lt_add_iff_left]

/-- **Quotients below `2^1024 - 2^970`** are rounded to a finite number. -/
theorem nearest_lt_infinite_iff (n : Nat) :
    nearest n d < infinite ↔ (n / d : ℚ) < 2 ^ 1024 - 2 ^ 970 := by
  have hunits : unitsInOne = 2 ^ 1074 := by
    unfold unitsInOne
    generalize 1074 = a
    exact Nat.pow_eq
  have hmiddle : nearest n d < infinite ↔ _ := nearest_lt_iff hd n 2045
  rw [hunits] at hmiddle
  exact hmiddle.trans (below_middle_iff hd n rfl rfl)

end

/-! ### The number of a magnitude -/

section

variable {p : Nat} (hp : p < infinite)

include hp

theorem toBits_ofMagnitude : (ofMagnitude p).toBits = UInt64.ofNat p := by
  have hsmall : p < 2 ^ 64 := hp.trans (by decide)
  have hbits : (UInt64.ofNat p).toBitVec.toNat = p := UInt64.toNat_ofNat_of_lt' hsmall
  have hvalid : Float.Model.Format.binary64.Valid (UInt64.ofNat p).toBitVec := by
    constructor
    intro hexponent
    have htoNat := congrArg BitVec.toNat hexponent
    rw [toNat_unpackExponent, hbits] at htoNat
    have hlast : p / 2 ^ 52 % 2 ^ 11 = 2047 := htoNat
    rw [infinite_eq] at hp
    omega
  exact UInt64.toBitVec_inj.1 (Float.Model.UnpackedFloat.pack_unpack_of_valid hvalid)

theorem toNat_toBits_ofMagnitude : (ofMagnitude p).toBits.toNat = p := by
  rw [toBits_ofMagnitude hp]
  exact UInt64.toNat_ofNat_of_lt' (hp.trans (by decide))

theorem magnitude_ofMagnitude : magnitude (ofMagnitude p) = p := by
  rw [magnitude, toNat_toBits_ofMagnitude hp]
  exact Nat.mod_eq_of_lt (hp.trans (by decide))

theorem isNegative_ofMagnitude : isNegative (ofMagnitude p) = false := by
  rw [isNegative, toNat_toBits_ofMagnitude hp]
  exact decide_eq_false (Nat.not_le.2 (hp.trans (by decide)))

theorem isFinite_ofMagnitude : (ofMagnitude p).isFinite = true := by
  rw [isFinite_iff, magnitude_ofMagnitude hp]
  exact hp

theorem value_ofMagnitude : value (ofMagnitude p) = units p / unitsInOne := by
  rw [value_eq (isFinite_ofMagnitude hp), isNegative_ofMagnitude hp, magnitude_ofMagnitude hp]
  rfl

end

end Binary

/-! ### The nearest number -/

open Binary

/-- **The finite number nearest to `q`**: it has no sign, no finite number is nearer, and if another
one is equally near the last bit of the magnitude is zero. -/
structure IsRounded (q : ℚ) (v : Float) : Prop where
  finite : v.isFinite = true
  unsigned : isNegative v = false
  near : ∀ u : Float, u.isFinite = true → |q - value v| ≤ |q - value u|
  even : ∀ u : Float, u.isFinite = true → value u ≠ value v → |q - value u| = |q - value v| →
    Even (magnitude v)

namespace IsRounded

variable {q : ℚ} {u v : Float}

/-- The value of a number without a sign. -/
theorem value_eq (h : IsRounded q v) : value v = units (magnitude v) / unitsInOne := by
  rw [Binary.value_eq h.finite, h.unsigned]
  rfl

theorem eq_ofMagnitude (h : IsRounded q v) : v = ofMagnitude (magnitude v) :=
  (ofMagnitude_magnitude h.unsigned).symm

/-- **There is one such number** at most. Of two that are equally near one would have an odd magnitude,
or there would be a number between them. -/
theorem unique (hu : IsRounded q u) (hv : IsRounded q v) : u = v := by
  by_contra hne
  have hmagnitude : magnitude u ≠ magnitude v := by
    intro h
    exact hne (hu.eq_ofMagnitude.trans (h ▸ hv.eq_ofMagnitude.symm))
  wlog hlt : magnitude u < magnitude v generalizing u v
  · exact this hv hu (Ne.symm hne) hmagnitude.symm (by omega)
  have hone : (0 : ℚ) < unitsInOne := Nat.cast_pos.2 unitsInOne_pos
  have hvalue {p p' : Nat} (h : p < p') : (units p / unitsInOne : ℚ) < units p' / unitsInOne :=
    div_lt_div_of_pos_right (Nat.cast_lt.2 (units_strictMono h)) hone
  have huv : value u < value v := by
    rw [hu.value_eq, hv.value_eq]
    exact hvalue hlt
  have htie : |q - value u| = |q - value v| :=
    le_antisymm (hu.near v hv.finite) (hv.near u hu.finite)
  have heven : Even (magnitude u) := hu.even v hv.finite huv.ne' htie.symm
  have heven' : Even (magnitude v) := hv.even u hu.finite huv.ne htie
  have hbetween : magnitude u + 1 < magnitude v := by
    rw [Nat.even_iff] at heven heven'
    omega
  have hfinite : magnitude u + 1 < infinite := hbetween.trans (isFinite_iff.1 hv.finite)
  have hnear := hu.near _ (isFinite_ofMagnitude hfinite)
  have hleft : value u < value (ofMagnitude (magnitude u + 1)) := by
    rw [hu.value_eq, value_ofMagnitude hfinite]
    exact hvalue (Nat.lt_succ_self _)
  have hright : value (ofMagnitude (magnitude u + 1)) < value v := by
    rw [hv.value_eq, value_ofMagnitude hfinite]
    exact hvalue hbetween
  rcases abs_eq_abs.1 htie with h | h
  · linarith
  · -- the rational is in the middle, and the number between is nearer to it
    have hnearer : |q - value (ofMagnitude (magnitude u + 1))| < q - value u :=
      abs_lt.2 ⟨by linarith, by linarith⟩
    have habs := le_abs_self (q - value u)
    linarith

end IsRounded

theorem abs_sub_div {c : ℚ} (hc : 0 < c) (q w : ℚ) : |q - w / c| = |q * c - w| / c := by
  have hscaled : q - w / c = (q * c - w) / c := by field_simp
  rw [hscaled, abs_div, abs_of_pos hc]

section

variable {n d : Nat} (hd : 0 < d)

include hd

/-- No magnitude stands for a number that is nearer. -/
theorem nearest_value_near (n p : Nat) :
    |(n / d : ℚ) - units (nearest n d) / unitsInOne| ≤ |(n / d : ℚ) - units p / unitsInOne| ∧
      (p ≠ nearest n d → |(n / d : ℚ) - units p / unitsInOne| =
        |(n / d : ℚ) - units (nearest n d) / unitsInOne| → Even (nearest n d)) := by
  have hone : (0 : ℚ) < unitsInOne := Nat.cast_pos.2 unitsInOne_pos
  obtain ⟨hnear, heven⟩ := nearest_near hd n p
  rw [← div_mul_eq_mul_div] at hnear heven
  rw [abs_sub_div hone, abs_sub_div hone]
  exact ⟨div_le_div_of_nonneg_right hnear hone.le,
    fun hne tie => heven hne ((div_left_inj' hone.ne').1 tie)⟩

/-- **The nearest magnitude** stands for the nearest number, if it is that of a finite one. -/
theorem isRounded_nearest (n : Nat) (h : nearest n d < infinite) :
    IsRounded (n / d) (ofMagnitude (nearest n d)) := by
  have hq : (0 : ℚ) ≤ n / d := div_nonneg (Nat.cast_nonneg n) (Nat.cast_nonneg d)
  have hone : (0 : ℚ) < unitsInOne := Nat.cast_pos.2 unitsInOne_pos
  have hw (p : Nat) : (0 : ℚ) ≤ units p / unitsInOne := div_nonneg (Nat.cast_nonneg _) hone.le
  have hopposite (p : Nat) :
      |(n / d : ℚ) - units p / unitsInOne| ≤ |(n / d : ℚ) - -(units p / unitsInOne)| := by
    have hwp := hw p
    rw [sub_neg_eq_add, abs_of_nonneg (add_nonneg hq hwp)]
    exact abs_le.2 ⟨by linarith, by linarith⟩
  refine ⟨isFinite_ofMagnitude h, isNegative_ofMagnitude h, fun u hu => ?_, fun u hu hne tie => ?_⟩
  · obtain ⟨hnear, -⟩ := nearest_value_near hd n (magnitude u)
    rw [value_ofMagnitude h, value_eq hu]
    cases isNegative u with
    | false => exact hnear
    | true => exact hnear.trans (hopposite _)
  · obtain ⟨hnear, heven⟩ := nearest_value_near hd n (magnitude u)
    rw [value_ofMagnitude h, value_eq hu] at hne tie
    rw [magnitude_ofMagnitude h]
    cases hsign : isNegative u with
    | false =>
      rw [hsign] at hne tie
      exact heven (fun heq => hne (by rw [heq]; rfl)) tie
    | true =>
      rw [hsign] at hne tie
      by_cases hp : magnitude u = nearest n d
      · -- the opposite of the nearest number is as near for zero only
        rw [hp] at hne tie
        obtain ⟨hzero, -⟩ := nearest_value_near hd n 0
        have hcast : (units 0 : ℚ) = 0 := Nat.cast_eq_zero.2 (units_eq_zero_iff.2 rfl)
        have hv := hw (nearest n d)
        generalize (units (nearest n d) / unitsInOne : ℚ) = v at *
        rw [hcast, zero_div, sub_zero, abs_of_nonneg hq, ← tie, withSign, if_pos rfl,
          sub_neg_eq_add, abs_of_nonneg (add_nonneg hq hv)] at hzero
        have hv0 : v = 0 := by linarith
        exact absurd (by rw [hv0]; exact neg_zero) hne
      · exact heven hp (le_antisymm ((hopposite _).trans tie.le) hnear)

end

namespace Decimal

/-- A decimal is a quotient, and it is rounded as one. -/
theorem exists_quotient (x : Decimal) :
    ∃ n d : Nat, 0 < d ∧ x.nearest = Binary.nearest n d ∧ x.value = n / d := by
  obtain ⟨steps, grid⟩ := x
  cases grid with
  | ofNat g =>
    refine ⟨steps * 10 ^ g, 1, Nat.one_pos, rfl, ?_⟩
    rw [value, Int.ofNat_eq_natCast, zpow_natCast]
    push_cast
    rw [div_one]
  | negSucc g =>
    refine ⟨steps, 10 ^ (g + 1), Nat.pow_pos (by decide), rfl, ?_⟩
    rw [value, zpow_negSucc]
    push_cast
    rw [div_eq_mul_inv]

/-- **A decimal is rounded** to the finite number nearest to it, if it is below the middle behind the
greatest one. -/
theorem toFloat?_eq_some_iff {x : Decimal} {v : Float} :
    x.toFloat? = some v ↔ x.value < 2 ^ 1024 - 2 ^ 970 ∧ IsRounded x.value v := by
  obtain ⟨n, d, hd, hnearest, hvalue⟩ := x.exists_quotient
  rw [toFloat?, hnearest, hvalue, ← nearest_lt_infinite_iff hd, Option.ite_none_right_eq_some,
    Option.some_inj]
  refine and_congr_right fun h => ?_
  have hrounded := isRounded_nearest hd n h
  exact ⟨fun heq => heq ▸ hrounded, hrounded.unique⟩

theorem exists_isRounded {x : Decimal} (h : x.value < 2 ^ 1024 - 2 ^ 970) :
    ∃ v, IsRounded x.value v := by
  obtain ⟨n, d, hd, -, hvalue⟩ := x.exists_quotient
  rw [hvalue] at h ⊢
  exact ⟨_, isRounded_nearest hd n ((nearest_lt_infinite_iff hd n).2 h)⟩

end Decimal

end PocketCalculator
