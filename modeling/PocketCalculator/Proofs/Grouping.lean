import PocketCalculator.Display.Style
import PocketCalculator.Proofs.GroupedText
import PocketCalculator.Proofs.Patterns
import PocketCalculator.Proofs.WholeNumbers

/-!
# Numbers in grouped style

The grouped text of a finite number is that of the multiple of `10^-10` nearest to its exact value:
groups of three digits counted from the end of the whole part, and the digits of the fraction up to
the last that is not zero. Whole numbers below `10^15` are written from their integer value, which
makes no difference.

* `Display.groupedChars_eq`: both paths of the style write the same.
* `Display.Parts.Canonical`: what the canonical text of a number of steps is, and what it reads as.
* `Style.write_grouped`: grouped style is exact on every finite number.
-/

namespace PocketCalculator

namespace Display

/-! ### Both paths -/

theorem groupedSteps_pos : 0 < groupedSteps := by decide

theorem smallWhole?_eq_some_iff {p n : Nat} :
    smallWhole? p = some n ↔ Binary.units p = n * Binary.unitsInOne ∧ n < wholeBound := by
  have hU := Binary.unitsInOne_pos
  unfold smallWhole?
  simp only
  constructor
  · intro h
    split at h
    · next hwhole =>
      obtain rfl := Option.some.inj h
      exact ⟨(Nat.div_mul_cancel (Nat.dvd_of_mod_eq_zero hwhole.1)).symm, hwhole.2⟩
    · cases h
  · rintro ⟨hunits, hbound⟩
    rw [hunits, Nat.mul_mod_left, Nat.mul_div_cancel n hU, if_pos ⟨rfl, hbound⟩]

/-- **A whole number** has no fraction. -/
theorem groupedDigits_of_whole {p n : Nat} (h : Binary.units p = n * Binary.unitsInOne) :
    groupedDigits p = commas (decimalDigits n) := by
  have hsteps : roundDiv (Binary.units p * groupedSteps) Binary.unitsInOne = n * groupedSteps := by
    rw [h, Nat.mul_right_comm]
    exact roundDiv_mul _ Binary.unitsInOne_pos
  unfold groupedDigits nearestSteps
  rw [hsteps, (keptDigits_eq_nil_iff _).2 (Nat.mul_mod_left _ _),
    Nat.mul_div_cancel _ groupedSteps_pos]
  exact List.append_nil _

theorem groupedInteger_eq (negative : Bool) (n : Nat) :
    groupedInteger (if negative then -(n : Int) else n) =
      signChars (negative && n != 0) ++ commas (decimalDigits n) := by
  unfold groupedInteger signChars
  simp only [groupDigits_eq]
  cases negative with
  | false => simp
  | true =>
    by_cases hn : n = 0
    · subst hn
      rfl
    · simp [hn]

/-- The text by the integer value of a magnitude, if it has one. -/
def charsBy (negative : Bool) (p : Nat) : Option Nat → List Char
  | some n => groupedInteger (if negative then -(n : Int) else n)
  | none => groupedRounded negative p

-- Unfolding each side once makes them the same. With `unfold groupedChars` the match is left, and
-- the kernel computes the whole number in it.
theorem groupedChars_eq_charsBy (negative : Bool) (p : Nat) :
    groupedChars negative p = charsBy negative p (smallWhole? p) := rfl

/-- **Both paths write the same**: a magnitude rounded to ten places, with a sign in front if there is
one, but for zero. -/
theorem groupedChars_eq (negative : Bool) (p : Nat) :
    groupedChars negative p = signChars (negative && p != 0) ++ groupedDigits p := by
  rw [groupedChars_eq_charsBy]
  cases hsmall : smallWhole? p with
  | some n =>
    obtain ⟨hunits, -⟩ := smallWhole?_eq_some_iff.1 hsmall
    have hzero : n = 0 ↔ p = 0 := by
      rw [← Binary.units_eq_zero_iff (p := p), hunits, Nat.mul_eq_zero]
      exact ⟨.inl, fun h => h.resolve_right Binary.unitsInOne_pos.ne'⟩
    have hsame : (n != 0) = (p != 0) := by
      rw [Bool.eq_iff_iff, bne_iff_ne, bne_iff_ne, ne_eq, ne_eq, hzero]
    rw [charsBy, groupedInteger_eq, hsame, groupedDigits_of_whole hunits]
  | none =>
    have hp : p ≠ 0 := by
      rintro rfl
      have hzero : smallWhole? 0 = some 0 := smallWhole?_eq_some_iff.2
        ⟨by rw [Binary.units_eq_zero_iff.2 rfl, Nat.zero_mul], by decide⟩
      rw [hsmall] at hzero
      cases hzero
    have hsame : (p != 0) = true := bne_iff_ne.2 hp
    rw [charsBy, groupedRounded_eq, hsame, Bool.and_true]

/-! ### The whole part -/

/-- **The digits of a whole part** in groups of three, the first of which may be shorter, and without
a zero in front of another digit. -/
structure IsWholePart (groups : List (List Char)) : Prop where
  digits : AllDigits groups.flatten
  threes : ∃ g gs, groups = g :: gs ∧ 1 ≤ g.length ∧ g.length ≤ 3 ∧ ∀ g' ∈ gs, g'.length = 3
  zero : groups.flatten.head? = some '0' → groups.flatten = ['0']

theorem flatten_threes {ds : List Char} (h : ds ≠ []) : (threes ds).flatten = ds := by
  obtain ⟨g, gs, hthrees, -, -, hflat⟩ := threes_eq_cons h
  rw [hthrees, hflat]

theorem isWholePart_threes (n : Nat) : IsWholePart (threes (decimalDigits n)) := by
  have hne := decimalDigits_ne_nil n
  obtain ⟨g, gs, hthrees, hfirst, hothers, -⟩ := threes_eq_cons hne
  refine ⟨?_, ⟨g, gs, hthrees, by omega, by omega, hothers⟩, ?_⟩
  · rw [flatten_threes hne]
    exact allDigits_decimalDigits n
  · rw [flatten_threes hne]
    intro hhead
    rw [head?_decimalDigits hhead]
    rfl

/-! ### Reading -/

/-- **The number that a text stands for**: digits with at most one point, behind a `-` or not. -/
def signedValue? : List Char → Option ℚ
  | '-' :: cs => (Decimal.ofText? cs).map fun x => -x.value
  | cs => (Decimal.ofText? cs).map Decimal.value

/-- What is written is read as the number of steps. -/
theorem ofText?_steps (n : Nat) : ∃ x : Decimal, x.value = n / groupedSteps ∧
    Decimal.ofText? (decimalDigits (n / groupedSteps) ++ behindPoint (keptDigits n)) = some x := by
  have hwhole := allDigits_decimalDigits (n / groupedSteps)
  have hne := decimalDigits_ne_nil (n / groupedSteps)
  have hsplit : (n : ℚ) / groupedSteps =
      (n / groupedSteps : ℕ) + (n % groupedSteps : ℕ) / groupedSteps := by
    have hpos : (groupedSteps : ℚ) ≠ 0 := Nat.cast_ne_zero.2 groupedSteps_pos.ne'
    have hn : (n : ℚ) = groupedSteps * (n / groupedSteps : ℕ) + (n % groupedSteps : ℕ) := by
      exact_mod_cast (Nat.div_add_mod n groupedSteps).symm
    rw [eq_comm, ← sub_eq_zero]
    field_simp
    linarith
  have hvalue := Decimal.value_point (decimalDigits (n / groupedSteps)) (keptDigits n)
  rw [digitsValue_keptDigits, digitsValue_decimalDigits, ← hsplit] at hvalue
  unfold behindPoint
  by_cases hnil : keptDigits n = []
  · rw [hnil, List.append_nil] at hvalue
    rw [if_pos hnil, List.append_nil, Decimal.ofText?_whole hwhole hne]
    exact ⟨_, hvalue, rfl⟩
  · rw [if_neg hnil, Decimal.ofText?_point hwhole hne (isFraction_keptDigits n).digits]
    exact ⟨_, hvalue, rfl⟩

theorem ne_comma_of_isDigit {c : Char} (h : c.isDigit = true) : c ≠ ',' := by
  rintro rfl
  cases h

/-- **Without its commas** the text is the sign, the digits and the point. -/
theorem filter_text (negative : Bool) {whole fraction : List Char} (hwhole : AllDigits whole)
    (hfraction : AllDigits fraction) :
    (signChars negative ++ commas whole ++ behindPoint fraction).filter (· != ',') =
      signChars negative ++ whole ++ behindPoint fraction := by
  have hsign : (signChars negative).filter (· != ',') = signChars negative := by
    cases negative <;> rfl
  have hpoint : (behindPoint fraction).filter (· != ',') = behindPoint fraction := by
    rw [List.filter_eq_self]
    intro c hc
    unfold behindPoint at hc
    split at hc
    · cases hc
    · rcases List.mem_cons.1 hc with rfl | hc
      · rfl
      · exact bne_iff_ne.2 (ne_comma_of_isDigit (hfraction c hc))
  rw [List.filter_append, List.filter_append, hsign, hpoint,
    filter_commas fun d hd => ne_comma_of_isDigit (hwhole d hd)]

/-- What has no sign is read as digits and a point. -/
theorem signedValue?_digits {whole : List Char} (h : AllDigits whole) (hne : whole ≠ [])
    (rest : List Char) :
    signedValue? (whole ++ rest) = (Decimal.ofText? (whole ++ rest)).map Decimal.value := by
  cases whole with
  | nil => exact absurd rfl hne
  | cons c cs =>
    have hc : c ≠ '-' := by
      rintro rfl
      cases h '-' (List.mem_cons_self ..)
    unfold signedValue?
    split
    · next heq => exact absurd (List.cons.inj heq).1 hc
    · rfl

/-! ### The text -/

/-- **The parts of a grouped text.** -/
structure Parts where
  sign : List Char
  groups : List (List Char)
  fraction : List Char

namespace Parts

/-- The text of its parts. -/
def text (t : Parts) : List Char :=
  t.sign ++ [','].intercalate t.groups ++ behindPoint t.fraction

/-- **The canonical text** of `n` steps of `10^-10`. The sign of what is not negative is left to the
number that was rounded. -/
structure Canonical (t : Parts) (n : ℤ) : Prop where
  sign : t.sign = [] ∨ t.sign = ['-']
  negative : n < 0 → t.sign = ['-']
  whole : IsWholePart t.groups
  fraction : IsFraction t.fraction
  fraction_nil : t.fraction = [] ↔ (groupedSteps : ℤ) ∣ n
  read : signedValue? (t.text.filter (· != ',')) = some ((n : ℚ) / groupedSteps)

section

variable (negative : Bool) (n : Nat)

/-- The parts that are written for a number of steps. -/
def ofSteps : Parts where
  sign := signChars negative
  groups := threes (decimalDigits (n / groupedSteps))
  fraction := keptDigits n

/-- A number of steps with its sign. -/
def signedSteps : ℤ := if negative then -(n : ℤ) else n

theorem text_ofSteps : (ofSteps negative n).text = signChars negative ++
    commas (decimalDigits (n / groupedSteps)) ++ behindPoint (keptDigits n) := by
  unfold text ofSteps
  rw [commas_eq]

theorem read_ofSteps : signedValue? ((ofSteps negative n).text.filter (· != ',')) =
    some ((signedSteps negative n : ℚ) / groupedSteps) := by
  have hwhole := allDigits_decimalDigits (n / groupedSteps)
  have hne := decimalDigits_ne_nil (n / groupedSteps)
  obtain ⟨x, hx, hread⟩ := ofText?_steps n
  rw [text_ofSteps, filter_text negative hwhole (isFraction_keptDigits n).digits, List.append_assoc]
  cases negative with
  | false =>
    show signedValue? (decimalDigits (n / groupedSteps) ++ _) = _
    rw [signedValue?_digits hwhole hne, hread, Option.map_some, hx]
    rfl
  | true =>
    show (Decimal.ofText? (decimalDigits (n / groupedSteps) ++ _)).map _ = _
    rw [hread, Option.map_some, hx, signedSteps, if_pos rfl, Int.cast_neg, Int.cast_natCast,
      neg_div]

/-- **What is written is canonical.** -/
theorem canonical_ofSteps : (ofSteps negative n).Canonical (signedSteps negative n) where
  sign := by
    cases negative with
    | false => exact .inl rfl
    | true => exact .inr rfl
  negative := by
    intro hn
    cases negative with
    | false => exact absurd hn (not_lt.2 (Int.natCast_nonneg n))
    | true => rfl
  whole := isWholePart_threes _
  fraction := isFraction_keptDigits n
  fraction_nil := by
    rw [show (ofSteps negative n).fraction = keptDigits n from rfl, keptDigits_eq_nil_iff,
      ← Nat.dvd_iff_mod_eq_zero, ← Int.natCast_dvd_natCast]
    cases negative with
    | false => exact Iff.rfl
    | true => exact dvd_neg.symm
  read := read_ofSteps negative n

end

end Parts

/-! ### Exactness -/

theorem isNearest_withSign {q : ℚ} {n : Nat} (h : IsNearest q n) (negative : Bool) :
    IsNearest (Binary.withSign negative q) (Parts.signedSteps negative n) := by
  cases negative with
  | false => exact h
  | true => exact h.neg

/-- From `10^15` on a magnitude is a whole number of steps, for a mantissa has 53 bits. -/
theorem unitsInOne_dvd {p : Nat} (h : 10 ^ 15 * Binary.unitsInOne ≤ Binary.units p) :
    Binary.unitsInOne ∣ Binary.units p * groupedSteps := by
  obtain ⟨m, k, -, hm, -, hunits⟩ := Binary.exists_parts p
  obtain ⟨e, he⟩ := Binary.unitsInOne_eq_pow
  -- the value is below `2^53` units of its own exponent, so these are not much finer than one
  have hk : e < k + 4 := by
    have hpow : 2 ^ (49 + e) < 2 ^ (53 + k) := by
      calc 2 ^ (49 + e) = 2 ^ 49 * 2 ^ e := Nat.pow_add ..
        _ ≤ 10 ^ 15 * 2 ^ e := Nat.mul_le_mul_right _ (by decide)
        _ ≤ m * 2 ^ k := by rw [← he, ← hunits]; exact h
        _ < 2 ^ 53 * 2 ^ k := Nat.mul_lt_mul_of_pos_right hm (Nat.pow_pos Nat.two_pos)
        _ = 2 ^ (53 + k) := (Nat.pow_add ..).symm
    have := (Nat.pow_lt_pow_iff_right (by decide)).1 hpow
    omega
  have hsteps : groupedSteps = 2 ^ 10 * 5 ^ 10 := by decide
  rw [he, hunits, hsteps, Nat.mul_assoc, ← Nat.mul_assoc (2 ^ k), ← Nat.pow_add]
  exact Dvd.dvd.mul_left (Dvd.dvd.mul_right (Nat.pow_dvd_pow 2 (by omega)) _) m

/-- The units of a magnitude as steps. -/
theorem isNearest_nearestSteps (p : Nat) :
    IsNearest ((Binary.units p : ℚ) / Binary.unitsInOne * groupedSteps) (nearestSteps p : ℕ) := by
  have h := roundDiv_near (Binary.units p * groupedSteps) Binary.unitsInOne_pos
  rw [Nat.cast_mul, mul_div_right_comm] at h
  unfold nearestSteps
  exact h

/-- Steps that divide the units are exact. -/
theorem nearestSteps_of_dvd {p : Nat} (h : Binary.unitsInOne ∣ Binary.units p * groupedSteps) :
    (nearestSteps p : ℚ) / groupedSteps = Binary.units p / Binary.unitsInOne := by
  obtain ⟨q, hq⟩ := h
  have hsteps : nearestSteps p = q := by
    unfold nearestSteps
    rw [hq, Nat.mul_comm]
    exact roundDiv_mul q Binary.unitsInOne_pos
  have hU : (Binary.unitsInOne : ℚ) ≠ 0 := Nat.cast_ne_zero.2 Binary.unitsInOne_pos.ne'
  have hS : (groupedSteps : ℚ) ≠ 0 := Nat.cast_ne_zero.2 groupedSteps_pos.ne'
  rw [hsteps, div_eq_div_iff hS hU, mul_comm]
  exact_mod_cast hq.symm

end Display

/-! ### What is shown -/

open Display Binary

theorem withSign_zero (negative : Bool) : withSign negative 0 = 0 := by
  cases negative with
  | false => rfl
  | true => exact neg_zero

theorem abs_withSign (negative : Bool) {q : ℚ} (hq : 0 ≤ q) : |withSign negative q| = q := by
  cases negative with
  | false => exact abs_of_nonneg hq
  | true => exact (abs_neg q).trans (abs_of_nonneg hq)

theorem withSign_mul (negative : Bool) (q r : ℚ) :
    withSign negative q * r = withSign negative (q * r) := by
  cases negative with
  | false => rfl
  | true => exact neg_mul q r

theorem withSign_natCast (negative : Bool) (n : ℕ) :
    withSign negative n = (Parts.signedSteps negative n : ℤ) := by
  cases negative with
  | false => rfl
  | true => exact (Int.cast_neg _).symm

section

variable {v : Float} (hv : v.isFinite = true)

include hv

/-- The text of a finite number is that of its sign and magnitude. -/
theorem Style.toList_write_grouped :
    (Style.grouped.write v).toList = groupedChars (isNegative v) (magnitude v) := by
  have hp := isFinite_iff.1 hv
  unfold Style.write Style.writeChars
  rw [String.toList_ofList]
  simp only
  rw [if_neg (Nat.lt_asymm hp), if_neg hp.ne]

theorem abs_value : |value v| = units (magnitude v) / unitsInOne := by
  rw [value_eq hv]
  exact abs_withSign _ (div_nonneg (Nat.cast_nonneg _) (Nat.cast_nonneg _))

/-- Zero may be taken without its sign. -/
theorem value_eq_signed : value v = withSign (isNegative v && magnitude v != 0)
    (units (magnitude v) / unitsInOne) := by
  rw [value_eq hv]
  by_cases hp : magnitude v = 0
  · rw [units_eq_zero_iff.2 hp, Nat.cast_zero, zero_div, withSign_zero, withSign_zero]
  · rw [bne_iff_ne.2 hp, Bool.and_true]

/-- What is not below zero has no sign in front. -/
theorem sign_of_nonneg (h : 0 ≤ value v) : (isNegative v && magnitude v != 0) = false := by
  by_contra hsign
  rw [Bool.not_eq_false] at hsign
  have hp : magnitude v ≠ 0 := bne_iff_ne.1 (Bool.and_eq_true_iff.1 hsign).2
  have hunits : (0 : ℚ) < units (magnitude v) / unitsInOne :=
    div_pos (Nat.cast_pos.2 (Nat.pos_of_ne_zero (mt units_eq_zero_iff.1 hp)))
      (Nat.cast_pos.2 unitsInOne_pos)
  rw [value_eq_signed hv, hsign, withSign, if_pos rfl] at h
  linarith

/-- **The integer value** that small whole numbers are written from is exact, and of 64 bits. -/
theorem value_of_smallWhole? {w : ℕ} (h : smallWhole? (magnitude v) = some w) :
    value v = (Parts.signedSteps (isNegative v) w : ℤ) ∧ w < 2 ^ 63 := by
  obtain ⟨hunits, hbound⟩ := smallWhole?_eq_some_iff.1 h
  have hU : (unitsInOne : ℚ) ≠ 0 := Nat.cast_ne_zero.2 unitsInOne_pos.ne'
  refine ⟨?_, hbound.trans (by decide)⟩
  rw [value_eq hv, hunits, Nat.cast_mul, mul_div_cancel_right₀ _ hU, withSign_natCast]

/-- The units of a whole number. -/
theorem units_of_value {z : ℤ} (hz : value v = z) :
    units (magnitude v) = z.natAbs * unitsInOne := by
  have hU : (unitsInOne : ℚ) ≠ 0 := Nat.cast_ne_zero.2 unitsInOne_pos.ne'
  have habs : (units (magnitude v) : ℚ) / unitsInOne = z.natAbs := by
    rw [← abs_value hv, hz, Nat.cast_natAbs, Int.cast_abs]
  rw [div_eq_iff hU] at habs
  exact_mod_cast habs

/-- **Both paths agree** on every whole number but zero. -/
theorem groupedInteger_of_value {z : ℤ} (hz : value v = z) (hne : z ≠ 0) :
    groupedInteger z = groupedRounded (isNegative v) (magnitude v) := by
  have hunits := units_of_value hv hz
  have hsigned : z = if isNegative v then -(z.natAbs : Int) else z.natAbs := by
    have hcast : ((Parts.signedSteps (isNegative v) z.natAbs : ℤ) : ℚ) = z := by
      rw [← withSign_natCast, ← hz, value_eq hv, ← abs_value hv, hz, Nat.cast_natAbs, Int.cast_abs]
    exact (Int.cast_injective hcast).symm
  have hnonzero : (z.natAbs != 0) = true := bne_iff_ne.2 (Int.natAbs_ne_zero.2 hne)
  rw [groupedRounded_eq, groupedDigits_of_whole hunits]
  calc groupedInteger z
      = groupedInteger (if isNegative v then -(z.natAbs : Int) else z.natAbs) :=
        congrArg groupedInteger hsigned
    _ = _ := by rw [groupedInteger_eq, hnonzero, Bool.and_true]

/-- From `10^15` on a number is a whole number of steps. -/
theorem value_of_large (h : 10 ^ 15 ≤ |value v|) :
    ((Parts.signedSteps (isNegative v && magnitude v != 0) (nearestSteps (magnitude v)) : ℤ) : ℚ) /
      groupedSteps = value v := by
  have hU : (0 : ℚ) < unitsInOne := Nat.cast_pos.2 unitsInOne_pos
  have hlarge : 10 ^ 15 * unitsInOne ≤ units (magnitude v) := by
    rw [abs_value hv, le_div_iff₀ hU] at h
    exact_mod_cast h
  rw [value_eq_signed hv, ← nearestSteps_of_dvd (unitsInOne_dvd hlarge), ← withSign_natCast,
    div_eq_mul_inv, withSign_mul, ← div_eq_mul_inv]

end

/-- **The text of a number is exact.** It is the canonical text of the multiple of `10^-10` that is
nearest to the number. -/
structure Style.ShownExactly (v : Float) : Prop where
  /-- Only numbers below zero have a sign, and from `10^15` on nothing is rounded. -/
  canonical : ∃ (n : ℤ) (t : Parts), IsNearest (value v * groupedSteps) n ∧ t.Canonical n ∧
    (Style.grouped.write v).toList = t.text ∧ (0 ≤ value v → t.sign = []) ∧
    (10 ^ 15 ≤ |value v| → (n : ℚ) / groupedSteps = value v)
  /-- What is written from its integer value is that integer, which has less than 64 bits. -/
  integer : ∀ w : ℕ, smallWhole? (magnitude v) = some w →
    value v = (Parts.signedSteps (isNegative v) w : ℤ) ∧ w < 2 ^ 63
  /-- But for zero, the text of a whole number is that of its integer value and that of the rounded
  number. -/
  whole : ∀ z : ℤ, value v = z → z ≠ 0 → (Style.grouped.write v).toList = groupedInteger z ∧
    groupedInteger z = groupedRounded (isNegative v) (magnitude v)

/-- **Grouped style is exact** on every finite number. -/
theorem Style.write_grouped {v : Float} (hv : v.isFinite = true) : Style.ShownExactly v := by
  have htext : (Style.grouped.write v).toList =
      signChars (isNegative v && magnitude v != 0) ++ groupedDigits (magnitude v) := by
    rw [Style.toList_write_grouped hv, groupedChars_eq]
  constructor
  · refine ⟨_, Parts.ofSteps (isNegative v && magnitude v != 0) (nearestSteps (magnitude v)), ?_,
      Parts.canonical_ofSteps _ _, ?_, ?_, value_of_large hv⟩
    · rw [value_eq_signed hv, withSign_mul]
      exact isNearest_withSign (isNearest_nearestSteps _) _
    · rw [htext, Parts.text_ofSteps, groupedDigits, List.append_assoc]
    · intro hnonneg
      rw [sign_of_nonneg hv hnonneg]
      rfl
  · exact fun w hw => value_of_smallWhole? hv hw
  · intro z hz hne
    have hinteger := groupedInteger_of_value hv hz hne
    have hp : magnitude v ≠ 0 := by
      intro hp
      have hunits := units_of_value hv hz
      rw [units_eq_zero_iff.2 hp] at hunits
      exact (Nat.mul_ne_zero (Int.natAbs_ne_zero.2 hne) unitsInOne_pos.ne') hunits.symm
    refine ⟨?_, hinteger⟩
    rw [htext, hinteger, groupedRounded_eq, bne_iff_ne.2 hp, Bool.and_true]

theorem Style.write_grouped_thousands :
    (-1234567.125 : Float).isFinite = true ∧ Style.ShownExactly (-1234567.125) :=
  ⟨by decide, Style.write_grouped (by decide)⟩

example : Style.grouped.write (-1234567.125) = "-1,234,567.125" := by decide +kernel

end PocketCalculator
