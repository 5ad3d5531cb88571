import PocketCalculator.Proofs.Grouping

/-!
# Signs in grouped style

The sign in front of a grouped text is that of the number, and the digits are those of its rounding to
ten places. A number below zero that is rounded to zero keeps its sign, so it is written `-0`. Zero
itself is written from its integer value, without a sign.

* `Style.head?_write_grouped`: the numbers below zero have a sign.
* `Style.write_grouped_of_zero`: what is written for a number that is rounded to zero.
* `Style.sign_write_grouped`: the sign is that of the number that is shown, but for `-0`.
* `Style.write_grouped_tiny`: a number that is shown as `-0`.
-/

namespace PocketCalculator

namespace Display

theorem head?_commas (ds : List Char) : (commas ds).head? = ds.head? := by
  cases ds with
  | nil => rfl
  | cons d rest =>
    unfold commas
    split <;> rfl

/-- The digits of a magnitude begin with a digit. -/
theorem isDigit_head?_groupedDigits (p : Nat) :
    ∀ c ∈ (groupedDigits p).head?, c.isDigit = true := by
  intro c hc
  obtain ⟨d, rest, hdigits⟩ :=
    List.exists_cons_of_ne_nil (decimalDigits_ne_nil (nearestSteps p / groupedSteps))
  have hfirst : (groupedDigits p).head? = some d := by
    rw [groupedDigits, List.head?_append, head?_commas, hdigits]
    rfl
  rw [hfirst] at hc
  obtain rfl : d = c := Option.some.inj hc
  exact allDigits_decimalDigits _ d (hdigits ▸ List.mem_cons_self)

/-- In front of digits there is a `-` if there is a sign. -/
theorem head?_signChars_append (negative : Bool) {ds : List Char}
    (h : ∀ c ∈ ds.head?, c.isDigit = true) :
    (signChars negative ++ ds).head? = some '-' ↔ negative = true := by
  cases negative with
  | true => exact iff_of_true rfl rfl
  | false => exact iff_of_false (fun hhead => absurd (h '-' hhead) (by decide)) (by decide)

theorem groupedDigits_of_nearestSteps {p : Nat} (h : nearestSteps p = 0) :
    groupedDigits p = ['0'] := by
  rw [groupedDigits, h]
  rfl

end Display

open Display Binary

section

variable {v : Float} (hv : v.isFinite = true)

include hv

/-- The sign in front of a finite number is that of its value. -/
theorem signed_iff : (isNegative v && magnitude v != 0) = true ↔ value v < 0 := by
  constructor
  · intro h
    by_contra hnonneg
    rw [sign_of_nonneg hv (not_lt.1 hnonneg)] at h
    cases h
  · intro h
    by_contra hsign
    rw [Bool.not_eq_true] at hsign
    rw [value_eq_signed hv, hsign, withSign, if_neg (by decide)] at h
    exact absurd h (not_lt.2 (div_nonneg (Nat.cast_nonneg _) (Nat.cast_nonneg _)))

/-- The text of a finite number on both paths. -/
theorem toList_write_grouped_eq : (Style.grouped.write v).toList =
    signChars (isNegative v && magnitude v != 0) ++ groupedDigits (magnitude v) := by
  rw [Style.toList_write_grouped hv, groupedChars_eq]

/-- **A sign in front** is that of a number below zero. -/
theorem Style.head?_write_grouped :
    (Style.grouped.write v).toList.head? = some '-' ↔ value v < 0 := by
  rw [← signed_iff hv, toList_write_grouped_eq hv]
  exact head?_signChars_append _ (isDigit_head?_groupedDigits _)

/-- **Rounded to zero**, a number is written as zero behind its sign. -/
theorem Style.write_grouped_of_zero (hzero : nearestSteps (magnitude v) = 0) :
    Style.grouped.write v = if value v < 0 then "-0" else "0" := by
  rw [← String.toList_inj, toList_write_grouped_eq hv, groupedDigits_of_nearestSteps hzero]
  simp only [← signed_iff hv]
  cases isNegative v && magnitude v != 0 <;> rfl

/-- Of the numbers that are rounded to zero only zero is written from its integer value. -/
theorem smallWhole?_eq_none (hzero : nearestSteps (magnitude v) = 0) (hne : value v < 0) :
    smallWhole? (magnitude v) = none := by
  by_contra hsome
  obtain ⟨w, hw⟩ := Option.ne_none_iff_exists'.1 hsome
  obtain ⟨hunits, -⟩ := smallWhole?_eq_some_iff.1 hw
  have hsteps : nearestSteps (magnitude v) = w * groupedSteps := by
    rw [nearestSteps, hunits, Nat.mul_right_comm]
    exact roundDiv_mul _ unitsInOne_pos
  obtain rfl : w = 0 := by
    rw [hzero] at hsteps
    exact (Nat.mul_eq_zero.1 hsteps.symm).resolve_right groupedSteps_pos.ne'
  rw [value_eq hv, hunits, Nat.zero_mul, Nat.cast_zero, zero_div, withSign_zero] at hne
  exact lt_irrefl 0 hne

end

/-- **The sign of a grouped text.** A finite number is shown as the multiple of `10^-10` that is nearest
to it, and the text has a sign in front if the number is below zero. If what is shown is not zero, it
has the same sign. It is zero up to half of `10^-10` away from zero, and then it is shown as `0`, but
for the numbers below zero: they are shown as `-0`, and none of them is written from its integer
value. -/
theorem Style.sign_write_grouped {v : Float} (hv : v.isFinite = true) :
    ∃ n : ℤ, IsNearest (value v * groupedSteps) n ∧
      signedValue? ((Style.grouped.write v).toList.filter (· != ',')) =
        some ((n : ℚ) / groupedSteps) ∧
      ((Style.grouped.write v).toList.head? = some '-' ↔ value v < 0) ∧
      (n ≠ 0 → ((Style.grouped.write v).toList.head? = some '-' ↔ n < 0)) ∧
      (n = 0 ↔ |value v| ≤ 1 / (2 * groupedSteps)) ∧
      (n = 0 → 0 ≤ value v → Style.grouped.write v = "0") ∧
      (n = 0 → value v < 0 → Style.grouped.write v = "-0" ∧ smallWhole? (magnitude v) = none) := by
  have hnearest : IsNearest (value v * groupedSteps)
      (Parts.signedSteps (isNegative v && magnitude v != 0) (nearestSteps (magnitude v))) := by
    rw [value_eq_signed hv, withSign_mul]
    exact isNearest_withSign (isNearest_nearestSteps _) _
  have hzero : Parts.signedSteps (isNegative v && magnitude v != 0) (nearestSteps (magnitude v)) = 0 →
      nearestSteps (magnitude v) = 0 := by
    unfold Parts.signedSteps
    split <;> omega
  refine ⟨_, hnearest, ?_, head?_write_grouped hv, ?_, ?_, ?_, ?_⟩
  · have hread := Parts.read_ofSteps (isNegative v && magnitude v != 0) (nearestSteps (magnitude v))
    rwa [Parts.text_ofSteps, List.append_assoc, ← groupedDigits, ← toList_write_grouped_eq hv]
      at hread
  · intro hne
    rw [head?_write_grouped hv, ← signed_iff hv]
    unfold Parts.signedSteps at hne ⊢
    split at hne
    · next hsign => exact iff_of_true hsign (by rw [if_pos hsign]; omega)
    · next hsign => exact iff_of_false hsign (by rw [if_neg hsign]; omega)
  · rw [hnearest.eq_zero_iff]
    have hsteps : (0 : ℚ) < groupedSteps := Nat.cast_pos.2 groupedSteps_pos
    rw [abs_mul, abs_of_pos hsteps, ← le_div_iff₀ hsteps, div_div]
  · intro hn hnonneg
    rw [write_grouped_of_zero hv (hzero hn), if_neg (not_lt.2 hnonneg)]
  · intro hn hneg
    rw [write_grouped_of_zero hv (hzero hn), if_pos hneg]
    exact ⟨rfl, smallWhole?_eq_none hv (hzero hn) hneg⟩

/-- The number `-10^-11` is rounded to zero, and has its sign in front of it. -/
theorem Style.sign_write_grouped_rounded : (-1e-11 : Float).isFinite = true ∧ ∃ n : ℤ,
    IsNearest (value (-1e-11) * groupedSteps) n ∧ n = 0 ∧
      (Style.grouped.write (-1e-11)).toList.head? = some '-' := by
  have hfinite : (-1e-11 : Float).isFinite = true := by decide
  have hneg : value (-1e-11) < 0 := by decide +kernel
  have hsmall : |value (-1e-11)| ≤ 1 / (2 * groupedSteps) := by decide +kernel
  obtain ⟨n, hnearest, -, hsign, -, hzero, -⟩ := sign_write_grouped hfinite
  exact ⟨hfinite, n, hnearest, hzero.2 hsmall, hsign.2 hneg⟩

/-- **A sign in front of zero.** The number `-10^-11` is shown as `-0`, which stands for zero, while
zero itself is shown as `0` with either sign. -/
theorem Style.write_grouped_tiny :
    Style.grouped.write (-1e-11) = "-0" ∧ signedValue? "-0".toList = some 0 ∧
      Style.grouped.write (-0.0) = "0" ∧ Style.grouped.write 0.0 = "0" := by
  decide +kernel

end PocketCalculator
