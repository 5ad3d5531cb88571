import PocketCalculator.Display.Plain
import PocketCalculator.Proofs.Digits
import PocketCalculator.Proofs.Patterns

/-!
# The shortest decimal reads back

The nearest magnitude to the units of a magnitude is that magnitude, so its exact value reads back. What
is found on a coarser grid does so too, and either is written with few digits.

* `Binary.nearest_units`: the units of a magnitude are nearest to it.
* `shortest_cases`, `nearest_shortest`: the shortest decimal reads back.
* `Decimal.length_positional`: a decimal that is written out has as many digits as its steps and its grid
  allow.
* `length_positional_shortest`: written out, the shortest decimal has fewer than `2^31` characters.
-/

namespace PocketCalculator

namespace Binary

theorem log2_of_parts {m k : Nat} (narrow : m < 2 * leadingBit) (wide : k = 0 ∨ leadingBit ≤ m) :
    (m * 2 ^ k).log2 - 52 = k := by
  rcases wide with rfl | wide
  · rw [Nat.pow_zero, Nat.mul_one]
    by_cases hm : m = 0
    · rw [hm, Nat.log2_zero]
    · have := (Nat.log2_lt hm (k := 53)).2 (by rw [leadingBit_eq] at narrow; omega)
      omega
  · have hm : 0 < m := by rw [leadingBit_eq] at wide; omega
    have hlog : (m * 2 ^ k).log2 = 52 + k := by
      rw [Nat.log2_eq_iff (Nat.mul_pos hm (Nat.pow_pos Nat.two_pos)).ne']
      constructor
      · rw [Nat.pow_add]
        exact Nat.mul_le_mul_right _ wide
      · rw [Nat.add_right_comm, Nat.pow_add]
        exact Nat.mul_lt_mul_of_pos_right narrow (Nat.pow_pos Nat.two_pos)
    omega

/-- **The units of a magnitude** are nearest to that magnitude. -/
theorem nearest_units (p : Nat) : nearest (units p) unitsInOne = p := by
  obtain ⟨m, k, hp, narrow, wide, hunits⟩ := exists_parts p
  have hone : 0 < unitsInOne * 2 ^ k := Nat.mul_pos unitsInOne_pos (Nat.pow_pos Nat.two_pos)
  unfold nearest
  simp only
  rw [Nat.mul_div_cancel _ unitsInOne_pos, hunits, log2_of_parts narrow wide, Nat.pow_eq,
    Nat.mul_assoc m, Nat.mul_comm (2 ^ k), roundDiv_mul m hone, ← hp]

/-- A magnitude has at most the units that its exponent allows. -/
theorem units_lt {p e : Nat} (h : p < (e + 1) * leadingBit) : units p < 10 ^ (53 + e) := by
  obtain ⟨m, k, hp, narrow, wide, hunits⟩ := exists_parts p
  -- a power of two is as good as one of ten here, for only the number of digits counts
  have hk : k ≤ e := by
    rw [leadingBit_eq] at *
    omega
  calc units p = m * 2 ^ k := hunits
    _ < 2 ^ 53 * 2 ^ k := Nat.mul_lt_mul_of_pos_right narrow (Nat.pow_pos Nat.two_pos)
    _ ≤ 2 ^ 53 * 2 ^ e := Nat.mul_le_mul_left _ (Nat.pow_le_pow_right Nat.two_pos hk)
    _ = 2 ^ (53 + e) := (Nat.pow_add 2 53 e).symm
    _ ≤ 10 ^ (53 + e) := Nat.pow_le_pow_left (by decide) _

end Binary

namespace Decimal

theorem nearest_ofNat (steps g : Nat) :
    nearest ⟨steps, .ofNat g⟩ = Binary.nearest (steps * Nat.pow 10 g) 1 := rfl

/-- A decimal with places behind the point. -/
theorem nearest_places (steps places : Nat) :
    nearest ⟨steps, -(places : Int)⟩ = Binary.nearest steps (Nat.pow 10 places) := by
  cases places with
  | zero => exact congrArg (Binary.nearest · 1) (Nat.mul_one steps)
  | succ g => rfl

end Decimal

namespace Shortest

theorem grid_of_mem_grids {g : Int} (h : g ∈ grids) : g.natAbs ≤ 1074 := by
  unfold grids at h
  obtain ⟨i, hi, rfl⟩ := List.mem_map.1 h
  rw [List.mem_range] at hi
  omega

theorem ten_pow (e : Nat) : Nat.pow 10 e = Nat.pow 2 e * Nat.pow 5 e := Nat.mul_pow 2 5 e

theorem five_pow_pos (e : Nat) : 0 < Nat.pow 5 e := Nat.pow_pos (by decide)

theorem five_pow_le {a b : Nat} (h : a ≤ b) : Nat.pow 5 a ≤ 10 ^ b :=
  (Nat.pow_le_pow_left (by decide) a).trans (Nat.pow_le_pow_right (by decide) h)

/-- **The exact value reads back.** -/
theorem nearest_exact (p : Nat) : (exact p).nearest = p := by
  have hunits := Binary.nearest_units p
  have hgrid : (-1074 : Int) = -((1074 : Nat) : Int) := rfl
  unfold Binary.unitsInOne at hunits
  unfold exact
  rw [hgrid]
  -- the power is kept symbolic, or it would be computed
  generalize 1074 = places at hunits ⊢
  rw [Decimal.nearest_places, ten_pow, Binary.nearest_mul_right _ _ (five_pow_pos places), hunits]

theorem steps_exact_le (p : Nat) {e : Nat} (h : 1074 ≤ e) :
    (exact p).steps ≤ Binary.units p * 10 ^ e := by
  unfold exact
  simp only
  revert h
  generalize 1074 = a
  exact fun h => Nat.mul_le_mul_left _ (five_pow_le h)

/-- What is found has no more steps than the value has, but for one. -/
theorem steps_of_neighbour? {p e : Nat} {g : Int} {x : Decimal} (h : neighbour? p g = some x)
    (hg : g.natAbs ≤ e) : x.steps ≤ Binary.units p * 10 ^ e + 1 := by
  have hn : (inSteps p g).1 ≤ Binary.units p * 10 ^ e := by
    cases g with
    | ofNat g => exact Nat.le_mul_of_pos_right _ (Nat.pow_pos (by decide))
    | negSucc g => exact Nat.mul_le_mul_left _ (Nat.pow_le_pow_right (by decide) hg)
  have hquotient := (Nat.div_le_self (inSteps p g).1 (inSteps p g).2).trans hn
  unfold neighbour? at h
  simp only at h
  split at h
  · cases h
    exact Nat.le_succ_of_le hquotient
  · split at h
    · cases h
      exact Nat.succ_le_succ hquotient
    · cases h

end Shortest

/-- What the shortest decimal is: zero, what is found on a grid, or the exact value. -/
theorem shortest_cases (p : Nat) : (p = 0 ∧ shortest p = ⟨0, 0⟩) ∨
    (∃ g ∈ Shortest.grids, Shortest.neighbour? p g = some (shortest p)) ∨
      shortest p = Shortest.exact p := by
  unfold shortest
  split
  · next hp => exact .inl ⟨hp, rfl⟩
  · right
    cases hfound : Shortest.grids.findSome? (Shortest.neighbour? p) with
    | none => exact .inr rfl
    | some x =>
      obtain ⟨g, hg, hx⟩ := List.exists_of_findSome?_eq_some hfound
      exact .inl ⟨g, hg, hx⟩

/-- **The shortest decimal reads back.** -/
theorem nearest_shortest (p : Nat) : (shortest p).nearest = p := by
  rcases shortest_cases p with ⟨rfl, h⟩ | ⟨g, -, h⟩ | h
  · rw [h]
    exact Binary.nearest_zero 1
  · exact Shortest.nearest_of_neighbour? h
  · rw [h]
    exact Shortest.nearest_exact p

/-- The grid of the shortest decimal is one of the binary64 numbers. -/
theorem grid_shortest (p : Nat) : (shortest p).grid.natAbs ≤ 1074 := by
  rcases shortest_cases p with ⟨rfl, h⟩ | ⟨g, hg, h⟩ | h
  · rw [h]
    exact Nat.zero_le _
  · rw [Shortest.grid_of_neighbour? h]
    exact Shortest.grid_of_mem_grids hg
  · rw [h]
    exact Nat.le_refl 1074

theorem steps_shortest {p e : Nat} (h : (shortest p).grid.natAbs ≤ e) :
    (shortest p).steps ≤ Binary.units p * 10 ^ e + 1 := by
  rcases shortest_cases p with ⟨rfl, hs⟩ | ⟨g, hg, hs⟩ | hs
  · rw [hs]
    exact Nat.zero_le _
  · rw [Shortest.grid_of_neighbour? hs] at h
    exact Shortest.steps_of_neighbour? hs h
  · rw [hs] at h ⊢
    exact Nat.le_succ_of_le (Shortest.steps_exact_le p h)

/-! ### Written out -/

/-- **The length of a decimal** that is written out. -/
theorem Decimal.length_positional {x : Decimal} {a e : Nat} (ha : 0 < a) (hs : x.steps < 10 ^ a)
    (he : x.grid.natAbs ≤ e) : x.positional.length ≤ a + e + 2 := by
  obtain ⟨steps, grid⟩ := x
  cases grid with
  | ofNat g =>
    have hwhole : steps * Nat.pow 10 g < 10 ^ (a + g) := by
      rw [Nat.pow_add]
      exact Nat.mul_lt_mul_of_pos_right hs (Nat.pow_pos (by decide))
    have hlength := length_decimalDigits (Nat.add_pos_left ha g) hwhole
    have hg : g ≤ e := he
    show (decimalDigits (steps * Nat.pow 10 g) ++ ['.', '0']).length ≤ _
    rw [List.length_append]
    exact Nat.add_le_add_right (hlength.trans (Nat.add_le_add_left hg a)) 2
  | negSucc g =>
    have hwhole : steps / Nat.pow 10 (g + 1) < 10 ^ a :=
      Nat.lt_of_le_of_lt (Nat.div_le_self ..) hs
    have hlength := length_decimalDigits ha hwhole
    have hg : g + 1 ≤ e := he
    show (decimalDigits (steps / Nat.pow 10 (g + 1)) ++ '.' :: lastDigits (g + 1) steps).length ≤ _
    rw [List.length_append, List.length_cons, length_lastDigits (Nat.succ_pos g)]
    omega

/-- The length by the exponent of the magnitude and the grid. -/
theorem length_positional_le {p k e : Nat} (h : p < (k + 1) * Binary.leadingBit)
    (hgrid : (shortest p).grid.natAbs ≤ e) :
    (shortest p).positional.length ≤ 53 + k + e + 1 + e + 2 := by
  have hone : 1 ≤ 10 ^ e := Nat.pow_pos (by decide)
  have hsteps : (shortest p).steps < 10 ^ (53 + k + e + 1) := by
    calc (shortest p).steps ≤ Binary.units p * 10 ^ e + 1 := steps_shortest hgrid
      _ ≤ (Binary.units p + 1) * 10 ^ e := by rw [Nat.succ_mul]; exact Nat.add_le_add_left hone _
      _ ≤ 10 ^ (53 + k) * 10 ^ e := Nat.mul_le_mul_right _ (Binary.units_lt h)
      _ = 10 ^ (53 + k + e) := (Nat.pow_add ..).symm
      _ < 10 ^ (53 + k + e + 1) := Nat.pow_lt_pow_succ (by decide)
  exact Decimal.length_positional (Nat.succ_pos _) hsteps hgrid

/-- **The shortest decimal is short**, also when it is written out. -/
theorem length_positional_shortest {p : Nat} (h : p < Binary.infinite) :
    (shortest p).positional.length < 2147483648 :=
  (length_positional_le (k := 2046) h (grid_shortest p)).trans_lt (by decide)

end PocketCalculator
