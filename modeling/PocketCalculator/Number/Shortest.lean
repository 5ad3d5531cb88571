import PocketCalculator.Number.Decimal

/-!
# The shortest decimal that reads back

A decimal **reads back** as a magnitude when that magnitude is the nearest one to
it. `shortest` looks through the decimal grids from the coarsest to the finest and
takes the first that holds a decimal which reads back; on a grid only the two
neighbours of the exact value can be the nearest. Of two neighbours that both read
back the nearer is taken, and the greater if they are equally near.

* `nearest_of_neighbour?`: what is found on a grid reads back.
* `grid_of_neighbour?`: and it lies on that grid.
-/

namespace PocketCalculator.Shortest

/-- The value of the magnitude `p` counted in steps of the grid `10^g`, as a
numerator and a denominator. -/
def inSteps (p : Nat) : Int → Nat × Nat
  | .ofNat g => (Binary.units p, Binary.unitsInOne * Nat.pow 10 g)
  | .negSucc g => (Binary.units p * Nat.pow 10 (g + 1), Binary.unitsInOne)

/-- The nearer neighbour of the magnitude `p` on the grid `10^g` that reads back as
`p`, if one does. -/
def neighbour? (p : Nat) (g : Int) : Option Decimal :=
  let (n, d) := inSteps p g
  let below : Decimal := ⟨n / d, g⟩
  let above : Decimal := ⟨n / d + 1, g⟩
  if below.nearest = p ∧ (2 * (n % d) < d ∨ above.nearest ≠ p) then some below
  else if above.nearest = p then some above
  else none

/-- **What is found reads back.** -/
theorem nearest_of_neighbour? {p : Nat} {g : Int} {x : Decimal} (h : neighbour? p g = some x) :
    x.nearest = p := by
  unfold neighbour? at h
  simp only at h
  split at h
  · next hb => cases h; exact hb.1
  · split at h
    · next ha => cases h; exact ha
    · cases h

theorem grid_of_neighbour? {p : Nat} {g : Int} {x : Decimal} (h : neighbour? p g = some x) :
    x.grid = g := by
  unfold neighbour? at h
  simp only at h
  split at h
  · cases h; rfl
  · split at h
    · cases h; rfl
    · cases h

/-- The exact value of a magnitude as a decimal: `2^-1074` is `5^1074 * 10^-1074`. -/
def exact (p : Nat) : Decimal := ⟨Binary.units p * Nat.pow 5 1074, -1074⟩

/-- The grids of the finite numbers, the coarsest first. -/
def grids : List Int := (List.range 1383).map fun (i : Nat) => 308 - (i : Int)

end PocketCalculator.Shortest

namespace PocketCalculator

/-- **The shortest decimal that reads back** as the finite magnitude `p`. -/
def shortest (p : Nat) : Decimal :=
  if p = 0 then ⟨0, 0⟩
  else (Shortest.grids.findSome? (Shortest.neighbour? p)).getD (Shortest.exact p)

end PocketCalculator
