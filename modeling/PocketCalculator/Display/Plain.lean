import PocketCalculator.Number.Shortest

/-!
# Plain style

A number in plain style is its shortest decimal text that reads back. Zero and the
numbers from `10^-4` to below `10^16` are written out, with a point and at least one
digit after it; all others have one digit before the point and an exponent, as in
`1.5e-7`.

* `plainDigits_positional`, `plainDigits_scientific`: which of the two is written.
-/

namespace PocketCalculator

/-- The scientific order of a decimal: the power of ten of its first digit. -/
def Decimal.order (x : Decimal) : Int := x.grid + ((decimalDigits x.steps).length - 1 : Nat)

/-- **Written out**, with at least one digit after the point. -/
def Decimal.positional (x : Decimal) : List Char :=
  match x.grid with
  | .ofNat g => decimalDigits (x.steps * Nat.pow 10 g) ++ ['.', '0']
  | .negSucc g =>
    decimalDigits (x.steps / Nat.pow 10 (g + 1)) ++ '.' :: lastDigits (g + 1) x.steps

/-- **With an exponent.** The point is left out when no digit follows it, and so is the
plus sign of the exponent. -/
def Decimal.scientific (x : Decimal) : List Char :=
  let exponent := 'e' :: (toString x.order).toList
  match decimalDigits x.steps with
  | [] => exponent
  | [d] => d :: exponent
  | d :: rest => d :: '.' :: rest ++ exponent

namespace Display

/-- The least magnitude that plain style writes out, but for zero. -/
def leastWrittenOut : Nat := Binary.nearest 1 (Nat.pow 10 4)

/-- The magnitude from which on plain style writes an exponent. -/
def writtenOutBound : Nat := Binary.nearest (Nat.pow 10 16) 1

/-- Whether plain style writes a finite magnitude out. -/
def isWrittenOut (p : Nat) : Bool := p == 0 || (leastWrittenOut ≤ p && p < writtenOutBound)

/-- The plain digits of a finite magnitude. -/
def plainDigits (p : Nat) : List Char :=
  if isWrittenOut p then (shortest p).positional else (shortest p).scientific

theorem plainDigits_positional {p : Nat} (h : isWrittenOut p = true) :
    plainDigits p = (shortest p).positional := by
  simp [plainDigits, h]

theorem plainDigits_scientific {p : Nat} (h : isWrittenOut p = false) :
    plainDigits p = (shortest p).scientific := by
  simp [plainDigits, h]

end Display

end PocketCalculator
