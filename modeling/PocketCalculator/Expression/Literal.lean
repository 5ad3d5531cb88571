import PocketCalculator.Number.Decimal

/-!
# Number literals

A literal is a run of ASCII digits with at most one point and at least one digit. It
stands for the nearest binary64 number, and it is no literal when that is not finite.
The digits and the points of a run are counted in signed 32-bit words.

* `Literal.isLiteral`, `Literal.value?`: the form of a literal, and its value.
-/

namespace PocketCalculator.Literal

/-- **The form of a literal**: digits and points only, by the count a digit at least and
a point at most. The counts are signed 32-bit words and wrap around. -/
def isLiteral (run : List Char) : Bool :=
  run.all (fun c => c.isDigit || c == '.') &&
    0 < Int32.ofNat (run.countP Char.isDigit) && Int32.ofNat (run.count '.') ≤ 1

/-- The value of a literal. -/
def value? (run : List Char) : Option Float :=
  if isLiteral run then (Decimal.ofText? run).bind Decimal.toFloat? else none

end PocketCalculator.Literal
