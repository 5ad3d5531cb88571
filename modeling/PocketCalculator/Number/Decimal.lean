import PocketCalculator.Number.Binary

/-!
# Decimal numbers

A decimal number is a whole number of steps of a decimal grid: `⟨d, g⟩` stands for
`d * 10^g`. Literals are read through it, and the shortest text of a number is
looked for among decimals.

* `digitsValue_decimalDigits`: the digits of a whole number are read back.
* `Decimal.nearest`: the binary magnitude nearest to a decimal.
* `Decimal.ofText?`: the decimal that digits with at most one point stand for.
-/

namespace PocketCalculator

/-- The number `steps * 10^grid`, which is never negative. -/
structure Decimal where
  steps : Nat
  grid : Int
  deriving DecidableEq, Repr

/-- The value of a run of decimal digits, the most significant first. -/
def digitsValue (ds : List Char) : Nat := Nat.ofDigitChars 10 ds 0

/-- The decimal digits of `n`, the most significant first. -/
def decimalDigits (n : Nat) : List Char := Nat.toDigits 10 n

/-- **Digits are read back** as the number they were written for. -/
theorem digitsValue_decimalDigits (n : Nat) : digitsValue (decimalDigits n) = n :=
  Nat.ofDigitChars_toDigits (by decide) (by decide)

/-- The last `places` decimal digits of `n`, zeros included. -/
def lastDigits (places n : Nat) : List Char :=
  (decimalDigits (n % Nat.pow 10 places)).leftpad places '0'

namespace Decimal

/-- The magnitude of the binary64 number nearest to a decimal. -/
def nearest (x : Decimal) : Nat :=
  match x.grid with
  | .ofNat g => Binary.nearest (x.steps * Nat.pow 10 g) 1
  | .negSucc g => Binary.nearest x.steps (Nat.pow 10 (g + 1))

/-- The binary64 number nearest to a decimal, if that is a finite one. -/
def toFloat? (x : Decimal) : Option Float :=
  if x.nearest < Binary.infinite then some (Binary.ofMagnitude x.nearest) else none

/-- **Digits with at most one point.** There has to be a digit, before or after the
point. -/
def ofText? (cs : List Char) : Option Decimal :=
  let ds := cs.filter Char.isDigit
  if cs.all (fun c => c.isDigit || c == '.') && cs.count '.' ≤ 1 && !ds.isEmpty then
    some ⟨digitsValue ds, -((cs.dropWhile (· != '.')).length - 1 : Nat)⟩
  else none

end Decimal

end PocketCalculator
