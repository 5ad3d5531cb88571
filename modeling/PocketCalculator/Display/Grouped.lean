import PocketCalculator.Number.Decimal

/-!
# Grouped style

A number in grouped style is rounded to ten decimal places, without the zeros at the
end of the fraction, and with a comma before every third digit of its whole part. A
whole number below `10^15` is written from its integer value.

* `groupDigits`: the commas of a run of digits.
* `groupedInteger`: the text of a whole number.
* `groupedRounded`: the text of a number that is rounded.
-/

namespace PocketCalculator.Display

/-- Pushes digits behind a text, with a comma before every third of them. -/
def pushDigits (result : List Char) (i : Nat) : List Char → List Char
  | [] => result
  | c :: rest =>
    let result := if 0 < i ∧ i % 3 = 0 then result ++ [','] else result
    pushDigits (result ++ [c]) (i + 1) rest

/-- **Digits with commas**, which are counted from the last digit. -/
def groupDigits (digits : List Char) : List Char := (pushDigits [] 0 digits.reverse).reverse

/-- The places that grouped style rounds to. -/
def groupedPlaces : Nat := 10

/-- The number of grouped steps in one, `10^10`. -/
def groupedSteps : Nat := Nat.pow 10 groupedPlaces

/-- The whole numbers below this bound are written from their integer value. -/
def wholeBound : Nat := Nat.pow 10 15

/-- The whole number of a finite magnitude, if it is one below `wholeBound`. -/
def smallWhole? (p : Nat) : Option Nat :=
  let u := Binary.units p
  let n := u / Binary.unitsInOne
  if u % Binary.unitsInOne = 0 ∧ n < wholeBound then some n else none

/-- **An integer with commas.** Zero has no sign. -/
def groupedInteger (n : Int) : List Char :=
  let digits := decimalDigits n.natAbs
  if n < 0 then '-' :: groupDigits digits else groupDigits digits

/-- The grouped steps nearest to a magnitude. -/
def nearestSteps (p : Nat) : Nat := roundDiv (Binary.units p * groupedSteps) Binary.unitsInOne

/-- The sign in front of a text. -/
def signChars (negative : Bool) : List Char := if negative then ['-'] else []

/-- A number with the given sign bit and magnitude, rounded to ten places. All places are
written. -/
def fixedPlaces (negative : Bool) (p : Nat) : List Char :=
  signChars negative ++ decimalDigits (nearestSteps p / groupedSteps) ++
    '.' :: lastDigits groupedPlaces (nearestSteps p)

/-- A text without the given character at its end, however often it stands there. -/
def trimEnd (c : Char) (cs : List Char) : List Char := (cs.reverse.dropWhile (· == c)).reverse

/-- Splits the sign off a text. -/
def splitSign : List Char → List Char × List Char
  | '-' :: rest => (['-'], rest)
  | digits => ([], digits)

/-- Splits digits in front of their point, or behind them if they have none. -/
def splitPoint (digits : List Char) : List Char × List Char :=
  digits.splitAt ((digits.findIdx? (· == '.')).getD digits.length)

/-- **A number rounded to ten places**, with commas in its whole part. The zeros at the end
of the fraction are taken off, and the point if nothing is left behind it. The sign is split
off with the text, so that `-0.5` keeps it. -/
def groupedRounded (negative : Bool) (p : Nat) : List Char :=
  let trimmed := trimEnd '.' (trimEnd '0' (fixedPlaces negative p))
  let (sign, digits) := splitSign trimmed
  let (whole, fraction) := splitPoint digits
  sign ++ groupDigits whole ++ fraction

/-- The text of a finite number with the given sign bit and magnitude. -/
def groupedChars (negative : Bool) (p : Nat) : List Char :=
  match smallWhole? p with
  | some n => groupedInteger (if negative then -(n : Int) else n)
  | none => groupedRounded negative p

end PocketCalculator.Display
