import PocketCalculator.Document.Value
import PocketCalculator.Number.Decimal

/-!
# Numbers in documents

Integers are decimal with an optional sign, or hexadecimal, octal or binary without
one. Reals have a point, an exponent, or both. A decimal number has no needless zero at
its front.

A number is recognised by its form when a document is read. Its value is looked at
later, if at all: a decimal integer with an underscore may have other characters among
its digits, a prefix may have no digits behind it, and a number may be too large. What
has the form and no value is an unusable value of the document.

* `underscoresFit`: where underscores may stand.
* `radix?`, `integer?`, `real?`: the three forms of numbers.
* `numeral?`: the value of a number.
-/

namespace PocketCalculator.Document

/-- The value of a digit, letters counting from ten on. -/
def digitValue (c : Char) : Nat :=
  if c.isDigit then c.toNat - '0'.toNat else c.toLower.toNat - 'a'.toNat + 10

/-- Digits of a base up to thirty-six. -/
def isDigitOf (base : Nat) (c : Char) : Bool := c.isAlphanum && digitValue c < base

/-- The number that digits stand for in a base. -/
def valueInBase (base : Nat) (ds : List Char) : Nat :=
  ds.foldl (fun n c => base * n + digitValue c) 0

/-- **Where underscores may stand**: between two digits, or between a sign and a digit.
The flag tells whether a digit or a sign stands right before. -/
def underscoresFit (isDigit : Char → Bool) : Bool → List Char → Bool
  | _, [] => true
  | behind, c :: rest =>
    if c = '_' then behind && rest.head?.any isDigit && underscoresFit isDigit false rest
    else underscoresFit isDigit (isDigit c) rest

/-- A text without its underscores. -/
def withoutUnderscores (cs : List Char) : List Char := cs.filter (· != '_')

/-- Integers from `-2^127` to `2^128 - 1` can be used. -/
def usableInteger (n : Int) : Value :=
  if -(Nat.pow 2 127 : Int) ≤ n ∧ n < (Nat.pow 2 128 : Int) then .integer n else .unusable

/-- **Integers to a base**, behind the prefix that gives the base. -/
def radix? (base : Nat) (cs : List Char) : Option Value :=
  let ds := withoutUnderscores cs
  if ds.all (isDigitOf base) && underscoresFit (isDigitOf 16) false cs then
    some (if ds = [] then .unusable else usableInteger (valueInBase base ds))
  else none

/-- A sign, and what stands behind it. -/
def splitSign : List Char → Option Char × List Char
  | '+' :: rest => (some '+', rest)
  | '-' :: rest => (some '-', rest)
  | cs => (none, cs)

/-- **Decimal integers**, without their sign. The form asks for digits only up to the first
underscore; behind it letters up to `f` pass for digits where underscores stand. -/
def integer? (signed : Bool) (cs : List Char) : Option Value :=
  let ds := withoutUnderscores cs
  if cs = [] ∨ (cs.head? = some '0' ∧ cs ≠ ['0']) then none
  else if (cs.dropWhile Char.isDigit).head?.all (· == '_') &&
      underscoresFit (isDigitOf 16) signed cs then
    some (if ds.all Char.isDigit then usableInteger (digitsValue ds) else .unusable)
  else none

/-- The digits at the front of a text, of which there has to be one, and what is behind
them. -/
def leadingDigits? (cs : List Char) : Option (List Char × List Char) :=
  let inDigits := fun c : Char => c.isDigit || c == '_'
  let ds := withoutUnderscores (cs.takeWhile inDigits)
  if ds = [] then none else some (ds, cs.dropWhile inDigits)

/-- The fraction digits at the front of a text, none if there is no point. -/
def fraction? : List Char → Option (List Char × List Char)
  | '.' :: rest => leadingDigits? rest
  | cs => some ([], cs)

/-- Whether a character begins an exponent. -/
def opensExponent (c : Char) : Bool := c == 'e' || c == 'E'

/-- The exponent that makes up a text, zero if the text is empty. -/
def exponent? : List Char → Option Int
  | [] => some 0
  | c :: rest => do
    if !opensExponent c then failure
    let (sign?, rest) := splitSign rest
    let (ds, rest) ← leadingDigits? rest
    if rest ≠ [] then failure
    let n : Int := digitsValue ds
    return if sign? = some '-' then -n else n

/-- The number without a sign that a decimal is nearest to, if it is finite. Decimals far
outside the range are decided by their length. -/
def realOf? (x : Decimal) : Option Float :=
  let order := x.grid + (decimalDigits x.steps).length
  if x.steps = 0 ∨ order < -400 then some 0
  else if 400 < order then none
  else x.toFloat?

/-- **Reals**, without their sign. -/
def real? (signed : Bool) (cs : List Char) : Option Value := do
  if !underscoresFit Char.isDigit signed cs then failure
  let (whole, rest) ← leadingDigits? cs
  if cs.head? = some '0' ∧ 1 < whole.length then failure
  let (fraction, rest) ← fraction? rest
  let exponent ← exponent? rest
  match realOf? ⟨digitsValue (whole ++ fraction), exponent - fraction.length⟩ with
  | some x => return .real x
  | none => return .unusable

/-- A number with a minus sign before it. -/
def negated : Value → Value
  | .integer n => usableInteger (-n)
  | .real x => .real (-x)
  | v => v

/-- A number without its sign and without a prefix. -/
def magnitude? (signed : Bool) (cs : List Char) : Option Value :=
  if cs = "inf".toList then some (.real (Binary.ofMagnitude Binary.infinite))
  else if cs = "nan".toList then some (.real (Binary.ofMagnitude (Binary.infinite + 1)))
  else if cs.any fun c => c == '.' || opensExponent c then real? signed cs
  else integer? signed cs

/-- **The value of a number**, if the text has the form of one. -/
def numeral? : List Char → Option Value
  | '0' :: 'x' :: rest => radix? 16 rest
  | '0' :: 'o' :: rest => radix? 8 rest
  | '0' :: 'b' :: rest => radix? 2 rest
  | cs =>
    let (sign?, rest) := splitSign cs
    let v? := magnitude? sign?.isSome rest
    if sign? = some '-' then v?.map negated else v?

end PocketCalculator.Document
