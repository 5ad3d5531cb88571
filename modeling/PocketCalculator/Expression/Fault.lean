import PocketCalculator.Expression.Operation

/-!
# Faults of an expression

Why an expression has no value. Arithmetic gives no fault: a division by zero or a
square root of a negative number has an infinity or `NaN` as its value.

* `Fault.message`: the wording.
-/

namespace PocketCalculator

/-- Why an expression has no value. -/
inductive Fault where
  /-- A run of characters at a byte offset is no number and no function. -/
  | unrecognized (text : String) (offset : Nat)
  /-- A `)` closes nothing, or a `(` is never closed. -/
  | unbalanced
  /-- An operation has fewer operands than it takes. -/
  | missingOperand (operation : Operation)
  /-- This many values are left at the end, and it is not one. -/
  | leftover (count : Nat)
  deriving DecidableEq, Repr

/-- The wording of a fault. -/
def Fault.message : Fault → String
  | unrecognized text offset => "unrecognized token `" ++ text ++ "` at offset " ++ toString offset
  | unbalanced => "unbalanced parentheses"
  | missingOperand operation => "not enough operands for `" ++ operation.symbol ++ "`"
  | leftover count => "expected a single result, found " ++ toString count ++ " values"

end PocketCalculator
