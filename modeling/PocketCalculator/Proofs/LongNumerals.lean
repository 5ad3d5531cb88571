import PocketCalculator.Proofs.Digits
import PocketCalculator.Proofs.FirstFault
import PocketCalculator.Proofs.Pieces

/-!
# Numerals that are too long to count

The word that counts the digits of a run is below zero when there are `2^31` of them. A numeral whose count
does not end above zero is no literal, though it may stand for a finite number: it is a stray run like any
other, and a text that begins with it has no value.

* `Literal.scan_of_wrapped`, `Literal.evaluate_of_wrapped`: what a miscounted numeral is read as.
* `Literal.isFiniteLiteral_zeros`, `Literal.wrapped_zeros`: zeros stand for zero, and `2^31` of them are
  miscounted.
-/

namespace PocketCalculator.Literal

section

variable {run : List Char} (h : IsNumeral run) (hcount : wrapped (run.countP Char.isDigit) ≤ 0)

include h hcount

/-- **A miscounted numeral** has no token. -/
theorem scan_of_wrapped : scan (String.ofList run) = [⟨String.ofList run, 0, none⟩] := by
  have hnumeral : IsNumeral (String.ofList run).toList := by rwa [String.toList_ofList]
  have hvalue : value? run = none := value?_eq_none_iff.2 fun _ _ => hcount
  rw [scan_of_isNumeral hnumeral, String.toList_ofList, hvalue]
  rfl

/-- **A miscounted numeral** is a stray run. -/
theorem evaluate_of_wrapped :
    evaluate (String.ofList run) = .error (.unrecognized (String.ofList run) 0) :=
  evaluate_eq_unrecognized_iff.2 ⟨[], [], .start, scan_of_wrapped h hcount, rfl, rfl⟩

end

/-! ### Zeros -/

variable (n : Nat)

theorem countP_zeros : (List.replicate n '0').countP Char.isDigit = n := by
  rw [List.countP_eq_length_filter, Decimal.filter_isDigit (allDigits_zeros n), List.length_replicate]

theorem isFiniteLiteral_zeros (hn : 0 < n) : IsFiniteLiteral (List.replicate n '0') 0 := by
  have hne : List.replicate n '0' ≠ [] := by simpa using hn.ne'
  rw [isFiniteLiteral_iff, Decimal.ofText?_whole (allDigits_zeros n) hne, digitsValue_zeros]
  decide +kernel

/-- The count of `2^31` zeros is not above zero. -/
theorem wrapped_zeros : wrapped ((List.replicate 2147483648 '0').countP Char.isDigit) ≤ 0 := by
  rw [countP_zeros]
  decide

end PocketCalculator.Literal
