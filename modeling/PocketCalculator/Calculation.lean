import PocketCalculator.Expression.Machine
import PocketCalculator.Settings.Basic
import PocketCalculator.Text.Blank

/-!
# Calculations

A calculation is an expression without the blanks around it, its outcome, and the text
that the display shows for it.

* `calculate`: the calculation of a text under display settings.
-/

namespace PocketCalculator

/-- An expression, its value or fault, and the text shown for it. -/
structure Calculation where
  expression : String
  outcome : Except Fault Float
  shown : String

/-- Whether there is a value. -/
def Calculation.succeeded (c : Calculation) : Bool :=
  match c.outcome with
  | .ok _ => true
  | .error _ => false

/-- The text shown for an outcome. -/
def DisplaySettings.show (d : DisplaySettings) : Except Fault Float → String
  | .ok x => d.style.write x
  | .error _ => d.errorText

/-- **The calculation of a text**: its blanks are trimmed, it is evaluated, and the
outcome is written as the settings ask. -/
def calculate (input : String) (d : DisplaySettings) : Calculation :=
  let expression := Text.trim input
  let outcome := evaluate expression
  ⟨expression, outcome, d.show outcome⟩

end PocketCalculator
