import PocketCalculator.Text.Blank

/-!
# The alphabet of expressions

A quick test of free text before it goes into the entry of a keypad. It looks at
characters only; whether the text is an expression shows when it is evaluated.

* `inAlphabet`: digits, point, space, operators, parentheses and small letters.
* `isTypeable`: a text of such characters that is not blank.
-/

namespace PocketCalculator

/-- **The characters of expressions**: digits, point, space, operators, parentheses, and
the small letters that function names are made of. -/
def inAlphabet (c : Char) : Bool :=
  c.isDigit || c.isLower || ['.', ' ', '+', '-', '*', '/', '^', '(', ')'].contains c

/-- Whether a text can be typed: it is not blank and all its characters are those of
expressions. -/
def isTypeable (s : String) : Bool := !Text.isAllBlank s && s.toList.all inAlphabet

end PocketCalculator
