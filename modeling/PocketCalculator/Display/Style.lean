import PocketCalculator.Display.Plain
import PocketCalculator.Display.Grouped

/-!
# Writing a number

The two styles in which results are shown. What is not a finite number is written
`NaN`, `Infinity` or `-Infinity` in both.

* `Style.write`: the text of a number.
-/

namespace PocketCalculator

/-- How the display writes numbers. -/
inductive Style where
  /-- The shortest text that reads back. -/
  | plain
  /-- At most ten decimal places, and commas between the thousands. -/
  | grouped
  deriving DecidableEq, Repr

namespace Style

/-- The name of a style in a settings file. -/
def name : Style → String
  | plain => "plain"
  | grouped => "grouped"

/-- The style of that name. -/
def ofName? (s : String) : Option Style :=
  if s = "plain" then some plain else if s = "grouped" then some grouped else none

theorem ofName?_name (style : Style) : ofName? style.name = some style := by
  cases style <;> rfl

theorem name_of_ofName? {s : String} {style : Style} (h : ofName? s = some style) : style.name = s := by
  unfold ofName? at h
  split at h
  · next hs => cases h; exact hs.symm
  · split at h
    · next hs => cases h; exact hs.symm
    · cases h

/-- The characters of a number in a style. -/
def writeChars (style : Style) (x : Float) : List Char :=
  let p := Binary.magnitude x
  let negative := Binary.isNegative x
  let sign := if negative then ['-'] else []
  if Binary.infinite < p then "NaN".toList
  else if p = Binary.infinite then sign ++ "Infinity".toList
  else
    match style with
    | plain => sign ++ Display.plainDigits p
    | grouped => Display.groupedChars negative p

/-- **The text of a number** in a style. -/
def write (style : Style) (x : Float) : String := String.ofList (style.writeChars x)

end Style

end PocketCalculator
