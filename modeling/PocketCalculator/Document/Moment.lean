import PocketCalculator.Document.Reader

/-!
# Dates and times

A moment is a date, a time of day, or both with an optional offset from universal time.
Seconds may be left out, and a second may have a fraction.

* `isMoment`: whether characters are a moment.
-/

namespace PocketCalculator.Document

namespace Moment

/-- Reads so many decimal digits. -/
def digits (count : Nat) : Reader Nat := fun cs =>
  let ds := cs.take count
  if ds.length = count ∧ ds.all Char.isDigit then
    some (Nat.ofDigitChars 10 ds 0, cs.drop count)
  else none

/-- Reads a number of two digits between two bounds. -/
def twoDigits (least greatest : Nat) : Reader Unit := do
  let n ← digits 2
  if n < least ∨ greatest < n then failure

/-- The number of days of a month. -/
def daysIn (year month : Nat) : Nat :=
  if month = 2 then
    if (year % 4 = 0 ∧ year % 100 ≠ 0) ∨ year % 400 = 0 then 29 else 28
  else if [4, 6, 9, 11].contains month then 30
  else 31

/-- Reads a date of the calendar, such as `1979-05-27`. -/
def date : Reader Unit := do
  let year ← digits 4
  Reader.expect '-'
  let month ← digits 2
  if month < 1 ∨ 12 < month then failure
  Reader.expect '-'
  twoDigits 1 (daysIn year month)

/-- Reads the fraction of a second, if one is written. -/
def secondFraction : Reader Unit := do
  if ← Reader.accept '.' then
    let ds ← Reader.takeRun Char.isDigit
    if ds.isEmpty then failure

/-- Reads a time of day, such as `07:32:00.5`. A minute may have a leap second. -/
def clock : Reader Unit := do
  twoDigits 0 23
  Reader.expect ':'
  twoDigits 0 59
  if ← Reader.accept ':' then
    twoDigits 0 60
    secondFraction

/-- Reads an offset from universal time, if one is written. -/
def offset : Reader Unit := fun cs =>
  match cs with
  | [] => some ((), [])
  | c :: rest =>
    if c = 'Z' ∨ c = 'z' then some ((), rest)
    else if c = '+' ∨ c = '-' then
      (do twoDigits 0 23; Reader.expect ':'; twoDigits 0 59 : Reader Unit) rest
    else none

/-- Reads what may stand between a date and a time. -/
def separator : Reader Unit := fun cs =>
  match cs with
  | c :: rest => if c = 'T' ∨ c = 't' ∨ c = ' ' then some ((), rest) else none
  | [] => none

/-- The forms of a moment. -/
def forms : List (Reader Unit) :=
  [date, clock, do date; separator; clock; offset]

end Moment

/-- **Moments of time**, alone in their text. -/
def isMoment (cs : List Char) : Bool :=
  Moment.forms.any fun form => (form.takeAll cs).isSome

/-- Whether characters are a date alone. -/
def isDate (cs : List Char) : Bool := (Reader.takeAll Moment.date cs).isSome

end PocketCalculator.Document
