import PocketCalculator.Calculation
import PocketCalculator.Expression.Alphabet
import PocketCalculator.Keypad.Key

/-!
# The keypad

A keypad has an entry, which keys and typed text are appended to, a display, and the
last calculation made. The display shows the entry, or the outcome of a calculation
right after it was made. An entry never grows beyond the length that is set.

* `answerKey`, `press`: one key, with and without the text that it returns.
* `write`: free text, taken whole or not at all.
* `answerLine`, `submit`: a line of input, which is a key, a text, or a text to be evaluated
  at once; with and without the text that it returns.
-/

namespace PocketCalculator

/-- A keypad. -/
structure Keypad where
  settings : Settings
  /-- What has been entered so far. -/
  entry : String := ""
  /-- What the display shows. -/
  display : String := ""
  /-- The latest calculation. -/
  last? : Option Calculation := none

namespace Keypad

/-- A keypad on which nothing has been entered. -/
def fresh (settings : Settings) : Keypad := { settings }

/-- Whether a text still fits behind the entry. -/
def hasRoom (k : Keypad) (text : String) : Bool :=
  k.entry.utf8ByteSize + text.utf8ByteSize ≤ k.settings.entry.maxLength.toNat

theorem hasRoom_iff {k : Keypad} {text : String} : k.hasRoom text = true ↔
    k.entry.utf8ByteSize + text.utf8ByteSize ≤ k.settings.entry.maxLength.toNat :=
  decide_eq_true_iff

/-- The keypad with a new entry on its display. -/
def withEntry (k : Keypad) (entry : String) : Keypad := { k with entry, display := entry }

/-- The entry with a text behind it, if that fits, on the display. -/
def append (k : Keypad) (text : String) : Keypad :=
  k.withEntry (if k.hasRoom text then k.entry ++ text else k.entry)

/-- **Evaluates the entry**, which is emptied whether or not it has a value. -/
def evaluateEntry (k : Keypad) : Keypad :=
  let c := calculate k.entry k.settings.display
  { k with entry := "", display := c.shown, last? := some c }

/-- The keypad, and the text on its display to return. -/
def showing (k : Keypad) : Keypad × String := (k, k.display)

/-- **Presses a key**, and returns a text. -/
def answerKey (k : Keypad) (key : Key) : Keypad × String :=
  match key with
  | .equals => k.evaluateEntry.showing
  | .clear => (k.withEntry "").showing
  | .delete => (k.withEntry (String.ofList k.entry.toList.dropLast)).showing
  | key => (k.append (key.text?.getD "")).showing

/-- The keypad that a key leaves. -/
def press (k : Keypad) (key : Key) : Keypad := (k.answerKey key).1

/-- **Appends free text**, and tells whether it did. Text that cannot be typed changes
nothing; text that does not fit leaves the entry, and puts it on the display. -/
def write (k : Keypad) (text : String) : Keypad × Bool :=
  if isTypeable text then (k.append text, k.hasRoom text) else (k, false)

/-- The text before an `=` at the end of a line. -/
def beforeEquals? (line : List Char) : Option (List Char) :=
  if line.getLast? = some '=' then some line.dropLast else none

/-- **Takes a line of input**, and returns a text. Blanks around the line do not count, and
a blank line changes nothing. A line that is the label of a key presses it. Any other line
is appended, and evaluated if it ends in `=`; what cannot be appended is not evaluated. -/
def answerLine (k : Keypad) (input : String) : Keypad × String :=
  let line := Text.trim input
  if line.isEmpty then k.showing
  else
    match Key.ofLabel? line with
    | some key => k.answerKey key
    | none =>
      match beforeEquals? line.toList with
      | none => (k.write line).1.showing
      | some front =>
        let text := String.ofList front
        if Text.isAllBlank text then k.answerKey .equals
        else
          let (written, taken) := k.write text
          if taken then written.answerKey .equals else written.showing

/-- The keypad that a line leaves. -/
def submit (k : Keypad) (input : String) : Keypad := (k.answerLine input).1

@[simp] theorem showing_fst (k : Keypad) : k.showing.1 = k := rfl

@[simp] theorem showing_snd (k : Keypad) : k.showing.2 = k.display := rfl

end Keypad

end PocketCalculator
