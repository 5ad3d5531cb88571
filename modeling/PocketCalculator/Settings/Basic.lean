import PocketCalculator.Display.Style

/-!
# Settings

What a user can set: how results and errors are shown, and how long the entry of a
keypad may get.

* `Settings.check`: the two rules that settings from a file have to keep.
* `SettingsError.message`: the wording of what can be wrong with a settings file.
-/

namespace PocketCalculator

/-- How results and errors are shown. -/
structure DisplaySettings where
  style : Style := .plain
  /-- The text shown in place of a result when there is none. -/
  errorText : String := "Error"
  deriving DecidableEq, Repr

/-- How much a keypad takes in. -/
structure EntrySettings where
  /-- The greatest length of the entry, in bytes. -/
  maxLength : UInt64 := 256
  deriving DecidableEq, Repr

/-- All settings, with what holds when nothing is set. -/
structure Settings where
  display : DisplaySettings := {}
  entry : EntrySettings := {}
  deriving DecidableEq, Repr

/-- Why a settings file gives no settings. -/
inductive SettingsError where
  /-- The file at this path cannot be read as text, for this reason. -/
  | unreadable (path reason : String)
  /-- The file at this path is no settings document. -/
  | malformed (path : String)
  /-- No entry could ever be made. -/
  | noLength
  /-- A failure would show nothing. -/
  | noErrorText
  deriving DecidableEq, Repr

namespace SettingsError

/-- The wording of a settings error. -/
def message : SettingsError → String
  | unreadable path _ => "Failed to read config file: " ++ path
  | malformed path => "Failed to parse config file: " ++ path
  | noLength => "input.max_length must be > 0"
  | noErrorText => "display.error_text must not be empty"

/-- What lies behind a settings error, where there is more to say. -/
def cause? : SettingsError → Option String
  | unreadable _ reason => some reason
  | _ => none

end SettingsError

namespace Settings

/-- **The rules of settings**: room for an entry, then a text for errors. -/
def check (s : Settings) : Except SettingsError Settings :=
  if s.entry.maxLength = 0 then .error .noLength
  else if s.display.errorText.isEmpty then .error .noErrorText
  else .ok s

/-- **What passes** is unchanged, and keeps both rules. -/
theorem check_eq_ok_iff {s t : Settings} :
    s.check = .ok t ↔ t = s ∧ s.entry.maxLength ≠ 0 ∧ s.display.errorText.isEmpty = false := by
  unfold check
  by_cases length : s.entry.maxLength = 0
  · simp [length]
  · by_cases empty : s.display.errorText.isEmpty = true
    · simp [length, empty]
    · simp [length, empty, eq_comm]

/-- The default settings keep the rules. -/
theorem check_default : check {} = .ok {} := rfl

end Settings

end PocketCalculator
