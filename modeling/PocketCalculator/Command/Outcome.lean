import PocketCalculator.Expression.Fault
import PocketCalculator.Keypad.Key
import PocketCalculator.Settings.Basic

/-!
# Outcomes of a command

A command writes some output and succeeds, or it fails and reports why. A report has a
message and, where there is one, the cause behind it, indented by four spaces.

* `Failure.message`, `Failure.cause?`: the wording of a failure.
* `Failure.report`: the report of a failure.
* `Outcome.status`: the exit status.
-/

namespace PocketCalculator.Command

/-- Why a command fails. -/
inductive Failure where
  | settings (e : SettingsError)
  | evaluation (expression : String) (f : Fault)
  | key (u : UnknownKey)
  /-- A line of the session is no text, for this reason. -/
  | unreadableLine (reason : String)
  deriving DecidableEq, Repr

namespace Failure

/-- What has failed. -/
def message : Failure → String
  | settings e => e.message
  | evaluation expression _ => "Failed to evaluate `" ++ expression ++ "`"
  | key u => u.message
  | unreadableLine _ => "Failed to read from stdin"

/-- What lies behind a failure. -/
def cause? : Failure → Option String
  | settings e => e.cause?
  | evaluation _ f => some f.message
  | key _ => none
  | unreadableLine reason => some reason

/-- The indentation of a cause. -/
def indent : List Char := [' ', ' ', ' ', ' ']

/-- A text with every line indented. -/
def indented (s : String) : String :=
  String.ofList (indent ++ s.toList.flatMap fun c => if c = '\n' then '\n' :: indent else [c])

/-- **The report of a failure.** -/
def report (f : Failure) : String :=
  let head := "Error: " ++ f.message ++ "\n"
  match f.cause? with
  | none => head
  | some cause => head ++ "\nCaused by:\n" ++ indented cause ++ "\n"

end Failure

/-- What a command writes, and why it fails if it does. -/
structure Outcome where
  output : String
  failure? : Option Failure
  deriving DecidableEq, Repr

/-- The exit status of a command that could be followed. -/
def Outcome.status (o : Outcome) : Nat := if o.failure?.isSome then 1 else 0

/-- The exit status for a command line that cannot be followed. -/
def usageStatus : Nat := 2

end PocketCalculator.Command
