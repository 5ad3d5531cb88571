import PocketCalculator.Command.Arguments
import PocketCalculator.Command.Outcome
import PocketCalculator.Keypad.Basic
import PocketCalculator.Settings.File

/-!
# Running a command

The three jobs: evaluating an expression, pressing keys, and a session of lines from
the standard input. All of them write the display, a line at a time.

* `evaluateJob`, `pressJob`, `sessionJob`: the outcome of each job.
* `sessionLine`: one line of a session.
* `run`: a job under the settings of the file that is found.
-/

namespace PocketCalculator.Command

/-- The name and the number of this program. -/
def versionLine : String := "scicalc 0.4.0\n"

/-- **Evaluates an expression.** The display is written in either case. -/
def evaluateJob (expression : String) (d : DisplaySettings) : Outcome :=
  let c := calculate expression d
  let failure? := match c.outcome with
    | .ok _ => none
    | .error f => some (Failure.evaluation expression f)
  ⟨c.shown ++ "\n", failure?⟩

/-- The row of a key: its label in a column of six, and the display. -/
def row (label display : String) : String :=
  String.ofList (label.toList.leftpad 6 ' ') ++ "  " ++ display ++ "\n"

/-- **Presses keys**, with a row for each, up to the first label that no key has. -/
def pressJob (k : Keypad) : List String → Outcome
  | [] => ⟨"", none⟩
  | label :: rest =>
    match Key.ofLabel label with
    | .error u => ⟨"", some (.key u)⟩
    | .ok key =>
      let (k, shown) := k.answerKey key
      let behind := pressJob k rest
      { behind with output := row label shown ++ behind.output }

/-- **The lines of the input.** A line ends with a line feed, and with a carriage return in
front of it if there is one. Behind the last line feed there is a line only if something is
left. -/
def splitLines : List UInt8 → List (List UInt8)
  | [] => []
  | b :: rest =>
    if b = 10 then [] :: splitLines rest
    else if b = 13 ∧ rest.head? = some 10 then splitLines rest
    else
      match splitLines rest with
      | [] => [[b]]
      | line :: lines => (b :: line) :: lines

/-- **One line of a session**: the keypad behind it, and what is written. Blank lines
write nothing. -/
def sessionLine (k : Keypad) (line : ByteArray) : Except Failure (Keypad × String) :=
  match String.fromUTF8? line with
  | none => .error (.unreadableLine Settings.notText)
  | some text =>
    if Text.isAllBlank text then .ok (k, "")
    else
      let (k, shown) := k.answerLine text
      .ok (k, shown ++ "\n")

/-- **A session** over lines of input, up to the first that is no text. -/
def sessionJob (k : Keypad) : List (List UInt8) → Outcome
  | [] => ⟨"", none⟩
  | line :: rest =>
    match sessionLine k ⟨line.toArray⟩ with
    | .error f => ⟨"", some f⟩
    | .ok (k, written) =>
      let behind := sessionJob k rest
      { behind with output := written ++ behind.output }

/-- The outcome of a job under settings. -/
def runJob (s : Settings) (input : ByteArray) : Job → Outcome
  | .evaluate expression => evaluateJob expression s.display
  | .press labels => pressJob (.fresh s) labels
  | .session => sessionJob (.fresh s) (splitLines input.toList)

/-- **Where a command runs**: the files that it may look for, the path of its usual settings
file if there is one, and its standard input. -/
structure Surroundings where
  disk : String → FileView
  usualFile? : Option String
  input : ByteArray

/-- **A job under the settings of a file**, which the options name or which is the usual one.
Nothing runs under settings that break the rules. -/
def run (F : Document.Format) (here : Surroundings) (o : Options) (t : Job) : Outcome :=
  match Settings.load F here.disk o.settingsFile? here.usualFile? with
  | .error e => ⟨"", some (.settings e)⟩
  | .ok s => runJob s here.input t

end PocketCalculator.Command
