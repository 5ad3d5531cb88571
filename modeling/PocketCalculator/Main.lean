import PocketCalculator.Command.Run
import PocketCalculator.Document.Toml

/-!
# The command line program

Files, streams and the environment, and nothing else: what a command line means and what
is written for it is decided in `PocketCalculator.Command`.
-/

open PocketCalculator PocketCalculator.Command

/-- How the program is called. -/
def usageLine : String :=
  "Usage: scicalc [-c FILE] [-v]... [eval EXPR | keys KEY...]\n"

/-- The settings file that is looked for when none is given. -/
def usualSettingsFile? : IO (Option String) := do
  match ← IO.getEnv "XDG_CONFIG_HOME", ← IO.getEnv "HOME" with
  | some directory, home? =>
    if directory.startsWith "/" then return some (directory ++ "/scicalc/config.toml")
    else return home?.map (· ++ "/.config/scicalc/config.toml")
  | none, home? => return home?.map (· ++ "/.config/scicalc/config.toml")

/-- What is seen of the file at a path. Its real path is found if and only if it is there. -/
def lookAt (path : String) : IO FileView := do
  let isThere ← try let _ ← IO.FS.realPath path; pure true catch _ => pure false
  let content ← try pure (.ok (← IO.FS.readBinFile path)) catch e => pure (.error (toString e))
  return { isThere, content }

/-- The next line of a stream with its line feed, empty at the end of the stream. -/
partial def readLine (input : IO.FS.Stream) (line : ByteArray) : IO ByteArray := do
  let next ← input.read 1
  if next.isEmpty then return line
  else if next[0]! = 10 then return line ++ next
  else readLine input (line ++ next)

/-- Takes lines from a stream until it ends or cannot be read as text. -/
partial def runSession (input output : IO.FS.Stream) (k : Keypad) : IO (Option Failure) := do
  let some line := (splitLines (← readLine input .empty).toList).head? | return none
  match sessionLine k ⟨line.toArray⟩ with
  | .error f => return some f
  | .ok (k, written) =>
    output.putStr written
    output.flush
    runSession input output k

/-- Runs a job and gives the exit status. -/
def runRequest (options : Options) (job : Job) : IO UInt32 := do
  let output ← IO.getStdout
  let usual? ← usualSettingsFile?
  let path? := options.settingsFile?.or usual?
  if 0 < options.verbosity then
    IO.eprintln ("settings file: " ++ path?.getD "none")
  let file ← path?.elim (pure .missing) lookAt
  let settings := Settings.load Document.toml (fun _ => file) options.settingsFile? usual?
  let outcome ← match settings, job with
    | .error e, _ => pure (Outcome.mk "" (some (.settings e)))
    | .ok s, .session => do
      pure (Outcome.mk "" (← runSession (← IO.getStdin) output (.fresh s)))
    | .ok s, job => pure (runJob s .empty job)
  output.putStr outcome.output
  output.flush
  if let some failure := outcome.failure? then IO.eprint failure.report
  return UInt32.ofNat outcome.status

/-- Follows a command line. -/
def main (words : List String) : IO UInt32 := do
  match Request.ofWords words with
  | .error e =>
    IO.eprint ("error: " ++ e.message ++ "\n\n" ++ usageLine)
    return UInt32.ofNat usageStatus
  | .ok .version => IO.print versionLine; return 0
  | .ok .help => IO.print usageLine; return 0
  | .ok (.run options job) => runRequest options job
