import PocketCalculator.Document.Toml
import PocketCalculator.Proofs.Routes
import PocketCalculator.Proofs.StrayRuns

/-!
# Reports of stray runs

The command that evaluates an expression reports it as it was given, but evaluates what trimming
leaves of it. So the byte that is reported for a stray run counts from the first character that is
no blank, and with blanks in front the run does not stand there in the reported expression.

* `Command.failure?_run_eq_evaluation_iff`: when the command fails for a fault.
* `Command.standsAt_of_run`: where the reported run stands in the reported expression.
* `Command.run_behind_blank`: with a blank in front it stands elsewhere.
-/

namespace PocketCalculator

namespace Command

variable {F : Document.Format} {here : Surroundings} {o : Options} {x y t : String} {n : Nat}

/-- **The command fails for a fault** when the settings can be loaded and what trimming leaves of
the expression has this fault. It reports the expression as it was given. -/
theorem failure?_run_eq_evaluation_iff {f : Fault} :
    (run F here o (.evaluate x)).failure? = some (.evaluation y f) ↔
      (∃ settings, Settings.load F here.disk o.settingsFile? here.usualFile? = .ok settings) ∧
        y = x ∧ evaluate (Text.trim x) = .error f := by
  unfold run
  cases hload : Settings.load F here.disk o.settingsFile? here.usualFile? with
  | error e => simp
  | ok settings =>
    show (evaluateJob x settings.display).failure? = _ ↔ _
    cases h : evaluate (Text.trim x) with
    | ok v => simp [failure?_of_ok (d := settings.display) (s := x) h]
    | error g =>
      rw [failure?_of_error (d := settings.display) (s := x) h]
      simp [eq_comm]

/-- **Where the reported run stands.** When the command fails for a stray run, it reports the
expression as it was given, and a byte that counts from the first character of the expression that
is no blank: the run stands there. Without blanks in front that is the byte of the expression. -/
theorem standsAt_of_run
    (h : (run F here o (.evaluate x)).failure? =
      some (.evaluation y (.unrecognized t n))) :
    y = x ∧ StandsAt t x (byteLength (Text.leadingBlanks x) + n) ∧
      ((∀ c ∈ x.toList.head?, Text.isBlank c = false) → StandsAt t x n) := by
  obtain ⟨-, rfl, hfault⟩ := failure?_run_eq_evaluation_iff.1 h
  obtain ⟨front, back, hdiagnosed⟩ := diagnosed_of_failsAt (evaluate_eq_unrecognized_iff.1 hfault)
  obtain ⟨rest, htext⟩ := Text.exists_toList_eq y
  have hparts : y.toList = (Text.leadingBlanks y ++ front) ++ t.toList ++ (back ++ rest) := by
    rw [htext, hdiagnosed.run.text]
    simp only [List.append_assoc]
  have hstands : StandsAt t y (byteLength (Text.leadingBlanks y) + n) := by
    rw [hdiagnosed.bytes, ← byteLength_append]
    exact standsAt_of_append hparts
  refine ⟨rfl, hstands, fun hvisible => ?_⟩
  rw [Text.leadingBlanks_eq_nil hvisible] at hstands
  rwa [byteLength, Nat.zero_add] at hstands

/-- Where there are no files and there is no input. -/
def nowhere : Surroundings := ⟨fun _ => .missing, none, .empty⟩

/-- In front of `1 + é` there are a no-break space and a tab, three bytes that are not counted: the
run is reported for byte 4 and stands at byte 7. -/
theorem standsAt_of_run_foreign :
    (run Document.toml nowhere {} (.evaluate "\u00a0\t1 + é")).failure? =
        some (.evaluation "\u00a0\t1 + é" (.unrecognized "é" 4)) ∧
      StandsAt "é" "\u00a0\t1 + é" 7 := by
  have h : (run Document.toml nowhere {} (.evaluate "\u00a0\t1 + é")).failure? =
      some (.evaluation "\u00a0\t1 + é" (.unrecognized "é" 4)) := by decide +kernel
  exact ⟨h, (standsAt_of_run h).2.1⟩

/-- **Behind a blank** the reported run stands elsewhere. In ` 2 * y ` the run `y` is reported for
byte 4, where there is a space. -/
theorem run_behind_blank :
    (run Document.toml nowhere {} (.evaluate " 2 * y ")).failure?.map Failure.report =
        some ("Error: Failed to evaluate ` 2 * y `\n\nCaused by:\n" ++
          "    unrecognized token `y` at offset 4\n") ∧
      (run Document.toml nowhere {} (.evaluate " 2 * y ")).failure? =
        some (.evaluation " 2 * y " (.unrecognized "y" 4)) ∧
      ¬ StandsAt "y" " 2 * y " 4 := by
  have h : (run Document.toml nowhere {} (.evaluate " 2 * y ")).failure? =
      some (.evaluation " 2 * y " (.unrecognized "y" 4)) := by decide +kernel
  refine ⟨?_, h, by decide +kernel⟩
  rw [h]
  decide +kernel

end Command

end PocketCalculator
