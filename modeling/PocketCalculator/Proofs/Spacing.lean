import PocketCalculator.Proofs.FirstFault
import PocketCalculator.Proofs.Trimming

/-!
# Spaces

Spaces belong to no lexeme. Put between two lexemes, into a text that is an expression or none, they
move what comes behind them and change nothing else. So spaces around a text do not count when it is
evaluated, and trimming takes off no more than that from a text with no other blanks at its ends.

* `Cursor.lexemes_spaces`: spaces in front of a text.
* `scan_insert_spaces`, `scan_between_spaces`: the lexemes of a text with spaces in it or around it.
* `evaluate_insert_spaces`: the outcome with spaces put in, and with spaces trimmed off.
-/

namespace PocketCalculator

/-- A text of spaces. -/
def spaces (n : Nat) : String := String.ofList (List.replicate n ' ')

theorem toList_spaces (n : Nat) : (spaces n).toList = List.replicate n ' ' := String.toList_ofList

/-- **Spaces in front** of a text. -/
theorem Cursor.lexemes_spaces (k n : Nat) (cs : List Char) :
    lexemes ⟨k, List.replicate n ' ' ++ cs⟩ = lexemes ⟨k + n, cs⟩ := by
  induction n generalizing k with
  | zero => rfl
  | succ n ih => rw [List.replicate_succ, List.cons_append, lexemes_space, ih, Nat.add_right_comm]; rfl

/-- Spaces at a cut separate no less than there is separated without them. -/
theorem Separated.spaces {a b : List Char} (cut : Separated a b) (n : Nat) :
    Separated a (List.replicate n ' ' ++ b) := by
  cases n with
  | zero => exact cut
  | succ n => exact .inr (endsRun_cons.2 inRun_space)

/-- **Spaces put into a text** move the lexemes behind them. -/
theorem scan_insert_spaces {a b : String} (cut : Separated a.toList b.toList) (n : Nat) :
    scan (a ++ spaces n ++ b) = (scan (a ++ b)).map
      (Lexeme.relocate fun offset => if a.utf8ByteSize ≤ offset then offset + n else offset) := by
  have hcut : Separated a.toList (spaces n ++ b).toList := by
    rw [String.toList_append, toList_spaces]
    exact cut.spaces n
  have hfront : (scan a).map (Lexeme.relocate fun offset =>
      if a.utf8ByteSize ≤ offset then offset + n else offset) = scan a := by
    refine (List.map_congr_left fun x hx => ?_).trans (List.map_id _)
    have hplace : x.offset < byteLength a.toList := by
      have hinside := Cursor.offset_of_mem hx
      omega
    rw [byteLength_toList] at hplace
    rw [Lexeme.relocate, if_neg (Nat.not_le.2 hplace)]
    rfl
  have hback : (Cursor.lexemes ⟨a.utf8ByteSize, b.toList⟩).map (Lexeme.relocate fun offset =>
      if a.utf8ByteSize ≤ offset then offset + n else offset) =
        Cursor.lexemes ⟨a.utf8ByteSize + n, b.toList⟩ := by
    rw [Cursor.lexemes_add n]
    refine List.map_congr_left fun x hx => ?_
    rw [Lexeme.relocate, if_pos (Cursor.offset_of_mem hx).1]
    rfl
  rw [String.append_assoc, scan_append hcut, scan_append cut, List.map_append, hfront, hback,
    String.toList_append, toList_spaces, Cursor.lexemes_spaces]

/-- **Spaces around a text** move all its lexemes by those in front. -/
theorem scan_between_spaces (m n : Nat) (s : String) :
    scan (spaces m ++ s ++ spaces n) = (scan s).map (Lexeme.relocate (· + m)) := by
  have hcut : Separated s.toList (List.replicate n ' ' ++ []) :=
    Separated.spaces (.inr fun c hc => by cases hc) n
  have htext : (spaces m ++ s ++ spaces n).toList =
      List.replicate m ' ' ++ (s.toList ++ (List.replicate n ' ' ++ [])) := by
    rw [String.toList_append, String.toList_append, toList_spaces, toList_spaces, List.append_nil,
      List.append_assoc]
  rw [scan, htext, Cursor.lexemes_spaces, Cursor.lexemes_append hcut, Cursor.lexemes_spaces,
    Cursor.lexemes_nil, List.append_nil, Nat.zero_add, Cursor.lexemes_eq_map_scan]

/-- A text whose blanks at the ends are spaces is what trimming leaves between spaces. -/
theorem exists_eq_between_spaces {s : String} (front : ∀ c ∈ Text.leadingBlanks s, c = ' ')
    (back : ∀ c ∈ Text.trailingBlanks s, c = ' ') :
    ∃ n, s = spaces (Text.leadingBlanks s).length ++ Text.trim s ++ spaces n := by
  obtain ⟨behind, htext, hbehind⟩ := Text.exists_toList_eq_blanks s
  refine ⟨behind.length, String.toList_inj.1 ?_⟩
  rw [String.toList_append, String.toList_append, toList_spaces, toList_spaces,
    ← List.eq_replicate_of_mem front, ← List.eq_replicate_of_mem fun c hc => back c (hbehind hc)]
  exact htext

/-- **Spaces do not count.** Put into a text where they cut no run, they leave its outcome, but a
stray run behind them is reported further on. So if all blanks at the ends of a text are spaces, then
what is calculated, which is the trimmed text, has the outcome of the text, but a stray run is
reported without the spaces in front. -/
theorem evaluate_insert_spaces :
    (∀ (a b : String) (n : Nat), Separated a.toList b.toList →
      evaluate (a ++ spaces n ++ b) = (evaluate (a ++ b)).mapError
        (Fault.relocate fun offset => if a.utf8ByteSize ≤ offset then offset + n else offset)) ∧
      ∀ (s : String) (d : DisplaySettings), (∀ c ∈ Text.leadingBlanks s, c = ' ') →
        (∀ c ∈ Text.trailingBlanks s, c = ' ') →
        evaluate s = (calculate s d).outcome.mapError
            (Fault.relocate (· + (Text.leadingBlanks s).length)) ∧
          ((calculate s d).succeeded = true ↔ ∃ v, evaluate s = .ok v) := by
  refine ⟨fun a b n cut => evaluate_relocate (scan_insert_spaces cut n), ?_⟩
  intro s d hfront hback
  obtain ⟨n, hs⟩ := exists_eq_between_spaces hfront hback
  have hscan : scan s =
      (scan (Text.trim s)).map (Lexeme.relocate (· + (Text.leadingBlanks s).length)) := by
    conv_lhs => rw [hs]
    exact scan_between_spaces _ n _
  have houtcome : (calculate s d).outcome = evaluate (Text.trim s) := rfl
  have hevaluate := evaluate_relocate hscan
  rw [← houtcome] at hevaluate
  refine ⟨hevaluate, ?_⟩
  rw [hevaluate, Calculation.succeeded]
  cases (calculate s d).outcome with
  | ok v => exact ⟨fun _ => ⟨v, rfl⟩, fun _ => rfl⟩
  | error f => exact ⟨fun h => (by cases h), fun ⟨v, h⟩ => (by cases h)⟩

/-- With three spaces put in behind the `2` of `2+foo)`, the run `foo` is reported three bytes further on.
In front of `2*y` there are two spaces, which are not counted when it is calculated. -/
theorem evaluate_insert_spaces_stray :
    Separated "2".toList "+foo)".toList ∧
      evaluate ("2" ++ spaces 3 ++ "+foo)") = .error (.unrecognized "foo" 5) ∧
      (∀ c ∈ Text.leadingBlanks "  2*y ", c = ' ') ∧ (∀ c ∈ Text.trailingBlanks "  2*y ", c = ' ') ∧
      evaluate "  2*y " = .error (.unrecognized "y" 4) ∧
      (calculate "  2*y " {}).outcome.mapError (Fault.relocate (· + 2)) =
        .error (.unrecognized "y" 4) := by
  have hcut : Separated "2".toList "+foo)".toList := .inr (by decide)
  have hinside : evaluate ("2" ++ "+foo)") = .error (.unrecognized "foo" 2) := by decide +kernel
  have hspaced := evaluate_insert_spaces.1 "2" "+foo)" 3 hcut
  rw [hinside] at hspaced
  have hblanks : Text.leadingBlanks "  2*y " = [' ', ' '] := by decide
  have hfront : ∀ c ∈ Text.leadingBlanks "  2*y ", c = ' ' := by
    rw [hblanks]
    simp
  have hback : ∀ c ∈ Text.trailingBlanks "  2*y ", c = ' ' := by
    have hbehind : Text.trailingBlanks "  2*y " = [' '] := by decide
    rw [hbehind]
    simp
  have htext : evaluate "  2*y " = .error (.unrecognized "y" 4) := by decide +kernel
  have hcalculated := (evaluate_insert_spaces.2 "  2*y " {} hfront hback).1
  rw [hblanks, htext] at hcalculated
  exact ⟨hcut, hspaced, hfront, hback, htext, hcalculated.symm⟩

end PocketCalculator
