import PocketCalculator.Proofs.Joining

/-!
# The first fault

Lexemes are taken one after the other, and the first that is no token or is not accepted ends the
evaluation. The text behind it is not looked at any more.

* `Machine.feed_eq_error_iff`: lexemes have a fault when one of them has it in its turn.
* `FailsAt`: the lexeme at which a text has its first fault.
* `evaluate_append_of_fault`: no later text takes the place of a fault.
-/

namespace PocketCalculator

namespace Machine

theorem feed_cons (m : Machine) (x : Lexeme) (rest : List Lexeme) :
    m.feed (x :: rest) = ((x.read >>= m.accept) >>= fun n => n.feed rest) := by
  rw [feed, bind_assoc]

/-- **The fault of lexemes** is that of the first one that is no token or is not accepted. -/
theorem feed_eq_error_iff {m : Machine} {xs : List Lexeme} {f : Fault} :
    m.feed xs = .error f ↔ ∃ before x after n, xs = before ++ x :: after ∧
      m.feed before = .ok n ∧ (x.read >>= n.accept) = .error f := by
  constructor
  · intro h
    -- along the lexemes: the first is at fault, or it is taken and the fault is behind it
    induction xs generalizing m with
    | nil => cases h
    | cons x rest ih =>
      rw [feed_cons] at h
      rcases bind_eq_error_iff.1 h with hx | ⟨n, hn, hrest⟩
      · exact ⟨[], x, rest, m, rfl, rfl, hx⟩
      · obtain ⟨before, y, after, n', rfl, hbefore, hy⟩ := ih hrest
        refine ⟨x :: before, y, after, n', rfl, ?_, hy⟩
        rw [feed_cons, hn]
        exact hbefore
  · rintro ⟨before, x, after, n, rfl, hbefore, hx⟩
    rw [feed_append, hbefore, ok_bind, feed_cons, hx]
    rfl

/-- Lexemes that are taken all have tokens. -/
theorem token?_of_feed {m n : Machine} {xs : List Lexeme} (h : m.feed xs = .ok n) :
    ∀ x ∈ xs, x.token? ≠ none := by
  induction xs generalizing m with
  | nil => intro x hx; cases hx
  | cons x rest ih =>
    rw [feed_cons] at h
    obtain ⟨m', haccept, hrest⟩ := bind_eq_ok_iff.1 h
    obtain ⟨t, hread, -⟩ := bind_eq_ok_iff.1 haccept
    intro y hy
    rcases List.mem_cons.1 hy with rfl | hy
    · rw [Lexeme.read_eq_ok_iff.1 hread]
      exact Option.some_ne_none t
    · exact ih hrest y hy

/-! ### Stray runs -/

/-- No token has the fault of a stray run, since moving the text does not change its fault. -/
theorem accept_ne_unrecognized (m : Machine) (t : Token) (text : String) (offset : Nat) :
    m.accept t ≠ .error (.unrecognized text offset) := by
  intro h
  have hmoved := accept_relocate (fun _ => offset + 1) m t
  rw [h] at hmoved
  simp [Except.mapError, Fault.relocate] at hmoved

theorem result_ne_unrecognized (m : Machine) (text : String) (offset : Nat) :
    m.result ≠ .error (.unrecognized text offset) := by
  intro h
  have hmoved := result_relocate (fun _ => offset + 1) m
  rw [h] at hmoved
  simp [Except.mapError, Fault.relocate] at hmoved

/-- **A lexeme has the fault of a stray run** when it is one. -/
theorem accept_read_eq_unrecognized_iff {m : Machine} {x : Lexeme} {text : String} {offset : Nat} :
    (x.read >>= m.accept) = .error (.unrecognized text offset) ↔ x = ⟨text, offset, none⟩ := by
  rw [bind_eq_error_iff]
  constructor
  · rintro (hread | ⟨t, -, haccept⟩)
    · obtain ⟨hnone, hfault⟩ := Lexeme.read_eq_error_iff.1 hread
      cases hfault
      rw [← hnone]
    · exact absurd haccept (m.accept_ne_unrecognized t text offset)
  · rintro rfl
    exact .inl rfl

end Machine

open Machine

/-! ### The fault of a text -/

/-- **A text fails at a lexeme** with a fault: the lexemes before this one are taken, and it is no
token or is not accepted. -/
def FailsAt (s : String) (x : Lexeme) (f : Fault) : Prop :=
  ∃ before after m, scan s = before ++ x :: after ∧ start.feed before = .ok m ∧
    (x.read >>= m.accept) = .error f

theorem exists_failsAt_iff {s : String} {f : Fault} :
    (∃ x, FailsAt s x f) ↔ start.feed (scan s) = .error f := by
  rw [feed_eq_error_iff]
  constructor
  · rintro ⟨x, before, after, m, htext, hbefore, hx⟩
    exact ⟨before, x, after, m, htext, hbefore, hx⟩
  · rintro ⟨before, x, after, m, htext, hbefore, hx⟩
    exact ⟨x, before, after, m, htext, hbefore, hx⟩

theorem FailsAt.evaluate {s : String} {x : Lexeme} {f : Fault} (h : FailsAt s x f) :
    evaluate s = .error f := by
  rw [PocketCalculator.evaluate, exists_failsAt_iff.1 ⟨x, h⟩]
  rfl

/-- **The fault of a stray run** is found at the run. -/
theorem evaluate_eq_unrecognized_iff {s t : String} {n : Nat} :
    evaluate s = .error (.unrecognized t n) ↔ FailsAt s ⟨t, n, none⟩ (.unrecognized t n) := by
  constructor
  · intro h
    rcases bind_eq_error_iff.1 h with hfeed | ⟨m, -, hresult⟩
    · obtain ⟨x, before, after, m, hscan, hbefore, hx⟩ := exists_failsAt_iff.2 hfeed
      obtain rfl := accept_read_eq_unrecognized_iff.1 hx
      exact ⟨before, after, m, hscan, hbefore, hx⟩
    · exact absurd hresult (m.result_ne_unrecognized t n)
  · exact FailsAt.evaluate

theorem scan_append {s t : String} (cut : Separated s.toList t.toList) :
    scan (s ++ t) = scan s ++ Cursor.lexemes ⟨s.utf8ByteSize, t.toList⟩ := by
  rw [scan, scan, String.toList_append, Cursor.lexemes_append cut, byteLength_toList, Nat.zero_add]

theorem FailsAt.append {s t : String} {x : Lexeme} {f : Fault} (h : FailsAt s x f)
    (cut : Separated s.toList t.toList) : FailsAt (s ++ t) x f := by
  obtain ⟨before, after, m, hscan, hbefore, hx⟩ := h
  refine ⟨before, after ++ Cursor.lexemes ⟨s.utf8ByteSize, t.toList⟩, m, ?_, hbefore, hx⟩
  rw [scan_append cut, hscan, List.append_assoc, List.cons_append]

/-- **The first fault is final.** When taking the lexemes of a text comes to a fault, this is the
fault of the text together with whatever comes behind it, and it is still found at the same lexeme.
Only a run must not go on over the cut. -/
theorem evaluate_append_of_fault {s t : String} {f : Fault}
    (failed : start.feed (scan s) = .error f) (cut : Separated s.toList t.toList) :
    evaluate (s ++ t) = .error f ∧ ∃ x, FailsAt s x f ∧ FailsAt (s ++ t) x f := by
  obtain ⟨x, hx⟩ := exists_failsAt_iff.2 failed
  exact ⟨(hx.append cut).evaluate, x, hx, hx.append cut⟩

/-- In `2*3 - )` the `)` comes to an operator without its right operand. That it closes nothing is
not found out any more, nor that `foo` is a stray run. -/
theorem evaluate_append_of_missing_operand :
    start.feed (scan "2*3 - )") = .error (.missingOperand (.operator .subtract)) ∧
      Separated "2*3 - )".toList "foo".toList ∧
      evaluate ("2*3 - )" ++ "foo") = .error (.missingOperand (.operator .subtract)) := by
  have hreads : Reads "2*3 - )" [.number 2, .operator .multiply, .number 3, .operator .subtract,
      .closing] := by
    apply Written.reads
    have text : "2*3 - )".toList =
        ['2'] ++ '*' :: (['3'] ++ ' ' :: '-' :: ' ' :: ')' :: []) := by decide
    rw [text]
    exact .number (by decide +kernel) (by decide) (by decide) <| .operator .multiply <|
      .number (by decide +kernel) (by decide) (by decide) <| .space <| .operator .subtract <| .space <|
      .closing .nil
  have failed : start.feed (scan "2*3 - )") = .error (.missingOperand (.operator .subtract)) := by
    rw [feed_eq_run _ hreads]
    rfl
  have cut : Separated "2*3 - )".toList "foo".toList := by
    have hlast : "2*3 - )".toList.getLast? = some ')' := by decide
    left
    intro c hc
    rw [hlast] at hc
    cases hc
    rfl
  exact ⟨failed, cut, (evaluate_append_of_fault failed cut).1⟩

end PocketCalculator
