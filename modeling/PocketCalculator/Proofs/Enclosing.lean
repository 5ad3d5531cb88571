import PocketCalculator.Proofs.Substitution

/-!
# A text in parentheses

Parentheses around a whole text do not change its outcome. There is nothing below their `(`, so
what is applied in between finds the same operands as without them, and the `)` applies what the end
would apply. Only a text whose own parentheses are unbalanced may come to another outcome.

* `Machine.feed_enclosed`: lexemes behind a `(`, faults included.
* `Machine.closeGroup_enclosed`: the `)` agrees with the end.
* `evaluate_enclosed`: the outcome of a text in parentheses.
-/

namespace PocketCalculator

open Postfix

namespace Machine

theorem applied_enclosed (ps : List Pending) (t : Token) :
    applied (ps ++ [.opening]) t = applied ps t := by
  cases hstep : step? ps t with
  | some p => exact applied_above hstep []
  | none =>
    -- a `)` without its `(` has all operations applied, and the `(` below has no owner
    obtain ⟨rfl, hd⟩ := step?_eq_none_iff.1 hstep
    rw [applied, applied, takeWhile_above rfl, dropWhile_above rfl, hd]
    rfl

theorem values_enclosed (m : Machine) : (m.above start).values = m.values :=
  List.append_nil m.values

theorem pending_enclosed (m : Machine) : (m.above start).pending = m.pending ++ [.opening] := rfl

/-- **One token** behind a `(` with nothing below it. It has the same fault as without the `(`, but
for a `)` that would close nothing. -/
theorem accept_enclosed {m : Machine} {t : Token} (h : m.accept t ≠ .error .unbalanced) :
    (m.above start).accept t = (m.accept t).map (above · start) := by
  cases hm : m.accept t with
  | ok n => rw [accept_above start hm]; rfl
  | error f =>
    -- an operation before the token is at fault, the same one behind the `(`, or the token is a
    -- `)` without its `(`, which `h` excludes
    have happlied := hm
    rw [accept_eq] at happlied
    rcases bind_eq_error_iff.1 happlied with hdrain | ⟨vs, -, hstep⟩
    · rw [accept_eq, values_enclosed, pending_enclosed, applied_enclosed, hdrain]
      rfl
    · cases hs : step? m.pending t with
      | some p => rw [hs] at hstep; cases hstep
      | none =>
        rw [hs] at hstep
        cases hstep
        exact absurd hm h

/-- **Lexemes** behind a `(` with nothing below it. -/
theorem feed_enclosed {m : Machine} {xs : List Lexeme} (h : m.feed xs ≠ .error .unbalanced) :
    (m.above start).feed xs = (m.feed xs).map (above · start) := by
  induction xs generalizing m with
  | nil => rfl
  | cons x rest ih =>
    cases hx : x.read with
    | error f =>
      rw [feed, feed, hx]
      rfl
    | ok t =>
      rw [feed, hx, ok_bind] at h
      rw [feed, feed, hx, ok_bind, ok_bind]
      cases hm : m.accept t with
      | error f =>
        have hf : m.accept t ≠ .error .unbalanced := by
          rintro hu
          rw [hu] at h
          exact h rfl
        rw [accept_enclosed hf, hm]
        rfl
      | ok n =>
        rw [hm, ok_bind] at h
        rw [accept_above start hm, ok_bind, ok_bind]
        exact ih h

/-- **The `)` agrees with the end.** With nothing below its `(` it applies what the end applies, and
no function owns the group. -/
theorem closeGroup_enclosed {ps : List Pending} {vs : List Float}
    (h : drain ps vs ≠ .error .unbalanced) :
    closeGroup (ps ++ [.opening]) vs = (drain ps vs).map (⟨·, []⟩) := by
  induction ps generalizing vs with
  | nil => rfl
  | cons p rest ih =>
    cases p with
    | opening => exact absurd rfl h
    | operation op =>
      rw [drain] at h ⊢
      rw [List.cons_append, closeGroup]
      show (op.perform vs >>= _) = ((op.perform vs) >>= _).map _
      cases hp : op.perform vs with
      | error f => rfl
      | ok ws =>
        have hperform : Pending.perform (.operation op) vs = .ok ws := hp
        rw [hperform, ok_bind] at h
        exact ih h

/-- The end behind the `)` comes to what the end without it comes to. -/
theorem result_enclosed {m : Machine} (h : drain m.pending m.values ≠ .error .unbalanced) :
    ((m.above start).accept .closing >>= result) = m.result := by
  rw [accept, values_enclosed, pending_enclosed, closeGroup_enclosed h, result_eq]
  cases drain m.pending m.values with
  | error f => rfl
  | ok vs => exact result_eq ⟨vs, []⟩

end Machine

open Machine

/-- The lexemes of a text in parentheses are its own, a byte further on. -/
theorem scan_enclosed (s : String) : ∃ k, scan ("(" ++ s ++ ")") =
    ⟨"(", 0, some .opening⟩ ::
      ((scan s).map (Lexeme.relocate (· + 1)) ++ [⟨")", k, some .closing⟩]) := by
  have hgroup := scan_group "" s ""
  have hempty : scan "" = [] := Cursor.lexemes_nil 0
  rw [String.empty_append, String.append_empty, String.utf8ByteSize_empty,
    Cursor.lexemes_eq_map_scan, hempty, String.toList_empty, Cursor.lexemes_nil] at hgroup
  exact ⟨_, hgroup⟩

/-- **Parentheses around a text** do not change its outcome, unless its own parentheses are
unbalanced. The value is the same, and so is the fault, but a stray run stands one byte further on.
What the `)` applies is what the end would have applied. -/
theorem evaluate_enclosed {s : String} (h : evaluate s ≠ .error .unbalanced) :
    evaluate ("(" ++ s ++ ")") = (evaluate s).mapError (Fault.relocate (· + 1)) ∧
      ∀ m, start.feed (scan s) = .ok m →
        closeGroup (m.pending ++ [.opening]) m.values =
          (drain m.pending m.values).map (⟨·, []⟩) := by
  have hend : ∀ m, start.feed (scan s) = .ok m → drain m.pending m.values ≠ .error .unbalanced := by
    intro m hm hdrain
    rw [evaluate, hm, ok_bind, result_eq, hdrain] at h
    exact h rfl
  refine ⟨?_, fun m hm => closeGroup_enclosed (hend m hm)⟩
  obtain ⟨k, hscan⟩ := scan_enclosed s
  have hfeed : start.feed (scan s) ≠ .error .unbalanced := by
    intro hf
    rw [evaluate, hf] at h
    exact h rfl
  have hinside : (start.above start).feed ((scan s).map (Lexeme.relocate (· + 1))) =
      ((start.feed (scan s)).map (above · start)).mapError (Fault.relocate (· + 1)) := by
    rw [feed_relocate, feed_enclosed hfeed]
  -- behind the first `(` the machine starts above another one that has nothing
  have hopening : start.accept .opening = .ok (start.above start) := rfl
  rw [evaluate, hscan, feed_cons]
  show (start.accept .opening >>= fun n => n.feed _) >>= result = _
  rw [hopening, ok_bind, feed_append, hinside, evaluate]
  cases hm : start.feed (scan s) with
  | error f => rfl
  | ok m =>
    have hlast : (m.above start).feed [⟨")", k, some .closing⟩] =
        (m.above start).accept .closing := bind_pure ((m.above start).accept .closing)
    show ((m.above start).feed _ >>= result) = m.result.mapError _
    rw [hlast, result_enclosed (hend m hm), result_relocate]

/-- In `2*(3 - x` the run `x` is stray, and it is found before the end would come to the open `(`.
In parentheses it stands one byte further on. -/
theorem evaluate_enclosed_stray :
    evaluate "2*(3 - x" ≠ .error .unbalanced ∧
      evaluate ("(" ++ "2*(3 - x" ++ ")") = .error (.unrecognized "x" 8) := by
  have hs : evaluate "2*(3 - x" = .error (.unrecognized "x" 7) := by decide +kernel
  have h : evaluate "2*(3 - x" ≠ .error .unbalanced := by
    rw [hs]
    intro hu
    cases hu
  refine ⟨h, (evaluate_enclosed h).1.trans ?_⟩
  rw [hs]
  rfl

end PocketCalculator
