import PocketCalculator.Proofs.FirstFault

/-!
# Groups stand for their values

The `(` of a group shelters what is below it. So the text between the parentheses is evaluated as
if it stood alone, and when it has a value, only this value is left of the group.

* `Machine.above`: a machine behind a `(`, with another machine below.
* `Machine.run_above`, `Machine.closeGroup_of_drain`: what it does is not changed by what is below,
  and at the `)` only its value is left.
* `evaluate_group`: a group with a value is this value.
* `evaluate_substitute`: so a group may be replaced by another one of the same value.
-/

namespace PocketCalculator

namespace Machine

/-- **A machine above another one**: behind a `(`, with all that the other one has below it. -/
def above (m below : Machine) : Machine :=
  ⟨m.values ++ below.values, m.pending ++ .opening :: below.pending⟩

theorem perform_append_values {op : Operation} {vs ws : List Float} (h : op.perform vs = .ok ws)
    (us : List Float) : op.perform (vs ++ us) = .ok (ws ++ us) := by
  match op, vs with
  | .function f, [] => cases h
  | .function f, a :: rest => cases h; rfl
  | .operator o, [] => cases h
  | .operator o, [_] => cases h
  | .operator o, b :: a :: rest => cases h; rfl

theorem drain_append_values {ps : List Pending} {vs ws : List Float} (h : drain ps vs = .ok ws)
    (us : List Float) : drain ps (vs ++ us) = .ok (ws ++ us) := by
  induction ps generalizing vs with
  | nil => cases h; rfl
  | cons p rest ih =>
    obtain ⟨vs', performed, drained⟩ := bind_eq_ok_iff.1 h
    cases p with
    | opening => cases performed
    | operation op =>
      have first : Pending.perform (.operation op) (vs ++ us) = .ok (vs' ++ us) :=
        perform_append_values performed us
      rw [drain, first, ok_bind]
      exact ih drained

variable (below : Machine)

/-- **One token** above another machine. It has the same entries applied, which do not reach the
values below, and it has the same step. -/
theorem accept_above {m n : Machine} {t : Token} (h : m.accept t = .ok n) :
    (m.above below).accept t = .ok (n.above below) := by
  obtain ⟨vs, out, qs, drained, hstep, rfl⟩ := accept_eq_ok_iff.1 h
  refine accept_eq_ok_iff.2 ⟨vs ++ below.values, out, qs ++ .opening :: below.pending, ?_, ?_, ?_⟩
  · rw [above, applied_above hstep below.pending]
    exact drain_append_values drained below.values
  · exact step?_above hstep below.pending
  · rw [above, List.append_assoc]

/-- **All tokens** above another machine. -/
theorem run_above {m n : Machine} {ts : List Token} (h : m.run ts = .ok n) :
    (m.above below).run ts = .ok (n.above below) := by
  induction ts generalizing m with
  | nil => cases h; rfl
  | cons t rest ih =>
    obtain ⟨m', accepted, h⟩ := bind_eq_ok_iff.1 h
    rw [run, accept_above below accepted, ok_bind]
    exact ih h

/-- **The `)` of the group** applies what the end would apply, and then the function that owns
the group. -/
theorem closeGroup_of_drain {ps : List Pending} {vs ws : List Float} (h : drain ps vs = .ok ws) :
    closeGroup (ps ++ .opening :: below.pending) (vs ++ below.values) =
      applyOwner below.pending (ws ++ below.values) := by
  induction ps generalizing vs with
  | nil => cases h; rfl
  | cons p rest ih =>
    obtain ⟨us, performed, drained⟩ := bind_eq_ok_iff.1 h
    cases p with
    | opening => cases performed
    | operation op =>
      rw [List.cons_append, closeGroup, perform_append_values performed below.values, ok_bind]
      exact ih drained

theorem exists_applyOwner (ps : List Pending) (v : Float) (vs : List Float) :
    ∃ m, applyOwner ps (v :: vs) = .ok m := by
  match ps with
  | [] => exact ⟨_, rfl⟩
  | .opening :: _ => exact ⟨_, rfl⟩
  | .operation (.operator _) :: _ => exact ⟨_, rfl⟩
  | .operation (.function _) :: _ => exact ⟨_, rfl⟩

/-- The fault of a stray run reports where it stands. -/
theorem exists_lexeme_of_feed {m : Machine} {xs : List Lexeme} {text : String} {offset : Nat}
    (h : m.feed xs = .error (.unrecognized text offset)) : ∃ x ∈ xs, x.offset = offset := by
  obtain ⟨before, x, after, n, rfl, -, hx⟩ := feed_eq_error_iff.1 h
  obtain rfl := accept_read_eq_unrecognized_iff.1 hx
  exact ⟨_, List.mem_append_right before List.mem_cons_self, rfl⟩

end Machine

open Machine

/-- The lexemes of a group between two texts. -/
theorem scan_group (pre s post : String) :
    scan (pre ++ "(" ++ s ++ ")" ++ post) = scan pre ++
      (⟨"(", pre.utf8ByteSize, some .opening⟩ ::
        (Cursor.lexemes ⟨pre.utf8ByteSize + 1, s.toList⟩ ++
          ⟨")", pre.utf8ByteSize + 1 + s.utf8ByteSize, some .closing⟩ ::
            Cursor.lexemes ⟨(pre ++ "(" ++ s ++ ")").utf8ByteSize, post.toList⟩)) := by
  have text : (pre ++ "(" ++ s ++ ")" ++ post).toList =
      pre.toList ++ '(' :: (s.toList ++ ')' :: post.toList) := by
    simp only [String.toList_append, List.append_assoc]
    rfl
  have size : (pre ++ "(" ++ s ++ ")").utf8ByteSize =
      pre.utf8ByteSize + 1 + s.utf8ByteSize + 1 := by
    simp only [String.utf8ByteSize_append]
    rfl
  have before : Separated pre.toList ('(' :: (s.toList ++ ')' :: post.toList)) :=
    .inr (endsRun_cons.2 rfl)
  have behind : Separated s.toList (')' :: post.toList) := .inr (endsRun_cons.2 rfl)
  rw [scan, text, Cursor.lexemes_append before, Cursor.lexemes_mark _ (t := .opening) rfl,
    Cursor.lexemes_append behind, Cursor.lexemes_mark _ (t := .closing) rfl, size,
    byteLength_toList, byteLength_toList, Nat.zero_add]
  rfl

/-- The tokens of a text are the same wherever it stands. -/
theorem Reads.lexemes {s : String} {ts : List Token} (h : Reads s ts) (k : Nat) :
    (Cursor.lexemes ⟨k, s.toList⟩).map Lexeme.token? = ts.map some := by
  rw [Cursor.lexemes_eq_map_scan, List.map_map]
  exact h

theorem exists_reads_of_evaluate {s : String} {v : Float} (h : evaluate s = .ok v) :
    ∃ ts, Reads s ts := by
  rcases evaluate_cases s with ⟨ts, R, reads, -⟩ | ⟨f, hf, -⟩
  · exact ⟨ts, reads⟩
  · rw [h] at hf
    cases hf

/-- **A group with a value** is this value, for the function that owns it and for all that comes
after it. -/
theorem evaluate_group {s : String} {v : Float} (hs : evaluate s = .ok v) (pre post : String) :
    evaluate (pre ++ "(" ++ s ++ ")" ++ post) = (start.feed (scan pre) >>= fun m =>
      applyOwner m.pending (v :: m.values) >>= fun n =>
        n.feed (Cursor.lexemes ⟨(pre ++ "(" ++ s ++ ")").utf8ByteSize, post.toList⟩) >>=
          result) := by
  obtain ⟨ts, reads⟩ := exists_reads_of_evaluate hs
  rw [evaluate_of_reads reads] at hs
  obtain ⟨n, ran, hs⟩ := bind_eq_ok_iff.1 hs
  rw [result_eq] at hs
  obtain ⟨vs, drained, hs⟩ := bind_eq_ok_iff.1 hs
  obtain rfl : vs = [v] := single_eq_ok_iff.1 hs
  rw [evaluate, scan_group, feed_append, bind_assoc]
  refine bind_congr fun m => ?_
  -- the text runs above what is there before the group
  have inside : (start.above m).feed (Cursor.lexemes ⟨pre.utf8ByteSize + 1, s.toList⟩) =
      .ok (n.above m) := by
    rw [feed_eq_run _ (reads.lexemes _)]
    exact run_above m ran
  show ((start.above m).feed _ >>= result) = _
  rw [feed_append, inside, ok_bind]
  show ((closeGroup (n.above m).pending (n.above m).values >>= _) >>= result) = _
  rw [above, closeGroup_of_drain m drained, bind_assoc]
  rfl

/-- **Substitution of equals.** A group may be replaced by one of the same value in any text, also
in one that is no expression. The outcome is the same, but a stray run behind the group is
reported further on or back by as much as the groups differ in length. -/
theorem evaluate_substitute {s t : String} {v : Float} (hs : evaluate s = .ok v)
    (ht : evaluate t = .ok v) (pre post : String) :
    evaluate (pre ++ "(" ++ t ++ ")" ++ post) =
      (evaluate (pre ++ "(" ++ s ++ ")" ++ post)).mapError (Fault.relocate fun offset =>
        if (pre ++ "(" ++ s ++ ")").utf8ByteSize ≤ offset then
          offset - (pre ++ "(" ++ s ++ ")").utf8ByteSize + (pre ++ "(" ++ t ++ ")").utf8ByteSize
        else offset) := by
  rw [evaluate_group hs, evaluate_group ht]
  have long : byteLength pre.toList ≤ (pre ++ "(" ++ s ++ ")").utf8ByteSize := by
    rw [String.utf8ByteSize_append, String.utf8ByteSize_append, String.utf8ByteSize_append,
      byteLength_toList]
    omega
  generalize (pre ++ "(" ++ s ++ ")").utf8ByteSize = k at long
  generalize (pre ++ "(" ++ t ++ ")").utf8ByteSize = l
  cases hpre : start.feed (scan pre) with
  | error f =>
    -- the fault is before the group
    cases f with
    | unrecognized text offset =>
      obtain ⟨x, hx, rfl⟩ := exists_lexeme_of_feed hpre
      have place := Cursor.offset_of_mem hx
      have before : ¬ k ≤ x.offset := by omega
      show Except.error _ = Except.error (Fault.unrecognized text (if k ≤ x.offset then _ else _))
      rw [if_neg before]
    | unbalanced => rfl
    | missingOperand op => rfl
    | leftover n => rfl
  | ok m =>
    obtain ⟨n, owner⟩ := exists_applyOwner m.pending v m.values
    have moved (d : Nat) : (n.feed (Cursor.lexemes ⟨d, post.toList⟩) >>= result) =
        (n.feed (scan post) >>= result).mapError (Fault.relocate (· + d)) := by
      have lexemes := Cursor.lexemes_add d 0 post.toList
      rw [Nat.zero_add] at lexemes
      rw [lexemes, feed_relocate, mapError_bind]
      exact bind_congr fun m => (result_relocate _ m).symm
    rw [ok_bind, ok_bind, owner, ok_bind, ok_bind, moved k, moved l, mapError_mapError]
    congr 1
    funext f
    cases f with
    | unrecognized text offset =>
      have behind : k ≤ offset + k := by omega
      show Fault.unrecognized text (offset + l) =
        Fault.unrecognized text (if k ≤ offset + k then offset + k - k + l else offset + k)
      rw [if_pos behind, Nat.add_sub_cancel]
    | unbalanced => rfl
    | missingOperand op => rfl
    | leftover n => rfl

/-- `3+4` may stand for `3 4 +`, which has the same value. Behind the group `foo` is a stray run
all the same, and it is reported two bytes earlier. -/
theorem evaluate_substitute_sum :
    evaluate "3 4 +" = .ok (3 + 4) ∧ evaluate "3+4" = .ok (3 + 4) ∧
      evaluate ("2*" ++ "(" ++ "3+4" ++ ")" ++ " foo") =
        (evaluate ("2*" ++ "(" ++ "3 4 +" ++ ")" ++ " foo")).mapError
          (Fault.relocate fun offset => if 9 ≤ offset then offset - 9 + 7 else offset) := by
  have behind : Reads "3 4 +" [.number 3, .number 4, .operator .add] := by
    apply Written.reads
    have text : "3 4 +".toList = ['3'] ++ ' ' :: (['4'] ++ ' ' :: '+' :: []) := by decide
    rw [text]
    exact .number (by decide +kernel) (by decide) (by decide) <| .space <|
      .number (by decide +kernel) (by decide) (by decide) <| .space <| .operator .add .nil
  have between : Reads "3+4" [.number 3, .operator .add, .number 4] := by
    apply Written.reads
    have text : "3+4".toList = ['3'] ++ '+' :: (['4'] ++ []) := by decide
    rw [text]
    exact .number (by decide +kernel) (by decide) (by decide) <| .operator .add <|
      .number (by decide +kernel) (by decide) (by decide) .nil
  have hs : evaluate "3 4 +" = .ok (3 + 4) := (evaluate_eq_ok_iff behind rfl _).2 rfl
  have ht : evaluate "3+4" = .ok (3 + 4) := (evaluate_eq_ok_iff between rfl _).2 rfl
  exact ⟨hs, ht, evaluate_substitute hs ht "2*" " foo"⟩

end PocketCalculator
