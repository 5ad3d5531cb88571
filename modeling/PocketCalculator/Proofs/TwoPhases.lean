import PocketCalculator.Proofs.Postfix
import PocketCalculator.Proofs.Settling

/-!
# Evaluation in two phases

An evaluation with two stacks takes one pass over the tokens. It performs what the first
phase would put out, so it agrees with the evaluation of the postfix sequence.

* `Postfix.perform`: the second phase with the faults of an evaluation.
* `Machine.accept_of_step?`, `Machine.run_of_order?`: what the machine does with one token
  and with all of them.
* `evaluate_postfix`: the two evaluations agree on balanced texts, on values and faults.
* `evaluate_cases`: for any text, what is evaluated is a postfix sequence, or there is a
  fault that leaves nothing over.
-/

namespace PocketCalculator

namespace Postfix

/-- The second phase with the faults of an evaluation. -/
def perform (R : List Item) (vs : List Float) : Except Fault (List Float) :=
  (exec R vs).mapError .missingOperand

theorem perform_append (R S : List Item) (vs : List Float) :
    perform (R ++ S) vs = (perform R vs >>= perform S) := by
  rw [perform, perform, exec_append]
  cases exec R vs with
  | error op => rfl
  | ok vs => rfl

theorem perform_operation (op : Operation) (vs : List Float) :
    perform [.operation op] vs = op.perform vs := by
  match op, vs with
  | .operator o, [] => rfl
  | .operator o, [_] => rfl
  | .operator o, _ :: _ :: _ => rfl
  | .function f, [] => rfl
  | .function f, _ :: _ => rfl

theorem perform_cons (op : Operation) (R : List Item) (vs : List Float) :
    perform (.operation op :: R) vs = (op.perform vs >>= perform R) := by
  rw [← perform_operation]
  exact perform_append [.operation op] R vs

end Postfix

open Postfix

namespace Machine

/-! ### The machine performs what is put out -/

/-- **Performing from the top.** What performs pending operations one after the other, as long as
they are of a kind, performs the items that they put out. -/
theorem perform_takeWhile {β : Type} {p : Pending → Bool}
    {f : List Pending → List Float → Except Fault β} (hp : p .opening = false)
    (hf : ∀ op ps vs, p (.operation op) = true →
      f (.operation op :: ps) vs = (op.perform vs >>= f ps)) (ps : List Pending)
    (vs : List Float) :
    f ps vs = (perform (items (ps.takeWhile p)) vs >>= f (ps.dropWhile p)) := by
  induction ps generalizing vs with
  | nil => rfl
  | cons q rest ih =>
    by_cases hq : p q = true
    · cases q with
      | opening => rw [hp] at hq; cases hq
      | operation op =>
        rw [List.takeWhile_cons_of_pos hq, List.dropWhile_cons_of_pos hq, items, perform_cons,
          bind_assoc, hf op rest vs hq]
        exact bind_congr ih
    · rw [List.takeWhile_cons_of_neg hq, List.dropWhile_cons_of_neg hq]
      rfl

theorem settle_eq (k : Nat) (ps : List Pending) (vs : List Float) :
    settle k ps vs = (perform (items (ps.takeWhile (goesBefore k))) vs >>= fun vs =>
      .ok ⟨vs, ps.dropWhile (goesBefore k)⟩) := by
  -- what is then on top binds looser than `k`, or is a `(`
  have stop : ∀ vs, settle k (ps.dropWhile (goesBefore k)) vs =
      .ok ⟨vs, ps.dropWhile (goesBefore k)⟩ := by
    intro vs
    have head := List.head?_dropWhile_not (goesBefore k) ps
    generalize ps.dropWhile (goesBefore k) = qs at head
    match qs with
    | [] => rfl
    | .opening :: _ => rfl
    | .operation op :: _ => exact settle_of_lt op (by simpa [goesBefore] using head) _ vs
  have performed := perform_takeWhile (p := goesBefore k) (f := settle k) rfl
    (fun op ps vs h => settle_of_le op (by simpa [goesBefore] using h) ps vs) ps vs
  rw [performed]
  exact bind_congr stop

theorem applyOwner_eq (ps : List Pending) (vs : List Float) :
    applyOwner ps vs = (perform (owner ps).1 vs >>= fun vs => .ok ⟨vs, (owner ps).2⟩) := by
  match ps with
  | [] => rfl
  | .opening :: _ => rfl
  | .operation (.operator _) :: _ => rfl
  | .operation (.function f) :: rest => rw [applyOwner, owner, perform_operation]; rfl

theorem closeGroup_eq (ps : List Pending) (vs : List Float) :
    closeGroup ps vs = (perform (items (ps.takeWhile isOperation)) vs >>=
      closeGroup (ps.dropWhile isOperation)) :=
  perform_takeWhile rfl (fun _ _ _ _ => rfl) ps vs

theorem drain_eq (ps : List Pending) (vs : List Float) :
    drain ps vs = (perform (items (ps.takeWhile isOperation)) vs >>=
      drain (ps.dropWhile isOperation)) :=
  perform_takeWhile rfl (fun _ _ _ _ => rfl) ps vs

/-- **One token** performs what it puts out. -/
theorem accept_of_step? {ps qs : List Pending} {t : Token} {out : List Item}
    (h : step? ps t = some (out, qs)) (vs : List Float) :
    accept ⟨vs, ps⟩ t = (perform out vs >>= fun vs => .ok ⟨vs, qs⟩) := by
  cases t with
  | number x => cases h; rfl
  | opening => cases h; rfl
  | function f => cases h; rfl
  | operator o =>
    cases h
    rw [accept, settle_eq, bind_assoc]
    rfl
  | closing =>
    obtain ⟨rest, hd, rfl, rfl⟩ := step?_closing_eq_some_iff.1 h
    rw [accept, closeGroup_eq, hd, perform_append, bind_assoc]
    exact bind_congr (applyOwner_eq rest)

/-- **Only a `)` without its `(`** has no step, and it ends the evaluation. -/
theorem accept_of_step?_eq_none {ps : List Pending} {t : Token} (h : step? ps t = none)
    (vs : List Float) :
    accept ⟨vs, ps⟩ t =
      (perform (items (ps.takeWhile isOperation)) vs >>= fun _ => .error .unbalanced) := by
  obtain ⟨rfl, hd⟩ := step?_eq_none_iff.1 h
  rw [accept, closeGroup_eq, hd]
  rfl

/-- **All tokens and the end** perform the postfix sequence. -/
theorem run_of_order? {ps : List Pending} {ts : List Token} {R : List Item}
    (h : order? ps ts = some R) (vs : List Float) :
    (run ⟨vs, ps⟩ ts >>= fun m => drain m.pending m.values) = perform R vs := by
  induction ts generalizing ps R vs with
  | nil =>
    obtain ⟨hall, rfl⟩ := order?_nil_eq_some_iff.1 h
    rw [run, ok_bind, drain_eq, List.takeWhile_eq_self_iff.2 (List.all_eq_true.1 hall),
      List.dropWhile_eq_nil_iff.2 (List.all_eq_true.1 hall)]
    exact bind_pure _
  | cons t rest ih =>
    obtain ⟨out, qs, S, hstep, hS, rfl⟩ := order?_cons_eq_some_iff.1 h
    rw [run, accept_of_step? hstep, perform_append, bind_assoc, bind_assoc]
    exact bind_congr (ih hS)

/-- **Tokens without a postfix sequence** end in a fault. -/
theorem run_of_order?_eq_none {ps : List Pending} {ts : List Token} (h : order? ps ts = none) :
    ∃ R, ∀ vs, (run ⟨vs, ps⟩ ts >>= fun m => drain m.pending m.values) =
      (perform R vs >>= fun _ => .error .unbalanced) := by
  induction ts generalizing ps with
  | nil =>
    rw [order?] at h
    split at h
    · cases h
    · next hall =>
      -- the end stops at the topmost `(` that is still pending
      refine ⟨items (ps.takeWhile isOperation), fun vs => ?_⟩
      rcases dropWhile_isOperation ps with hd | ⟨rest, hd⟩
      · exact absurd (List.all_eq_true.2 (List.dropWhile_eq_nil_iff.1 hd)) hall
      · rw [run, ok_bind, drain_eq, hd]
        rfl
  | cons t rest ih =>
    cases hstep : step? ps t with
    | none =>
      -- the token is a `)` without its `(`, and no later token is taken
      refine ⟨items (ps.takeWhile isOperation), fun vs => ?_⟩
      rw [run, accept_of_step?_eq_none hstep, bind_assoc, bind_assoc]
      rfl
    | some p =>
      obtain ⟨out, qs⟩ := p
      rw [order?, hstep] at h
      obtain ⟨R, hR⟩ := ih (Option.map_eq_none_iff.1 h)
      refine ⟨out ++ R, fun vs => ?_⟩
      rw [run, accept_of_step? hstep, perform_append, bind_assoc, bind_assoc, bind_assoc]
      exact bind_congr hR

end Machine

/-! ### The outcome of an evaluation -/

/-- The only value of a stack, or the fault of how many there are. -/
def single : List Float → Except Fault Float
  | [x] => .ok x
  | vs => .error (.leftover vs.length)

theorem single_eq_ok_iff {vs : List Float} {v : Float} : single vs = .ok v ↔ vs = [v] := by
  match vs with
  | [] => simp [single]
  | [x] => simp [single]
  | _ :: _ :: _ => simp [single]

theorem single_eq_leftover_iff {vs : List Float} {n : Nat} :
    single vs = .error (.leftover n) ↔ vs.length = n ∧ n ≠ 1 := by
  match vs with
  | [] => simp [single]; omega
  | [x] => simp [single]; omega
  | _ :: _ :: _ => simp [single]; omega

theorem single_ne_missingOperand (vs : List Float) (op : Operation) :
    single vs ≠ .error (.missingOperand op) := by
  match vs with
  | [] => simp [single]
  | [x] => simp [single]
  | _ :: _ :: _ => simp [single]

theorem result_eq (m : Machine) : m.result = (Machine.drain m.pending m.values >>= single) := by
  rw [Machine.result]
  refine bind_congr fun vs => ?_
  rcases vs with _ | ⟨x, _ | ⟨y, rest⟩⟩
  · rfl
  · rfl
  · rfl

/-- **A text with a postfix sequence** is evaluated by it. -/
theorem evaluate_of_order? {s : String} {ts : List Token} {R : List Item} (hs : Reads s ts)
    (hR : order? [] ts = some R) : evaluate s = (perform R [] >>= single) := by
  rw [evaluate_of_reads hs, ← Machine.run_of_order? hR, bind_assoc]
  exact bind_congr result_eq

theorem evaluate_of_exec {s : String} {ts : List Token} {R : List Item} (hs : Reads s ts)
    (hR : order? [] ts = some R) {vs : List Float} (hv : exec R [] = .ok vs) :
    evaluate s = single vs := by
  rw [evaluate_of_order? hs hR, perform, hv]
  rfl

theorem evaluate_of_exec_error {s : String} {ts : List Token} {R : List Item} (hs : Reads s ts)
    (hR : order? [] ts = some R) {op : Operation} (hv : exec R [] = .error op) :
    evaluate s = .error (.missingOperand op) := by
  rw [evaluate_of_order? hs hR, perform, hv]
  rfl

section

variable {s : String} {ts : List Token} {R : List Item}

theorem evaluate_eq_ok_iff (hs : Reads s ts) (hR : order? [] ts = some R) (v : Float) :
    evaluate s = .ok v ↔ exec R [] = .ok [v] := by
  cases hv : exec R [] with
  | error op => simp [evaluate_of_exec_error hs hR hv]
  | ok vs => rw [evaluate_of_exec hs hR hv, single_eq_ok_iff, Except.ok.injEq]

theorem evaluate_eq_leftover_iff (hs : Reads s ts) (hR : order? [] ts = some R) (n : Nat) :
    evaluate s = .error (.leftover n) ↔ ∃ vs, exec R [] = .ok vs ∧ vs.length = n ∧ n ≠ 1 := by
  cases hv : exec R [] with
  | error op => simp [evaluate_of_exec_error hs hR hv]
  | ok vs =>
    rw [evaluate_of_exec hs hR hv, single_eq_leftover_iff]
    simp

theorem evaluate_eq_missingOperand_iff (hs : Reads s ts) (hR : order? [] ts = some R)
    (op : Operation) : evaluate s = .error (.missingOperand op) ↔ exec R [] = .error op := by
  cases hv : exec R [] with
  | error op => simp [evaluate_of_exec_error hs hR hv]
  | ok vs => simp [evaluate_of_exec hs hR hv, single_ne_missingOperand]

end

/-- **One pass agrees with two phases.** The tokens of a balanced text have a postfix sequence.
Evaluating it leaves one value exactly when that is the value of the text, leaves another
number of values exactly when the text has the fault of so many, and comes to an operation
without its operands exactly when the text has the fault of that operation. -/
theorem evaluate_postfix {s : String} {ts : List Token} (hs : Reads s ts)
    (balanced : Balanced s.toList) :
    ∃ R, order? [] ts = some R ∧
      (∀ v, evaluate s = .ok v ↔ exec R [] = .ok [v]) ∧
      (∀ n, evaluate s = .error (.leftover n) ↔
        ∃ vs, exec R [] = .ok vs ∧ vs.length = n ∧ n ≠ 1) ∧
      (∀ op, evaluate s = .error (.missingOperand op) ↔ ∃ before after vs,
        R = before ++ .operation op :: after ∧ exec before [] = .ok vs ∧
          vs.length < arity op) := by
  have nested : nesting? (opened []) (ts.filterMap Token.paren?) = some 0 := by
    rw [nesting?_of_reads hs]
    exact (balanced_iff _).1 balanced
  obtain ⟨R, hR⟩ := Option.isSome_iff_exists.1 ((order?_isSome_iff [] ts).2 nested)
  refine ⟨R, hR, evaluate_eq_ok_iff hs hR, evaluate_eq_leftover_iff hs hR, fun op => ?_⟩
  rw [evaluate_eq_missingOperand_iff hs hR, exec_eq_error_iff]

/-- In `3 (4 *) sqrt` both operations come behind their operands, and it is worth the root of
twelve all the same. -/
theorem evaluate_postfix_misplaced :
    Reads "3 (4 *) sqrt" [.number 3, .opening, .number 4, .operator .multiply, .closing,
        .function .squareRoot] ∧
      Balanced "3 (4 *) sqrt".toList ∧ evaluate "3 (4 *) sqrt" = .ok (3 * 4 : Float).sqrt := by
  have hs : Reads "3 (4 *) sqrt" [.number 3, .opening, .number 4, .operator .multiply, .closing,
      .function .squareRoot] := by
    apply Written.reads
    have text : "3 (4 *) sqrt".toList = ['3'] ++ ' ' :: '(' :: (['4'] ++ ' ' :: '*' :: ')' :: ' ' ::
        (Scientific.squareRoot.name.toList ++ [])) := by decide
    rw [text]
    exact .number (by decide +kernel) (by decide) (by decide) <| .space <| .opening <|
      .number (by decide +kernel) (by decide) (by decide) <| .space <| .operator .multiply <| .closing <|
      .space <| .function _ (by decide) .nil
  have balanced : Balanced "3 (4 *) sqrt".toList := (balanced_iff _).2 (by decide)
  obtain ⟨R, hR, hv, -, -⟩ := evaluate_postfix hs balanced
  cases hR
  exact ⟨hs, balanced, (hv _).2 rfl⟩

/-! ### Texts without a postfix sequence -/

theorem perform_bind_ne_leftover {α : Type} {g : List Float → Except Fault α} {n : Nat}
    (hg : ∀ ws, g ws ≠ .error (.leftover n)) (R : List Item) (vs : List Float) :
    (perform R vs >>= g) ≠ .error (.leftover n) := by
  rw [perform]
  cases exec R vs with
  | error op => intro h; cases h
  | ok ws => exact hg ws

theorem accept_ne_leftover (m : Machine) (t : Token) (n : Nat) :
    m.accept t ≠ .error (.leftover n) := by
  cases hstep : step? m.pending t with
  | none =>
    rw [Machine.accept_of_step?_eq_none hstep m.values]
    exact perform_bind_ne_leftover (fun _ h => by cases h) _ _
  | some p =>
    rw [Machine.accept_of_step? hstep m.values]
    exact perform_bind_ne_leftover (fun _ h => by cases h) _ _

/-- **A stray run** ends the evaluation, if nothing else does so before. -/
theorem feed_of_stray (m : Machine) {xs : List Lexeme}
    (h : ∀ ts : List Token, xs.map Lexeme.token? ≠ ts.map some) :
    ∃ f, m.feed xs = .error f ∧ ∀ n, f ≠ .leftover n := by
  induction xs generalizing m with
  | nil => exact absurd rfl (h [])
  | cons x rest ih =>
    cases hx : x.token? with
    | none =>
      refine ⟨.unrecognized x.text x.offset, ?_, fun n hn => by cases hn⟩
      rw [Machine.feed, Lexeme.read, hx]
      rfl
    | some t =>
      have hread : x.read = .ok t := by rw [Lexeme.read, hx]
      cases ha : m.accept t with
      | error f =>
        refine ⟨f, ?_, fun n hn => accept_ne_leftover m t n (hn ▸ ha)⟩
        simp only [Machine.feed, hread, Machine.ok_bind, ha]
        rfl
      | ok m' =>
        have later : ∀ ts : List Token, rest.map Lexeme.token? ≠ ts.map some := fun ts hts =>
          h (t :: ts) (by rw [List.map_cons, hx, hts]; rfl)
        obtain ⟨f, hf, hn⟩ := ih m' later
        refine ⟨f, ?_, hn⟩
        simp only [Machine.feed, hread, Machine.ok_bind, ha]
        exact hf

/-- **What is evaluated** is a postfix sequence, or else the text has a fault that is not
about what is left over. -/
theorem evaluate_cases (s : String) :
    (∃ ts R, Reads s ts ∧ order? [] ts = some R) ∨
      ∃ f, evaluate s = .error f ∧ ∀ n, f ≠ .leftover n := by
  by_cases hs : ∃ ts, Reads s ts
  · obtain ⟨ts, hs⟩ := hs
    cases hR : order? [] ts with
    | some R => exact .inl ⟨ts, R, hs, hR⟩
    | none =>
      right
      obtain ⟨R, hrun⟩ := Machine.run_of_order?_eq_none hR
      have he : evaluate s = (perform R [] >>= fun _ => .error .unbalanced) := by
        rw [evaluate_of_reads hs, show Machine.result = _ from funext result_eq, ← bind_assoc,
          Machine.start, hrun [], bind_assoc]
        rfl
      cases hv : exec R [] with
      | error op =>
        exact ⟨.missingOperand op, by rw [he, perform, hv]; rfl, fun n hn => by cases hn⟩
      | ok vs => exact ⟨.unbalanced, by rw [he, perform, hv]; rfl, fun n hn => by cases hn⟩
  · right
    obtain ⟨f, hf, hn⟩ := feed_of_stray Machine.start fun ts hts => hs ⟨ts, hts⟩
    exact ⟨f, by rw [evaluate, hf]; rfl, hn⟩

end PocketCalculator
