import PocketCalculator.Proofs.Operands

/-!
# What a token has applied

A number, a function and a `(` only add to what there is. An operator and a `)` have some of the
pending entries applied first, and these are operations only.

* `Machine.applied`: the entries that a token has applied.
* `Machine.accept_eq`: a token in closed form. It has its entries applied one after the other, and
  what is pending after that is decided by the token and by what was pending before.
* `Machine.applied_above`, `Machine.step?_above`: both stop at a `(`, whatever is below it.
-/

namespace PocketCalculator

open Postfix

/-- The value that a token brings. -/
def Token.values : Token → List Float
  | number x => [x]
  | _ => []

namespace Machine

/-- The function that owns a group, behind the `(` of the group. -/
def ownerEntry : List Pending → List Pending
  | .opening :: .operation (.function f) :: _ => [.operation (.function f)]
  | _ => []

/-- **The entries that a token has applied**, in this order: an operator those that go before it,
and a `)` those back to its `(` and the function that owns the group. -/
def applied (ps : List Pending) : Token → List Pending
  | .operator o => ps.takeWhile (goesBefore o.precedence)
  | .closing => ps.takeWhile isOperation ++ ownerEntry (ps.dropWhile isOperation)
  | _ => []

theorem isOperation_of_mem_applied {ps : List Pending} {t : Token} {p : Pending}
    (h : p ∈ applied ps t) : isOperation p = true := by
  cases t with
  | number x => cases h
  | function f => cases h
  | opening => cases h
  | operator o =>
    have before : goesBefore o.precedence p = true := List.mem_takeWhile_imp h
    cases p with
    | operation op => rfl
    | opening => cases before
  | closing =>
    rcases List.mem_append.1 h with h | h
    · exact List.mem_takeWhile_imp h
    · unfold ownerEntry at h
      split at h
      · rw [List.mem_singleton] at h
        rw [h]
        rfl
      · cases h

theorem opening_not_mem_applied (ps : List Pending) (t : Token) : .opening ∉ applied ps t := by
  intro h
  cases isOperation_of_mem_applied h

/-- Applying operations one after the other performs the items they stand for. -/
theorem drain_of_operations {ps : List Pending} (h : ∀ p ∈ ps, isOperation p = true)
    (vs : List Float) : drain ps vs = perform (items ps) vs := by
  rw [drain_eq, List.takeWhile_eq_self_iff.2 h, List.dropWhile_eq_nil_iff.2 h]
  exact bind_pure _

/-- **One token in closed form.** It has its entries applied one after the other. After that only
a `)` without its `(` is a fault. -/
theorem accept_eq (m : Machine) (t : Token) :
    m.accept t = (drain (applied m.pending t) m.values >>= fun vs =>
      (step? m.pending t).elim (.error .unbalanced) fun p => .ok ⟨t.values ++ vs, p.2⟩) := by
  obtain ⟨vs, ps⟩ := m
  have operations : drain (applied ps t) vs = perform (items (applied ps t)) vs :=
    drain_of_operations (fun _ hp => isOperation_of_mem_applied hp) vs
  cases t with
  | number x => rfl
  | opening => rfl
  | function f => rfl
  | operator o =>
    rw [operations]
    exact accept_of_step? rfl vs
  | closing =>
    rw [operations]
    rcases dropWhile_isOperation ps with hd | ⟨rest, hd⟩
    · have none := step?_eq_none_iff.2 ⟨rfl, hd⟩
      have entries : applied ps .closing = ps.takeWhile isOperation := by
        rw [applied, hd]
        exact List.append_nil _
      rw [accept_of_step?_eq_none none, none, entries]
      rfl
    · have some := step?_closing_eq_some_iff.2 ⟨rest, hd, rfl, rfl⟩
      have entries : items (applied ps .closing) =
          items (ps.takeWhile isOperation) ++ (owner rest).1 := by
        rw [applied, hd, items_append]
        match rest with
        | [] => rfl
        | .opening :: _ => rfl
        | .operation (.operator _) :: _ => rfl
        | .operation (.function _) :: _ => rfl
      rw [accept_of_step? some, some, entries]
      rfl

/-- **What a token leaves**, when it is no fault. -/
theorem accept_eq_ok_iff {m n : Machine} {t : Token} :
    m.accept t = .ok n ↔ ∃ vs out qs, drain (applied m.pending t) m.values = .ok vs ∧
      step? m.pending t = some (out, qs) ∧ n = ⟨t.values ++ vs, qs⟩ := by
  rw [accept_eq, bind_eq_ok_iff]
  constructor
  · rintro ⟨vs, drained, h⟩
    cases hstep : step? m.pending t with
    | none => rw [hstep] at h; cases h
    | some p =>
      rw [hstep] at h
      exact ⟨vs, p.1, p.2, drained, rfl, (Except.ok.inj h).symm⟩
  · rintro ⟨vs, out, qs, drained, hstep, rfl⟩
    refine ⟨vs, drained, ?_⟩
    rw [hstep]
    rfl

/-! ### Above a `(` -/

section

variable {p : Pending → Bool} (hp : p .opening = false) (ps qs : List Pending)

include hp

theorem takeWhile_above : (ps ++ .opening :: qs).takeWhile p = ps.takeWhile p := by
  induction ps with
  | nil => exact List.takeWhile_cons_of_neg (by rw [hp]; decide)
  | cons q rest ih =>
    rw [List.cons_append]
    by_cases hq : p q = true
    · rw [List.takeWhile_cons_of_pos hq, List.takeWhile_cons_of_pos hq, ih]
    · rw [List.takeWhile_cons_of_neg hq, List.takeWhile_cons_of_neg hq]

theorem dropWhile_above :
    (ps ++ .opening :: qs).dropWhile p = ps.dropWhile p ++ .opening :: qs := by
  induction ps with
  | nil => exact List.dropWhile_cons_of_neg (by rw [hp]; decide)
  | cons q rest ih =>
    rw [List.cons_append]
    by_cases hq : p q = true
    · rw [List.dropWhile_cons_of_pos hq, List.dropWhile_cons_of_pos hq, ih]
    · rw [List.dropWhile_cons_of_neg hq, List.dropWhile_cons_of_neg hq, List.cons_append]

end

theorem owner_above (ps qs : List Pending) :
    owner (ps ++ .opening :: qs) = ((owner ps).1, (owner ps).2 ++ .opening :: qs) := by
  match ps with
  | [] => rfl
  | .opening :: _ => rfl
  | .operation (.operator _) :: _ => rfl
  | .operation (.function _) :: _ => rfl

variable {ps ps' : List Pending} {t : Token} {out : List Item}

/-- **What a token has applied** is above the topmost `(`, or it is a group with its owner. -/
theorem applied_above (h : step? ps t = some (out, ps')) (qs : List Pending) :
    applied (ps ++ .opening :: qs) t = applied ps t := by
  cases t with
  | number x => rfl
  | function f => rfl
  | opening => rfl
  | operator o => exact takeWhile_above rfl ps qs
  | closing =>
    obtain ⟨rest, hd, -, -⟩ := step?_closing_eq_some_iff.1 h
    rw [applied, applied, takeWhile_above rfl, dropWhile_above rfl, hd]
    match rest with
    | [] => rfl
    | .opening :: _ => rfl
    | .operation (.operator _) :: _ => rfl
    | .operation (.function _) :: _ => rfl

/-- **A token that has a step** has the same one above a `(`. -/
theorem step?_above (h : step? ps t = some (out, ps')) (qs : List Pending) :
    step? (ps ++ .opening :: qs) t = some (out, ps' ++ .opening :: qs) := by
  cases t with
  | number x => cases h; rfl
  | function f => cases h; rfl
  | opening => cases h; rfl
  | operator o =>
    cases h
    rw [step?, takeWhile_above rfl, dropWhile_above rfl]
    rfl
  | closing =>
    obtain ⟨rest, hd, rfl, rfl⟩ := step?_closing_eq_some_iff.1 h
    refine step?_closing_eq_some_iff.2 ⟨rest ++ .opening :: qs, ?_, ?_, ?_⟩
    · rw [dropWhile_above rfl, hd, List.cons_append]
    · rw [takeWhile_above rfl, owner_above]
    · rw [owner_above]

end Machine

end PocketCalculator
