import Mathlib.Data.List.TakeWhile
import PocketCalculator.Proofs.Parentheses

/-!
# Postfix order

The tokens of an expression can be put into postfix order first, by the rules for pending
entries alone, and the postfix sequence evaluated afterwards on one stack of values.

* `order?`: the first phase. An operator puts out what binds at least as tightly, a `(` is a
  barrier, a `)` puts out everything back to its `(` and one function that owns the group,
  and the end puts out the rest.
* `order?_isSome_iff`: the tokens that have a postfix sequence are the balanced ones.
* `exec`: the second phase.
* `exec_eq_error_iff`: a postfix sequence stops at its first operation without its operands.
-/

namespace PocketCalculator

namespace Postfix

/-- An item of a postfix sequence. -/
inductive Item where
  | number (x : Float)
  | operation (op : Operation)
  deriving DecidableEq

/-! ### The first phase -/

/-- Whether an operator of this precedence puts out an entry before it waits itself. -/
def goesBefore (precedence : Nat) : Pending → Bool
  | .operation op => precedence ≤ op.precedence
  | .opening => false

def isOperation : Pending → Bool
  | .operation _ => true
  | .opening => false

/-- The operations among pending entries, top first. -/
def items : List Pending → List Item
  | [] => []
  | .operation op :: rest => .operation op :: items rest
  | .opening :: rest => items rest

/-- What a group that is closed puts out for its owner, and what is pending after that. -/
def owner : List Pending → List Item × List Pending
  | .operation (.function f) :: rest => ([.operation (.function f)], rest)
  | ps => ([], ps)

/-- **One token**: what it puts out, and what is pending after it. There is no step for a `)`
without its `(`. -/
def step? (ps : List Pending) : Token → Option (List Item × List Pending)
  | .number x => some ([.number x], ps)
  | .opening => some ([], .opening :: ps)
  | .function f => some ([], .operation (.function f) :: ps)
  | .operator o =>
    some (items (ps.takeWhile (goesBefore o.precedence)),
      .operation (.operator o) :: ps.dropWhile (goesBefore o.precedence))
  | .closing =>
    match ps.dropWhile isOperation with
    | [] => none
    | _ :: rest => some (items (ps.takeWhile isOperation) ++ (owner rest).1, (owner rest).2)

/-- Behind the operations on top is a `(`, or nothing. -/
theorem dropWhile_isOperation (ps : List Pending) :
    ps.dropWhile isOperation = [] ∨ ∃ rest, ps.dropWhile isOperation = .opening :: rest := by
  induction ps with
  | nil => exact .inl rfl
  | cons p rest ih =>
    cases p with
    | opening => exact .inr ⟨rest, rfl⟩
    | operation op => exact ih

/-- **A `)` has a step** when a `(` is pending. -/
theorem step?_closing_eq_some_iff {ps qs : List Pending} {out : List Item} :
    step? ps .closing = some (out, qs) ↔ ∃ rest, ps.dropWhile isOperation = .opening :: rest ∧
      out = items (ps.takeWhile isOperation) ++ (owner rest).1 ∧ qs = (owner rest).2 := by
  rcases dropWhile_isOperation ps with hd | ⟨rest, hd⟩
  · simp [step?, hd]
  · simp [step?, hd, eq_comm]

/-- **Only a `)` without its `(`** has no step. -/
theorem step?_eq_none_iff {ps : List Pending} {t : Token} :
    step? ps t = none ↔ t = .closing ∧ ps.dropWhile isOperation = [] := by
  cases t with
  | closing =>
    rcases dropWhile_isOperation ps with hd | ⟨rest, hd⟩
    · simp [step?, hd]
    · simp [step?, hd]
  | _ => simp [step?]

/-- **The postfix sequence** of tokens behind pending entries, if no parenthesis is left
without its partner. -/
def order? (ps : List Pending) : List Token → Option (List Item)
  | [] => if ps.all isOperation then some (items ps) else none
  | t :: rest =>
    (step? ps t).bind fun (out, qs) => (order? qs rest).map (out ++ ·)

theorem order?_nil_eq_some_iff {ps : List Pending} {R : List Item} :
    order? ps [] = some R ↔ ps.all isOperation = true ∧ items ps = R := by
  rw [order?, Option.ite_none_right_eq_some, Option.some.injEq]

theorem order?_cons_eq_some_iff {ps : List Pending} {t : Token} {ts : List Token} {R : List Item} :
    order? ps (t :: ts) = some R ↔
      ∃ out qs S, step? ps t = some (out, qs) ∧ order? qs ts = some S ∧ out ++ S = R := by
  simp [order?, Option.bind_eq_some_iff, Option.map_eq_some_iff]

/-! ### Balanced tokens have a postfix sequence -/

/-- The number of `(` that are pending. -/
def opened (ps : List Pending) : Nat := ps.countP (!isOperation ·)

theorem opened_opening (ps : List Pending) : opened (.opening :: ps) = opened ps + 1 :=
  List.countP_cons_of_pos rfl

theorem opened_operation (op : Operation) (ps : List Pending) :
    opened (.operation op :: ps) = opened ps :=
  List.countP_cons_of_neg Bool.false_ne_true

theorem opened_dropWhile {p : Pending → Bool} (hp : ∀ q, p q = true → isOperation q = true)
    (ps : List Pending) : opened (ps.dropWhile p) = opened ps := by
  induction ps with
  | nil => rfl
  | cons q rest ih =>
    by_cases hq : p q = true
    · rw [List.dropWhile_cons_of_pos hq, ih, opened, opened,
        List.countP_cons_of_neg (by simp [hp q hq])]
    · rw [List.dropWhile_cons_of_neg hq]

theorem opened_owner (ps : List Pending) : opened (owner ps).2 = opened ps := by
  match ps with
  | [] => rfl
  | .opening :: _ => rfl
  | .operation (.operator _) :: _ => rfl
  | .operation (.function _) :: _ => rfl

/-- **One token** opens and closes what its parenthesis does. -/
theorem nesting?_of_step? {ps qs : List Pending} {t : Token} {out : List Item}
    (h : step? ps t = some (out, qs)) (ts : List Token) :
    nesting? (opened ps) ((t :: ts).filterMap Token.paren?) =
      nesting? (opened qs) (ts.filterMap Token.paren?) := by
  cases t with
  | number x => cases h; rfl
  | function f => cases h; rfl
  | opening => cases h; rw [opened_opening]; rfl
  | operator o =>
    cases h
    rw [opened_operation, opened_dropWhile]
    · rfl
    · rintro (op | _) hq
      · rfl
      · cases hq
  | closing =>
    obtain ⟨rest, hd, rfl, rfl⟩ := step?_closing_eq_some_iff.1 h
    have kept := opened_dropWhile (fun _ h => h) ps
    rw [hd, opened_opening] at kept
    rw [← kept, opened_owner]
    rfl

theorem nesting?_of_step?_eq_none {ps : List Pending} {t : Token} (h : step? ps t = none)
    (ts : List Token) : nesting? (opened ps) ((t :: ts).filterMap Token.paren?) = none := by
  obtain ⟨rfl, hd⟩ := step?_eq_none_iff.1 h
  have kept := opened_dropWhile (fun _ h => h) ps
  rw [hd] at kept
  rw [← kept]
  rfl

/-- **Tokens have a postfix sequence** exactly when they close what is open, and no `)` comes
too early. -/
theorem order?_isSome_iff (ps : List Pending) (ts : List Token) :
    (order? ps ts).isSome = true ↔
      nesting? (opened ps) (ts.filterMap Token.paren?) = some 0 := by
  induction ts generalizing ps with
  | nil =>
    have hall : ps.all isOperation = true ↔ opened ps = 0 := by
      simp [opened, List.countP_eq_zero]
    rw [order?, List.filterMap_nil, nesting?, Option.some.injEq, ← hall]
    split <;> simp [*]
  | cons t rest ih =>
    cases hstep : step? ps t with
    | none => simp [order?, hstep, nesting?_of_step?_eq_none hstep]
    | some p =>
      rw [nesting?_of_step? hstep, ← ih, order?, hstep, Option.bind_some, Option.isSome_map]

/-! ### The second phase -/

/-- **Evaluation of a postfix sequence** from left to right on a stack of values, its top
first. It stops at the first operation without its operands. -/
def exec : List Item → List Float → Except Operation (List Float)
  | [], vs => .ok vs
  | .number x :: rest, vs => exec rest (x :: vs)
  | .operation (.operator o) :: rest, b :: a :: vs => exec rest (o.apply a b :: vs)
  | .operation (.function f) :: rest, a :: vs => exec rest (f.apply a :: vs)
  | .operation op :: _, _ => .error op

theorem exec_append (R S : List Item) (vs : List Float) :
    exec (R ++ S) vs = (exec R vs >>= exec S) := by
  fun_induction exec R vs with
  | case1 vs => rfl
  | case2 x rest vs ih => exact ih
  | case3 o rest b a vs ih => exact ih
  | case4 f rest a vs ih => exact ih
  | case5 op rest vs ho hf =>
    rw [List.cons_append, exec]
    · rfl
    · exact ho
    · exact hf

/-- The number of operands that an operation takes. -/
def arity : Operation → Nat
  | .operator _ => 2
  | .function _ => 1

theorem exec_operation_eq_error {op : Operation} {vs : List Float} (h : vs.length < arity op)
    (R : List Item) : exec (.operation op :: R) vs = .error op := by
  match op, vs with
  | .operator o, [] => rfl
  | .operator o, [_] => rfl
  | .operator o, _ :: _ :: rest => simp only [arity, List.length_cons] at h; omega
  | .function f, [] => rfl
  | .function f, _ :: rest => simp only [arity, List.length_cons] at h; omega

/-- **A postfix sequence stops** at its first operation without enough operands. -/
theorem exec_eq_error_iff {R : List Item} {vs : List Float} {op : Operation} :
    exec R vs = .error op ↔ ∃ before after ws, R = before ++ .operation op :: after ∧
      exec before vs = .ok ws ∧ ws.length < arity op := by
  constructor
  · intro h
    fun_induction exec R vs with
    | case1 vs => cases h
    | case2 x rest vs ih =>
      obtain ⟨before, after, ws, rfl, hb, hw⟩ := ih h
      exact ⟨_ :: before, after, ws, rfl, hb, hw⟩
    | case3 o rest b a vs ih =>
      obtain ⟨before, after, ws, rfl, hb, hw⟩ := ih h
      exact ⟨_ :: before, after, ws, rfl, hb, hw⟩
    | case4 f rest a vs ih =>
      obtain ⟨before, after, ws, rfl, hb, hw⟩ := ih h
      exact ⟨_ :: before, after, ws, rfl, hb, hw⟩
    | case5 op rest vs ho hf =>
      cases h
      refine ⟨[], rest, vs, rfl, rfl, ?_⟩
      -- with enough operands an earlier case would have applied
      match op, vs with
      | .operator o, [] => exact Nat.zero_lt_two
      | .operator o, [_] => exact Nat.one_lt_two
      | .operator o, b :: a :: vs => exact (ho o b a vs rfl rfl).elim
      | .function f, [] => exact Nat.zero_lt_one
      | .function f, a :: vs => exact (hf f a vs rfl rfl).elim
  · rintro ⟨before, after, ws, rfl, hb, hw⟩
    rw [exec_append, hb]
    exact exec_operation_eq_error hw after

end Postfix

end PocketCalculator
