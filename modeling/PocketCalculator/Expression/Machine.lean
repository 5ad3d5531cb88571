import PocketCalculator.Expression.Lexeme

/-!
# Evaluation with two stacks

Tokens are taken from left to right. Numbers wait on one stack, and operations and
open parentheses on another until their operands are complete. An incoming operator
first applies what binds at least as tightly, so operators of equal precedence group to
the left, the power included. A function written without parentheses waits like any
other operation.

Both stacks are lists with the top first.

* `perform`: applying one operation to the values.
* `settle`, `closeGroup`, `drain`: what an operator, a `)` and the end apply.
* `Machine.accept`, `Machine.result`: one token, and the end of the expression.
* `Machine.feed_eq_run`: lexemes that all have tokens are fed as their tokens.
* `evaluate`: the value of an expression.
-/

namespace PocketCalculator

/-- An entry that waits: an operation for its operands, or a `(` for its `)`. -/
inductive Pending where
  | operation (op : Operation)
  | opening
  deriving DecidableEq, Repr

/-- The two stacks of an evaluation, each with its top first. -/
structure Machine where
  values : List Float
  pending : List Pending

/-- Applies an operation to the topmost values. The top is the right operand. -/
def Operation.perform : Operation → List Float → Except Fault (List Float)
  | .function f, a :: rest => .ok (f.apply a :: rest)
  | .operator o, b :: a :: rest => .ok (o.apply a b :: rest)
  | op, _ => .error (.missingOperand op)

/-- Applies a pending entry; a `(` cannot be applied. -/
def Pending.perform : Pending → List Float → Except Fault (List Float)
  | .operation op, values => op.perform values
  | .opening, _ => .error .unbalanced

namespace Machine

/-- The machine before the first token. -/
def start : Machine := ⟨[], []⟩

/-- **Before an operator**: applies the topmost operations that bind at least as tightly.
Nothing below a `(` is reached. -/
def settle (precedence : Nat) : List Pending → List Float → Except Fault Machine
  | .operation op :: rest, values =>
    if precedence ≤ op.precedence then do
      settle precedence rest (← op.perform values)
    else .ok ⟨values, .operation op :: rest⟩
  | pending, values => .ok ⟨values, pending⟩

/-- Applies the function that owns the group just closed, if there is one. -/
def applyOwner : List Pending → List Float → Except Fault Machine
  | .operation (.function f) :: rest, values => do
    return ⟨← Operation.perform (.function f) values, rest⟩
  | pending, values => .ok ⟨values, pending⟩

/-- **At a `)`**: applies everything back to its `(`, then the function that owns the
group. -/
def closeGroup : List Pending → List Float → Except Fault Machine
  | [], _ => .error .unbalanced
  | .opening :: rest, values => applyOwner rest values
  | .operation op :: rest, values => do closeGroup rest (← op.perform values)

/-- **At the end**: applies everything that is still pending. -/
def drain : List Pending → List Float → Except Fault (List Float)
  | [], values => .ok values
  | entry :: rest, values => do drain rest (← entry.perform values)

/-- Takes one token. -/
def accept (m : Machine) : Token → Except Fault Machine
  | .number x => .ok { m with values := x :: m.values }
  | .opening => .ok { m with pending := .opening :: m.pending }
  | .function f => .ok { m with pending := .operation (.function f) :: m.pending }
  | .closing => closeGroup m.pending m.values
  | .operator o => do
    let m ← settle o.precedence m.pending m.values
    return { m with pending := .operation (.operator o) :: m.pending }

/-- Takes tokens in order, up to the first fault. -/
def run (m : Machine) : List Token → Except Fault Machine
  | [] => .ok m
  | t :: rest => do run (← m.accept t) rest

/-- Takes lexemes in order, up to the first fault. A lexeme that is no token is a fault
only when its turn comes. -/
def feed (m : Machine) : List Lexeme → Except Fault Machine
  | [] => .ok m
  | x :: rest => do feed (← m.accept (← x.read)) rest

/-- **Without a stray run**, feeding lexemes is taking their tokens. -/
theorem feed_eq_run (m : Machine) {xs : List Lexeme} {ts : List Token}
    (h : xs.map Lexeme.token? = ts.map some) : m.feed xs = m.run ts := by
  induction xs generalizing m ts with
  | nil => cases ts with
    | nil => rfl
    | cons t rest => cases h
  | cons x xs ih => cases ts with
    | nil => cases h
    | cons t rest =>
      obtain ⟨ht, hrest⟩ := List.cons.inj h
      have hread : x.read = .ok t := by simp [Lexeme.read, ht]
      simp only [feed, run, hread]
      show (m.accept t >>= fun m => m.feed xs) = _
      exact congrArg _ (funext fun m => ih m hrest)

/-- The value that is left when the expression ends. -/
def result (m : Machine) : Except Fault Float := do
  match ← drain m.pending m.values with
  | [x] => return x
  | values => throw (.leftover values.length)

end Machine

/-- **The value of an expression**, or its first fault. -/
def evaluate (expression : String) : Except Fault Float := do
  (← Machine.start.feed (scan expression)).result

end PocketCalculator
