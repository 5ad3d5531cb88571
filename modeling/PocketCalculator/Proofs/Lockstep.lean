import Mathlib.Data.List.Forall2
import PocketCalculator.Proofs.Applying

/-!
# Evaluations in step

No operation looks at what its operands are worth. So two evaluations of tokens that differ in
the values of their numbers only are in step: after each token the same entries are pending,
equally many values are there, and what is a fault for one is the same fault for the other.

* `InStep.bind`: outcomes stay in step when what follows keeps them so.
* `Machine.accept_inStep`, `Machine.run_inStep`: one token, and all of them.
* `evaluate_alike`: texts of alike tokens both have a value, or both have the same fault.
-/

namespace PocketCalculator

/-- **Alike tokens** are the same up to the value of a number. -/
inductive Token.Alike : Token → Token → Prop
  | number (x y : Float) : Alike (.number x) (.number y)
  | same (t : Token) : Alike t t

/-- **Outcomes in step**: results that are related, or one fault for both. -/
inductive InStep {α β : Type} (R : α → β → Prop) : Except Fault α → Except Fault β → Prop
  | ok {a : α} {b : β} (related : R a b) : InStep R (.ok a) (.ok b)
  | fault (f : Fault) : InStep R (.error f) (.error f)

theorem InStep.bind {α β γ δ : Type} {R : α → β → Prop} {S : γ → δ → Prop}
    {x : Except Fault α} {y : Except Fault β} {f : α → Except Fault γ} {g : β → Except Fault δ}
    (h : InStep R x y) (next : ∀ a b, R a b → InStep S (f a) (g b)) :
    InStep S (x >>= f) (y >>= g) := by
  cases h with
  | ok related => exact next _ _ related
  | fault e => exact .fault e

/-- Stacks of equally many values. -/
def SameHeight (vs ws : List Float) : Prop := vs.length = ws.length

theorem SameHeight.append {us us' vs vs' : List Float} (h : SameHeight us us')
    (h' : SameHeight vs vs') : SameHeight (us ++ vs) (us' ++ vs') := by
  unfold SameHeight at h h' ⊢
  rw [List.length_append, List.length_append, h, h']

/-- Machines with the same entries pending and equally many values. -/
structure Machine.Parallel (m n : Machine) : Prop where
  pending : m.pending = n.pending
  height : SameHeight m.values n.values

theorem Operation.perform_inStep (op : Operation) {vs ws : List Float} (h : SameHeight vs ws) :
    InStep SameHeight (op.perform vs) (op.perform ws) := by
  unfold SameHeight at h
  match op, vs, ws with
  | .function f, [], [] => exact .fault _
  | .function f, a :: vs, b :: ws => exact .ok h
  | .operator o, [], [] => exact .fault _
  | .operator o, [_], [_] => exact .fault _
  | .operator o, b :: a :: vs, b' :: a' :: ws =>
    have rest : (a :: vs).length = (a' :: ws).length := Nat.succ.inj h
    exact .ok rest

theorem Pending.perform_inStep (p : Pending) {vs ws : List Float} (h : SameHeight vs ws) :
    InStep SameHeight (p.perform vs) (p.perform ws) := by
  cases p with
  | operation op => exact op.perform_inStep h
  | opening => exact .fault _

namespace Machine

variable {vs ws : List Float}

theorem drain_inStep (ps : List Pending) (h : SameHeight vs ws) :
    InStep SameHeight (drain ps vs) (drain ps ws) := by
  induction ps generalizing vs ws with
  | nil => exact .ok h
  | cons p rest ih => exact (p.perform_inStep h).bind fun _ _ h' => ih h'

/-- **One token** keeps machines in step. The entries it has applied, and whether it is a fault
after that, depend on what is pending only. -/
theorem accept_inStep {m n : Machine} {t u : Token} (h : Parallel m n) (alike : t.Alike u) :
    InStep Parallel (m.accept t) (n.accept u) := by
  obtain ⟨vs, ps⟩ := m
  obtain ⟨ws, qs⟩ := n
  obtain ⟨rfl, height⟩ := h
  cases alike with
  | number x y =>
    have brought : SameHeight [x] [y] := rfl
    exact .ok ⟨rfl, brought.append height⟩
  | same =>
    have brought : SameHeight t.values t.values := rfl
    rw [accept_eq, accept_eq]
    refine (drain_inStep (applied ps t) height).bind fun us us' left => ?_
    cases Postfix.step? ps t with
    | none => exact .fault _
    | some p => exact .ok ⟨rfl, brought.append left⟩

/-- **All tokens** keep machines in step. -/
theorem run_inStep {m n : Machine} {ts us : List Token} (h : Parallel m n)
    (alike : List.Forall₂ Token.Alike ts us) : InStep Parallel (m.run ts) (n.run us) := by
  induction alike generalizing m n with
  | nil => exact .ok h
  | cons head _ ih => exact (accept_inStep h head).bind fun _ _ h' => ih h'

theorem result_inStep {m n : Machine} (h : Parallel m n) :
    InStep (fun _ _ => True) m.result n.result := by
  obtain ⟨vs, ps⟩ := m
  obtain ⟨ws, qs⟩ := n
  obtain ⟨rfl, height⟩ := h
  refine (drain_inStep ps height).bind fun xs ys left => ?_
  unfold SameHeight at left
  match xs, ys with
  | [], [] => exact .fault _
  | [_], [_] => exact .ok trivial
  | a :: b :: xs, a' :: b' :: ys =>
    have same : xs.length + 2 = ys.length + 2 := left
    show InStep _ (.error (.leftover (xs.length + 2))) (.error (.leftover (ys.length + 2)))
    rw [same]
    exact .fault _

end Machine

/-- **The values of numbers do not matter** for whether there is a value, nor for which fault
there is: texts of alike tokens both have a value, or they have the same fault. So nothing that
happens in the arithmetic becomes a fault or hides one. -/
theorem evaluate_alike {s t : String} {ts us : List Token} (hs : Reads s ts) (ht : Reads t us)
    (alike : List.Forall₂ Token.Alike ts us) :
    (∃ v w, evaluate s = .ok v ∧ evaluate t = .ok w) ∨
      ∃ f, evaluate s = .error f ∧ evaluate t = .error f := by
  have start : Machine.Parallel Machine.start Machine.start := ⟨rfl, rfl⟩
  have outcome : InStep (fun _ _ => True) (evaluate s) (evaluate t) := by
    rw [evaluate_of_reads hs, evaluate_of_reads ht]
    exact (Machine.run_inStep start alike).bind fun _ _ => Machine.result_inStep
  generalize evaluate s = x at outcome
  generalize evaluate t = y at outcome
  cases outcome with
  | ok _ => exact .inl ⟨_, _, rfl, rfl⟩
  | fault f => exact .inr ⟨f, rfl, rfl⟩

/-- `sqrt (0-4)/0` takes the root of a negative number and divides by zero, and it is in step
with `sqrt (9-4)/2`. -/
theorem evaluate_alike_anomalies :
    let tokens (x z : Float) : List Token := [.function .squareRoot, .opening, .number x,
      .operator .subtract, .number 4, .closing, .operator .divide, .number z]
    Reads "sqrt (0-4)/0" (tokens 0 0) ∧ Reads "sqrt (9-4)/2" (tokens 9 2) ∧
      List.Forall₂ Token.Alike (tokens 0 0) (tokens 9 2) ∧
      ((∃ v w, evaluate "sqrt (0-4)/0" = .ok v ∧ evaluate "sqrt (9-4)/2" = .ok w) ∨
        ∃ f, evaluate "sqrt (0-4)/0" = .error f ∧ evaluate "sqrt (9-4)/2" = .error f) := by
  intro tokens
  have count {c : Char} {x : Float} (h : IsFiniteLiteral [c] x) :
      0 < Literal.wrapped ([c].countP Char.isDigit) :=
    Literal.wrapped_pos h.toIsNumeral (Nat.lt_of_le_of_lt List.countP_le_length (show 1 < _ by decide))
  have written (a c : Char) {x z : Float} (ha : IsFiniteLiteral [a] x)
      (hc : IsFiniteLiteral [c] z) : Written (tokens x z)
        (Scientific.squareRoot.name.toList ++ ' ' :: '(' :: ([a] ++ '-' :: (['4'] ++ ')' :: '/' ::
          ([c] ++ [])))) :=
    .function _ (endsRun_cons.2 rfl) <| .space <| .opening <|
      .number ha (count ha) (endsRun_cons.2 rfl) <| .operator .subtract <|
      .number (by decide +kernel) (by decide) (endsRun_cons.2 rfl) <| .closing <|
      .operator .divide <| .number hc (count hc) (by decide) .nil
  have hs : Reads "sqrt (0-4)/0" (tokens 0 0) := by
    apply Written.reads
    have text := written '0' '0' (x := 0) (z := 0) (by decide +kernel) (by decide +kernel)
    exact text
  have ht : Reads "sqrt (9-4)/2" (tokens 9 2) := by
    apply Written.reads
    have text := written '9' '2' (x := 9) (z := 2) (by decide +kernel) (by decide +kernel)
    exact text
  have alike : List.Forall₂ Token.Alike (tokens 0 0) (tokens 9 2) := by
    repeat' constructor
  exact ⟨hs, ht, alike, evaluate_alike hs ht alike⟩

end PocketCalculator
