import PocketCalculator.Proofs.Derivation
import PocketCalculator.Proofs.Operands

/-!
# Malformed expressions

The evaluation checks how many operands there are, not where they stand. So some texts have a
value though the grammar does not derive them: an operator may come before or behind its
operands, a function behind its operand. In all of them two operands stand side by side.

* `arranged_of_counts`: without operands side by side, balanced tokens with one number more
  than operators are arranged.
* `juxtaposed_of_exec`: so tokens with one value that are not derived have operands side by
  side.
* `Misplaced`: the value of a text whose operands stand side by side.
* `evaluate_malformed`: which malformed texts have a fault, and which have none.
-/

namespace PocketCalculator

open Postfix

/-- **Derivable**: the text has the tokens of an expression of the grammar. -/
def Derivable (s : String) : Prop := ∃ e : Tree 1, Reads s e.tokens

theorem not_derivable_of_reads {s : String} {ts : List Token} (hs : Reads s ts)
    (h : arranged false 0 ts = false) : ¬ Derivable s := by
  rintro ⟨e, he⟩
  have derived := (derives_iff ts).1 ⟨e, he.unique hs⟩
  rw [h] at derived
  cases derived

def Token.endsOperand : Token → Bool
  | number _ | closing => true
  | _ => false

def Token.startsOperand : Token → Bool
  | number _ | opening | function _ => true
  | _ => false

/-- **Side by side**: somewhere an operand ends and the next token begins another one. -/
def juxtaposed : List Token → Bool
  | t :: u :: rest => (t.endsOperand && u.startsOperand) || juxtaposed (u :: rest)
  | _ => false

theorem not_juxtaposed_cons {t : Token} {ts : List Token} (h : juxtaposed (t :: ts) = false) :
    juxtaposed ts = false ∧
      (t.endsOperand = true → ∀ u ∈ ts.head?, u.startsOperand = false) := by
  cases ts with
  | nil => exact ⟨rfl, fun _ u hu => by cases hu⟩
  | cons u rest =>
    rw [juxtaposed, Bool.or_eq_false_iff] at h
    refine ⟨h.2, fun ht v hv => ?_⟩
    cases hv
    simpa [ht] using h.1

/-- **Too few numbers.** Without operands side by side there are not more numbers than the
operators have room for, and room is left when the tokens are not arranged. `behind` tells
whether an operand has just ended. -/
theorem arranged_of_counts {ts : List Token} (behind : Bool) (d : Nat)
    (apart : juxtaposed ts = false)
    (first : behind = true → ∀ u ∈ ts.head?, u.startsOperand = false)
    (nested : nesting? d (ts.filterMap Token.paren?) = some 0) :
    ts.countP Token.isNumber + behind.toNat ≤ ts.countP Token.isOperator + 1 ∧
      (ts.countP Token.isNumber + behind.toNat = ts.countP Token.isOperator + 1 →
        arranged behind d ts = true) := by
  induction ts generalizing behind d with
  | nil =>
    cases nested
    cases behind with
    | false => exact ⟨by decide, fun h => by cases h⟩
    | true => exact ⟨by decide, fun _ => rfl⟩
  | cons t rest ih =>
    obtain ⟨apart', next⟩ := not_juxtaposed_cons apart
    -- where an operand begins, none has just ended
    have due : t.startsOperand = true → behind = false := by
      intro starts
      by_contra ended
      rw [first (Bool.of_not_eq_false ended) t rfl] at starts
      cases starts
    simp only [List.countP_cons]
    cases t with
    | number x =>
      obtain rfl := due rfl
      exact ih true d apart' (fun _ => next rfl) nested
    | function f =>
      obtain rfl := due rfl
      exact ih false d apart' (fun h => by cases h) nested
    | opening =>
      obtain rfl := due rfl
      exact ih false (d + 1) apart' (fun h => by cases h) nested
    | operator o =>
      have ⟨le, eq⟩ := ih false d apart' (fun h => by cases h) nested
      simp only [Token.isNumber, Token.isOperator, Bool.toNat_false, if_true, Bool.false_eq_true,
        if_false] at le eq ⊢
      cases behind with
      | false =>
        -- an operand is missing before the operator, and the room is not used up
        rw [Bool.toNat_false]
        exact ⟨by omega, fun h => by omega⟩
      | true =>
        rw [Bool.toNat_true]
        exact ⟨by omega, fun h => eq (by omega)⟩
    | closing =>
      cases d with
      | zero => cases nested
      | succ d =>
        have ⟨le, eq⟩ := ih true d apart' (fun _ => next rfl) nested
        simp only [Token.isNumber, Token.isOperator, Bool.toNat_true, Bool.false_eq_true,
          if_false] at le eq ⊢
        cases behind with
        | false =>
          -- an operand is missing before the `)`
          rw [Bool.toNat_false]
          exact ⟨by omega, fun h => by omega⟩
        | true => exact ⟨le, eq⟩

/-- **Operands side by side.** If the postfix sequence of tokens leaves one value and they are not
derived by the grammar, two operands stand side by side. -/
theorem juxtaposed_of_exec {ts : List Token} {R : List Item} {v : Float}
    (hR : order? [] ts = some R) (hv : exec R [] = .ok [v])
    (h : arranged false 0 ts = false) : juxtaposed ts = true := by
  by_contra apart
  have nested : nesting? 0 (ts.filterMap Token.paren?) = some 0 :=
    (order?_isSome_iff [] ts).1 (by rw [hR]; rfl)
  have counts := exec_length hv
  rw [(countP_order? hR).1, (countP_order? hR).2] at counts
  -- one value is left, so there is one number more than operators
  have one : ts.countP Token.isNumber = ts.countP Token.isOperator + 1 := by
    rw [List.length_singleton, List.length_nil] at counts
    omega
  have all := arranged_of_counts false 0 (Bool.not_eq_true _ ▸ apart) (fun h => by cases h) nested
  have derived : arranged false 0 ts = true := all.2 one
  rw [h] at derived
  cases derived

/-- **A value out of place.** Two operands stand side by side, and the operations that wait find
their operands all the same: the postfix sequence leaves this one value. -/
def Misplaced (s : String) (v : Float) : Prop :=
  ∃ ts R, Reads s ts ∧ juxtaposed ts = true ∧ order? [] ts = some R ∧ exec R [] = .ok [v]

theorem Misplaced.evaluate {s : String} {v : Float} (h : Misplaced s v) :
    evaluate s = .ok v := by
  obtain ⟨ts, R, hs, -, hR, hv⟩ := h
  exact (evaluate_eq_ok_iff hs hR v).2 hv

/-- A text with a value that the grammar does not derive has it out of place. -/
theorem misplaced_of_evaluate {s : String} {v : Float} (h : ¬ Derivable s)
    (he : evaluate s = .ok v) : Misplaced s v := by
  rcases evaluate_cases s with ⟨ts, R, hs, hR⟩ | ⟨f, hf, -⟩
  · have hv := (evaluate_eq_ok_iff hs hR v).1 he
    -- the tokens are not arranged, since a tree would derive the text
    have notArranged : arranged false 0 ts = false := by
      rw [← Bool.not_eq_true, ← derives_iff]
      rintro ⟨e, rfl⟩
      exact h ⟨e, hs⟩
    exact ⟨ts, R, hs, juxtaposed_of_exec hR hv notArranged, hR, hv⟩
  · rw [he] at hf
    cases hf

/-- **Malformed texts.** A text that the grammar does not derive has a fault, except exactly when
it has a value out of place. Then that is its value. -/
theorem evaluate_malformed {s : String} (h : ¬ Derivable s) :
    ((∃ f, evaluate s = .error f) ↔ ¬ ∃ v, Misplaced s v) ∧
      ∀ v, Misplaced s v → evaluate s = .ok v := by
  refine ⟨⟨?_, ?_⟩, fun v hv => hv.evaluate⟩
  · rintro ⟨f, hf⟩ ⟨v, hv⟩
    rw [hv.evaluate] at hf
    cases hf
  · intro none
    cases he : evaluate s with
    | error f => exact ⟨f, rfl⟩
    | ok v => exact (none ⟨v, misplaced_of_evaluate h he⟩).elim

/-- In `3 + * 4` no operands stand side by side, so it has a fault. -/
theorem evaluate_missing_between :
    ¬ Derivable "3 + * 4" ∧ ∃ f, evaluate "3 + * 4" = .error f := by
  have hs : Reads "3 + * 4" [.number 3, .operator .add, .operator .multiply, .number 4] := by
    apply Written.reads
    have text : "3 + * 4".toList = ['3'] ++ ' ' :: '+' :: ' ' :: '*' :: ' ' :: (['4'] ++ []) := by
      decide
    rw [text]
    exact .number (by decide +kernel) (by decide) (by decide) <| .space <| .operator .add <| .space <|
      .operator .multiply <| .space <| .number (by decide +kernel) (by decide) (by decide) .nil
  have hd : ¬ Derivable "3 + * 4" := not_derivable_of_reads hs rfl
  refine ⟨hd, (evaluate_malformed hd).1.2 ?_⟩
  rintro ⟨v, ts, R, hts, hj, -⟩
  cases hts.unique hs
  cases hj

/-- **An operator behind its operands**: `3 4 +` is not derived by the grammar, and it is worth
seven. -/
theorem evaluate_operator_behind :
    ¬ Derivable "3 4 +" ∧ evaluate "3 4 +" = .ok (3 + 4) := by
  have hs : Reads "3 4 +" [.number 3, .number 4, .operator .add] := by
    apply Written.reads
    have text : "3 4 +".toList = ['3'] ++ ' ' :: (['4'] ++ ' ' :: '+' :: []) := by decide
    rw [text]
    exact .number (by decide +kernel) (by decide) (by decide) <| .space <|
      .number (by decide +kernel) (by decide) (by decide) <| .space <| .operator .add .nil
  exact ⟨not_derivable_of_reads hs rfl, (evaluate_eq_ok_iff hs rfl _).2 rfl⟩

end PocketCalculator
