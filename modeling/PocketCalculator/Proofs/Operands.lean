import PocketCalculator.Proofs.TwoPhases

/-!
# Accounting for operands

The first phase of an evaluation only rearranges: what it puts out are the numbers and
operations among the tokens, each as often as it stands there. In the second phase a number
adds a value, an operator takes one away, and a function keeps their number.

* `order?_perm`: a postfix sequence is a rearrangement of its tokens.
* `exec_length`: how many values a postfix sequence leaves.
* `evaluate_accounting`: what the outcome of an evaluation says about the numbers and
  operators of the text.
-/

namespace PocketCalculator

def Token.isNumber : Token → Bool
  | number _ => true
  | _ => false

def Token.isOperator : Token → Bool
  | operator _ => true
  | _ => false

/-- The number of numbers among the tokens of a text. -/
def numberCount (s : String) : Nat := ((scan s).filterMap Lexeme.token?).countP Token.isNumber

/-- The number of operators among the tokens of a text. -/
def operatorCount (s : String) : Nat := ((scan s).filterMap Lexeme.token?).countP Token.isOperator

namespace Postfix

def Item.isNumber : Item → Bool
  | number _ => true
  | operation _ => false

def Item.isOperator : Item → Bool
  | operation (.operator _) => true
  | _ => false

/-- The item that a token becomes; parentheses become none. -/
def ofToken? : Token → Option Item
  | .number x => some (.number x)
  | .operator o => some (.operation (.operator o))
  | .function f => some (.operation (.function f))
  | .opening => none
  | .closing => none

/-! ### The first phase rearranges -/

theorem items_append (ps qs : List Pending) : items (ps ++ qs) = items ps ++ items qs := by
  induction ps with
  | nil => rfl
  | cons p rest ih =>
    cases p with
    | opening => exact ih
    | operation op => rw [List.cons_append, items, items, ih, List.cons_append]

theorem items_takeWhile_dropWhile (p : Pending → Bool) (ps : List Pending) :
    items (ps.takeWhile p) ++ items (ps.dropWhile p) = items ps := by
  rw [← items_append, List.takeWhile_append_dropWhile]

theorem owner_items (ps : List Pending) : (owner ps).1 ++ items (owner ps).2 = items ps := by
  match ps with
  | [] => rfl
  | .opening :: _ => rfl
  | .operation (.operator _) :: _ => rfl
  | .operation (.function _) :: _ => rfl

/-- **One token**: what it puts out and what is pending after it are its own item and what
was pending before. -/
theorem step?_perm {ps qs : List Pending} {t : Token} {out : List Item}
    (h : step? ps t = some (out, qs)) :
    (out ++ items qs).Perm ((ofToken? t).toList ++ items ps) := by
  cases t with
  | number x => cases h; exact .refl _
  | opening => cases h; exact .refl _
  | function f => cases h; exact .refl _
  | operator o =>
    cases h
    rw [items, ← items_takeWhile_dropWhile (goesBefore o.precedence) ps]
    exact List.perm_middle
  | closing =>
    obtain ⟨rest, hd, rfl, rfl⟩ := step?_closing_eq_some_iff.1 h
    have all := items_takeWhile_dropWhile isOperation ps
    rw [hd, items] at all
    rw [List.append_assoc, owner_items, all]
    exact .refl _

/-- **A postfix sequence is a rearrangement** of its tokens without their parentheses, and of
the operations that were pending before. -/
theorem order?_perm {ps : List Pending} {ts : List Token} {R : List Item}
    (h : order? ps ts = some R) : R.Perm (ts.filterMap ofToken? ++ items ps) := by
  induction ts generalizing ps R with
  | nil =>
    obtain ⟨-, rfl⟩ := order?_nil_eq_some_iff.1 h
    exact .refl _
  | cons t rest ih =>
    obtain ⟨out, qs, S, hstep, hS, rfl⟩ := order?_cons_eq_some_iff.1 h
    -- what this token puts out goes past the later tokens, and then becomes its own item
    have tail : (out ++ S).Perm (rest.filterMap ofToken? ++ (out ++ items qs)) := by
      refine ((ih hS).append_left out).trans ?_
      rw [← List.append_assoc, ← List.append_assoc]
      exact List.perm_append_comm.append_right _
    have head : (rest.filterMap ofToken? ++ (out ++ items qs)).Perm
        ((ofToken? t).toList ++ (rest.filterMap ofToken? ++ items ps)) := by
      refine ((step?_perm hstep).append_left _).trans ?_
      rw [← List.append_assoc, ← List.append_assoc]
      exact List.perm_append_comm.append_right _
    have all : (t :: rest).filterMap ofToken? =
        (ofToken? t).toList ++ rest.filterMap ofToken? := by
      cases ht : ofToken? t with
      | none => rw [List.filterMap_cons_none ht]; rfl
      | some i => rw [List.filterMap_cons_some ht]; rfl
    rw [all, List.append_assoc]
    exact tail.trans head

theorem countP_ofToken? {p : Item → Bool} {q : Token → Bool}
    (h : ∀ t, q t = (ofToken? t).any p) (ts : List Token) :
    (ts.filterMap ofToken?).countP p = ts.countP q := by
  induction ts with
  | nil => rfl
  | cons t rest ih =>
    cases ht : ofToken? t with
    | none => rw [List.filterMap_cons_none ht, ih, List.countP_cons_of_neg (by simp [h, ht])]
    | some i =>
      rw [List.filterMap_cons_some ht, List.countP_cons, List.countP_cons, ih, h, ht]
      rfl

theorem countP_order? {ts : List Token} {R : List Item} (h : order? [] ts = some R) :
    R.countP Item.isNumber = ts.countP Token.isNumber ∧
      R.countP Item.isOperator = ts.countP Token.isOperator := by
  have hp : R.Perm (ts.filterMap ofToken?) := by simpa [items] using order?_perm h
  refine ⟨?_, ?_⟩
  · rw [hp.countP_eq, countP_ofToken?]
    rintro (_ | _ | _ | _ | _) <;> rfl
  · rw [hp.countP_eq, countP_ofToken?]
    rintro (_ | _ | _ | _ | _) <;> rfl

/-! ### The second phase counts -/

/-- **How many values are left**: a number adds one and an operator takes one away. -/
theorem exec_length {R : List Item} {vs ws : List Float} (h : exec R vs = .ok ws) :
    ws.length + R.countP Item.isOperator = vs.length + R.countP Item.isNumber := by
  fun_induction exec R vs with
  | case1 vs => cases h; rfl
  | case2 x rest vs ih =>
    have := ih h
    simp only [List.countP_cons, Item.isNumber, Item.isOperator, List.length_cons, if_true,
      Bool.false_eq_true, if_false] at this ⊢
    omega
  | case3 o rest b a vs ih =>
    have := ih h
    simp only [List.countP_cons, Item.isNumber, Item.isOperator, List.length_cons, if_true,
      Bool.false_eq_true, if_false] at this ⊢
    omega
  | case4 f rest a vs ih =>
    have := ih h
    simp only [List.countP_cons, Item.isNumber, Item.isOperator, List.length_cons,
      Bool.false_eq_true, if_false] at this ⊢
    omega
  | case5 op rest vs ho hf => cases h

end Postfix

open Postfix

theorem Reads.counts {s : String} {ts : List Token} (h : Reads s ts) :
    numberCount s = ts.countP Token.isNumber ∧ operatorCount s = ts.countP Token.isOperator := by
  rw [numberCount, operatorCount, h.filterMap]
  exact ⟨rfl, rfl⟩

/-- The values that the postfix sequence of a text leaves are its numbers less its operators. -/
theorem length_of_exec {s : String} {ts : List Token} {R : List Item} {vs : List Float}
    (hs : Reads s ts) (hR : order? [] ts = some R) (hv : exec R [] = .ok vs) :
    vs.length + operatorCount s = numberCount s := by
  have left := exec_length hv
  rw [(countP_order? hR).1, (countP_order? hR).2] at left
  rw [hs.counts.1, hs.counts.2]
  simpa using left

/-- **Operand accounting.** A text with a value has one number more than it has operators. A
text that leaves another number of values has so many numbers more than operators. It does not
matter where they stand. -/
theorem evaluate_accounting (s : String) :
    (∀ v, evaluate s = .ok v → numberCount s = operatorCount s + 1) ∧
      ∀ n, evaluate s = .error (.leftover n) →
        (n : Int) = numberCount s - operatorCount s ∧ n ≠ 1 := by
  rcases evaluate_cases s with ⟨ts, R, hs, hR⟩ | ⟨f, hf, hn⟩
  · cases hv : exec R [] with
    | error op =>
      rw [evaluate_of_exec_error hs hR hv]
      exact ⟨fun v h => (by cases h), fun n h => (by cases h)⟩
    | ok vs =>
      have left := length_of_exec hs hR hv
      rw [evaluate_of_exec hs hR hv]
      refine ⟨fun v h => ?_, fun n h => ?_⟩
      · rw [single_eq_ok_iff.1 h, List.length_singleton] at left
        omega
      · obtain ⟨hlen, hone⟩ := single_eq_leftover_iff.1 h
        exact ⟨by omega, hone⟩
  · rw [hf]
    exact ⟨fun v h => (by cases h), fun n h => absurd (Except.error.inj h) (hn n)⟩

end PocketCalculator
