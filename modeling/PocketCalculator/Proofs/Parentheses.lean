import PocketCalculator.Proofs.Scanning

/-!
# Balanced parentheses

A text is balanced when none of its fronts closes more than it opens and the whole closes
what it opens. Whether it is can be told by counting the open parentheses from the front,
and the tokens of a text have the parentheses of its characters.

* `balanced_iff`: a text is balanced when nothing is open before it and after it.
* `nesting?_lexemes`: counting over the characters is counting over the lexemes.
-/

namespace PocketCalculator

/-- **Balanced**: every front of a text has at least as many `(` as `)`, and the whole has
equally many. -/
def Balanced (cs : List Char) : Prop :=
  (∀ front, front <+: cs → front.count ')' ≤ front.count '(') ∧ cs.count '(' = cs.count ')'

/-- The number of open parentheses behind a text when `d` are open before it, if none of
its `)` comes too early. -/
def nesting? (d : Nat) : List Char → Option Nat
  | [] => some d
  | c :: rest =>
    if c = '(' then nesting? (d + 1) rest
    else if c = ')' then (if d = 0 then none else nesting? (d - 1) rest)
    else nesting? d rest

theorem nesting?_opening (d : Nat) (cs : List Char) :
    nesting? d ('(' :: cs) = nesting? (d + 1) cs := rfl

theorem nesting?_closing_zero (cs : List Char) : nesting? 0 (')' :: cs) = none := rfl

theorem nesting?_closing_succ (d : Nat) (cs : List Char) :
    nesting? (d + 1) (')' :: cs) = nesting? d cs := rfl

theorem nesting?_other (d : Nat) {c : Char} (ho : c ≠ '(') (hc : c ≠ ')') (cs : List Char) :
    nesting? d (c :: cs) = nesting? d cs := by
  rw [nesting?, if_neg ho, if_neg hc]

theorem forall_front_cons {P : List Char → Prop} {c : Char} {cs : List Char} :
    (∀ front, front <+: c :: cs → P front) ↔ P [] ∧ ∀ front, front <+: cs → P (c :: front) := by
  simp only [List.prefix_cons_iff]
  constructor
  · intro h
    exact ⟨h [] (.inl rfl), fun front hf => h _ (.inr ⟨front, rfl, hf⟩)⟩
  · rintro ⟨h0, h⟩ front (rfl | ⟨front, rfl, hf⟩)
    · exact h0
    · exact h front hf

theorem nesting?_eq_some_iff (d e : Nat) (cs : List Char) :
    nesting? d cs = some e ↔
      (∀ front, front <+: cs → front.count ')' ≤ d + front.count '(') ∧
        d + cs.count '(' = e + cs.count ')' := by
  induction cs generalizing d with
  | nil => simp [nesting?]
  | cons c rest ih =>
    rw [forall_front_cons]
    by_cases ho : c = '('
    · subst ho
      have he (f : List Char) : ('(' :: f).count ')' = f.count ')' := rfl
      have ho (f : List Char) : ('(' :: f).count '(' = f.count '(' + 1 := List.count_cons_self
      simp only [nesting?_opening, ih, he, ho, List.count_nil, Nat.zero_le, true_and,
        Nat.add_right_comm d 1, Nat.add_assoc]
    · by_cases hc : c = ')'
      · subst hc
        have he (f : List Char) : (')' :: f).count ')' = f.count ')' + 1 := List.count_cons_self
        have ho (f : List Char) : (')' :: f).count '(' = f.count '(' := rfl
        cases d with
        | zero =>
          -- the front of this `)` alone closes too much
          have early : ¬ ∀ front, front <+: rest → front.count ')' + 1 ≤ 0 + front.count '(' :=
            fun h => absurd (h [] List.nil_prefix) (by decide)
          simp only [nesting?_closing_zero, he, ho, early, and_false, false_and, reduceCtorEq]
        | succ d =>
          simp only [nesting?_closing_succ, ih, he, ho, List.count_nil, Nat.zero_le, true_and,
            Nat.add_right_comm d 1, ← Nat.add_assoc, Nat.add_le_add_iff_right,
            Nat.add_right_cancel_iff]
      · have he (f : List Char) : (c :: f).count ')' = f.count ')' := List.count_cons_of_ne hc
        have ho' (f : List Char) : (c :: f).count '(' = f.count '(' := List.count_cons_of_ne ho
        simp only [nesting?_other d ho hc, ih, he, ho', List.count_nil, Nat.zero_le, true_and]

/-- **Balanced texts** are those with nothing open before and behind them. -/
theorem balanced_iff (cs : List Char) : Balanced cs ↔ nesting? 0 cs = some 0 := by
  simp only [nesting?_eq_some_iff, Balanced, Nat.zero_add]

/-! ### The parentheses of the tokens -/

/-- The character of a token that is a parenthesis. -/
def Token.paren? : Token → Option Char
  | opening => some '('
  | closing => some ')'
  | _ => none

theorem nesting?_run {w : List Char} (hw : ∀ c ∈ w, inRun c = true) (d : Nat) (cs : List Char) :
    nesting? d (w ++ cs) = nesting? d cs := by
  induction w with
  | nil => rfl
  | cons c rest ih =>
    have hc := hw c List.mem_cons_self
    rw [List.cons_append, nesting?_other d, ih fun a ha => hw a (List.mem_cons_of_mem c ha)]
    · rintro rfl; exact absurd hc (by decide)
    · rintro rfl; exact absurd hc (by decide)

theorem paren?_of_ofRun? {w : List Char} {t : Token} (h : Token.ofRun? w = some t) :
    t.paren? = none := by
  unfold Token.ofRun? at h
  split at h
  · obtain ⟨x, -, rfl⟩ := Option.map_eq_some_iff.1 h; rfl
  · obtain ⟨f, -, rfl⟩ := Option.map_eq_some_iff.1 h; rfl

/-- **Counting over a text is counting over its lexemes.** -/
theorem nesting?_lexemes (cs : List Char) (d k : Nat) :
    nesting? d (((Cursor.lexemes ⟨k, cs⟩).filterMap Lexeme.token?).filterMap Token.paren?) =
      nesting? d cs := by
  induction cs using scan_induction generalizing d k with
  | nil => rw [Cursor.lexemes_nil]; rfl
  | space cs ih =>
    rw [Cursor.lexemes_space, ih, nesting?_other d (by decide) (by decide)]
  | mark c t cs h ih =>
    have hi := fun d => ih d (k + 1)
    rw [Cursor.lexemes_mark k h]
    rcases ofMark?_cases h with ⟨rfl, rfl⟩ | ⟨rfl, rfl⟩ | ⟨o, rfl, rfl⟩
    · exact hi (d + 1)
    · cases d with
      | zero => rfl
      | succ d => exact hi d
    · have ho : o.symbol ≠ '(' ∧ o.symbol ≠ ')' := by cases o <;> decide
      rw [nesting?_other d ho.1 ho.2]
      exact hi d
  | run w cs hne hw hcs ih =>
    have hi := ih d (k + byteLength w)
    rw [Cursor.lexemes_run k hne hw hcs, nesting?_run hw]
    cases ht : Token.ofRun? w with
    | none => exact hi
    | some t =>
      have hp := paren?_of_ofRun? ht
      simpa only [List.filterMap_cons, hp] using hi

/-- **The tokens of a balanced text** are balanced. -/
theorem nesting?_of_reads {s : String} {ts : List Token} (h : Reads s ts) (d : Nat) :
    nesting? d (ts.filterMap Token.paren?) = nesting? d s.toList := by
  rw [← h.filterMap]
  exact nesting?_lexemes s.toList d 0

end PocketCalculator
