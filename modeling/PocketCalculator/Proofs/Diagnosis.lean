import PocketCalculator.Proofs.Applying

/-!
# The diagnosis of parentheses

There are two places where parentheses are found unbalanced: a `)` that finds no `(` pending,
and the end, which comes to a `(` that is still pending. In between the entries that are taken
off are operations only, so the number of `(` that are pending is how deep the text is nested.

* `Machine.nesting?_of_feed`: the `(` that are pending are the ones that are open in the text.
* `evaluate_parentheses`: what the outcome of an evaluation says about the parentheses.
-/

namespace PocketCalculator

open Postfix

namespace Machine

theorem opening_mem_of_drain {ps : List Pending} {vs : List Float}
    (h : drain ps vs = .error .unbalanced) : .opening ∈ ps := by
  by_contra none
  have operations : ∀ p ∈ ps, isOperation p = true := by
    intro p hp
    cases p with
    | operation op => rfl
    | opening => exact absurd hp none
  rw [drain_of_operations operations, perform] at h
  cases hv : exec (items ps) vs with
  | ok ws => rw [hv] at h; cases h
  | error op => rw [hv] at h; cases h

theorem opened_pos_of_mem {ps : List Pending} (h : .opening ∈ ps) : 0 < opened ps :=
  List.countP_pos_iff.2 ⟨.opening, h, rfl⟩

theorem nesting?_of_accept {m n : Machine} {t : Token} (h : m.accept t = .ok n)
    (ts : List Token) :
    nesting? (opened m.pending) ((t :: ts).filterMap Token.paren?) =
      nesting? (opened n.pending) (ts.filterMap Token.paren?) := by
  obtain ⟨vs, out, qs, -, hstep, rfl⟩ := accept_eq_ok_iff.1 h
  exact nesting?_of_step? hstep ts

theorem nesting?_of_accept_unbalanced {m : Machine} {t : Token}
    (h : m.accept t = .error .unbalanced) (ts : List Token) :
    nesting? (opened m.pending) ((t :: ts).filterMap Token.paren?) = none := by
  rw [accept_eq] at h
  rcases bind_eq_error_iff.1 h with h | ⟨vs, -, h⟩
  · exact absurd (opening_mem_of_drain h) (opening_not_mem_applied _ t)
  · cases hstep : step? m.pending t with
    | none => exact nesting?_of_step?_eq_none hstep ts
    | some p => rw [hstep] at h; cases h

/-- The parentheses among lexemes. -/
def parens (xs : List Lexeme) : List Char := (xs.filterMap Lexeme.token?).filterMap Token.paren?

theorem parens_cons {x : Lexeme} {t : Token} (h : x.token? = some t) (xs : List Lexeme) :
    parens (x :: xs) = (t :: xs.filterMap Lexeme.token?).filterMap Token.paren? := by
  rw [parens, List.filterMap_cons_some h]

/-- **What is pending is what is open**, as long as there is no fault. -/
theorem nesting?_of_feed {m n : Machine} {xs : List Lexeme} (h : m.feed xs = .ok n) :
    nesting? (opened m.pending) (parens xs) = some (opened n.pending) := by
  induction xs generalizing m with
  | nil => cases h; rfl
  | cons x rest ih =>
    obtain ⟨t, hread, h⟩ := bind_eq_ok_iff.1 h
    obtain ⟨m', haccept, h⟩ := bind_eq_ok_iff.1 h
    rw [parens_cons (Lexeme.read_eq_ok_iff.1 hread), nesting?_of_accept haccept]
    exact ih h

/-- **Unbalanced before the end**: some `)` comes too early. -/
theorem nesting?_of_feed_unbalanced {m : Machine} {xs : List Lexeme}
    (h : m.feed xs = .error .unbalanced) : nesting? (opened m.pending) (parens xs) = none := by
  induction xs generalizing m with
  | nil => cases h
  | cons x rest ih =>
    rcases bind_eq_error_iff.1 h with hread | ⟨t, hread, h⟩
    · have stray := (Lexeme.read_eq_error_iff.1 hread).2
      cases stray
    · rw [parens_cons (Lexeme.read_eq_ok_iff.1 hread)]
      rcases bind_eq_error_iff.1 h with haccept | ⟨m', haccept, h⟩
      · exact nesting?_of_accept_unbalanced haccept _
      · rw [nesting?_of_accept haccept]
        exact ih h

/-- **Unbalanced at the end**: some `(` is still pending. -/
theorem opening_mem_of_result {m : Machine} (h : m.result = .error .unbalanced) :
    .opening ∈ m.pending := by
  rw [result_eq] at h
  rcases bind_eq_error_iff.1 h with h | ⟨vs, -, h⟩
  · exact opening_mem_of_drain h
  · rcases vs with _ | ⟨_, _ | ⟨_, _⟩⟩ <;> cases h

end Machine

/-- **The diagnosis of parentheses.** A text with a value, or with another number of values left
over, is balanced, and a text whose parentheses are found unbalanced is not. A token never has a
`(` applied; only the end may come to one, which applies all that is pending. -/
theorem evaluate_parentheses (s : String) :
    (∀ v, evaluate s = .ok v → Balanced s.toList) ∧
      (∀ n, evaluate s = .error (.leftover n) → Balanced s.toList) ∧
      (evaluate s = .error .unbalanced → ¬ Balanced s.toList) ∧
      ∀ (m : Machine) (t : Token), .opening ∉ Machine.applied m.pending t ∧
        m.accept t = (Machine.drain (Machine.applied m.pending t) m.values >>= fun vs =>
          (step? m.pending t).elim (.error .unbalanced) fun p => .ok ⟨t.values ++ vs, p.2⟩) := by
  have balanced_of : (∀ f, evaluate s = .error f → ∃ n, f = .leftover n) → Balanced s.toList := by
    intro h
    rcases evaluate_cases s with ⟨ts, R, hs, hR⟩ | ⟨f, hf, hn⟩
    · have nested := (order?_isSome_iff [] ts).1 (by rw [hR]; rfl)
      rw [nesting?_of_reads hs] at nested
      exact (balanced_iff _).2 nested
    · obtain ⟨n, rfl⟩ := h f hf
      exact absurd rfl (hn n)
  refine ⟨?_, ?_, ?_, ?_⟩
  · intro v hv
    apply balanced_of
    intro f hf
    rw [hv] at hf
    cases hf
  · intro n hn
    apply balanced_of
    intro f hf
    rw [hn] at hf
    cases hf
    exact ⟨n, rfl⟩
  · intro hu balanced
    have nested : nesting? (opened Machine.start.pending) (Machine.parens (scan s)) = some 0 := by
      rw [scan, Machine.parens, nesting?_lexemes]
      exact (balanced_iff _).1 balanced
    rcases Machine.bind_eq_error_iff.1 hu with hfeed | ⟨m, hfeed, hresult⟩
    · rw [Machine.nesting?_of_feed_unbalanced hfeed] at nested
      cases nested
    · rw [Machine.nesting?_of_feed hfeed] at nested
      have open_left := Machine.opened_pos_of_mem (Machine.opening_mem_of_result hresult)
      have none_left : opened m.pending = 0 := Option.some.inj nested
      omega
  · intro m t
    exact ⟨Machine.opening_not_mem_applied m.pending t, m.accept_eq t⟩

end PocketCalculator
