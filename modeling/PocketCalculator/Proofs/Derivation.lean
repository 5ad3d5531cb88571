import PocketCalculator.Proofs.Grammar

/-!
# Which tokens are derived

Whether tokens are derived by the grammar can be told from the front: it is enough to know
whether an operand is due or has just ended, and how many parentheses are open.

* `arranged_tokens`: what a tree derives is read as one operand.
* `Tree.exists_extend`: an operator and an operand behind a tree are taken into it.
* `operand_of_arranged`, `expression_of_arranged`: trees are found from the front.
* `derives_iff`: the tokens that are arranged are those of a tree.
-/

namespace PocketCalculator

/-- **Arranged tokens.** The first argument tells whether an operand has just ended, the second
how many parentheses are open. -/
def arranged : Bool → Nat → List Token → Bool
  | false, d, .number _ :: rest => arranged true d rest
  | false, d, .function _ :: rest => arranged false d rest
  | false, d, .opening :: rest => arranged false (d + 1) rest
  | true, d, .operator _ :: rest => arranged false d rest
  | true, d + 1, .closing :: rest => arranged true d rest
  | true, 0, [] => true
  | _, _, _ => false

/-- **What a tree derives** takes the place of one operand. -/
theorem arranged_tokens {n : Nat} (e : Tree n) (d : Nat) (rest : List Token) :
    arranged false d (e.tokens ++ rest) = arranged true d rest := by
  induction e generalizing d rest with
  | number x => rfl
  | single e ih => exact ih d rest
  | call f u ih => exact ih d rest
  | group e ih =>
    have he := ih (d + 1) (.closing :: rest)
    rw [Tree.tokens, List.cons_append, List.append_assoc]
    exact he
  | binary o _ l r ihl ihr =>
    rw [Tree.tokens, List.append_assoc, ihl]
    exact ihr d rest

theorem Operator.precedence_pos (o : Operator) : 1 ≤ o.precedence := by
  cases o <;> decide

namespace Tree

/-- A tree of one level is a tree of every level below. -/
theorem exists_lower {k n : Nat} (h : k ≤ n) (e : Tree n) :
    ∃ e' : Tree k, e'.tokens = e.tokens := by
  induction h with
  | refl => exact ⟨e, rfl⟩
  | step _ ih => exact ih (.single e)

/-- **An operator and an operand behind a tree** are taken into it, if the operator binds at its
level or tighter. They go down the right side of the tree to the level of the operator. -/
theorem exists_extend {n : Nat} (e : Tree n) {o : Operator} (ho : n ≤ o.precedence)
    (u : Tree 4) : ∃ e' : Tree n, e'.tokens = e.tokens ++ .operator o :: u.tokens := by
  -- at the level of the operator the tree becomes its left operand
  have here : ∀ {n : Nat} (e : Tree n), o.precedence = n →
      ∃ e' : Tree n, e'.tokens = e.tokens ++ .operator o :: u.tokens := by
    intro n e level
    obtain ⟨r, hr⟩ := exists_lower (level ▸ o.precedence_lt : n + 1 ≤ 4) u
    exact ⟨.binary o level e r, by rw [tokens, hr]⟩
  induction e with
  | number x => exact absurd o.precedence_lt (Nat.not_lt.2 ho)
  | group e _ => exact absurd o.precedence_lt (Nat.not_lt.2 ho)
  | call f u _ => exact absurd o.precedence_lt (Nat.not_lt.2 ho)
  | single e ih =>
    rcases Nat.eq_or_lt_of_le ho with level | tighter
    · exact here _ level.symm
    · obtain ⟨e', he'⟩ := ih tighter
      exact ⟨.single e', he'⟩
  | binary o' level l r _ ih =>
    rcases Nat.eq_or_lt_of_le ho with same | tighter
    · exact here _ same.symm
    · obtain ⟨r', hr'⟩ := ih tighter
      exact ⟨.binary o' level l r', by rw [tokens, hr', tokens, List.append_assoc]; rfl⟩

end Tree

mutual

/-- **Where an operand is due**, one is found. -/
theorem operand_of_arranged (d : Nat) (ts : List Token) (h : arranged false d ts = true) :
    ∃ (u : Tree 4) (rest : List Token), ts = u.tokens ++ rest ∧ arranged true d rest = true := by
  match ts with
  | .number x :: rest => exact ⟨.number x, rest, rfl, h⟩
  | .function f :: rest =>
    obtain ⟨u, behind, rfl, hb⟩ := operand_of_arranged d rest h
    exact ⟨.call f u, behind, rfl, hb⟩
  | .opening :: rest =>
    obtain ⟨u, behind, rfl, hb⟩ := operand_of_arranged (d + 1) rest h
    obtain ⟨e, he⟩ := u.exists_lower (show 1 ≤ 4 by decide)
    have shorter : behind.length ≤ (u.tokens ++ behind).length :=
      (List.suffix_append _ _).length_le
    -- a `(` is open, so the expression goes on to a `)`
    obtain ⟨e', _, hts, ⟨hd, -⟩ | ⟨d', outside, hd, rfl, ho⟩⟩ :=
      expression_of_arranged (d + 1) behind e hb
    · cases hd
    · cases hd
      refine ⟨.group e', outside, ?_, ho⟩
      rw [← he, hts, Tree.tokens, List.cons_append, List.append_assoc]
      rfl
termination_by ts.length

/-- **Behind an expression** it goes on, up to the `)` that closes it or to the end. -/
theorem expression_of_arranged (d : Nat) (ts : List Token) (e : Tree 1)
    (h : arranged true d ts = true) :
    ∃ (e' : Tree 1) (rest : List Token), e.tokens ++ ts = e'.tokens ++ rest ∧
      ((d = 0 ∧ rest = []) ∨
        ∃ d' rest', d = d' + 1 ∧ rest = .closing :: rest' ∧ arranged true d' rest' = true) := by
  match d, ts with
  | 0, [] => exact ⟨e, [], rfl, .inl ⟨rfl, rfl⟩⟩
  | d + 1, .closing :: rest => exact ⟨e, .closing :: rest, rfl, .inr ⟨d, rest, rfl, rfl, h⟩⟩
  | d, .operator o :: rest =>
    rw [arranged] at h
    obtain ⟨u, behind, rfl, hb⟩ := operand_of_arranged d rest h
    obtain ⟨e', he'⟩ := e.exists_extend (o.precedence_pos) u
    have shorter : behind.length ≤ (u.tokens ++ behind).length :=
      (List.suffix_append _ _).length_le
    obtain ⟨e'', rest', hts, hend⟩ := expression_of_arranged d behind e' hb
    refine ⟨e'', rest', ?_, hend⟩
    rw [← hts, he', List.append_assoc]
    rfl
termination_by ts.length

end

/-- **The tokens of an expression** are the arranged ones. -/
theorem derives_iff (ts : List Token) :
    (∃ e : Tree 1, e.tokens = ts) ↔ arranged false 0 ts = true := by
  constructor
  · rintro ⟨e, rfl⟩
    have he := arranged_tokens e 0 []
    rwa [List.append_nil] at he
  · intro h
    obtain ⟨u, rest, rfl, hr⟩ := operand_of_arranged 0 ts h
    obtain ⟨e, he⟩ := u.exists_lower (show 1 ≤ 4 by decide)
    obtain ⟨e', rest', hts, ⟨-, rfl⟩ | ⟨d', _, hd, -, -⟩⟩ := expression_of_arranged 0 rest e hr
    · exact ⟨e', by rw [← he, hts, List.append_nil]⟩
    · cases hd

end PocketCalculator
