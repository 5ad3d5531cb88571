import PocketCalculator.Proofs.Applying
import Mathlib.Data.List.Chain
import Mathlib.Data.List.Perm.Subperm

/-!
# The order of pending entries

An operator is put on top of operations that bind less tightly only, for what binds at least as tightly
was applied before. Functions wait wherever they stand. So between two `(` the pending entries are, from
the bottom, operators that bind tighter and tighter, and functions on top of them.

* `Machine.Ordered`: every entry may stand on the entry below it.
* `Machine.ordered_step?`, `Machine.ordered_run`: what one token keeps, and what all tokens keep.
* `Machine.exists_segment`, `Machine.length_le_three`: the shape of a segment.
* `Machine.pending_ordered`: the segments of a machine, and what an operator does to the topmost.
-/

namespace PocketCalculator

open Postfix

namespace Machine

/-- Whether an entry may stand on another one. An operator stands on a `(`, or on an operation that
binds less tightly. -/
def MayStandOn : Pending → Pending → Prop
  | .operation (.operator o), .operation op => op.precedence < o.precedence
  | _, _ => True

/-- **The order of pending entries**, given top first. -/
def Ordered (ps : List Pending) : Prop := ps.IsChain MayStandOn

/-- An operator as a pending entry. -/
abbrev operatorEntry (o : Operator) : Pending := .operation (.operator o)

/-- A function as a pending entry. -/
abbrev functionEntry (f : Scientific) : Pending := .operation (.function f)

/-! ### What tokens keep -/

theorem ordered_of_suffix {ps qs : List Pending} (h : Ordered ps) (hsuffix : qs <:+ ps) :
    Ordered qs :=
  List.IsChain.suffix h hsuffix

/-- The owner of a group is at most the topmost entry. -/
theorem owner_suffix (ps : List Pending) : (owner ps).2 <:+ ps := by
  unfold owner
  split
  · exact List.suffix_cons _ _
  · exact List.suffix_refl _

/-- An operator may stand on what it leaves. -/
theorem ordered_operator {ps : List Pending} (h : Ordered ps) (o : Operator) :
    Ordered (operatorEntry o :: ps.dropWhile (goesBefore o.precedence)) := by
  refine List.IsChain.cons (ordered_of_suffix h (List.dropWhile_suffix _)) fun p hp => ?_
  have hstays : goesBefore o.precedence p = false := by
    have hnot := List.head?_dropWhile_not (goesBefore o.precedence) ps
    rw [Option.mem_def.1 hp] at hnot
    exact hnot
  cases p with
  | opening => trivial
  | operation op =>
    have hlt : ¬ o.precedence ≤ op.precedence := of_decide_eq_false hstays
    exact Nat.lt_of_not_le hlt

/-- **One token** keeps the order. -/
theorem ordered_step? {ps qs : List Pending} {t : Token} {out : List Item} (h : Ordered ps)
    (hstep : step? ps t = some (out, qs)) : Ordered qs := by
  cases t with
  | number x => cases hstep; exact h
  | opening => cases hstep; exact List.IsChain.cons h fun _ _ => trivial
  | function f => cases hstep; exact List.IsChain.cons h fun _ _ => trivial
  | operator o => cases hstep; exact ordered_operator h o
  | closing =>
    obtain ⟨rest, hrest, -, rfl⟩ := step?_closing_eq_some_iff.1 hstep
    -- what is left is below the `(`, perhaps without the function that owned the group
    have hbelow : rest <:+ ps :=
      (List.suffix_cons _ _).trans (hrest ▸ List.dropWhile_suffix _)
    exact ordered_of_suffix h ((owner_suffix rest).trans hbelow)

/-- **All tokens** keep the order. -/
theorem ordered_run {tokens : List Token} {m n : Machine} (h : Ordered m.pending)
    (hrun : m.run tokens = .ok n) : Ordered n.pending := by
  induction tokens generalizing m with
  | nil => cases hrun; exact h
  | cons t rest ih =>
    obtain ⟨next, haccept, hnext⟩ := bind_eq_ok_iff.1 hrun
    obtain ⟨_, _, _, -, hstep, rfl⟩ := accept_eq_ok_iff.1 haccept
    exact ih (ordered_step? h hstep) hnext

/-! ### Segments -/

/-- **A segment**, top first: functions, then operators that bind less and less tightly. -/
theorem exists_segment {ps : List Pending} (h : Ordered ps) (hoperations : .opening ∉ ps) :
    ∃ (functions : List Scientific) (operators : List Operator),
      ps = functions.map functionEntry ++ operators.map operatorEntry ∧
        operators.Pairwise fun upper lower => lower.precedence < upper.precedence := by
  induction ps with
  | nil => exact ⟨[], [], rfl, .nil⟩
  | cons p rest ih =>
    rw [List.mem_cons, not_or] at hoperations
    obtain ⟨functions, operators, rfl, hpairwise⟩ := ih (List.IsChain.tail h) hoperations.2
    cases p with
    | opening => exact absurd rfl hoperations.1
    | operation op =>
      cases op with
      | function f => exact ⟨f :: functions, operators, rfl, hpairwise⟩
      | operator o =>
        cases functions with
        | cons f functions =>
          -- no operator stands on a function
          have hlt : Scientific.precedence < o.precedence := List.IsChain.rel_head? h rfl
          exact absurd hlt (Nat.lt_asymm o.precedence_lt)
        | nil =>
          refine ⟨[], o :: operators, rfl, List.pairwise_cons.2 ⟨fun lower hlower => ?_, hpairwise⟩⟩
          cases operators with
          | nil => cases hlower
          | cons next operators =>
            have hnext : next.precedence < o.precedence := List.IsChain.rel_head? h rfl
            rcases List.mem_cons.1 hlower with rfl | hlower
            · exact hnext
            · exact Nat.lt_trans (List.rel_of_pairwise_cons hpairwise hlower) hnext

/-- There are three precedences, so no more operators bind tighter and tighter. -/
theorem length_le_three {operators : List Operator}
    (h : operators.Pairwise fun lower upper => lower.precedence < upper.precedence) :
    operators.length ≤ 3 := by
  have hnodup : (operators.map Operator.precedence).Nodup :=
    List.Pairwise.map _ (fun _ _ hlt => Nat.ne_of_lt hlt) h
  have hsubset : operators.map Operator.precedence ⊆ [1, 2, 3] := by
    intro n hn
    obtain ⟨o, -, rfl⟩ := List.mem_map.1 hn
    cases o <;> decide
  simpa using (List.subperm_of_subset hnodup hsubset).length_le

/-- The segments hold no `(`, and are in order themselves. -/
theorem ordered_of_mem_splitOn {ps segment : List Pending} (h : Ordered ps)
    (hmem : segment ∈ ps.splitOn .opening) : .opening ∉ segment ∧ Ordered segment := by
  by_cases hopening : .opening ∈ ps
  · obtain ⟨upper, lower, hps, hupper⟩ := List.eq_append_cons_of_mem hopening
    have hlength : lower.length < ps.length := by
      rw [hps, List.length_append, List.length_cons]
      omega
    rw [hps] at h hmem
    rw [List.splitOn_append_cons_self_of_not_mem hupper, List.mem_cons] at hmem
    rcases hmem with rfl | hmem
    · exact ⟨hupper, List.IsChain.left_of_append h⟩
    · have hlower : Ordered lower := List.IsChain.tail (List.IsChain.right_of_append h)
      exact ordered_of_mem_splitOn hlower hmem
  · rw [List.splitOn_eq_singleton hopening, List.mem_singleton] at hmem
    subst hmem
    exact ⟨hopening, h⟩
termination_by ps.length

/-! ### What an operator leaves -/

/-- Of operators that bind less and less tightly, those that bind tightly enough come first. -/
theorem precedence_lt_of_mem_dropWhile {operators : List Operator} {n : Nat}
    (h : operators.Pairwise fun upper lower => lower.precedence < upper.precedence) :
    ∀ lower ∈ operators.dropWhile (n ≤ ·.precedence), lower.precedence < n := by
  induction operators with
  | nil => exact fun _ hmem => absurd hmem List.not_mem_nil
  | cons o rest ih =>
    intro lower hmem
    by_cases ho : n ≤ o.precedence
    · simp only [List.dropWhile_cons, ho, decide_true, if_true] at hmem
      exact ih h.of_cons lower hmem
    · simp only [List.dropWhile_cons, ho, decide_false, Bool.false_eq_true, if_false] at hmem
      rcases List.mem_cons.1 hmem with rfl | hmem
      · omega
      · have hlt := List.rel_of_pairwise_cons h hmem
        omega

/-- **The topmost segment under an operator**: its functions and its operators that bind at least as
tightly, on top of those that bind less tightly, and the rest below the topmost `(`. -/
theorem exists_topmost {ps : List Pending} (h : Ordered ps) (o : Operator) :
    ∃ (functions : List Scientific) (high low : List Operator) (below : List Pending),
      ps = functions.map functionEntry ++ high.map operatorEntry ++ low.map operatorEntry ++ below ∧
        (below = [] ∨ below.head? = some .opening) ∧
        (∀ p ∈ high, o.precedence ≤ p.precedence) ∧ (∀ p ∈ low, p.precedence < o.precedence) := by
  have htop : .opening ∉ ps.takeWhile isOperation := by
    intro hmem
    cases List.mem_takeWhile_imp hmem
  have hordered : Ordered (ps.takeWhile isOperation) :=
    List.IsChain.prefix h (List.takeWhile_prefix _)
  obtain ⟨functions, operators, htake, hpairwise⟩ := exists_segment hordered htop
  refine ⟨functions, operators.takeWhile (o.precedence ≤ ·.precedence),
    operators.dropWhile (o.precedence ≤ ·.precedence), ps.dropWhile isOperation, ?_, ?_, ?_, ?_⟩
  · rw [List.append_assoc (functions.map functionEntry), ← List.map_append,
      List.takeWhile_append_dropWhile, ← htake, List.takeWhile_append_dropWhile]
  · rcases dropWhile_isOperation ps with hnil | ⟨rest, hrest⟩
    · exact .inl hnil
    · right
      rw [hrest]
      rfl
  · intro p hp
    simpa using List.mem_takeWhile_imp hp
  · exact precedence_lt_of_mem_dropWhile hpairwise

/-- A list is cut where a property ends. -/
theorem cut_of_head? {p : Pending → Bool} {upper lower : List Pending}
    (hupper : ∀ q ∈ upper, p q = true) (hlower : ∀ q ∈ lower.head?, p q = false) :
    (upper ++ lower).takeWhile p = upper ∧ (upper ++ lower).dropWhile p = lower := by
  rw [List.takeWhile_append_of_pos hupper, List.dropWhile_append_of_pos hupper]
  cases lower with
  | nil => exact ⟨List.append_nil upper, rfl⟩
  | cons q lower =>
    have hq : ¬ p q = true := Bool.eq_false_iff.1 (hlower q rfl)
    rw [List.takeWhile_cons_of_neg hq, List.dropWhile_cons_of_neg hq]
    exact ⟨List.append_nil upper, rfl⟩

/-- **An operator in closed form.** It has the functions of the topmost segment applied, then the
operators that bind at least as tightly, and stands on those that bind less tightly. -/
theorem accept_operator_of_topmost {m : Machine} {o : Operator} {functions : List Scientific}
    {high low : List Operator} {below : List Pending}
    (hpending : m.pending =
      functions.map functionEntry ++ high.map operatorEntry ++ (low.map operatorEntry ++ below))
    (hbelow : below = [] ∨ below.head? = some .opening)
    (hhigh : ∀ p ∈ high, o.precedence ≤ p.precedence)
    (hlow : ∀ p ∈ low, p.precedence < o.precedence) :
    m.accept (.operator o) = (do
      let values ← drain (functions.map functionEntry ++ high.map operatorEntry) m.values
      return ⟨values, operatorEntry o :: (low.map operatorEntry ++ below)⟩) := by
  have hupper : ∀ p ∈ functions.map functionEntry ++ high.map operatorEntry,
      goesBefore o.precedence p = true := by
    intro p hp
    rcases List.mem_append.1 hp with hp | hp
    · obtain ⟨f, -, rfl⟩ := List.mem_map.1 hp
      exact decide_eq_true (Nat.le_of_lt o.precedence_lt)
    · obtain ⟨q, hq, rfl⟩ := List.mem_map.1 hp
      exact decide_eq_true (hhigh q hq)
  have hlower : ∀ p ∈ (low.map operatorEntry ++ below).head?,
      goesBefore o.precedence p = false := by
    intro p hp
    cases low with
    | nil =>
      rcases hbelow with rfl | hopening
      · cases hp
      · rw [List.map_nil, List.nil_append, hopening] at hp
        cases hp
        rfl
    | cons q low =>
      cases hp
      exact decide_eq_false (Nat.not_le.2 (hlow q List.mem_cons_self))
  obtain ⟨htake, hdrop⟩ := cut_of_head? hupper hlower
  rw [accept_eq, step?, applied, hpending, htake, hdrop]
  rfl

/-- **The order of pending entries.** Whatever the tokens were, cut the pending entries of the machine
at each `(`. Every segment is, from the bottom, at most three operators that bind tighter and tighter,
and then functions. So in the topmost segment an operator has all the functions applied, then exactly
those operators that bind at least as tightly as itself, and what it stands on, up to the next `(`,
binds less tightly. -/
theorem pending_ordered {tokens : List Token} {m : Machine} (h : start.run tokens = .ok m) :
    (∀ segment ∈ m.pending.splitOn .opening,
      ∃ (operators : List Operator) (functions : List Scientific),
        segment.reverse = operators.map operatorEntry ++ functions.map functionEntry ∧
        operators.length ≤ 3 ∧
        operators.Pairwise fun lower upper => lower.precedence < upper.precedence) ∧
      ∀ o : Operator,
        ∃ (functions : List Scientific) (high low : List Operator) (below : List Pending),
          m.pending =
            functions.map functionEntry ++ high.map operatorEntry ++
              (low.map operatorEntry ++ below) ∧
          (below = [] ∨ below.head? = some .opening) ∧
          (∀ p ∈ high, o.precedence ≤ p.precedence) ∧ (∀ p ∈ low, p.precedence < o.precedence) ∧
          m.accept (.operator o) = (do
            let values ← drain (functions.map functionEntry ++ high.map operatorEntry) m.values
            return ⟨values, operatorEntry o :: (low.map operatorEntry ++ below)⟩) := by
  have hstart : Ordered start.pending := List.IsChain.nil
  have hordered : Ordered m.pending := ordered_run hstart h
  refine ⟨fun segment hsegment => ?_, fun o => ?_⟩
  · obtain ⟨hoperations, hsegment⟩ := ordered_of_mem_splitOn hordered hsegment
    obtain ⟨functions, operators, rfl, hpairwise⟩ := exists_segment hsegment hoperations
    have hupward := List.pairwise_reverse.2 hpairwise
    refine ⟨operators.reverse, functions.reverse, ?_, length_le_three hupward, hupward⟩
    rw [List.reverse_append, List.map_reverse, List.map_reverse]
  · obtain ⟨functions, high, low, below, hpending, hbelow, hhigh, hlow⟩ := exists_topmost hordered o
    rw [List.append_assoc] at hpending
    exact ⟨functions, high, low, below, hpending, hbelow, hhigh, hlow,
      accept_operator_of_topmost hpending hbelow hhigh hlow⟩

/-- In `2 ^ (1 + 3 * sqrt` the power is below the `(`, and three entries are above it. -/
theorem pending_ordered_group :
    let upper := [functionEntry .squareRoot, operatorEntry .multiply, operatorEntry .add]
    start.run [.number 2, .operator .power, .opening, .number 1, .operator .add, .number 3,
      .operator .multiply, .function .squareRoot] =
        .ok ⟨[3, 1, 2], upper ++ .opening :: [operatorEntry .power]⟩ ∧
      ∃ (operators : List Operator) (functions : List Scientific),
        upper.reverse = operators.map operatorEntry ++ functions.map functionEntry ∧
        operators.length ≤ 3 ∧
        operators.Pairwise fun lower upper => lower.precedence < upper.precedence := by
  intro upper
  have hrun : start.run [.number 2, .operator .power, .opening, .number 1, .operator .add, .number 3,
      .operator .multiply, .function .squareRoot] =
        .ok ⟨[3, 1, 2], upper ++ .opening :: [operatorEntry .power]⟩ := rfl
  have hmem : upper ∈ (upper ++ .opening :: [operatorEntry .power]).splitOn .opening := by
    rw [List.splitOn_append_cons_self_of_not_mem (by decide)]
    exact List.mem_cons_self
  exact ⟨hrun, (pending_ordered hrun).1 upper hmem⟩

end Machine

end PocketCalculator
