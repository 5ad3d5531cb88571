import PocketCalculator.Document.Assembly
import PocketCalculator.Proofs.DistinctKeys

/-!
# Keys of a document

A pair whose key is taken is refused, and so is a second header of a table. So in the tables of a parsed
document no key occurs twice.

* `distinct_define`, `distinct_within`: what the steps of an assembly keep.
* `Reader.Yields`, `yields_value`: what readers yield.
* `distinct_parse?`: the tables of a document.
-/

namespace PocketCalculator.Document

/-! ### Assembly -/

/-- **A pair** keeps a table distinct. -/
theorem distinct_define {v : Value} (hv : v.Distinct) {p : List String} {es made : Entries}
    (hes : es.Distinct) (h : define v p es = some made) : made.Distinct := by
  fun_induction define v p es generalizing made with
  | case1 | case2 | case6 | case8 | case9 => cases h
  | case3 key es hnew =>
    cases h
    exact hes.set hv
  | case4 key rest es hrest hlookup ih =>
    obtain ⟨inner, hinner, rfl⟩ := Option.map_eq_some_iff.1 h
    exact hes.set_table (ih Entries.distinct_nil hinner) _
  | case5 key rest es hrest introduced held hlookup hopen ih =>
    obtain ⟨inner, hinner, rfl⟩ := Option.map_eq_some_iff.1 h
    exact hes.set_table (ih (hes.table_of_lookup hlookup) hinner) _
  | case7 key rest es hrest elements hlookup hlong ih =>
    simp only [Option.bind_eq_bind, Option.bind_eq_some_iff, Option.pure_def, Option.some.injEq] at h
    obtain ⟨last, hlast, inner, hinner, rfl⟩ := h
    exact hes.set_last hlookup (ih last (hes.last_of_lookup hlookup hlast) hinner)

/-- **A change** at the end of a path keeps a table distinct, if it does so there. -/
theorem distinct_within {change : Entries → Option Entries}
    (hchange : ∀ {es made : Entries}, es.Distinct → change es = some made → made.Distinct)
    {p : List String} {es made : Entries} (hes : es.Distinct) (h : within change p es = some made) :
    made.Distinct := by
  fun_induction within change p es generalizing made with
  | case1 es => exact hchange hes h
  | case2 key rest es hlookup ih =>
    obtain ⟨inner, hinner, rfl⟩ := Option.map_eq_some_iff.1 h
    exact hes.set_table (ih Entries.distinct_nil hinner) _
  | case3 | case6 => cases h
  | case4 key rest es introduced held hopen hlookup ih =>
    obtain ⟨inner, hinner, rfl⟩ := Option.map_eq_some_iff.1 h
    exact hes.set_table (ih (hes.table_of_lookup hlookup) hinner) _
  | case5 key rest es elements hlookup ih =>
    simp only [Option.bind_eq_bind, Option.bind_eq_some_iff, Option.pure_def, Option.some.injEq] at h
    obtain ⟨last, hlast, inner, hinner, rfl⟩ := h
    exact hes.set_last hlookup (ih last (hes.last_of_lookup hlookup hlast) hinner)

theorem distinct_introduce {key : String} {es made : Entries} (hes : es.Distinct)
    (h : introduce key es = some made) : made.Distinct := by
  unfold introduce at h
  split at h
  · cases h
    exact hes.set_table Entries.distinct_nil _
  · next held hlookup =>
    cases h
    exact hes.set_table (hes.table_of_lookup hlookup) _
  · cases h

theorem distinct_extend {key : String} {es made : Entries} (hes : es.Distinct)
    (h : extend key es = some made) : made.Distinct := by
  unfold extend at h
  split at h
  · cases h
    refine hes.set (Value.distinct_tables_iff.2 fun es hes => ?_)
    rw [List.mem_singleton.1 hes]
    exact Entries.distinct_nil
  · next elements hlookup =>
    cases h
    have helements := Value.distinct_tables_iff.1 (hes.of_lookup hlookup)
    refine hes.set (Value.distinct_tables_iff.2 fun es hes => ?_)
    rcases List.mem_append.1 hes with hes | hes
    · exact helements es hes
    · rw [List.mem_singleton.1 hes]
      exact Entries.distinct_nil
  · cases h

theorem distinct_atEnd {change : String → Entries → Option Entries}
    (hchange : ∀ {key : String} {es made : Entries},
      es.Distinct → change key es = some made → made.Distinct)
    {p : List String} {es made : Entries} (hes : es.Distinct) (h : atEnd change p es = some made) :
    made.Distinct := by
  obtain ⟨key, -, hwithin⟩ := Option.bind_eq_some_iff.1 h
  exact distinct_within hchange hes hwithin

/-- Statements whose values are distinct. -/
def Statement.Distinct : Statement → Prop
  | .pair _ v => v.Distinct
  | _ => True

/-- **Statements** are assembled to a distinct table. -/
theorem distinct_assemble {statements : List Statement} (hstatements : ∀ s ∈ statements, s.Distinct)
    {current : List String} {es document : Entries} (hes : es.Distinct)
    (h : assemble current es statements = some document) : document.Distinct := by
  induction statements generalizing current es with
  | nil =>
    cases h
    exact hes
  | cons s rest ih =>
    obtain ⟨hs, hrest⟩ := List.forall_mem_cons.1 hstatements
    cases s with
    | header p =>
      obtain ⟨made, hmade, h⟩ := Option.bind_eq_some_iff.1 h
      exact ih hrest (distinct_atEnd distinct_introduce hes hmade) h
    | element p =>
      obtain ⟨made, hmade, h⟩ := Option.bind_eq_some_iff.1 h
      exact ih hrest (distinct_atEnd distinct_extend hes hmade) h
    | pair p v =>
      obtain ⟨made, hmade, h⟩ := Option.bind_eq_some_iff.1 h
      exact ih hrest (distinct_within (distinct_define hs) hes hmade) h

/-! ### Numbers -/

theorem isPlain_usableInteger (n : Int) : (usableInteger n).IsPlain := by
  unfold usableInteger
  split
  · exact .integer n
  · exact .unusable

theorem isPlain_negated {v : Value} (h : v.IsPlain) : (negated v).IsPlain := by
  cases h with
  | integer n => exact isPlain_usableInteger _
  | real x => exact .real _
  | text s => exact .text s
  | unusable => exact .unusable
  | truth b => exact .truth b
  | moment written => exact .moment written

theorem isPlain_radix? {base : Nat} {cs : List Char} {v : Value} (h : radix? base cs = some v) :
    v.IsPlain := by
  unfold radix? at h
  simp only [Option.ite_none_right_eq_some, Option.some.injEq] at h
  obtain ⟨-, rfl⟩ := h
  split
  · exact .unusable
  · exact isPlain_usableInteger _

theorem isPlain_integer? {signed : Bool} {cs : List Char} {v : Value}
    (h : integer? signed cs = some v) : v.IsPlain := by
  unfold integer? at h
  simp only [Option.ite_none_left_eq_some, Option.ite_none_right_eq_some, Option.some.injEq] at h
  obtain ⟨-, -, rfl⟩ := h
  split
  · exact isPlain_usableInteger _
  · exact .unusable

theorem isPlain_real? {signed : Bool} {cs : List Char} {v : Value} (h : real? signed cs = some v) :
    v.IsPlain := by
  unfold real? at h
  by_cases hfit : (!underscoresFit Char.isDigit signed cs) = true
  · rw [if_pos hfit] at h
    cases h
  rw [if_neg hfit] at h
  obtain ⟨⟨whole, behind⟩, -, h⟩ := Option.bind_eq_some_iff.1 h
  by_cases hzero : cs.head? = some '0' ∧ 1 < whole.length
  · simp only [hzero, and_self, if_true] at h
    cases h
  simp only [hzero, if_false] at h
  obtain ⟨⟨fraction, behind⟩, -, h⟩ := Option.bind_eq_some_iff.1 h
  obtain ⟨exponent, -, h⟩ := Option.bind_eq_some_iff.1 h
  split at h
  · cases h
    exact .real _
  · cases h
    exact .unusable

theorem isPlain_magnitude? {signed : Bool} {cs : List Char} {v : Value}
    (h : magnitude? signed cs = some v) : v.IsPlain := by
  unfold magnitude? at h
  by_cases hinf : cs = "inf".toList
  · rw [if_pos hinf] at h
    cases h
    exact .real _
  rw [if_neg hinf] at h
  by_cases hnan : cs = "nan".toList
  · rw [if_pos hnan] at h
    cases h
    exact .real _
  rw [if_neg hnan] at h
  split at h
  · exact isPlain_real? h
  · exact isPlain_integer? h

/-- **Numbers** hold no other values. -/
theorem isPlain_numeral? {cs : List Char} {v : Value} (h : numeral? cs = some v) : v.IsPlain := by
  unfold numeral? at h
  split at h
  · exact isPlain_radix? h
  · exact isPlain_radix? h
  · exact isPlain_radix? h
  · simp only at h
    split at h
    · obtain ⟨w, hw, rfl⟩ := Option.map_eq_some_iff.1 h
      exact isPlain_negated (isPlain_magnitude? hw)
    · exact isPlain_magnitude? h

theorem isPlain_scalarOf? {cs : List Char} {v : Value} (h : scalarOf? cs = some v) : v.IsPlain := by
  unfold scalarOf? at h
  by_cases htrue : cs = "true".toList
  · rw [if_pos htrue] at h
    cases h
    exact .truth _
  rw [if_neg htrue] at h
  by_cases hfalse : cs = "false".toList
  · rw [if_pos hfalse] at h
    cases h
    exact .truth _
  rw [if_neg hfalse] at h
  by_cases hmoment : isMoment cs = true
  · rw [if_pos hmoment] at h
    cases h
    exact .moment _
  rw [if_neg hmoment] at h
  exact isPlain_numeral? h

/-! ### Readers -/

namespace Reader

variable {α β : Type} {r : Reader α} {f : α → Reader β} {P : β → Prop} {Q : α → Prop}

/-- **What a reader yields** has a property, whenever it succeeds. -/
def Yields (r : Reader α) (Q : α → Prop) : Prop := ∀ cs a rest, r cs = some (a, rest) → Q a

theorem yields_pure {a : α} (h : Q a) : Yields (pure a) Q := by
  intro cs b rest hb
  cases hb
  exact h

theorem yields_failure : Yields (failure : Reader α) Q := by
  intro cs a rest h
  cases h

/-- One reader behind another. -/
theorem yields_bind (h : Yields r Q) (hf : ∀ a, Q a → Yields (f a) P) : Yields (r >>= f) P := by
  intro cs b rest hb
  obtain ⟨⟨a, behind⟩, ha, hb⟩ := Option.bind_eq_some_iff.1 hb
  exact hf a (h cs a behind ha) behind b rest hb

/-- A reader behind one whose result does not matter. -/
theorem yields_behind (hf : ∀ a, Yields (f a) P) : Yields (r >>= f) P :=
  yields_bind (fun _ _ _ _ => trivial : Yields r fun _ => True) fun a _ => hf a

end Reader

open Reader

/-- The items between brackets or braces. -/
theorem yields_items {α : Type} {item : Reader α} {Q : α → Prop} (h : Yields item Q) (close : Char)
    (n : Nat) : Yields (items item close n) fun as => ∀ a ∈ as, Q a := by
  induction n with
  | zero => exact yields_failure
  | succ n ih =>
    unfold items
    refine yields_behind fun _ => yields_behind fun closed => ?_
    split
    · exact yields_pure fun _ hmem => absurd hmem List.not_mem_nil
    · refine yields_bind h fun a ha => yields_behind fun _ => yields_behind fun more => ?_
      split
      · exact yields_bind ih fun as has => yields_pure (List.forall_mem_cons.2 ⟨ha, has⟩)
      · exact yields_behind fun _ => yields_pure (List.forall_mem_singleton.2 ha)

theorem yields_pairOf {around : Reader Unit} {v : Reader Value} {Q : Value → Prop} (h : Yields v Q) :
    Yields (pairOf around v) fun pair => Q pair.2 :=
  yields_behind fun _ => yields_behind fun _ => yields_behind fun _ => yields_behind fun _ =>
    yields_bind h fun _ hv => yields_pure hv

theorem distinct_foldlM {pairs : List (List String × Value)} (hpairs : ∀ p ∈ pairs, p.2.Distinct)
    {es made : Entries} (hes : es.Distinct)
    (h : pairs.foldlM (fun es p => define p.2 p.1 es) es = some made) : made.Distinct := by
  induction pairs generalizing es with
  | nil =>
    cases h
    exact hes
  | cons p pairs ih =>
    obtain ⟨hp, hrest⟩ := List.forall_mem_cons.1 hpairs
    obtain ⟨next, hnext, h⟩ := Option.bind_eq_some_iff.1 h
    exact ih hrest (distinct_define hp hes hnext) h

/-- Pairs in braces make a distinct table. -/
theorem distinct_inlineTable? {pairs : List (List String × Value)} (hpairs : ∀ p ∈ pairs, p.2.Distinct)
    {v : Value} (h : inlineTable? pairs = some v) : v.Distinct := by
  obtain ⟨made, hmade, rfl⟩ := Option.map_eq_some_iff.1 h
  exact Value.distinct_table_iff.2 (distinct_foldlM hpairs Entries.distinct_nil hmade)

theorem yields_scalar : Yields scalar Value.Distinct := by
  unfold scalar
  refine yields_behind fun cs => ?_
  split
  · exact yields_failure
  · split
    · exact yields_behind fun s => yields_pure (.plain (.text s))
    · refine yields_behind fun run => ?_
      split
      · next v hv => exact yields_pure (.plain (isPlain_scalarOf? hv))
      · exact yields_failure

/-- **Values** are distinct. -/
theorem yields_value (depth : Nat) : Yields (value depth) Value.Distinct := by
  induction depth with
  | zero => exact yields_scalar
  | succ depth ih =>
    unfold value
    refine yields_behind fun bracket => ?_
    split
    · exact yields_behind fun _ => yields_bind (yields_items ih _ _) fun as has =>
        yields_pure (.array has)
    · refine yields_behind fun brace => ?_
      split
      · refine yields_behind fun _ => yields_bind (yields_items (yields_pairOf ih) _ _) fun ps hps => ?_
        split
        · next v hv => exact yields_pure (distinct_inlineTable? hps hv)
        · exact yields_failure
      · exact yields_scalar

theorem yields_statement : Yields statement Statement.Distinct := by
  unfold statement
  refine yields_behind fun bracket => ?_
  split
  · refine yields_behind fun double => ?_
    split
    · exact yields_behind fun _ => yields_behind fun _ => yields_behind fun _ => yields_behind fun _ =>
        yields_pure trivial
    · exact yields_behind fun _ => yields_behind fun _ => yields_behind fun _ => yields_pure trivial
  · exact yields_bind (yields_pairOf (yields_value maxDepth)) fun pair hpair => yields_pure hpair

theorem yields_statementsWithin (n : Nat) :
    Yields (statementsWithin n) fun ss => ∀ s ∈ ss, s.Distinct := by
  induction n with
  | zero => exact yields_failure
  | succ n ih =>
    unfold statementsWithin
    refine yields_behind fun _ => yields_behind fun cs => ?_
    split
    · exact yields_pure fun _ hmem => absurd hmem List.not_mem_nil
    · exact yields_bind yields_statement fun s hs => yields_behind fun _ => yields_bind ih
        fun ss hss => yields_pure (List.forall_mem_cons.2 ⟨hs, hss⟩)

theorem Reader.Yields.takeAll {α : Type} {r : Reader α} {Q : α → Prop} (h : Yields r Q)
    {cs : List Char} {a : α} (ha : r.takeAll cs = some a) : Q a := by
  unfold Reader.takeAll at ha
  split at ha
  · next b hb =>
    cases ha
    exact h cs _ [] hb
  · cases ha

/-- **In a document no key occurs twice.** -/
theorem distinct_parse? {text : String} {document : Entries} (h : parse? text = some document) :
    document.Distinct := by
  obtain ⟨ss, hss, h⟩ := Option.bind_eq_some_iff.1 h
  unfold statements? at hss
  exact distinct_assemble ((yields_statementsWithin _).takeAll hss) Entries.distinct_nil h

end PocketCalculator.Document
