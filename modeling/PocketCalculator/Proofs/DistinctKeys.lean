import PocketCalculator.Document.Value
import Mathlib.Data.List.Nodup

/-!
# Keys of a table

In a document no key occurs twice in any table. So the value of a key is the one that it stands with,
wherever that pair is in its table.

* `Entries.Distinct`, `Value.Distinct`: no key occurs twice, at any depth.
* `Entries.lookup_eq_some_iff`: the value of a key.
* `Entries.Distinct.set`: what giving a key a value keeps.
-/

namespace PocketCalculator.Document

/-- Values that hold no others. -/
inductive Value.IsPlain : Value → Prop
  | text (s : String) : IsPlain (.text s)
  | integer (n : Int) : IsPlain (.integer n)
  | real (x : Float) : IsPlain (.real x)
  | unusable : IsPlain .unusable
  | truth (b : Bool) : IsPlain (.truth b)
  | moment (written : String) : IsPlain (.moment written)

/-- **No key occurs twice** in any table of a value. -/
inductive Value.Distinct : Value → Prop
  | plain {v : Value} (h : v.IsPlain) : Distinct v
  | array {items : List Value} (values : ∀ v ∈ items, Distinct v) : Distinct (.array items)
  | table {introduced : Introduction} {entries : List (String × Value)}
      (keys : (entries.map Prod.fst).Nodup) (values : ∀ e ∈ entries, Distinct e.2) :
      Distinct (.table introduced entries)
  | tables {elements : List (List (String × Value))}
      (keys : ∀ es ∈ elements, (es.map Prod.fst).Nodup)
      (values : ∀ es ∈ elements, ∀ e ∈ es, Distinct e.2) : Distinct (.tables elements)

/-- **No key occurs twice** in a table, or in the tables inside it. -/
structure Entries.Distinct (es : Entries) : Prop where
  keys : (es.map Prod.fst).Nodup
  values : ∀ e ∈ es, e.2.Distinct

namespace Value

variable {introduced : Introduction} {entries : Entries} {elements : List Entries}

theorem distinct_table_iff : (table introduced entries).Distinct ↔ entries.Distinct := by
  constructor
  · intro h
    cases h with
    | plain h => cases h
    | table keys values => exact ⟨keys, values⟩
  · exact fun h => .table h.keys h.values

theorem distinct_tables_iff : (tables elements).Distinct ↔ ∀ es ∈ elements, es.Distinct := by
  constructor
  · intro h
    cases h with
    | plain h => cases h
    | tables keys values => exact fun es hes => ⟨keys es hes, values es hes⟩
  · exact fun h => .tables (fun es hes => (h es hes).keys) fun es hes => (h es hes).values

end Value

/-! ### Tables -/

namespace Entries

variable {es : Entries} {key : String} {v : Value}

theorem distinct_nil : Distinct [] := ⟨List.nodup_nil, fun _ h => absurd h List.not_mem_nil⟩

theorem mem_of_lookup (h : es.lookup key = some v) : (key, v) ∈ es := by
  obtain ⟨front, back, rfl, -⟩ := List.lookup_eq_some_iff.1 h
  exact List.mem_append_right _ List.mem_cons_self

/-- **The value of a key** is the one that it stands with. -/
theorem lookup_eq_some_iff (h : (es.map Prod.fst).Nodup) : es.lookup key = some v ↔ (key, v) ∈ es := by
  refine ⟨mem_of_lookup, fun hmem => ?_⟩
  obtain ⟨front, back, rfl⟩ := List.append_of_mem hmem
  refine List.lookup_eq_some_iff.2 ⟨front, back, rfl, fun e he => ?_⟩
  rw [List.map_append, List.map_cons] at h
  have hne : e.1 ≠ key :=
    (List.nodup_append.1 h).2.2 e.1 (List.mem_map_of_mem he) key List.mem_cons_self
  simpa using hne.symm

/-- A key stands with one value. -/
theorem mem_iff_eq (h : (es.map Prod.fst).Nodup) (hv : (key, v) ∈ es) (w : Value) :
    (key, w) ∈ es ↔ w = v := by
  rw [← lookup_eq_some_iff h] at hv ⊢
  rw [hv, Option.some.injEq, eq_comm]

/-- **A table stays distinct** when a key is given a value. -/
theorem Distinct.set (h : es.Distinct) (hv : v.Distinct) : (es.set key v).Distinct := by
  unfold Entries.set
  split
  -- the key keeps its place, or it is new and stands at the end
  · constructor
    · have hkeys : (es.map fun e => if e.1 = key then (key, v) else e).map Prod.fst =
          es.map Prod.fst := by
        rw [List.map_map]
        refine List.map_congr_left fun e _ => ?_
        by_cases he : e.1 = key
        · simp [he]
        · simp [he]
      rw [hkeys]
      exact h.keys
    · intro e he
      obtain ⟨d, hd, rfl⟩ := List.mem_map.1 he
      by_cases hkey : d.1 = key
      · rw [if_pos hkey]
        exact hv
      · rw [if_neg hkey]
        exact h.values d hd
  · next hnone =>
    have habsent : key ∉ es.map Prod.fst := by
      rw [Bool.not_eq_true, Option.isSome_eq_false_iff, Option.isNone_iff_eq_none,
        List.lookup_eq_none_iff] at hnone
      intro hmem
      obtain ⟨e, he, rfl⟩ := List.mem_map.1 hmem
      simpa using hnone e he
    constructor
    · rw [List.map_append, List.map_cons, List.map_nil]
      refine List.nodup_append.2 ⟨h.keys, List.nodup_singleton _, fun a ha b hb hab => ?_⟩
      rw [hab, List.mem_singleton.1 hb] at ha
      exact habsent ha
    · intro e he
      rcases List.mem_append.1 he with he | he
      · exact h.values e he
      · rw [List.mem_singleton.1 he]
        exact hv

theorem Distinct.set_table (h : es.Distinct) {made : Entries} (hmade : made.Distinct)
    (introduced : Introduction) : (es.set key (.table introduced made)).Distinct :=
  h.set (Value.distinct_table_iff.2 hmade)

theorem Distinct.of_lookup (h : es.Distinct) (hv : es.lookup key = some v) : v.Distinct :=
  h.values _ (mem_of_lookup hv)

theorem Distinct.table_of_lookup (h : es.Distinct) {introduced : Introduction} {held : Entries}
    (hv : es.lookup key = some (.table introduced held)) : held.Distinct :=
  Value.distinct_table_iff.1 (h.of_lookup hv)

/-- The last table of an array of tables may be changed. -/
theorem Distinct.set_last (h : es.Distinct) {elements : List Entries} {made : Entries}
    (hv : es.lookup key = some (.tables elements)) (hmade : made.Distinct) :
    (es.set key (.tables (elements.dropLast ++ [made]))).Distinct := by
  have helements := Value.distinct_tables_iff.1 (h.of_lookup hv)
  refine h.set (Value.distinct_tables_iff.2 fun es hes => ?_)
  rcases List.mem_append.1 hes with hes | hes
  · exact helements es (List.dropLast_subset _ hes)
  · rw [List.mem_singleton.1 hes]
    exact hmade

theorem Distinct.last_of_lookup (h : es.Distinct) {elements : List Entries} {last : Entries}
    (hv : es.lookup key = some (.tables elements)) (hlast : elements.getLast? = some last) :
    last.Distinct :=
  Value.distinct_tables_iff.1 (h.of_lookup hv) last (List.mem_of_getLast? hlast)

end Entries

end PocketCalculator.Document
