import PocketCalculator.Document.Toml
import PocketCalculator.Proofs.Formats
import PocketCalculator.Proofs.ParsedKeys

/-!
# The laws of settings documents

The format of settings files is lawful. A record is decoded by way of its fields, and what the record gives
a field is what stands with its key among them.

* `isSome_fields?_iff`: which values have fields.
* `gives_iff_lookup`: what a record gives.
* `toml_lawful`: the laws.
-/

namespace PocketCalculator.Document

variable {keys : List String} {key : String} {place : Nat} {v w held : Value} {entries fields : Entries}

theorem areReadable_iff :
    Entries.areReadable entries = true ↔ ∀ e ∈ entries, e.2.isReadable = true := by
  induction entries with
  | nil => simp [Entries.areReadable]
  | cons e rest ih => simp [Entries.areReadable, ih]

/-- What a table holds besides its fields is readable. -/
theorem areReadable_filter_iff :
    Entries.areReadable (entries.filter fun e => !keys.contains e.1) = true ↔
      ∀ e ∈ entries, e.1 ∉ keys → e.2.isReadable = true := by
  simp only [areReadable_iff, List.mem_filter, and_imp, Bool.not_eq_true', List.contains_eq_mem,
    decide_eq_false_iff_not]

/-- **Which values have fields.** -/
theorem isSome_fields?_iff : (fields? keys held).isSome = true ↔ IsSection keys held := by
  constructor
  · intro h
    cases held with
    | table introduced entries =>
      refine .table (areReadable_filter_iff.1 ?_)
      by_contra hnot
      rw [fields?, if_neg hnot] at h
      cases h
    | array items => exact .array items
    | tables elements => exact .tables elements
    | moment written => exact .moment written
    | text | integer | real | unusable | truth => cases h
  · intro h
    cases h with
    | table h => rw [fields?, if_pos (areReadable_filter_iff.2 h)]; rfl
    | array | tables | moment => rfl

theorem lookup_zip {keys : List String} (hkeys : keys.Nodup) {key : String} {place : Nat}
    (hplace : keys[place]? = some key) (items : List Value) :
    (keys.zip items).lookup key = items[place]? := by
  induction keys generalizing items place with
  | nil => simp at hplace
  | cons first rest ih =>
    obtain ⟨hfirst, hrest⟩ := List.nodup_cons.1 hkeys
    cases items with
    | nil => simp
    | cons v items =>
      cases place with
      | zero =>
        obtain rfl : first = key := by simpa using hplace
        simp
      | succ place =>
        have hplace : rest[place]? = some key := by simpa using hplace
        -- the key stands behind, and no key stands twice
        have hne : (key == first) = false := by
          rw [beq_eq_false_iff_ne]
          rintro rfl
          exact hfirst (List.mem_of_getElem? hplace)
        rw [List.zip_cons_cons, List.lookup_cons, hne, List.getElem?_cons_succ]
        exact ih hrest hplace items

/-- **What a record gives** is what stands with the key among its fields. -/
theorem gives_iff_lookup (hfields : fields? keys held = some fields) (hheld : held.Distinct)
    (hkeys : keys.Nodup) (hplace : keys[place]? = some key) (v : Value) :
    Gives key place held v ↔ fields.lookup key = some v := by
  have hmem : key ∈ keys := List.mem_of_getElem? hplace
  cases held with
  | table introduced entries =>
    have hdistinct := Value.distinct_table_iff.1 hheld
    rw [fields?, Option.ite_none_right_eq_some, Option.some.injEq] at hfields
    obtain ⟨-, rfl⟩ := hfields
    -- the fields are part of the table, so no key occurs twice among them either
    have hnodup : ((entries.filter fun e => keys.contains e.1).map Prod.fst).Nodup :=
      hdistinct.keys.sublist (List.filter_sublist.map _)
    rw [Entries.lookup_eq_some_iff hnodup, List.mem_filter, gives_table_iff]
    simp [hmem]
  | array items =>
    rw [fields?, Option.some.injEq] at hfields
    rw [← hfields, lookup_zip hkeys hplace]
    constructor
    · rintro ⟨⟩
      assumption
    · exact .placed
  | tables elements =>
    rw [fields?, Option.some.injEq] at hfields
    rw [← hfields, lookup_zip hkeys hplace, List.getElem?_map, Option.map_eq_some_iff]
    constructor
    · rintro ⟨⟩
      exact ⟨_, by assumption, rfl⟩
    · rintro ⟨es, hes, rfl⟩
      exact .element hes
  | moment written =>
    obtain rfl : [] = fields := Option.some.inj hfields
    constructor
    · rintro ⟨⟩
    · intro h
      cases h
  | text | integer | real | unusable | truth => cases hfields

/-! ### Values -/

theorem text?_eq_some_iff {s : String} : text? v = some s ↔ v = .text s := by
  constructor
  · intro h
    unfold text? at h
    split at h
    · rw [Option.some.inj h]
    · cases h
  · rintro rfl
    rfl

theorem word?_eq_some_iff {n : UInt64} : word? v = some n ↔ v = .integer n.toNat := by
  constructor
  · intro h
    unfold word? at h
    split at h
    · next m =>
      rw [Option.ite_none_right_eq_some, Option.some.injEq] at h
      obtain ⟨⟨hnonneg, hsize⟩, rfl⟩ := h
      rw [UInt64.toNat_ofNat_of_lt' hsize, Int.toNat_of_nonneg hnonneg]
    · cases h
  · rintro rfl
    -- every word is in range, so the way back is not cut off
    have hsize : (n.toNat : Int).toNat < UInt64.size := n.toNat_lt
    rw [word?, if_pos ⟨Int.natCast_nonneg _, hsize⟩, Int.toNat_natCast, UInt64.ofNat_toNat]

theorem writtenName?_eq_some_iff {s : String} : writtenName? v = some s ↔ IsName v s := by
  constructor
  · intro h
    unfold writtenName? at h
    split at h
    · cases h
      exact .text s
    · cases h
      exact .array _ s
    · cases h
      exact .table _ _ s
    · cases h
  · intro h
    cases h with
    | text | array | table => rfl

/-! ### The format -/

/-- **Settings documents** are read by the laws. -/
theorem toml_lawful : toml.Lawful where
  distinct := distinct_parse?
  unsuitable hsection := by
    have hnone := Option.not_isSome_iff_eq_none.1 (mt isSome_fields?_iff.1 hsection)
    simp only [toml, field?, hnone, Option.bind_none]
  missing hv hkeys hplace hsection hnone := by
    obtain ⟨fields, hfields⟩ := Option.isSome_iff_exists.1 (isSome_fields?_iff.2 hsection)
    have hlookup : fields.lookup _ = none := Option.eq_none_iff_forall_ne_some.2 fun w hw =>
      hnone w ((gives_iff_lookup hfields hv hkeys hplace w).2 hw)
    simp only [toml, field?, hfields, Option.bind_some, hlookup]
  given hv hkeys hplace hsection hw := by
    obtain ⟨fields, hfields⟩ := Option.isSome_iff_exists.1 (isSome_fields?_iff.2 hsection)
    have hlookup := (gives_iff_lookup hfields hv hkeys hplace _).1 hw
    simp only [toml, field?, hfields, Option.bind_some, hlookup]
  text := text?_eq_some_iff
  word := word?_eq_some_iff
  name := by
    intro names v s
    show (writtenName? v).filter names.contains = some s ↔ _
    rw [Option.filter_eq_some_iff, writtenName?_eq_some_iff, List.contains_iff_mem, and_comm]

end PocketCalculator.Document
