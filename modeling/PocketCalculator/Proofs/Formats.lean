import PocketCalculator.Document.Format
import PocketCalculator.Proofs.DistinctKeys

/-!
# Lawful formats

What the settings rely on in a format of documents. A document has no key twice. A record is a table or an
array: a table gives its fields by their keys, in any order and among other keys, and an array gives them
by their places. A field that is given is what its value is read as, and one that is missing is its default.

* `IsSection`, `Gives`: records, and what they give a field.
* `IsField`: a field is read, or it is its default.
* `Format.Lawful`: the laws of a format.
* `Format.Lawful.field?_eq_some_iff`: the fields of a record.
-/

namespace PocketCalculator.Document

/-! ### Records and names -/

/-- **Values with fields**: tables, in which whatever stands with other keys has to be readable, arrays,
and moments of time, which give nothing. -/
inductive IsSection (keys : List String) : Value → Prop
  | table {introduced : Introduction} {entries : Entries}
      (h : ∀ e ∈ entries, e.1 ∉ keys → e.2.isReadable = true) :
      IsSection keys (.table introduced entries)
  | array (items : List Value) : IsSection keys (.array items)
  | tables (elements : List Entries) : IsSection keys (.tables elements)
  | moment (written : String) : IsSection keys (.moment written)

/-- **What a record gives a field**: a table by key, an array by place. -/
inductive Gives (key : String) (place : Nat) : Value → Value → Prop
  | named {introduced : Introduction} {entries : Entries} {v : Value} (h : (key, v) ∈ entries) :
      Gives key place (.table introduced entries) v
  | placed {items : List Value} {v : Value} (h : items[place]? = some v) :
      Gives key place (.array items) v
  | element {elements : List Entries} {entries : Entries} (h : elements[place]? = some entries) :
      Gives key place (.tables elements) (.table .header entries)

/-- **What is written as a name**: a text, and a table with the name as its only key, behind which there is
nothing. -/
inductive IsName : Value → String → Prop
  | text (s : String) : IsName (.text s) s
  | array (introduced : Introduction) (s : String) : IsName (.table introduced [(s, .array [])]) s
  | table (introduced inner : Introduction) (s : String) :
      IsName (.table introduced [(s, .table inner [])]) s

section Tables

variable {keys : List String} {key : String} {place : Nat} {v : Value} {introduced : Introduction}
  {entries : Entries}

theorem isSection_table_iff :
    IsSection keys (.table introduced entries) ↔
      ∀ e ∈ entries, e.1 ∉ keys → e.2.isReadable = true := by
  constructor
  · rintro ⟨h⟩
    exact h
  · exact .table

theorem gives_table_iff :
    Gives key place (.table introduced entries) v ↔ (key, v) ∈ entries := by
  constructor
  · rintro ⟨h⟩
    exact h
  · exact .named

end Tables

/-! ### Fields -/

section Fields

variable {α : Type} {given other : Value → Prop} {means : Value → α → Prop} {default x : α}

/-- **A field** is what its given value means, or its default if none is given. -/
inductive IsField (given : Value → Prop) (means : Value → α → Prop) (default x : α) : Prop
  | given {v : Value} (h : given v) (hx : means v x)
  | missing (h : ∀ v, ¬ given v) (hx : x = default)

theorem isField_congr (h : ∀ v, given v ↔ other v) :
    IsField given means default x ↔ IsField other means default x := by
  rw [show given = other from funext fun v => propext (h v)]

theorem isField_of_missing (h : ∀ v, ¬ given v) : IsField given means default x ↔ x = default := by
  constructor
  · intro hx
    cases hx with
    | given hv => exact absurd hv (h _)
    | missing _ hx => exact hx
  · exact .missing h

theorem isField_of_given {held : Value} (h : ∀ v, given v ↔ v = held) :
    IsField given means default x ↔ means held x := by
  constructor
  · intro hx
    cases hx with
    | given hv hx => rwa [(h _).1 hv] at hx
    | missing hnone _ => exact absurd ((h held).2 rfl) (hnone held)
  · exact .given ((h held).2 rfl)

end Fields

/-! ### The laws -/

/-- **The laws of a format.** -/
structure Format.Lawful (F : Format) : Prop where
  /-- No key of a document occurs twice. -/
  distinct {text : String} {document : Entries} : F.parse? text = some document → document.Distinct
  /-- Only values with fields are records. -/
  unsuitable {α : Type} {keys : List String} {key : String} {default : α} {read? : Value → Option α}
    {v : Value} : ¬ IsSection keys v → F.field? keys key default read? v = none
  /-- A missing field is its default. -/
  missing {α : Type} {keys : List String} {key : String} {place : Nat} {default : α}
    {read? : Value → Option α} {v : Value} :
    v.Distinct → keys.Nodup → keys[place]? = some key → IsSection keys v →
      (∀ w, ¬ Gives key place v w) → F.field? keys key default read? v = some default
  /-- A given field is what its value is read as. -/
  given {α : Type} {keys : List String} {key : String} {place : Nat} {default : α}
    {read? : Value → Option α} {v w : Value} :
    v.Distinct → keys.Nodup → keys[place]? = some key → IsSection keys v →
      Gives key place v w → F.field? keys key default read? v = read? w
  text {v : Value} {s : String} : F.text? v = some s ↔ v = .text s
  word {v : Value} {n : UInt64} : F.word? v = some n ↔ v = .integer n.toNat
  name {names : List String} {v : Value} {s : String} :
    F.name? names v = some s ↔ s ∈ names ∧ IsName v s

/-- **The fields of a record** are what they are read as, or their defaults. -/
theorem Format.Lawful.field?_eq_some_iff {F : Format} (hF : F.Lawful) {keys : List String}
    (hkeys : keys.Nodup) {key : String} {place : Nat} (hplace : keys[place]? = some key) {α : Type}
    {default x : α} {read? : Value → Option α} {means : Value → α → Prop}
    (hread : ∀ w, read? w = some x ↔ means w x) {v : Value} (hv : v.Distinct) :
    F.field? keys key default read? v = some x ↔
      IsSection keys v ∧ IsField (Gives key place v) means default x := by
  by_cases hsection : IsSection keys v
  swap
  · simp [hF.unsuitable hsection, hsection]
  rw [and_iff_right hsection]
  by_cases hgiven : ∃ w, Gives key place v w
  · obtain ⟨w, hw⟩ := hgiven
    constructor
    · intro h
      rw [hF.given hv hkeys hplace hsection hw] at h
      exact .given hw ((hread w).1 h)
    · intro h
      cases h with
      | given hw hx => rw [hF.given hv hkeys hplace hsection hw, (hread _).2 hx]
      | missing hnone _ => exact absurd hw (hnone w)
  · rw [not_exists] at hgiven
    rw [hF.missing hv hkeys hplace hsection hgiven, isField_of_missing hgiven, Option.some.injEq,
      eq_comm]

end PocketCalculator.Document
