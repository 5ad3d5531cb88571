import PocketCalculator.Document.Assembly
import PocketCalculator.Document.Format

/-!
# The format of settings files

Settings files are TOML documents. A record is a table, or an array of its fields in order.
What a table holds besides does not count, but it has to be readable. A moment of time
counts as a table without any of the fields.

Settings can be read in any format. This is the one that the program runs with.

* `fields?`, `field?`: the fields of a record.
* `toml`: the format that the program reads.
-/

namespace PocketCalculator.Document

/-- **The fields of a record**, from a table by key and from an array by place. -/
def fields? (keys : List String) : Value → Option Entries
  | .table _ entries =>
    if Entries.areReadable (entries.filter fun e => !keys.contains e.1) then
      some (entries.filter fun e => keys.contains e.1)
    else none
  | .array items => some (keys.zip items)
  | .tables elements => some (keys.zip (elements.map (.table .header)))
  | .moment _ => some []
  | _ => none

/-- **A field of a record**, with its default if it is missing. -/
def field? {α : Type} (keys : List String) (key : String) (default : α)
    (read? : Value → Option α) (v : Value) : Option α :=
  (fields? keys v).bind fun fields =>
    match fields.lookup key with
    | none => some default
    | some held => read? held

/-- A text. -/
def text? : Value → Option String
  | .text s => some s
  | _ => none

/-- An integer from zero on and below `2^64`. -/
def word? : Value → Option UInt64
  | .integer n => if 0 ≤ n ∧ n.toNat < UInt64.size then some (UInt64.ofNat n.toNat) else none
  | _ => none

/-- What is written as a name: a text, or the only key of a table that gives it nothing. -/
def writtenName? : Value → Option String
  | .text s => some s
  | .table _ [(s, .array [])] => some s
  | .table _ [(s, .table _ [])] => some s
  | _ => none

/-- One of these names. -/
def name? (names : List String) (v : Value) : Option String :=
  (writtenName? v).filter names.contains

/-- **The format of settings files.** -/
def toml : Format := { parse?, field?, text?, word?, name? }

end PocketCalculator.Document
