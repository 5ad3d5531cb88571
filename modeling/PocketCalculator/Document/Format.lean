import PocketCalculator.Document.Value

/-!
# Document formats

How a settings document is read is not a matter of the settings. A format says which table
a text is, and what the values in it are when a text, a number, a name or a record is asked
for. The settings only name their fields and the types of these.

* `Format`: what is asked of a document.
-/

namespace PocketCalculator.Document

/-- **A format of documents.** -/
structure Format where
  /-- The table of a text, if the text is a document. -/
  parse? : String → Option Entries
  /-- One field of a record. A record is asked for by the keys of its fields in their order, and
  a field by its key, what it is if it is missing, and how its value is read. -/
  field? : {α : Type} → (keys : List String) → (key : String) → (default : α) →
    (read? : Value → Option α) → Value → Option α
  /-- A text. -/
  text? : Value → Option String
  /-- A whole number of 64 bits without a sign. -/
  word? : Value → Option UInt64
  /-- One of these names. -/
  name? : (names : List String) → Value → Option String

end PocketCalculator.Document
