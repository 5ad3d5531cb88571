import PocketCalculator.Document.Statement

/-!
# Assembling a document

The statements of a document are put together into one table. A header introduces its
table once, after which the table takes the pairs that follow; tables on the way to it
are implied, and are introduced later if they get a header of their own.

* `within`: a change to the table that a header path leads to.
* `introduce`, `extend`: the two kinds of headers.
* `parse?`: the table of a document.
-/

namespace PocketCalculator.Document

/-- **A change at the end of a path.** The path goes through tables, and through the last
table of an array of tables; tables missing on it are implied. -/
def within (change : Entries → Option Entries) : List String → Entries → Option Entries
  | [], es => change es
  | key :: rest, es =>
    match es.lookup key with
    | none => (within change rest []).map fun made => es.set key (.table .implied made)
    | some (.table .inline _) => none
    | some (.table introduced held) =>
      (within change rest held).map fun made => es.set key (.table introduced made)
    | some (.tables elements) => do
      let made ← within change rest (← elements.getLast?)
      return es.set key (.tables (elements.dropLast ++ [made]))
    | some _ => none

/-- **A table gets its header**, which it can get once. -/
def introduce (key : String) (es : Entries) : Option Entries :=
  match es.lookup key with
  | none => some (es.set key (.table .header []))
  | some (.table .implied held) => some (es.set key (.table .header held))
  | some _ => none

/-- **An array of tables gets one more.** -/
def extend (key : String) (es : Entries) : Option Entries :=
  match es.lookup key with
  | none => some (es.set key (.tables [[]]))
  | some (.tables elements) => some (es.set key (.tables (elements ++ [[]])))
  | some _ => none

/-- Applies a change to the last part of a path. -/
def atEnd (change : String → Entries → Option Entries) (p : List String) (es : Entries) :
    Option Entries := do
  within (change (← p.getLast?)) p.dropLast es

/-- The table of statements, behind the header that leads to `current`. -/
def assemble (current : List String) (es : Entries) : List Statement → Option Entries
  | [] => some es
  | .header p :: rest => do assemble p (← atEnd introduce p es) rest
  | .element p :: rest => do assemble p (← atEnd extend p es) rest
  | .pair p v :: rest => do assemble current (← within (define v p) current es) rest

/-- **The table of a document**, if the text is one. -/
def parse? (text : String) : Option Entries := do
  assemble [] [] (← statements? text)

end PocketCalculator.Document
