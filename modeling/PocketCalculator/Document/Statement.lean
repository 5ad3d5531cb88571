import PocketCalculator.Document.Moment
import PocketCalculator.Document.Numeral
import PocketCalculator.Document.Quoted

/-!
# Statements

A document is a sequence of statements, one to a line: headers of tables, and keys with
their values. Between brackets or braces lines may be broken and commented.

* `path`: a dotted key of at most `maxDepth` parts.
* `value`: a value that nests at most so deep.
* `statements`: all statements of a document.
-/

namespace PocketCalculator.Document

/-- A statement of a document. -/
inductive Statement where
  /-- A header `[path]`: the table that the next pairs belong to. -/
  | header (path : List String)
  /-- A header `[[path]]`: one more table of an array, for the next pairs. -/
  | element (path : List String)
  /-- A key and its value. -/
  | pair (path : List String) (v : Value)

/-- The characters of keys without quotes. -/
def isBare (c : Char) : Bool := c.isAlphanum || c == '_' || c == '-'

/-- Reads one part of a key, with or without quotes. -/
def keyPart : Reader String := fun cs =>
  match cs.takeWhile isBare with
  | [] => Quoted.oneLine cs
  | bare => some (String.ofList bare, cs.dropWhile isBare)

/-- The greatest depth to which values nest, and the greatest number of parts of a key. -/
def maxDepth : Nat := 80

/-- Reads the parts of a key behind its first, at most so many. -/
def pathTail : Nat → Reader (List String)
  | 0 => do
    Reader.spaces
    if ← Reader.accept '.' then failure
    return []
  | n + 1 => do
    Reader.spaces
    if ← Reader.accept '.' then
      Reader.spaces
      let part ← keyPart
      return part :: (← pathTail n)
    else return []

/-- **A dotted key**: its parts, and the spacing around them. -/
def path : Reader (List String) := do
  Reader.spaces
  let part ← keyPart
  return part :: (← pathTail (maxDepth - 1))

/-- The characters of values without quotes: all that have no meaning of their own between
values. -/
def isScalar (c : Char) : Bool :=
  !List.contains ['=', ',', '[', ']', '{', '}', '#', ' ', '\t', '\r', '\n'] c

/-- The characters of a value without quotes, brackets or braces. A time may stand one
space behind a date. -/
def scalarRun : Reader (List Char) := do
  let run ← Reader.takeRun isScalar
  match ← get with
  | ' ' :: c :: rest =>
    if isDate run ∧ c.isDigit then
      set (c :: rest)
      return run ++ ' ' :: (← Reader.takeRun isScalar)
    else return run
  | _ => return run

/-- The value of characters without quotes. -/
def scalarOf? (cs : List Char) : Option Value :=
  if cs = "true".toList then some (.truth true)
  else if cs = "false".toList then some (.truth false)
  else if isMoment cs then some (.moment (String.ofList cs))
  else numeral? cs

/-- Reads a value that holds no others. -/
def scalar : Reader Value := do
  match (← get).head? with
  | none => failure
  | some c =>
    if c = quotationMark ∨ c = apostrophe then return .text (← quoted)
    else
      match scalarOf? (← scalarRun) with
      | some v => return v
      | none => failure

/-- Reads what is separated by commas up to a closing mark, for as many characters as
given. A comma may stand behind the last item. -/
def items {α : Type} (item : Reader α) (close : Char) : Nat → Reader (List α)
  | 0 => failure
  | n + 1 => do
    Reader.gap
    if ← Reader.accept close then return []
    let a ← item
    Reader.gap
    if ← Reader.accept ',' then return a :: (← items item close n)
    Reader.expect close
    return [a]

/-- Adds a value to a table under a dotted key, making tables on the way. A key is given
a value once. Dotted keys add to tables that dotted keys made; through a table that is
merely implied, and through the last table of an array of tables, they only reach
further tables. -/
def define (v : Value) : List String → Entries → Option Entries
  | [], _ => none
  | [key], es => if (es.lookup key).isSome then none else some (es.set key v)
  | key :: rest, es =>
    match es.lookup key with
    | none => (define v rest []).map fun made => es.set key (.table .dotted made)
    | some (.table introduced held) =>
      if introduced = .dotted ∨ (introduced = .implied ∧ 1 < rest.length) then
        (define v rest held).map fun made => es.set key (.table introduced made)
      else none
    | some (.tables elements) =>
      if 1 < rest.length then do
        let made ← define v rest (← elements.getLast?)
        return es.set key (.tables (elements.dropLast ++ [made]))
      else none
    | some _ => none

/-- Reads a key, the sign `=`, and a value, with what may stand around the sign. -/
def pairOf (around : Reader Unit) (v : Reader Value) : Reader (List String × Value) := do
  let key ← path
  around
  Reader.expect '='
  around
  return (key, ← v)

/-- The table that the pairs in braces make. -/
def inlineTable? (pairs : List (List String × Value)) : Option Value :=
  (pairs.foldlM (fun es p => define p.2 p.1 es) []).map (.table .inline)

/-- **A value** in which arrays and tables nest at most so deep. -/
def value : Nat → Reader Value
  | 0 => scalar
  | depth + 1 => do
    if ← Reader.accept '[' then
      return .array (← items (value depth) ']' ((← get).length + 1))
    else if ← Reader.accept '{' then
      match inlineTable? (← items (pairOf Reader.gap (value depth)) '}' ((← get).length + 1)) with
      | some table => return table
      | none => failure
    else scalar

/-- Reads one statement. -/
def statement : Reader Statement := do
  if ← Reader.accept '[' then
    if ← Reader.accept '[' then
      let p ← path
      Reader.spaces
      Reader.expect ']'
      Reader.expect ']'
      return .element p
    else
      let p ← path
      Reader.spaces
      Reader.expect ']'
      return .header p
  else
    let (p, v) ← pairOf Reader.spaces (value maxDepth)
    return .pair p v

/-- Reads statements to the end of the text, for as many characters as given. -/
def statementsWithin : Nat → Reader (List Statement)
  | 0 => failure
  | n + 1 => do
    Reader.gap
    if (← get).isEmpty then return []
    let s ← statement
    Reader.lineEnd
    return s :: (← statementsWithin n)

/-- **All statements of a document.** A byte order mark at its front does not count. -/
def statements? (text : String) : Option (List Statement) :=
  let cs := match text.toList with
    | '\ufeff' :: rest => rest
    | cs => cs
  (statementsWithin (cs.length + 1)).takeAll cs

end PocketCalculator.Document
