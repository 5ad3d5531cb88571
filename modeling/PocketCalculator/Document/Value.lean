/-!
# Document values

A settings document is a TOML text. Its values are texts, numbers, truth values,
moments of time, arrays and tables. A table remembers how it was introduced, since
that decides whether later lines may add to it.

* `Entries.set`: gives a key a value.
* `Value.isReadable`: whether a value holds only numbers that can be used.
* `Value.decEq`: equality of values is decidable.
-/

namespace PocketCalculator.Document

/-- How a table came into a document. -/
inductive Introduction where
  /-- By a header of its own. -/
  | header
  /-- By the header of a table inside it. -/
  | implied
  /-- By a dotted key. -/
  | dotted
  /-- As a value in braces. Such a table is complete. -/
  | inline
  deriving DecidableEq, Repr

/-- A value of a document. -/
inductive Value where
  | text (s : String)
  | integer (n : Int)
  | real (x : Float)
  /-- A text in the form of a number that no number of a supported size corresponds to. -/
  | unusable
  | truth (b : Bool)
  /-- A date, a time of day, or both. -/
  | moment (written : String)
  | array (items : List Value)
  | table (introduced : Introduction) (entries : List (String × Value))
  /-- The tables introduced by headers in double brackets, in order. -/
  | tables (elements : List (List (String × Value)))

/-- The keys of a table with their values, in the order of their introduction. No key
occurs twice. -/
abbrev Entries := List (String × Value)

mutual

/-- Equality of values is decidable. Values are compared only if they are of one kind. -/
def Value.decEq (v w : Value) : Decidable (v = w) :=
  if h : v.ctorIdx = w.ctorIdx then
    match v, w, h with
    | .text s, .text t, _ => decidable_of_iff (s = t) (.of_eq (Value.text.injEq s t).symm)
    | .integer m, .integer n, _ => decidable_of_iff (m = n) (.of_eq (Value.integer.injEq m n).symm)
    | .real x, .real y, _ => decidable_of_iff (x = y) (.of_eq (Value.real.injEq x y).symm)
    | .unusable, .unusable, _ => isTrue rfl
    | .truth a, .truth b, _ => decidable_of_iff (a = b) (.of_eq (Value.truth.injEq a b).symm)
    | .moment s, .moment t, _ => decidable_of_iff (s = t) (.of_eq (Value.moment.injEq s t).symm)
    | .array vs, .array ws, _ =>
      have := Value.decEqAll vs ws
      decidable_of_iff (vs = ws) (.of_eq (Value.array.injEq vs ws).symm)
    | .table i es, .table j fs, _ =>
      have := Entries.decEq es fs
      decidable_of_iff (i = j ∧ es = fs) (.of_eq (Value.table.injEq i es j fs).symm)
    | .tables ess, .tables fss, _ =>
      have := Entries.decEqAll ess fss
      decidable_of_iff (ess = fss) (.of_eq (Value.tables.injEq ess fss).symm)
  else isFalse fun same => h (congrArg Value.ctorIdx same)

/-- Equality of the values of arrays. -/
def Value.decEqAll : (vs ws : List Value) → Decidable (vs = ws)
  | [], [] => isTrue rfl
  | [], _ :: _ | _ :: _, [] => isFalse nofun
  | v :: vs, w :: ws =>
    have := Value.decEq v w
    have := Value.decEqAll vs ws
    decidable_of_iff (v = w ∧ vs = ws) (.of_eq (List.cons.injEq v vs w ws).symm)

/-- Equality of tables. -/
def Entries.decEq : (es fs : List (String × Value)) → Decidable (es = fs)
  | [], [] => isTrue rfl
  | [], _ :: _ | _ :: _, [] => isFalse nofun
  | (key, v) :: es, (other, w) :: fs =>
    have := Value.decEq v w
    have := Entries.decEq es fs
    have : Decidable ((key, v) = (other, w)) :=
      decidable_of_iff (key = other ∧ v = w) (.of_eq (Prod.mk.injEq key v other w).symm)
    decidable_of_iff ((key, v) = (other, w) ∧ es = fs)
      (.of_eq (List.cons.injEq (key, v) es (other, w) fs).symm)

/-- Equality of the tables of an array of tables. -/
def Entries.decEqAll : (ess fss : List (List (String × Value))) → Decidable (ess = fss)
  | [], [] => isTrue rfl
  | [], _ :: _ | _ :: _, [] => isFalse nofun
  | es :: ess, fs :: fss =>
    have := Entries.decEq es fs
    have := Entries.decEqAll ess fss
    decidable_of_iff (es = fs ∧ ess = fss) (.of_eq (List.cons.injEq es ess fs fss).symm)

end

instance : DecidableEq Value := Value.decEq

/-- Gives a key a value, in its old place if it has one. -/
def Entries.set (es : Entries) (key : String) (v : Value) : Entries :=
  if (es.lookup key).isSome then es.map fun e => if e.1 = key then (key, v) else e
  else es ++ [(key, v)]

mutual

/-- **Readable values** hold no unusable number, at any depth. -/
def Value.isReadable : Value → Bool
  | .unusable => false
  | .array items => Value.areReadable items
  | .table _ entries => Entries.areReadable entries
  | .tables elements => Entries.allReadable elements
  | _ => true

/-- All values of an array are readable. -/
def Value.areReadable : List Value → Bool
  | [] => true
  | v :: rest => v.isReadable && Value.areReadable rest

/-- All values of a table are readable. -/
def Entries.areReadable : List (String × Value) → Bool
  | [] => true
  | (_, v) :: rest => v.isReadable && Entries.areReadable rest

/-- All values of several tables are readable. -/
def Entries.allReadable : List (List (String × Value)) → Bool
  | [] => true
  | es :: rest => Entries.areReadable es && Entries.allReadable rest

end

end PocketCalculator.Document
