import PocketCalculator.Expression.Operation
import PocketCalculator.Number.Decimal

/-!
# Keys

The keys of the calculator, their labels, and the grid they are laid out in. Most keys
append a text to the entry: their label, and for a function also the `(` that opens its
argument. The grid has the digits below ten, but a digit key may hold any byte, which it
then writes in decimal.

* `Key.ofLabel?`: the key with a label.
* `Key.ofLabel?_spec`, `Key.label_of_ofLabel?`: a key is found by its label and by no other text.
* `Key.text?`: the text that a key appends.
-/

namespace PocketCalculator

/-- A key of the calculator. -/
inductive Key where
  | digit (d : UInt8)
  | point
  | operator (o : Operator)
  | opening
  | closing
  | function (f : Scientific)
  /-- Evaluates the entry. -/
  | equals
  /-- Empties the entry. -/
  | clear
  /-- Takes the last character off the entry. -/
  | delete
  deriving DecidableEq, Repr

/-- A label that no key has. -/
structure UnknownKey where
  label : String
  deriving DecidableEq, Repr

/-- The wording for an unknown label. -/
def UnknownKey.message (u : UnknownKey) : String := "unknown key `" ++ u.label ++ "`"

namespace Key

/-- **The grid of keys**, six rows of four labels. -/
def layout : List (List String) :=
  [["7", "8", "9", "/"],
   ["4", "5", "6", "*"],
   ["1", "2", "3", "-"],
   ["0", ".", "=", "+"],
   ["(", ")", "C", "DEL"],
   ["sin", "cos", "sqrt", "^"]]

/-- The digit of a character. -/
def digitOf? (c : Char) : Option UInt8 :=
  if c.isDigit then some (UInt8.ofNat (c.toNat - '0'.toNat)) else none

/-- The label of a key. -/
def label : Key → String
  | digit d => String.ofList (decimalDigits d.toNat)
  | point => "."
  | operator o => String.singleton o.symbol
  | opening => "("
  | closing => ")"
  | function f => f.name
  | equals => "="
  | clear => "C"
  | delete => "DEL"

/-- The key whose label is one character. -/
def ofChar? : Char → Option Key
  | '.' => some point
  | '(' => some opening
  | ')' => some closing
  | '=' => some equals
  | 'C' => some clear
  | c => ((digitOf? c).map digit).or ((Operator.ofSymbol? c).map operator)

/-- **The key with a label.** -/
def ofLabel? (label : String) : Option Key :=
  if label = "DEL" then some delete
  else
    match label.toList with
    | [c] => ofChar? c
    | _ => (Scientific.ofName? label).map function

/-- The key with a label, or the label as unknown. -/
def ofLabel (label : String) : Except UnknownKey Key :=
  match ofLabel? label with
  | some k => .ok k
  | none => .error ⟨label⟩

/-- The digit of a character has it as its label, and has one place. -/
theorem digitOf?_spec {c : Char} {d : UInt8} (h : digitOf? c = some d) :
    (digit d).label = String.singleton c ∧ d.toNat < 10 := by
  unfold digitOf? at h
  split at h
  · next hc =>
    cases h
    obtain ⟨hlow, hhigh⟩ : 48 ≤ c.toNat ∧ c.toNat ≤ 57 := Char.isDigit_iff_toNat.1 hc
    have hsmall : c.toNat - 48 < 10 := by omega
    have hnat : (UInt8.ofNat (c.toNat - 48)).toNat = c.toNat - 48 :=
      UInt8.toNat_ofNat_of_lt' (Nat.lt_trans hsmall (by decide))
    have hdigit : ∀ n < 10, Nat.digitChar n = Char.ofNat (n + 48) := by decide
    have hchar : Nat.digitChar (c.toNat - 48) = c := by
      rw [hdigit _ hsmall, Nat.sub_add_cancel hlow, Char.ofNat_toNat]
    show String.ofList (Nat.toDigits 10 (UInt8.ofNat (c.toNat - 48)).toNat) = _ ∧
      (UInt8.ofNat (c.toNat - 48)).toNat < 10
    rw [hnat, Nat.toDigits_of_lt_base hsmall, hchar]
    exact ⟨rfl, hsmall⟩
  · cases h

theorem ofChar?_spec {c : Char} {k : Key} (h : ofChar? c = some k) :
    k.label = String.singleton c ∧ ∀ d, k = digit d → d.toNat < 10 := by
  unfold ofChar? at h
  split at h
  case h_6 =>
    rcases Option.or_eq_some_iff.1 h with h | ⟨-, h⟩
    · obtain ⟨d, hd, rfl⟩ := Option.map_eq_some_iff.1 h
      obtain ⟨hlabel, hsmall⟩ := digitOf?_spec hd
      exact ⟨hlabel, fun _ hkey => digit.inj hkey ▸ hsmall⟩
    · obtain ⟨o, ho, rfl⟩ := Option.map_eq_some_iff.1 h
      exact ⟨by rw [label, Operator.symbol_of_ofSymbol? ho], fun _ hkey => by cases hkey⟩
  all_goals
    cases h
    exact ⟨rfl, fun _ hkey => by cases hkey⟩

/-- **What a text finds** is a key with this label, and a digit has one place. -/
theorem ofLabel?_spec {s : String} {k : Key} (h : ofLabel? s = some k) :
    k.label = s ∧ ∀ d, k = digit d → d.toNat < 10 := by
  unfold ofLabel? at h
  split at h
  · next hs =>
    cases h
    exact ⟨hs.symm, fun _ hkey => by cases hkey⟩
  · split at h
    · next c hs =>
      obtain ⟨hlabel, hsmall⟩ := ofChar?_spec h
      refine ⟨?_, hsmall⟩
      rw [hlabel, ← String.toList_inj, hs]
      exact String.toList_singleton c
    · obtain ⟨f, hf, rfl⟩ := Option.map_eq_some_iff.1 h
      exact ⟨Scientific.name_of_ofName? hf, fun _ hkey => by cases hkey⟩

/-- **Only labels are read back**: a text with a key is the label of that key. -/
theorem label_of_ofLabel? {s : String} {k : Key} (h : ofLabel? s = some k) : k.label = s :=
  (ofLabel?_spec h).1

/-- The text a key appends to the entry, if it appends one. A function opens its group of
arguments right away. -/
def text? : Key → Option String
  | digit d => some (String.ofList (decimalDigits d.toNat))
  | point => some "."
  | operator o => some (String.singleton o.symbol)
  | opening => some "("
  | closing => some ")"
  | function f => some (f.name ++ "(")
  | equals | clear | delete => none

end Key

end PocketCalculator
