import PocketCalculator.Keypad.Key
import PocketCalculator.Proofs.Trimming

/-!
# Labels

A text is the label of a key if and only if it is in the grid. So what is said of every label can be
looked up there: no label has a blank or a line feed, which makes a label a line of its own.

* `Key.isLabel`, `Key.isLabel_iff`: the labels are those of the grid.
* `Key.ofLabel_layout`: reading labels, writing them, and the texts that keys append.
* `Key.trim_of_isLabel`, `Key.lineFeed_of_isLabel`: a label is a line.
-/

namespace PocketCalculator.Key

/-- **Labels**: the texts that a key is found by. -/
def isLabel (text : String) : Bool := (ofLabel? text).isSome

variable {text : String} {key : Key}

theorem isLabel_of_ofLabel? (h : ofLabel? text = some key) : isLabel text = true := by
  rw [isLabel, h]
  rfl

theorem ofLabel?_of_isLabel_false (h : isLabel text = false) : ofLabel? text = none :=
  Option.isNone_iff_eq_none.1 (Option.isSome_eq_false_iff.1 h)

/-! ### The grid -/

theorem label_mem_layout (h : ∀ d, key = digit d → d.toNat < 10) : key.label ∈ layout.flatten := by
  cases key with
  | digit d =>
    have hdigits : ∀ n < 10, String.ofList (decimalDigits n) ∈ layout.flatten := by decide
    exact hdigits _ (h d rfl)
  | operator o => cases o <;> decide
  | function f => cases f <;> decide
  | _ => decide

/-- **The labels are those of the grid.** -/
theorem isLabel_iff : isLabel text = true ↔ text ∈ layout.flatten := by
  constructor
  · intro h
    obtain ⟨key, hkey⟩ := Option.isSome_iff_exists.1 h
    obtain ⟨hlabel, hsmall⟩ := ofLabel?_spec hkey
    exact hlabel ▸ label_mem_layout hsmall
  · have hall : layout.flatten.all isLabel = true := by decide
    exact List.all_eq_true.1 hall text

/-! ### Reading and writing -/

theorem ofLabel_eq_ok_iff : ofLabel text = .ok key ↔ ofLabel? text = some key := by
  unfold ofLabel
  cases ofLabel? text with
  | none => simp
  | some found => simp

theorem ofLabel_of_isLabel_false (h : isLabel text = false) : ofLabel text = .error ⟨text⟩ := by
  rw [ofLabel, ofLabel?_of_isLabel_false h]

/-- **What a key appends** is its label, and for a function its label and a `(`. -/
theorem text?_cases {appended : String} (h : key.text? = some appended) :
    (∃ f, key = function f) ∧ appended = key.label ++ "(" ∨
      (¬ ∃ f, key = function f) ∧ appended = key.label := by
  cases key with
  | function f =>
    left
    exact ⟨⟨f, rfl⟩, (Option.some.inj h).symm⟩
  | equals | clear | delete => cases h
  | digit _ | point | operator _ | opening | closing =>
    right
    refine ⟨?_, (Option.some.inj h).symm⟩
    rintro ⟨f, hf⟩
    cases hf

/-- **Labels and the grid.** A text is read as a key if and only if it is in the grid. The key then has
this text as its label, so no other text is read as the same key, and what the key appends, if anything,
is the label, or the label and a `(` if and only if the key is a function. Every other text is reported
as it is. -/
theorem ofLabel_layout (text : String) :
    ((∃ key, ofLabel text = .ok key) ↔ text ∈ layout.flatten) ∧
      (∀ key, ofLabel text = .ok key →
        key.label = text ∧
        (∀ other, ofLabel other = .ok key → other = text) ∧
        (∀ appended, key.text? = some appended →
          (∃ f, key = function f) ∧ appended = text ++ "(" ∨
            (¬ ∃ f, key = function f) ∧ appended = text)) ∧
      (text ∉ layout.flatten → ofLabel text = .error ⟨text⟩) := by
  simp only [ofLabel_eq_ok_iff]
  refine ⟨?_, ?_, ?_⟩
  · rw [← isLabel_iff, isLabel, Option.isSome_iff_exists]
  · intro key hkey
    have hlabel : key.label = text := label_of_ofLabel? hkey
    refine ⟨hlabel, fun other hother => ?_, fun appended happended => ?_⟩
    · rw [← label_of_ofLabel? hother, hlabel]
    · rw [← hlabel]
      exact text?_cases happended
  · intro hmem
    exact ofLabel_of_isLabel_false (Bool.eq_false_iff.2 fun h => hmem (isLabel_iff.1 h))

/-- The square root opens a group, and its name in capitals is no label. -/
theorem ofLabel_layout_root :
    ofLabel "sqrt" = .ok (function .squareRoot) ∧
      (∀ other, ofLabel other = .ok (function .squareRoot) → other = "sqrt") ∧
      ofLabel "SQRT" = .error ⟨"SQRT"⟩ := by
  have hkey : ofLabel "sqrt" = .ok (function .squareRoot) := by decide
  obtain ⟨-, hread, -⟩ := ofLabel_layout "sqrt"
  obtain ⟨-, -, hunknown⟩ := ofLabel_layout "SQRT"
  exact ⟨hkey, (hread _ hkey).2.1, hunknown (by decide)⟩

/-! ### Labels as lines -/

/-- A label has no blank at its ends. -/
theorem trim_of_isLabel (h : isLabel text = true) : Text.trim text = text := by
  have hall : (layout.flatten.all fun label => label.toList.all (!Text.isBlank ·)) = true := by
    decide
  have htext := List.all_eq_true.1 hall text (isLabel_iff.1 h)
  have hvisible : ∀ c ∈ text.toList, Text.isBlank c = false := by
    intro c hc
    simpa using List.all_eq_true.1 htext c hc
  exact Text.trim_eq_self (fun c hc => hvisible c (List.mem_of_mem_head? hc))
    (fun c hc => hvisible c (List.mem_of_mem_getLast? hc))

/-- A label has no line feed among its bytes. -/
theorem lineFeed_of_isLabel (h : isLabel text = true) : 10 ∉ text.toByteArray.data.toList := by
  have hall : (layout.flatten.all fun label => !label.toByteArray.data.toList.contains 10) = true := by
    decide
  simpa using List.all_eq_true.1 hall text (isLabel_iff.1 h)

end PocketCalculator.Key
