import PocketCalculator.Proofs.Histories
import PocketCalculator.Proofs.Independence

/-!
# Texts that are refused

A text is appended whole or not at all. It is refused when it cannot be typed, and then nothing
happens, or when there is no room for it. In that case the entry goes on the display, which changes a
display that shows a result: the result is hidden, though nothing was appended.

* `Keypad.Takes`, `Keypad.write_eq_true_iff`: which texts a keypad takes.
* `Action.text?`, `Keypad.act_eq_write`: what an action appends; refused, it does what typing does.
* `Keypad.act_of_refused`: what is left unchanged, and when all is.
* `Keypad.write_hides_result`: a refused text changes the display.
-/

namespace PocketCalculator

/-- The text that a line appends, if it is taken. -/
def Line.text? : Line → Option String
  | .blank => none
  | .key k => k.text?
  | .text s => some s
  | .evaluated s => some s

/-- **The text that an action appends** to the entry, if it is taken. -/
def Action.text? : Action → Option String
  | .press key => key.text?
  | .write text => some text
  | .submit line => (Line.ofText line).text?

namespace Keypad

variable {k : Keypad} {text : String}

/-! ### Taken and refused -/

/-- **A text is taken** if it can be typed and there is room for it behind the entry. -/
def Takes (k : Keypad) (text : String) : Prop :=
  isTypeable text = true ∧
    k.entry.utf8ByteSize + text.utf8ByteSize ≤ k.settings.entry.maxLength.toNat

theorem write_eq_true_iff : (k.write text).2 = true ↔ k.Takes text := by
  rw [Takes, ← hasRoom_iff]
  by_cases htext : isTypeable text = true
  · rw [write_of_isTypeable htext]
    exact ⟨fun hroom => ⟨htext, hroom⟩, And.right⟩
  · rw [write_of_not_isTypeable (Bool.eq_false_iff.2 htext)]
    exact ⟨fun h => (by cases h), fun h => absurd h.1 htext⟩

theorem write_eq_false_iff : (k.write text).2 = false ↔ ¬ k.Takes text := by
  rw [← write_eq_true_iff, Bool.not_eq_true]

/-- **What a refused text does**: nothing if it cannot be typed, or else the entry goes on the
display. -/
theorem write_of_refused (h : (k.write text).2 = false) :
    (k.write text).1 = if isTypeable text = true then k.withEntry k.entry else k := by
  by_cases htext : isTypeable text = true
  · rw [write_of_isTypeable htext] at h ⊢
    rw [if_pos htext]
    exact append_of_full h
  · rw [write_of_not_isTypeable (Bool.eq_false_iff.2 htext), if_neg htext]

theorem entry_write_of_refused (h : (k.write text).2 = false) : (k.write text).1.entry = k.entry := by
  rw [write_of_refused h]
  split <;> rfl

/-- A key types its text. -/
theorem press_eq_write {key : Key} (h : key.text? = some text) : k.press key = (k.write text).1 := by
  rw [press_of_text? h, write_of_isTypeable (Key.isTypeable_of_text? h)]

/-- **An action whose text is refused** does what typing the text does. -/
theorem act_eq_write {a : Action} (htext : a.text? = some text) (h : (k.write text).2 = false) :
    k.act a = (k.write text).1 := by
  cases a with
  | press key => exact press_eq_write htext
  | write _ => cases htext; rfl
  | submit input =>
    rw [act, submit, answerLine_eq_answer]
    simp only [Action.text?] at htext
    cases hline : Line.ofText input with
    | blank => rw [hline] at htext; cases htext
    | key key => rw [hline] at htext; exact press_eq_write htext
    | text _ => rw [hline] at htext; cases htext; rfl
    | evaluated _ =>
      rw [hline] at htext
      cases htext
      simp only [answer, h, Bool.false_eq_true, if_false, showing_fst]

/-! ### What is unchanged -/

/-- Putting the entry on the display changes nothing if it is there. -/
theorem withEntry_entry_iff : k.withEntry k.entry = k ↔ k.display = k.entry := by
  obtain ⟨settings, entry, display, last?⟩ := k
  constructor
  · intro h
    exact (congrArg Keypad.display h).symm
  · intro h
    cases h
    rfl

/-- **What a refused text leaves.** A key, typed text or a line appends a text that the keypad refuses,
after any history. The entry and the latest calculation are left, and so is all the rest if the text
cannot be typed, or if the display shows the entry. Otherwise the entry is empty, and the display
showed the latest calculation and is empty then. -/
theorem act_of_refused {settings : Settings} {actions : List Action}
    (hk : k = (fresh settings).after actions) {a : Action} (htext : a.text? = some text)
    (hrefused : (k.write text).2 = false) :
    ((k.act a).entry = k.entry ∧ (k.act a).last? = k.last? ∧ (k.act a).settings = k.settings) ∧
      (k.act a = k ↔ isTypeable text = false ∨ k.display = k.entry) ∧
      (k.act a ≠ k → k.entry = "" ∧ (k.act a).display = "" ∧
        ∃ c, k.last? = some c ∧ k.display = c.shown) := by
  have hact : k.act a = if isTypeable text = true then k.withEntry k.entry else k := by
    rw [act_eq_write htext hrefused, write_of_refused hrefused]
  have hsame : k.act a = k ↔ isTypeable text = false ∨ k.display = k.entry := by
    rw [hact]
    by_cases htyped : isTypeable text = true
    · rw [if_pos htyped, withEntry_entry_iff, htyped]
      exact ⟨.inr, fun h => h.resolve_left (by decide)⟩
    · rw [if_neg htyped]
      exact ⟨fun _ => .inl (Bool.eq_false_iff.2 htyped), fun _ => rfl⟩
  have hparts : (k.act a).entry = k.entry ∧ (k.act a).last? = k.last? ∧
      (k.act a).settings = k.settings := by
    rw [hact]
    split <;> exact ⟨rfl, rfl, rfl⟩
  refine ⟨hparts, hsame, fun hchanged => ?_⟩
  obtain ⟨htyped, hdisplay⟩ := not_or.1 fun h => hchanged (hsame.2 h)
  -- the display does not show the entry, so it shows the latest calculation
  have hshows : Shows k := hk ▸ shows_after settings actions
  obtain ⟨hempty, c, hlast, hshown⟩ := hshows.resolve_left hdisplay
  refine ⟨hempty, ?_, c, hlast, hshown⟩
  rw [hact, if_pos (Bool.not_eq_false _ ▸ htyped)]
  exact hempty

/-- On a keypad for five characters there is no room for `sqrt(` behind `1+2`, and its key changes
nothing. -/
theorem act_of_refused_root :
    let k := (fresh { entry := { maxLength := 5 } }).after [.write "1+2"]
    (Action.press (.function .squareRoot)).text? = some "sqrt(" ∧ (k.write "sqrt(").2 = false ∧
      k.act (.press (.function .squareRoot)) = k := by
  intro k
  have htext : (Action.press (.function .squareRoot)).text? = some "sqrt(" := rfl
  have hrefused : (k.write "sqrt(").2 = false := by decide
  have hsame := (act_of_refused (k := k) rfl htext hrefused).2.1
  exact ⟨htext, hrefused, hsame.2 (.inr (by decide))⟩

/-- **A refused text hides a result.** On a keypad for three characters `1/0` is shown as `Infinity`.
There is no room for `1234`, and when it is typed the display gets empty. -/
theorem write_hides_result :
    let k := (fresh { entry := { maxLength := 3 } }).after [.write "1/0", .press .equals]
    (k.write "1234").2 = false ∧ k.display = "Infinity" ∧ (k.write "1234").1.display = "" ∧
      (k.write "1234").1 ≠ k := by
  intro k
  have hbefore : k.display = "Infinity" := by decide +kernel
  have hbehind : (k.write "1234").1.display = "" := by decide +kernel
  refine ⟨by decide +kernel, hbefore, hbehind, fun h => ?_⟩
  rw [h, hbefore] at hbehind
  exact absurd hbehind (by decide)

end Keypad

end PocketCalculator
