import PocketCalculator.Keypad.Basic
import PocketCalculator.Proofs.Typeable
import Mathlib.Logic.Relation

/-!
# What a keypad does

Keys are pressed, texts are typed and lines are submitted, in any order. Whatever is done, the
keypad takes one of five steps, or none, or two for a line that is appended and evaluated. So
what each step keeps is true of a keypad with any history.

* `Keypad.press_of_text?`, `Keypad.write_of_isTypeable`: what keys and texts do.
* `Line.ofText`, `Keypad.answerLine_eq_answer`: the kinds of lines, and a line taken by its kind.
* `Keypad.Step`, `Keypad.steps_act`: the five steps, and an action as a chain of them.
* `Keypad.after_keeps`: what every step keeps, any actions keep.
* `Keypad.answerKey_eq`, `Keypad.answerLine_eq`: what is returned is what the display shows.
-/

namespace PocketCalculator

/-- **An action** on a keypad. -/
inductive Action where
  | press (key : Key)
  | write (text : String)
  | submit (line : String)

namespace Keypad

variable {k : Keypad} {text : String} {key : Key}

/-! ### Keys and texts -/

theorem append_of_hasRoom (h : k.hasRoom text = true) :
    k.append text = k.withEntry (k.entry ++ text) := by
  unfold append
  rw [if_pos h]

theorem append_of_full (h : k.hasRoom text = false) : k.append text = k.withEntry k.entry := by
  unfold append
  rw [if_neg (by rw [h]; decide)]

/-- A key with a text appends it. -/
theorem press_of_text? (h : key.text? = some text) : k.press key = k.append text := by
  cases key <;> cases h <;> rfl

theorem write_of_isTypeable (h : isTypeable text = true) :
    k.write text = (k.append text, k.hasRoom text) := by
  unfold write
  rw [if_pos h]

theorem write_of_not_isTypeable (h : isTypeable text = false) : k.write text = (k, false) := by
  unfold write
  rw [if_neg (by rw [h]; decide)]

/-! ### Lines -/

section

variable (k) {input : String}

theorem beforeEquals?_append (front : List Char) : beforeEquals? (front ++ ['=']) = some front := by
  unfold beforeEquals?
  rw [List.getLast?_concat, if_pos rfl, List.dropLast_concat]

theorem beforeEquals?_eq_none {line : List Char} (h : '=' ∉ line) : beforeEquals? line = none := by
  unfold beforeEquals?
  rw [if_neg]
  intro hlast
  exact h (List.mem_of_getLast? hlast)

/-- A blank line changes nothing. -/
theorem answerLine_of_blank (h : Text.isAllBlank input = true) :
    k.answerLine input = k.showing := by
  unfold answerLine
  simp only [Text.isEmpty_trim, h, if_true]

/-- A line that is the label of a key presses it. -/
theorem answerLine_of_key (h : Key.ofLabel? (Text.trim input) = some key) :
    k.answerLine input = k.answerKey key := by
  have hline : (Text.trim input).isEmpty = false := by
    rw [Bool.eq_false_iff]
    intro hempty
    rw [String.isEmpty_iff.1 hempty] at h
    cases h
  unfold answerLine
  simp only [hline, h, Bool.false_eq_true, if_false]

/-- A line that is no label and does not end in `=` is typed. -/
theorem answerLine_of_text (hline : Text.isAllBlank input = false)
    (hkey : Key.ofLabel? (Text.trim input) = none)
    (hend : beforeEquals? (Text.trim input).toList = none) :
    k.answerLine input = (k.write (Text.trim input)).1.showing := by
  unfold answerLine
  simp only [Text.isEmpty_trim, hline, hkey, hend, Bool.false_eq_true, if_false]

/-- A line that is no label and ends in `=` is evaluated, if what is before can be appended. -/
theorem answerLine_of_equals {front : List Char} (hline : Text.isAllBlank input = false)
    (hkey : Key.ofLabel? (Text.trim input) = none)
    (hend : beforeEquals? (Text.trim input).toList = some front) :
    k.answerLine input =
      if Text.isAllBlank (String.ofList front) = true then k.answerKey .equals
      else if (k.write (String.ofList front)).2 = true then
        (k.write (String.ofList front)).1.answerKey .equals
      else (k.write (String.ofList front)).1.showing := by
  unfold answerLine
  simp only [Text.isEmpty_trim, hline, hkey, hend, Bool.false_eq_true, if_false]

end

end Keypad

/-- **What a line is for**, whatever the keypad: nothing, a key, a text to be typed, or a text to be
typed and evaluated. -/
inductive Line where
  | blank
  | key (key : Key)
  | text (text : String)
  | evaluated (text : String)

/-- The kind of a line. -/
def Line.ofText (input : String) : Line :=
  let line := Text.trim input
  if Text.isAllBlank input then blank
  else
    match Key.ofLabel? line with
    | some k => key k
    | none =>
      match Keypad.beforeEquals? line.toList with
      | none => text line
      | some front =>
        if Text.isAllBlank (String.ofList front) then key .equals else evaluated (String.ofList front)

namespace Keypad

variable (k : Keypad)

/-- Takes a line of a kind, and returns a text. -/
def answer : Line → Keypad × String
  | .blank => k.showing
  | .key key => k.answerKey key
  | .text text => (k.write text).1.showing
  | .evaluated text =>
    if (k.write text).2 = true then (k.write text).1.answerKey .equals
    else (k.write text).1.showing

/-- **A line is taken by its kind**, which does not depend on the keypad. -/
theorem answerLine_eq_answer (input : String) :
    k.answerLine input = k.answer (Line.ofText input) := by
  unfold Line.ofText
  by_cases hline : Text.isAllBlank input = true
  · rw [if_pos hline]
    exact k.answerLine_of_blank hline
  rw [if_neg hline]
  have hline := Bool.eq_false_iff.2 hline
  cases hkey : Key.ofLabel? (Text.trim input) with
  | some key => exact k.answerLine_of_key hkey
  | none =>
    cases hend : beforeEquals? (Text.trim input).toList with
    | none => exact k.answerLine_of_text hline hkey hend
    | some front =>
      rw [k.answerLine_of_equals hline hkey hend]
      by_cases hfront : Text.isAllBlank (String.ofList front) = true
      · simp only [hfront, if_true, answer]
      · simp only [hfront, Bool.false_eq_true, if_false, answer]

/-! ### What is returned -/

/-- **A key returns** what the display shows behind it. -/
theorem answerKey_eq (key : Key) : k.answerKey key = (k.press key).showing := by
  cases key <;> rfl

/-- **A line returns** what the display shows behind it. -/
theorem answerLine_eq (input : String) : k.answerLine input = (k.submit input).showing := by
  unfold submit
  rw [answerLine_eq_answer]
  cases Line.ofText input with
  | blank => rfl
  | key key => exact k.answerKey_eq key
  | text text => rfl
  | evaluated text =>
    simp only [answer]
    split
    · exact answerKey_eq _ _
    · rfl

variable {k} {text : String} {key : Key}

/-! ### Steps -/

/-- **What a keypad does at once.** -/
inductive Step (k : Keypad) : Keypad → Prop where
  /-- The entry goes on the display: what was to be appended did not fit. -/
  | reshow : Step k (k.withEntry k.entry)
  /-- A text that can be typed, and fits, is put behind the entry. -/
  | extend (text : String) (typeable : isTypeable text = true) (room : k.hasRoom text = true) :
      Step k (k.withEntry (k.entry ++ text))
  /-- The last character is taken off the entry. -/
  | shorten : Step k (k.withEntry (String.ofList k.entry.toList.dropLast))
  | clear : Step k (k.withEntry "")
  | evaluate : Step k k.evaluateEntry

/-- A chain of steps. -/
abbrev Steps : Keypad → Keypad → Prop := Relation.ReflTransGen Step

theorem step_append (h : isTypeable text = true) : Step k (k.append text) := by
  by_cases hroom : k.hasRoom text = true
  · rw [append_of_hasRoom hroom]
    exact .extend text h hroom
  · rw [append_of_full (Bool.eq_false_iff.2 hroom)]
    exact .reshow

theorem step_press (key : Key) : Step k (k.press key) := by
  cases htext : key.text? with
  | some text =>
    rw [press_of_text? htext]
    exact step_append (Key.isTypeable_of_text? htext)
  | none =>
    cases key with
    | equals => exact .evaluate
    | clear => exact .clear
    | delete => exact .shorten
    | _ => cases htext

theorem steps_write (text : String) : Steps k (k.write text).1 := by
  by_cases h : isTypeable text = true
  · rw [write_of_isTypeable h]
    exact .single (step_append h)
  · rw [write_of_not_isTypeable (Bool.eq_false_iff.2 h)]

theorem steps_submit (input : String) : Steps k (k.submit input) := by
  unfold submit
  rw [answerLine_eq_answer]
  cases Line.ofText input with
  | blank => exact .refl
  | key key => exact .single (step_press key)
  | text text => exact steps_write text
  | evaluated text =>
    simp only [answer]
    split
    · exact (steps_write text).tail (step_press .equals)
    · exact steps_write text

/-! ### Histories -/

/-- The keypad that an action leaves. -/
def act (k : Keypad) : Action → Keypad
  | .press key => k.press key
  | .write text => (k.write text).1
  | .submit line => k.submit line

/-- **The keypad after actions**, in order. -/
def after (k : Keypad) : List Action → Keypad
  | [] => k
  | a :: rest => (k.act a).after rest

/-- **An action is a chain of steps.** -/
theorem steps_act (a : Action) : Steps k (k.act a) := by
  cases a with
  | press key => exact .single (step_press key)
  | write text => exact steps_write text
  | submit line => exact steps_submit line

theorem steps_after (actions : List Action) : Steps k (k.after actions) := by
  induction actions generalizing k with
  | nil => exact .refl
  | cons a rest ih => exact (steps_act a).trans ih

theorem steps_keep {P : Keypad → Prop} (keeps : ∀ {k l : Keypad}, Step k l → P k → P l)
    {l : Keypad} (hsteps : Steps k l) (h : P k) : P l := by
  induction hsteps with
  | refl => exact h
  | tail _ hstep ih => exact keeps hstep ih

/-- **What every step keeps**, a history keeps. -/
theorem after_keeps {P : Keypad → Prop} (keeps : ∀ {k l : Keypad}, Step k l → P k → P l)
    (h : P k) (actions : List Action) : P (k.after actions) :=
  steps_keep keeps (steps_after actions) h

end Keypad

end PocketCalculator
