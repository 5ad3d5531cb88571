import PocketCalculator.Proofs.Steps

/-!
# Independence of the past

What was calculated and shown before has no part in what is calculated next. Two keypads with the
same settings and the same entry take the same texts, evaluate at the same actions and evaluate the
same texts, whatever they show. The first evaluation makes them equal.

* `Keypad.evaluated?`: the text that an action evaluates, if it evaluates one.
* `Keypad.act_of_evaluated?`, `Keypad.last?_of_evaluated?_none`: what an action does that evaluates
  a text, and what it leaves if it evaluates none.
* `Keypad.SameEntry.act`, `Keypad.SameEntry.after`: one action, and all of them.
* `Keypad.after_forgets`: two histories, from the same entry on.
-/

namespace PocketCalculator

/-- **What an action gives back**: a key and a line the text that is shown, and typing whether the
text was taken. -/
inductive Reply where
  | shown (text : String)
  | taken (whole : Bool)

namespace Keypad

variable {k l : Keypad} {text : String}

/-- The keypad that an action leaves, and what the action gives back. -/
def respond (k : Keypad) : Action → Keypad × Reply
  | .press key => ((k.answerKey key).1, .shown (k.answerKey key).2)
  | .write text => ((k.write text).1, .taken (k.write text).2)
  | .submit line => ((k.answerLine line).1, .shown (k.answerLine line).2)

theorem respond_fst (k : Keypad) (a : Action) : (k.respond a).1 = k.act a := by
  cases a with
  | press key => rfl
  | write text => rfl
  | submit line => rw [respond, act, submit]

/-! ### Evaluations -/

/-- The text that a key evaluates: the entry, for `=`. -/
def evaluatedByKey? (k : Keypad) (key : Key) : Option String :=
  if key = .equals then some k.entry else none

/-- The text that a line evaluates: the entry, or what is before the `=` behind the entry, if that can
be appended. -/
def evaluatedByLine? (k : Keypad) : Line → Option String
  | .blank => none
  | .key key => k.evaluatedByKey? key
  | .text _ => none
  | .evaluated text => if (k.write text).2 = true then some (k.entry ++ text) else none

/-- **The text that an action evaluates**, if it evaluates one. -/
def evaluated? (k : Keypad) : Action → Option String
  | .press key => k.evaluatedByKey? key
  | .write _ => none
  | .submit line => k.evaluatedByLine? (Line.ofText line)

/-- Whether any of the actions evaluates. -/
def evaluatesIn (k : Keypad) : List Action → Bool
  | [] => false
  | a :: rest => (k.evaluated? a).isSome || (k.act a).evaluatesIn rest

/-- A text that is taken stands behind the entry. -/
theorem write_of_taken (h : (k.write text).2 = true) :
    (k.write text).1 = k.withEntry (k.entry ++ text) := by
  by_cases htext : isTypeable text = true
  · rw [write_of_isTypeable htext] at h ⊢
    exact append_of_hasRoom h
  · rw [write_of_not_isTypeable (Bool.eq_false_iff.2 htext)] at h
    cases h

theorem last?_write (k : Keypad) (text : String) : (k.write text).1.last? = k.last? := by
  unfold write
  split <;> rfl

theorem press_of_evaluatedByKey? {key : Key} (h : k.evaluatedByKey? key = some text) :
    k.press key = (k.withEntry text).evaluateEntry := by
  unfold evaluatedByKey? at h
  split at h
  · next hkey =>
    cases h
    rw [hkey]
    rfl
  · cases h

theorem last?_of_evaluatedByKey?_none {key : Key} (h : k.evaluatedByKey? key = none) :
    (k.press key).last? = k.last? := by
  cases key with
  | equals => cases h
  | _ => rfl

theorem answer_of_evaluatedByLine? {line : Line} (h : k.evaluatedByLine? line = some text) :
    (k.answer line).1 = (k.withEntry text).evaluateEntry := by
  cases line with
  | blank => cases h
  | key key => exact press_of_evaluatedByKey? h
  | text _ => cases h
  | evaluated front =>
    simp only [evaluatedByLine?] at h
    split at h
    · next htaken =>
      cases h
      simp only [answer, if_pos htaken, write_of_taken htaken]
      rfl
    · cases h

theorem last?_of_evaluatedByLine?_none {line : Line} (h : k.evaluatedByLine? line = none) :
    (k.answer line).1.last? = k.last? := by
  cases line with
  | blank => rfl
  | key key => exact last?_of_evaluatedByKey?_none h
  | text text => exact last?_write k text
  | evaluated front =>
    simp only [evaluatedByLine?] at h
    split at h
    · cases h
    · next htaken =>
      simp only [answer, if_neg htaken]
      exact last?_write k front

/-- **An action that evaluates** leaves what evaluating its text as the entry leaves. -/
theorem act_of_evaluated? {a : Action} (h : k.evaluated? a = some text) :
    k.act a = (k.withEntry text).evaluateEntry := by
  cases a with
  | press key => exact press_of_evaluatedByKey? h
  | write _ => cases h
  | submit line =>
    rw [act, submit, answerLine_eq_answer]
    exact answer_of_evaluatedByLine? h

/-- **An action that evaluates nothing** leaves the latest calculation. -/
theorem last?_of_evaluated?_none {a : Action} (h : k.evaluated? a = none) :
    (k.act a).last? = k.last? := by
  cases a with
  | press key => exact last?_of_evaluatedByKey?_none h
  | write text => exact last?_write k text
  | submit line =>
    rw [act, submit, answerLine_eq_answer]
    exact last?_of_evaluatedByLine?_none h

/-! ### Two keypads -/

/-- **Keypads with the same entry** under the same settings. They may show different texts and have
different latest calculations. -/
structure SameEntry (k l : Keypad) : Prop where
  settings : k.settings = l.settings
  entry : k.entry = l.entry

namespace SameEntry

/-- Evaluating leaves nothing of what was there before but the settings. -/
theorem evaluateEntry (h : SameEntry k l) : k.evaluateEntry = l.evaluateEntry := by
  obtain ⟨settings, entry, display, last?⟩ := k
  obtain ⟨_, _, display', last?'⟩ := l
  obtain ⟨rfl, rfl⟩ := h
  rfl

theorem hasRoom (h : SameEntry k l) (text : String) : k.hasRoom text = l.hasRoom text := by
  unfold Keypad.hasRoom
  rw [h.settings, h.entry]

theorem append (h : SameEntry k l) (text : String) : SameEntry (k.append text) (l.append text) := by
  unfold Keypad.append
  rw [h.hasRoom, h.entry]
  exact ⟨h.settings, rfl⟩

theorem press (h : SameEntry k l) (key : Key) : SameEntry (k.press key) (l.press key) := by
  cases htext : key.text? with
  | some text =>
    rw [press_of_text? htext, press_of_text? htext]
    exact h.append text
  | none =>
    cases key with
    | equals => exact ⟨h.settings, rfl⟩
    | clear => exact ⟨h.settings, rfl⟩
    | delete =>
      refine ⟨h.settings, ?_⟩
      show String.ofList k.entry.toList.dropLast = String.ofList l.entry.toList.dropLast
      rw [h.entry]
    | _ => cases htext

/-- The same texts are taken. -/
theorem write (h : SameEntry k l) (text : String) :
    SameEntry (k.write text).1 (l.write text).1 ∧ (k.write text).2 = (l.write text).2 := by
  by_cases htext : isTypeable text = true
  · rw [write_of_isTypeable htext, write_of_isTypeable htext]
    exact ⟨h.append text, h.hasRoom text⟩
  · have htext := Bool.eq_false_iff.2 htext
    rw [write_of_not_isTypeable htext, write_of_not_isTypeable htext]
    exact ⟨h, rfl⟩

/-- **One action** keeps the entries the same. -/
theorem act (h : SameEntry k l) (a : Action) : SameEntry (k.act a) (l.act a) := by
  cases a with
  | press key => exact h.press key
  | write text => exact (h.write text).1
  | submit line =>
    rw [Keypad.act, Keypad.act, submit, submit, answerLine_eq_answer, answerLine_eq_answer]
    cases Line.ofText line with
    | blank => exact h
    | key key => exact h.press key
    | text text => exact (h.write text).1
    | evaluated text =>
      obtain ⟨hwritten, htaken⟩ := h.write text
      simp only [answer, htaken]
      split
      · exact hwritten.press .equals
      · exact hwritten

theorem evaluatedByKey? (h : SameEntry k l) (key : Key) :
    k.evaluatedByKey? key = l.evaluatedByKey? key := by
  unfold Keypad.evaluatedByKey?
  rw [h.entry]

/-- **The same texts are evaluated** at the same actions. -/
theorem evaluated? (h : SameEntry k l) (a : Action) : k.evaluated? a = l.evaluated? a := by
  cases a with
  | press key => exact h.evaluatedByKey? key
  | write text => rfl
  | submit line =>
    simp only [Keypad.evaluated?]
    cases Line.ofText line with
    | blank => rfl
    | key key => exact h.evaluatedByKey? key
    | text text => rfl
    | evaluated text => simp only [evaluatedByLine?, (h.write text).2, h.entry]

/-- **An evaluation** makes the keypads equal. -/
theorem act_eq (h : SameEntry k l) {a : Action} (ha : k.evaluated? a = some text) :
    k.act a = l.act a := by
  rw [act_of_evaluated? ha, act_of_evaluated? (h.evaluated? a ▸ ha)]
  exact evaluateEntry ⟨h.settings, rfl⟩

/-- **All actions** keep the entries the same. -/
theorem after (h : SameEntry k l) (actions : List Action) :
    SameEntry (k.after actions) (l.after actions) := by
  induction actions generalizing k l with
  | nil => exact h
  | cons a rest ih => exact ih (h.act a)

/-- **Behind the first evaluation** nothing of the past is left. -/
theorem after_eq (h : SameEntry k l) {actions : List Action} (he : k.evaluatesIn actions = true) :
    k.after actions = l.after actions := by
  induction actions generalizing k l with
  | nil => cases he
  | cons a rest ih =>
    show (k.act a).after rest = (l.act a).after rest
    cases ha : k.evaluated? a with
    | some text => rw [h.act_eq ha]
    | none =>
      refine ih (h.act a) ?_
      unfold evaluatesIn at he
      rwa [ha, Option.isSome_none, Bool.false_or] at he

/-- Equal keypads are left, so equal replies are given. -/
theorem respond_eq (h : SameEntry k l) {a : Action} (ha : k.act a = l.act a) :
    k.respond a = l.respond a := by
  cases a with
  | press key =>
    have ha : k.press key = l.press key := ha
    simp only [respond, answerKey_eq, ha]
  | write text =>
    have ha : (k.write text).1 = (l.write text).1 := ha
    simp only [respond, ha, (h.write text).2]
  | submit line =>
    have ha : k.submit line = l.submit line := ha
    simp only [respond, answerLine_eq, ha]

end SameEntry

theorem after_append_singleton (k : Keypad) (actions : List Action) (a : Action) :
    k.after (actions ++ [a]) = (k.after actions).act a := by
  induction actions generalizing k with
  | nil => rfl
  | cons b rest ih => exact ih (k.act b)

/-- **The past is forgotten.** Two keypads have the same settings and the same entry, whatever they
show and whatever was calculated on them before, and the same actions follow. Each action leaves the
same entry on both, is answered alike where a text is typed, and evaluates on both or on neither, and
then the same text. From the first evaluation on the keypads are equal, and so is all that they give
back. -/
theorem after_forgets (hsettings : k.settings = l.settings) (hentry : k.entry = l.entry)
    (done : List Action) (next : Action) :
    ((k.after done).respond next).1.entry = ((l.after done).respond next).1.entry ∧
      (∀ whole, ((k.after done).respond next).2 = .taken whole ↔
        ((l.after done).respond next).2 = .taken whole) ∧
      (k.after done).evaluated? next = (l.after done).evaluated? next ∧
      (k.evaluatesIn (done ++ [next]) = true →
        (k.after done).respond next = (l.after done).respond next) := by
  have hdone : SameEntry (k.after done) (l.after done) := SameEntry.after ⟨hsettings, hentry⟩ done
  refine ⟨?_, fun whole => ?_, hdone.evaluated? next, fun he => hdone.respond_eq ?_⟩
  · rw [respond_fst, respond_fst]
    exact (hdone.act next).entry
  · cases next with
    | write text =>
      show Reply.taken _ = _ ↔ Reply.taken _ = _
      rw [(hdone.write text).2]
    | _ => exact ⟨fun h => (by cases h), fun h => (by cases h)⟩
  · rw [← after_append_singleton, ← after_append_singleton]
    exact SameEntry.after_eq ⟨hsettings, hentry⟩ he

/-- One keypad shows a fault and the other never calculated, and both add `3` to a `2`. -/
theorem after_forgets_sum :
    let k := (fresh {}).after [.submit "6*", .press .equals]
    let l := (fresh {}).after [.write "1+", .press .clear]
    k.settings = l.settings ∧ k.entry = l.entry ∧
      k.evaluatesIn ([.write "2"] ++ [.submit "+3="]) = true ∧
      (k.after [.write "2"]).respond (.submit "+3=") =
        (l.after [.write "2"]).respond (.submit "+3=") := by
  intro k l
  have hsettings : k.settings = l.settings := rfl
  have hentry : k.entry = l.entry := rfl
  have he : k.evaluatesIn ([.write "2"] ++ [.submit "+3="]) = true := by decide
  exact ⟨hsettings, hentry, he, (after_forgets hsettings hentry _ _).2.2.2 he⟩

end Keypad

end PocketCalculator
