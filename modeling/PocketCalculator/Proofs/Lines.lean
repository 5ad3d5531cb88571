import PocketCalculator.Proofs.Refusals

/-!
# Lines

What a line does is said by the trimmed line, the entry, and the room behind the entry. The line `=`
evaluates the entry. A text and `=` evaluate the entry with the whole text behind it, if the text is
taken. No other line makes a calculation, and what it leaves of the entry is all of it, or all of it
with a whole text behind, or all but the last character, or nothing.

* `Line.IsOf`, `Line.isOf_ofText`: the kind of a line, by its text.
* `Keypad.EvaluatesAs`, `Keypad.evaluatedByLine?_iff`: the text that a line evaluates.
* `Keypad.Evaluates`, `Keypad.evaluates_iff`: when there is a new calculation.
* `Keypad.Leaves`, `Keypad.leaves_of_not_evaluated`: the entry behind a line that evaluates nothing.
* `Keypad.submit_evaluates_iff`: all of it for any line.
-/

namespace PocketCalculator

/-! ### Kinds of lines -/

/-- **The kind of a trimmed line**: blank, the label of a key, a text before an `=`, or else a text. -/
inductive Line.IsOf : String → Line → Prop
  | blank : IsOf "" .blank
  | key {line : String} {pressed : Key} (label : Key.ofLabel? line = some pressed) :
      IsOf line (.key pressed)
  | evaluated {front : String} (nonempty : front ≠ "") : IsOf (front ++ "=") (.evaluated front)
  | text {line : String} (nonempty : line ≠ "") (unlabelled : Key.ofLabel? line = none)
      (unended : ∀ front, line ≠ front ++ "=") : IsOf line (.text line)

theorem Keypad.beforeEquals?_eq_some_iff {line front : List Char} :
    beforeEquals? line = some front ↔ line = front ++ ['='] := by
  constructor
  · intro h
    unfold beforeEquals? at h
    split at h
    · next hlast =>
      cases h
      exact (List.dropLast_append_getLast? '=' hlast).symm
    · cases h
  · rintro rfl
    exact beforeEquals?_append front

/-- What a trimmed line begins with is not blank, or it is nothing. -/
theorem Text.eq_nil_of_isAllBlank {input : String} {front back : List Char}
    (htext : (trim input).toList = front ++ back)
    (hblank : isAllBlank (String.ofList front) = true) : front = [] := by
  by_contra hne
  obtain ⟨c, rest, rfl⟩ := List.exists_cons_of_ne_nil hne
  have hfirst : isBlank c = false := by
    refine head?_trimChars input.toList c ?_
    rw [← toList_trim, htext]
    rfl
  rw [isAllBlank, String.toList_ofList, List.all_eq_true] at hblank
  rw [hblank c List.mem_cons_self] at hfirst
  cases hfirst

/-- **The kind of a line** is that of what trimming leaves of it. -/
theorem Line.isOf_ofText (input : String) : IsOf (Text.trim input) (ofText input) := by
  unfold ofText
  by_cases hline : Text.isAllBlank input = true
  · rw [if_pos hline, Text.trim_eq_empty_iff.2 hline]
    exact .blank
  rw [if_neg hline]
  have hne : Text.trim input ≠ "" := fun h => hline (Text.trim_eq_empty_iff.1 h)
  cases hkey : Key.ofLabel? (Text.trim input) with
  | some pressed => exact .key hkey
  | none =>
    cases hend : Keypad.beforeEquals? (Text.trim input).toList with
    | none =>
      refine .text hne hkey fun front hfront => ?_
      have hlist : (Text.trim input).toList = front.toList ++ ['='] := by
        rw [hfront, String.toList_append]
        rfl
      rw [Keypad.beforeEquals?_eq_some_iff.2 hlist] at hend
      cases hend
    | some front =>
      have hlist := Keypad.beforeEquals?_eq_some_iff.1 hend
      have htext : Text.trim input = String.ofList front ++ "=" := by
        rw [← String.toList_inj, String.toList_append, String.toList_ofList]
        exact hlist
      by_cases hblank : Text.isAllBlank (String.ofList front) = true
      · -- nothing is before the `=`, so the line is the label of a key
        rw [Text.eq_nil_of_isAllBlank hlist hblank] at htext
        rw [htext] at hkey
        exact absurd hkey (by decide)
      · have hfront : String.ofList front ≠ "" := by
          intro hempty
          rw [hempty] at hblank
          exact hblank rfl
        simp only [hblank, Bool.false_eq_true, if_false]
        rw [htext]
        exact .evaluated hfront

/-- The `=` key is the one with the label `=`. -/
theorem Key.eq_equals_iff {line : String} {key : Key} (h : ofLabel? line = some key) :
    key = equals ↔ line = "=" := by
  constructor
  · rintro rfl
    exact (label_of_ofLabel? h).symm
  · rintro rfl
    have hequals : ofLabel? "=" = some equals := by decide
    exact Option.some.inj (h.symm.trans hequals)

namespace Keypad

variable {k : Keypad} {u t : String} {line : Line}

/-! ### Evaluations -/

/-- **The text that a trimmed line evaluates**: the entry for `=`, and the entry with a text behind it
for this text and `=`, if the text is taken. -/
def EvaluatesAs (k : Keypad) (u t : String) : Prop :=
  u = "=" ∧ t = k.entry ∨ ∃ front, u = front ++ "=" ∧ k.Takes front ∧ t = k.entry ++ front

theorem Takes.ne_empty (h : k.Takes u) : u ≠ "" := by
  rintro rfl
  exact absurd h.1 (by decide)

theorem evaluatedByLine?_iff (h : Line.IsOf u line) :
    k.evaluatedByLine? line = some t ↔ k.EvaluatesAs u t := by
  cases h with
  | blank =>
    refine ⟨fun h => (by cases h), ?_⟩
    rintro (⟨h, -⟩ | ⟨front, h, -⟩)
    · exact absurd h (by decide)
    · simp at h
  | @key _ pressed label =>
    show k.evaluatedByKey? pressed = some t ↔ _
    rw [evaluatedByKey?, Option.ite_none_right_eq_some, Key.eq_equals_iff label]
    constructor
    · rintro ⟨hu, ht⟩
      exact .inl ⟨hu, (Option.some.inj ht).symm⟩
    · rintro (⟨hu, ht⟩ | ⟨front, rfl, htakes, -⟩)
      · exact ⟨hu, congrArg some ht.symm⟩
      · have hunlabelled : Key.ofLabel? (front ++ "=") = none :=
          Key.ofLabel?_append_equals htakes.ne_empty
        rw [hunlabelled] at label
        cases label
  | @evaluated front nonempty =>
    show (if (k.write front).2 = true then some (k.entry ++ front) else none) = some t ↔ _
    rw [Option.ite_none_right_eq_some, write_eq_true_iff]
    constructor
    · rintro ⟨htakes, ht⟩
      exact .inr ⟨front, rfl, htakes, (Option.some.inj ht).symm⟩
    · rintro (⟨hu, -⟩ | ⟨front', hu, htakes, ht⟩)
      · have hempty : front ++ "=" = "" ++ "=" := hu
        exact absurd ((String.append_left_inj "=").1 hempty) nonempty
      · obtain rfl := (String.append_left_inj "=").1 hu
        exact ⟨htakes, congrArg some ht.symm⟩
  | text _ _ unended =>
    refine ⟨fun h => (by cases h), ?_⟩
    rintro (⟨hu, -⟩ | ⟨front, hu, -⟩)
    · exact absurd hu (unended "")
    · exact absurd hu (unended front)

/-- **A line makes a calculation** if there is the same latest calculation behind it, whatever the
latest one was before. -/
def Evaluates (k : Keypad) (input : String) : Prop :=
  ∃ c, ∀ last?, ({ k with last? }.submit input).last? = some c

theorem evaluates_iff {input : String} :
    k.Evaluates input ↔ ∃ t, k.evaluated? (.submit input) = some t := by
  have hsame (last? : Option Calculation) :
      k.evaluated? (.submit input) = { k with last? }.evaluated? (.submit input) := by
    have hentry : SameEntry k { k with last? } := ⟨rfl, rfl⟩
    exact hentry.evaluated? _
  constructor
  · rintro ⟨c, hc⟩
    by_contra hnone
    -- then a keypad that never calculated would be left with no calculation
    have hevaluated : { k with last? := none }.evaluated? (.submit input) = none := by
      rw [← hsame]
      exact Option.eq_none_iff_forall_ne_some.2 fun t ht => hnone ⟨t, ht⟩
    have hlast := last?_of_evaluated?_none hevaluated
    rw [act, hc none] at hlast
    cases hlast
  · rintro ⟨t, ht⟩
    refine ⟨calculate t k.settings.display, fun last? => ?_⟩
    have hact := act_of_evaluated? (hsame last? ▸ ht)
    rw [act] at hact
    rw [hact]
    rfl

/-! ### Lines that evaluate nothing -/

/-- **The whole text of a trimmed line**: what its key appends, if it is a label, or else the line,
if it does not end in `=`. -/
def IsWholeText (u text : String) : Prop :=
  (∃ key, Key.ofLabel? u = some key ∧ key.text? = some text) ∨
    Key.ofLabel? u = none ∧ (∀ front, u ≠ front ++ "=") ∧ text = u

theorem isWholeText_iff_of_label {key : Key} {text : String} (h : Key.ofLabel? u = some key) :
    IsWholeText u text ↔ key.text? = some text := by
  rw [IsWholeText, h]
  simp

theorem isWholeText_iff_of_unlabelled {text : String} (h : Key.ofLabel? u = none) :
    IsWholeText u text ↔ (∀ front, u ≠ front ++ "=") ∧ text = u := by
  rw [IsWholeText, h]
  simp

/-- **What a trimmed line leaves of the entry** when it evaluates nothing. -/
inductive Leaves (k : Keypad) (u : String) : String → Prop
  /-- A text is taken, and it is whole. -/
  | whole {text : String} (appended : IsWholeText u text) (taken : k.Takes text) :
      Leaves k u (k.entry ++ text)
  /-- The last character is taken off. -/
  | delete (label : u = "DEL") : Leaves k u (String.ofList k.entry.toList.dropLast)
  | clear (label : u = "C") : Leaves k u ""
  /-- There is no text, or it is refused. -/
  | same (refused : ∀ text, IsWholeText u text → ¬ k.Takes text) (kept : u ≠ "DEL" ∧ u ≠ "C") :
      Leaves k u k.entry

/-- A line without a key takes nothing off the entry. -/
theorem kept_of_unlabelled (h : Key.ofLabel? u = none) : u ≠ "DEL" ∧ u ≠ "C" := by
  constructor
  · rintro rfl
    exact absurd h (by decide)
  · rintro rfl
    exact absurd h (by decide)

/-- Typing the whole text of a line leaves the entry as the line does. -/
theorem leaves_write {text : String} (whole : ∀ text', IsWholeText u text' ↔ text' = text)
    (kept : u ≠ "DEL" ∧ u ≠ "C") : k.Leaves u (k.write text).1.entry := by
  by_cases htakes : k.Takes text
  · rw [write_of_taken (write_eq_true_iff.2 htakes)]
    exact .whole ((whole text).2 rfl) htakes
  · rw [entry_write_of_refused (write_eq_false_iff.2 htakes)]
    refine .same (fun text' h => ?_) kept
    rwa [(whole text').1 h]

/-- **The entry behind a line** that evaluates nothing. -/
theorem leaves_of_not_evaluated (h : Line.IsOf u line) (hnone : k.evaluatedByLine? line = none) :
    k.Leaves u (k.answer line).1.entry := by
  cases h with
  | blank =>
    have hunlabelled : Key.ofLabel? "" = none := by decide
    refine .same (fun text htext htakes => ?_) (kept_of_unlabelled hunlabelled)
    obtain ⟨-, rfl⟩ := (isWholeText_iff_of_unlabelled hunlabelled).1 htext
    exact htakes.ne_empty rfl
  | @key _ pressed label =>
    have hlabel : pressed.label = u := Key.label_of_ofLabel? label
    cases htext : pressed.text? with
    | none =>
      cases pressed with
      | equals => cases hnone
      | delete => exact .delete hlabel.symm
      | clear => exact .clear hlabel.symm
      | _ => cases htext
    | some text =>
      have hwhole (text' : String) : IsWholeText u text' ↔ text' = text := by
        rw [isWholeText_iff_of_label label, htext, Option.some_inj, eq_comm]
      have hkept : u ≠ "DEL" ∧ u ≠ "C" := by
        constructor
        · rintro rfl
          cases label
          cases htext
        · rintro rfl
          cases label
          cases htext
      have hpress : (k.answer (.key pressed)).1 = (k.write text).1 := press_eq_write htext
      rw [hpress]
      exact leaves_write hwhole hkept
  | @evaluated front nonempty =>
    have hunlabelled : Key.ofLabel? (front ++ "=") = none := Key.ofLabel?_append_equals nonempty
    have hrefused : (k.write front).2 = false := by
      rw [evaluatedByLine?] at hnone
      split at hnone
      · cases hnone
      · next h => exact Bool.not_eq_true _ ▸ h
    have hanswer : (k.answer (.evaluated front)).1 = (k.write front).1 := by
      simp only [answer, hrefused, Bool.false_eq_true, if_false, showing_fst]
    rw [hanswer, entry_write_of_refused hrefused]
    refine .same (fun text htext => ?_) (kept_of_unlabelled hunlabelled)
    exact absurd rfl (((isWholeText_iff_of_unlabelled hunlabelled).1 htext).1 front)
  | text nonempty unlabelled unended =>
    have hwhole (text' : String) : IsWholeText u text' ↔ text' = u :=
      (isWholeText_iff_of_unlabelled unlabelled).trans (and_iff_right unended)
    exact leaves_write hwhole (kept_of_unlabelled unlabelled)

/-- **What a line does**, said by the trimmed line. It makes a calculation if it is `=`, or a text and
`=` of which the text is taken. Then the whole entry is evaluated, with the text behind it, and the
entry is empty. Any other line leaves the latest calculation, and of the entry all, or all with a
whole text behind it, or all but the last character, or nothing. -/
theorem submit_evaluates_iff (k : Keypad) (input : String) :
    (k.Evaluates input ↔ ∃ t, k.EvaluatesAs (Text.trim input) t) ∧
      (∀ t, k.EvaluatesAs (Text.trim input) t →
        (k.submit input).last? = some (calculate t k.settings.display) ∧
          (k.submit input).display = (calculate t k.settings.display).shown ∧
          (k.submit input).entry = "") ∧
      ((¬ ∃ t, k.EvaluatesAs (Text.trim input) t) → (k.submit input).last? = k.last? ∧
        k.Leaves (Text.trim input) (k.submit input).entry) := by
  have hkind : Line.IsOf (Text.trim input) (Line.ofText input) := Line.isOf_ofText input
  have hevaluated (t : String) :
      k.evaluated? (.submit input) = some t ↔ k.EvaluatesAs (Text.trim input) t :=
    evaluatedByLine?_iff hkind
  refine ⟨?_, fun t ht => ?_, fun hnone => ?_⟩
  · rw [evaluates_iff]
    exact exists_congr hevaluated
  · have hact := act_of_evaluated? ((hevaluated t).2 ht)
    rw [act] at hact
    rw [hact]
    exact ⟨rfl, rfl, rfl⟩
  · have hevaluates : k.evaluated? (.submit input) = none :=
      Option.eq_none_iff_forall_ne_some.2 fun t ht => hnone ⟨t, (hevaluated t).1 ht⟩
    have hlast := last?_of_evaluated?_none hevaluates
    rw [act] at hlast
    refine ⟨hlast, ?_⟩
    rw [submit, answerLine_eq_answer]
    exact leaves_of_not_evaluated hkind hevaluates

/-- Behind `1+` the line ` 2 =` evaluates `1+2 `. The line `2==` evaluates nothing, since `2=` cannot
be typed, and it leaves `1+`. -/
theorem submit_evaluates_iff_sum :
    let k := (fresh {}).after [.write "1+"]
    (k.EvaluatesAs (Text.trim " 2 =") "1+2 " ∧
        (k.submit " 2 =").last? = some (calculate "1+2 " {}) ∧ (k.submit " 2 =").entry = "") ∧
      (¬ ∃ t, k.EvaluatesAs (Text.trim "2==") t) ∧ (k.submit "2==").last? = none ∧
        k.Leaves (Text.trim "2==") (k.submit "2==").entry := by
  intro k
  have htrim : Text.trim " 2 =" = "2 " ++ "=" := by decide
  have hsum : k.EvaluatesAs (Text.trim " 2 =") "1+2 " :=
    .inr ⟨"2 ", htrim, ⟨by decide, by decide⟩, by decide⟩
  obtain ⟨hlast, -, hentry⟩ := (submit_evaluates_iff k " 2 =").2.1 _ hsum
  have hnothing : ¬ ∃ t, k.EvaluatesAs (Text.trim "2==") t := by
    have htrim : Text.trim "2==" = "2=" ++ "=" := by decide
    rintro ⟨t, ⟨h, -⟩ | ⟨front, h, htakes, -⟩⟩
    · rw [htrim] at h
      exact absurd h (by decide)
    · rw [htrim] at h
      obtain rfl := (String.append_left_inj "=").1 h
      exact absurd htakes.1 (by decide)
  exact ⟨⟨hsum, hlast, hentry⟩, hnothing, (submit_evaluates_iff k "2==").2.2 hnothing⟩

end Keypad

end PocketCalculator
