import PocketCalculator.Command.Run
import PocketCalculator.Proofs.Steps

/-!
# Ways into the entry

A text gets into the entry by its keys, by typing it or as a line. The way makes no difference, and
neither does the place where the text is cut into chunks: a chunk that is the label of a key is
appended by that key as it stands, but for the functions, whose keys open a group.

* `Keypad.act_of_enters`: a chunk is put behind the entry, whichever way it is entered.
* `Keypad.after_chunks`: chunks in turn are the whole text at once.
* `frontEnds_agree`: a command, a line with `=`, and typing before the `=` key all calculate the
  same.
-/

namespace PocketCalculator

/-- **Ways to enter a chunk**: it is typed, or the key that appends it is pressed, or it is a line,
which has to have no blanks around it and to be no function's name. -/
inductive Action.Enters (chunk : String) : Action → Prop where
  | write : Enters chunk (.write chunk)
  | press {key : Key} (text : key.text? = some chunk) : Enters chunk (.press key)
  | submit (front : ∀ c ∈ chunk.toList.head?, Text.isBlank c = false)
      (back : ∀ c ∈ chunk.toList.getLast?, Text.isBlank c = false)
      (unnamed : ∀ f : Scientific, chunk ≠ f.name) : Enters chunk (.submit chunk)

namespace Keypad

variable {k : Keypad} {chunk : String}

/-- A line in the alphabet is entered as its text, unless it is the name of a function. -/
theorem submit_eq_append (h : isTypeable chunk = true)
    (front : ∀ c ∈ chunk.toList.head?, Text.isBlank c = false)
    (back : ∀ c ∈ chunk.toList.getLast?, Text.isBlank c = false)
    (unnamed : ∀ f : Scientific, chunk ≠ f.name) : k.submit chunk = k.append chunk := by
  obtain ⟨hline, halphabet⟩ := isTypeable_iff.1 h
  have htrim : Text.trim chunk = chunk := Text.trim_eq_self front back
  unfold submit
  cases hkey : Key.ofLabel? chunk with
  | some key =>
    rw [k.answerLine_of_key (htrim.symm ▸ hkey)]
    obtain rfl := Key.label_of_ofLabel? hkey
    exact press_of_text? (Key.text?_eq_label halphabet unnamed)
  | none =>
    have hend : beforeEquals? chunk.toList = none := by
      refine beforeEquals?_eq_none fun hmem => ?_
      exact absurd (halphabet '=' hmem) (by decide)
    rw [k.answerLine_of_text hline (htrim.symm ▸ hkey) (htrim.symm ▸ hend), htrim,
      write_of_isTypeable h]
    rfl

/-- **One chunk**, entered in any way, is put behind the entry. -/
theorem act_of_enters {a : Action} (ha : a.Enters chunk) (h : isTypeable chunk = true)
    (hroom : k.hasRoom chunk = true) : k.act a = k.withEntry (k.entry ++ chunk) := by
  rw [← append_of_hasRoom hroom]
  cases ha with
  | write => rw [act, write_of_isTypeable h]
  | press text => exact press_of_text? text
  | submit front back unnamed => exact submit_eq_append h front back unnamed

/-- Two texts fit if the first one does, and the second one behind it. -/
theorem hasRoom_append {front back : String} (h : k.hasRoom (front ++ back) = true) :
    k.hasRoom front = true ∧ (k.withEntry (k.entry ++ front)).hasRoom back = true := by
  rw [hasRoom_iff, String.utf8ByteSize_append] at h
  constructor
  · rw [hasRoom_iff]
    omega
  · rw [hasRoom_iff]
    show (k.entry ++ front).utf8ByteSize + _ ≤ k.settings.entry.maxLength.toNat
    rw [String.utf8ByteSize_append]
    omega

/-- **Chunks in turn**, at least one, are put behind the entry. -/
theorem after_enters {chunks : List String} {actions : List Action}
    (henters : List.Forall₂ Action.Enters chunks actions) (hne : chunks ≠ [])
    (htyped : ∀ chunk ∈ chunks, isTypeable chunk = true)
    (hroom : k.hasRoom (String.join chunks) = true) :
    k.after actions = k.withEntry (k.entry ++ String.join chunks) := by
  induction henters generalizing k with
  | nil => exact absurd rfl hne
  | @cons chunk a rest actions ha htail ih =>
    rw [String.join_cons] at hroom ⊢
    obtain ⟨hfirst, hrest⟩ := hasRoom_append hroom
    rw [after, act_of_enters ha (htyped chunk List.mem_cons_self) hfirst]
    cases htail with
    | nil =>
      rw [String.join_nil, String.append_empty]
      rfl
    | cons ha' htail' =>
      rw [ih (List.cons_ne_nil _ _) (fun c hc => htyped c (List.mem_cons_of_mem _ hc)) hrest,
        ← String.append_assoc]
      rfl

/-- **Chunks in turn are the whole text.** A text in the alphabet that fits is cut into chunks,
none of them blank, and each chunk is entered in any of its ways. What this leaves is what typing
the text at once leaves. -/
theorem after_chunks {text : String} {chunks : List String} {actions : List Action}
    (halphabet : ∀ c ∈ text.toList, inAlphabet c = true)
    (hroom : k.entry.utf8ByteSize + text.utf8ByteSize ≤ k.settings.entry.maxLength.toNat)
    (htext : text = String.join chunks)
    (hvisible : ∀ chunk ∈ chunks, Text.isAllBlank chunk = false)
    (henters : List.Forall₂ Action.Enters chunks actions) :
    k.after actions = (k.write text).1 := by
  subst htext
  by_cases hne : chunks = []
  · subst hne
    cases henters
    rfl
  have hfits : k.hasRoom (String.join chunks) = true := hasRoom_iff.2 hroom
  have htyped : ∀ chunk ∈ chunks, isTypeable chunk = true := by
    intro chunk hchunk
    refine isTypeable_iff.2 ⟨hvisible chunk hchunk, fun c hc => halphabet c ?_⟩
    rw [String.toList_join, List.mem_flatMap]
    exact ⟨chunk, hchunk, hc⟩
  rw [after_enters henters hne htyped hfits,
    write_of_isTypeable (isTypeable_join hne hvisible halphabet), append_of_hasRoom hfits]

/-- The key of the root, a line and typing enter `sqrt(9)` in three chunks. -/
theorem after_chunks_root :
    List.Forall₂ Action.Enters ["sqrt(", "9", ")"]
        [.press (.function .squareRoot), .submit "9", .write ")"] ∧
      (fresh {}).after [.press (.function .squareRoot), .submit "9", .write ")"] =
        ((fresh {}).write "sqrt(9)").1 := by
  have hunnamed : ∀ f : Scientific, "9" ≠ f.name := by
    intro f
    cases f <;> decide
  have hends : ∀ c ∈ some '9', Text.isBlank c = false := by
    intro c hc
    cases hc
    decide
  have henters : List.Forall₂ Action.Enters ["sqrt(", "9", ")"]
      [.press (.function .squareRoot), .submit "9", .write ")"] :=
    .cons (.press rfl) <| .cons (.submit hends hends hunnamed) <| .cons .write .nil
  have halphabet : "sqrt(9)".toList.all inAlphabet = true := by decide
  exact ⟨henters, after_chunks (List.all_eq_true.1 halphabet) (by decide) (by decide) (by decide)
    henters⟩

/-! ### Three ways to calculate -/

section

variable {s : String}

/-- **A line that ends in `=`** is what is before it, typed, and then the `=` key. -/
theorem answerLine_append_equals (hs : isTypeable s = true)
    (hroom : k.hasRoom (Text.trim s) = true) :
    k.answerLine (Text.trim s ++ "=") = (k.write (Text.trim s)).1.answerKey .equals := by
  have hsingle : "=" = String.singleton '=' := by decide
  have hvisible : Text.isAllBlank s = false := (isTypeable_iff.1 hs).1
  have htrim : Text.trim (Text.trim s ++ "=") = Text.trim s ++ "=" := by
    rw [hsingle]
    exact Text.trim_trim_append hvisible (by decide)
  have hlist : (Text.trim s ++ "=").toList = (Text.trim s).toList ++ ['='] := by
    rw [hsingle, String.toList_append, String.toList_singleton]
  have hline : Text.isAllBlank (Text.trim s ++ "=") = false := by
    have hmem : '=' ∈ (Text.trim s ++ "=").toList := by
      rw [hlist]
      exact List.mem_append_right _ List.mem_cons_self
    exact Text.isAllBlank_of_mem hmem (by decide)
  have hkey : Key.ofLabel? (Text.trim s ++ "=") = none := by
    rw [hsingle]
    refine Key.ofLabel?_append_equals fun hempty => ?_
    rw [Text.trim_eq_empty_iff.1 hempty] at hvisible
    cases hvisible
  have hend : beforeEquals? (Text.trim s ++ "=").toList = some (Text.trim s).toList := by
    rw [hlist, beforeEquals?_append]
  have hwritten : (k.write (Text.trim s)).2 = true := by
    rw [write_of_isTypeable (isTypeable_trim hs), hroom]
  rw [k.answerLine_of_equals hline (htrim.symm ▸ hkey) (htrim.symm ▸ hend), String.ofList_toList,
    Text.isAllBlank_trim, if_neg (by rw [hvisible]; decide), if_pos hwritten]

end

end Keypad

namespace Command

variable {s : String} {d : DisplaySettings}

theorem failure?_of_ok {x : Float} (h : (calculate s d).outcome = .ok x) :
    (evaluateJob s d).failure? = none := by
  unfold evaluateJob
  simp only [h]

theorem failure?_of_error {f : Fault} (h : (calculate s d).outcome = .error f) :
    (evaluateJob s d).failure? = some (.evaluation s f) := by
  unfold evaluateJob
  simp only [h]

/-- **The command succeeds** if and only if the calculation does. -/
theorem failure?_eq_none_iff (s : String) (d : DisplaySettings) :
    (evaluateJob s d).failure? = none ↔ (calculate s d).succeeded = true := by
  unfold Calculation.succeeded
  cases h : (calculate s d).outcome with
  | ok x => simp [failure?_of_ok h]
  | error f => simp [failure?_of_error h]

end Command

open Keypad in
/-- **All ways calculate the same.** A command, a line that ends in `=`, and a text typed before
the `=` key calculate the same text alike, whatever was done with the keypad before. Both ways of
the keypad leave this calculation as the latest one, and an empty entry. The command succeeds if
the calculation does, and fails for its fault if it does not. -/
theorem frontEnds_agree {k : Keypad} {s : String} (hempty : k.entry = "")
    (hs : isTypeable s = true)
    (hlength : (Text.trim s).utf8ByteSize ≤ k.settings.entry.maxLength.toNat) :
    let c := calculate s k.settings.display
    let command := Command.evaluateJob s k.settings.display
    let line := k.answerLine (Text.trim s ++ "=")
    let typed := k.write (Text.trim s)
    let pressed := typed.1.answerKey .equals
    (command.output = c.shown ++ "\n" ∧ line.2 = c.shown ∧ typed.2 = true ∧ pressed.2 = c.shown) ∧
      (line.1.last? = some c ∧ line.1.entry = "") ∧
      (pressed.1.last? = some c ∧ pressed.1.entry = "") ∧
      (command.failure? = none ↔ c.succeeded = true) ∧
      ∀ f, c.outcome = .error f → command.failure? = some (.evaluation s f) := by
  intro c command line typed pressed
  have hroom : k.hasRoom (Text.trim s) = true := by
    rw [hasRoom_iff, hempty]
    exact Nat.le_trans (Nat.le_of_eq (Nat.zero_add _)) hlength
  have htyped : typed = (k.withEntry (Text.trim s), true) := by
    show k.write _ = _
    rw [write_of_isTypeable (isTypeable_trim hs), append_of_hasRoom hroom, hroom, hempty,
      String.empty_append]
  have hpressed : pressed = (k.withEntry (Text.trim s)).evaluateEntry.showing := by
    show typed.1.answerKey .equals = _
    rw [htyped]
    rfl
  have hline : line = pressed := answerLine_append_equals hs hroom
  have hcalculated : calculate (Text.trim s) k.settings.display = c := calculate_trim s _
  have hlast : pressed.1.last? = some c := by
    rw [hpressed]
    exact congrArg some hcalculated
  have hshown : pressed.2 = c.shown := by
    rw [hpressed]
    exact congrArg Calculation.shown hcalculated
  have hentry : pressed.1.entry = "" := by rw [hpressed]; rfl
  refine ⟨⟨rfl, by rw [hline, hshown], by rw [htyped], hshown⟩, ?_, ⟨hlast, hentry⟩,
    Command.failure?_eq_none_iff s _, fun f hf => Command.failure?_of_error hf⟩
  rw [hline]
  exact ⟨hlast, hentry⟩

open Keypad in
/-- A quotient by zero, entered in two ways on a keypad that shows an earlier result. -/
theorem frontEnds_agree_quotient :
    let k := (fresh {}).after [.write "7", .press .equals]
    k.entry = "" ∧ isTypeable " 1/0 " = true ∧
      (k.answerLine (Text.trim " 1/0 " ++ "=")).2 = (calculate " 1/0 " {}).shown ∧
      ((k.write (Text.trim " 1/0 ")).1.answerKey .equals).2 = (calculate " 1/0 " {}).shown := by
  intro k
  have hempty : k.entry = "" := rfl
  have hs : isTypeable " 1/0 " = true := by decide
  have hlength : (Text.trim " 1/0 ").utf8ByteSize ≤ 256 := by decide
  obtain ⟨⟨-, hline, -, hpressed⟩, -⟩ := frontEnds_agree hempty hs hlength
  exact ⟨hempty, hs, hline, hpressed⟩

end PocketCalculator
