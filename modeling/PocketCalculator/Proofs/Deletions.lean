import PocketCalculator.Proofs.Refusals

/-!
# Taking characters off again

Texts that are taken are put behind the entry, and the delete key takes off its last character. So the
entry is a stack of characters: the last one that came is the first to go, however it came, and as many
deletions as a text has bytes undo it.

* `Stroke`, `Stroke.run`: what is done to a stack of characters.
* `Keypad.Edits`: actions that append texts or delete characters, and their strokes.
* `Keypad.act_of_taken`, `Keypad.act_of_deletes`: what one such action does.
* `Keypad.after_edits`: the entry behind such actions is what the strokes leave of the stack.
* `Keypad.delete_undoes`: deletions undo a text.
-/

namespace PocketCalculator

/-! ### A stack of characters -/

/-- **A stroke** on a stack of characters. -/
inductive Stroke where
  | push (c : Char)
  | pop

namespace Stroke

/-- The stack that a stroke leaves, the top first. Nothing is taken off the empty stack. -/
def act (stack : List Char) : Stroke → List Char
  | push c => c :: stack
  | pop => stack.tail

/-- **The stack behind strokes**, in order. -/
def run (stack : List Char) (strokes : List Stroke) : List Char := strokes.foldl act stack

/-- The strokes of a text: one for each character. -/
def ofText (text : String) : List Stroke := text.toList.map push

variable (stack : List Char)

theorem run_append (front back : List Stroke) :
    run stack (front ++ back) = run (run stack front) back :=
  List.foldl_append

theorem run_ofText (text : String) : run stack (ofText text) = text.toList.reverse ++ stack := by
  unfold ofText
  generalize text.toList = cs
  induction cs generalizing stack with
  | nil => rfl
  | cons c rest ih =>
    show run (c :: stack) (rest.map push) = _
    rw [ih, List.reverse_cons, List.append_assoc]
    rfl

theorem run_pops (n : Nat) : run stack (List.replicate n pop) = stack.drop n := by
  induction n generalizing stack with
  | zero => rfl
  | succ n ih =>
    show run stack.tail (List.replicate n pop) = _
    rw [ih, List.drop_tail]

end Stroke

/-! ### Edits -/

/-- **Deleting actions**: the delete key, and a line with its label. -/
inductive Action.Deletes : Action → Prop
  | press : Deletes (.press .delete)
  | submit {line : String} (kind : Line.ofText line = .key .delete) : Deletes (.submit line)

namespace Keypad

/-- **Edits** and their strokes. An action appends a text that is taken and evaluates nothing, or it
deletes. -/
inductive Edits : Keypad → List Action → List Stroke → Prop
  | nil {k : Keypad} : Edits k [] []
  | append {k : Keypad} {a : Action} {text : String} {actions : List Action} {strokes : List Stroke}
      (appended : a.text? = some text) (taken : (k.write text).2 = true)
      (kept : k.evaluated? a = none) (behind : Edits (k.act a) actions strokes) :
      Edits k (a :: actions) (Stroke.ofText text ++ strokes)
  | delete {k : Keypad} {a : Action} {actions : List Action} {strokes : List Stroke}
      (deletes : a.Deletes) (behind : Edits (k.act a) actions strokes) :
      Edits k (a :: actions) (.pop :: strokes)

variable {k : Keypad} {a : Action} {text : String}

/-- **A text that is taken** stands behind the entry, whichever action appends it. -/
theorem act_of_taken (happended : a.text? = some text) (htaken : (k.write text).2 = true)
    (hkept : k.evaluated? a = none) : k.act a = k.withEntry (k.entry ++ text) := by
  rw [← write_of_taken htaken]
  cases a with
  | press key => exact press_eq_write happended
  | write _ => cases happended; rfl
  | submit input =>
    rw [act, submit, answerLine_eq_answer]
    simp only [Action.text?, evaluated?] at happended hkept
    cases hline : Line.ofText input with
    | blank => rw [hline] at happended; cases happended
    | key key => rw [hline] at happended; exact press_eq_write happended
    | text _ => rw [hline] at happended; cases happended; rfl
    | evaluated _ =>
      rw [hline] at happended hkept
      cases happended
      rw [evaluatedByLine?, if_pos htaken] at hkept
      cases hkept

/-- **A deletion** takes off the last character. -/
theorem act_of_deletes (h : a.Deletes) :
    k.act a = k.withEntry (String.ofList k.entry.toList.dropLast) := by
  cases h with
  | press => rfl
  | submit kind =>
    rw [act, submit, answerLine_eq_answer, kind]
    rfl

/-- Deletions one after the other are edits. -/
theorem edits_deletions (k : Keypad) (n : Nat) :
    k.Edits (List.replicate n (.press .delete)) (List.replicate n .pop) := by
  induction n generalizing k with
  | zero => exact .nil
  | succ n ih => exact .delete .press (ih _)

/-- The stack of a keypad: the characters of the entry, the last one on top. -/
def stack (k : Keypad) : List Char := k.entry.toList.reverse

theorem stack_act_of_taken (happended : a.text? = some text) (htaken : (k.write text).2 = true)
    (hkept : k.evaluated? a = none) : (k.act a).stack = Stroke.run k.stack (Stroke.ofText text) := by
  rw [act_of_taken happended htaken hkept, Stroke.run_ofText]
  show (k.entry ++ text).toList.reverse = _
  rw [String.toList_append, List.reverse_append]
  rfl

theorem stack_act_of_deletes (h : a.Deletes) : (k.act a).stack = k.stack.tail := by
  rw [act_of_deletes h]
  show (String.ofList k.entry.toList.dropLast).toList.reverse = k.entry.toList.reverse.tail
  rw [String.toList_ofList, List.tail_reverse]

/-- **The entry behind edits** is what their strokes leave of the stack. The latest calculation is
left, and behind the first edit, or if it was there before, the entry is on the display. -/
theorem after_edits {actions : List Action} {strokes : List Stroke} (h : k.Edits actions strokes) :
    (k.after actions).stack = Stroke.run k.stack strokes ∧
      (k.after actions).last? = k.last? ∧
      (actions ≠ [] ∨ k.display = k.entry → (k.after actions).display = (k.after actions).entry) := by
  induction h with
  | nil => exact ⟨rfl, rfl, fun h => h.resolve_left fun hne => hne rfl⟩
  | append appended taken kept behind ih =>
    have hact := act_of_taken appended taken kept
    obtain ⟨hstack, hlast, hshown⟩ := ih
    rw [stack_act_of_taken appended taken kept, ← Stroke.run_append, hact] at hstack
    rw [hact] at hlast hshown
    rw [after, hact]
    exact ⟨hstack, hlast, fun _ => hshown (.inr rfl)⟩
  | @delete k _ _ _ deletes behind ih =>
    have hact := act_of_deletes (k := k) deletes
    obtain ⟨hstack, hlast, hshown⟩ := ih
    rw [stack_act_of_deletes deletes, hact] at hstack
    rw [hact] at hlast hshown
    rw [after, hact]
    exact ⟨hstack, hlast, fun _ => hshown (.inr rfl)⟩

/-- A text that is taken has as many bytes as characters. -/
theorem utf8ByteSize_of_taken (h : (k.write text).2 = true) : text.utf8ByteSize = text.length :=
  utf8ByteSize_of_inAlphabet (isTypeable_iff.1 (write_eq_true_iff.1 h).1).2

/-- A text and as many deletions as it has bytes. -/
theorem edits_undone (happended : a.text? = some text) (htaken : (k.write text).2 = true)
    (hkept : k.evaluated? a = none) :
    k.Edits (a :: List.replicate text.utf8ByteSize (.press .delete))
      (Stroke.ofText text ++ List.replicate text.utf8ByteSize .pop) :=
  .append happended htaken hkept (edits_deletions _ _)

theorem run_undone (h : text.utf8ByteSize = text.length) (stack : List Char) :
    Stroke.run stack (Stroke.ofText text ++ List.replicate text.utf8ByteSize .pop) = stack := by
  rw [Stroke.run_append, Stroke.run_ofText, Stroke.run_pops, h, ← String.length_toList,
    ← List.length_reverse, List.drop_left]

theorem entry_eq_of_stack {l : Keypad} (h : l.stack = k.stack) : l.entry = k.entry :=
  String.toList_inj.1 (List.reverse_injective h)

/-- **Deletions undo a text.** Whatever was done before, when a text is taken and then the delete key is
pressed once for each of its bytes, the entry is what it was, and it is on the display. Behind any
texts that are taken and any deletions, the entry is a stack of characters from which the last one
is taken off, and as a deletion takes nothing off an empty entry, it only puts this on the display. -/
theorem delete_undoes (k : Keypad) :
    (∀ a text, a.text? = some text → (k.write text).2 = true → k.evaluated? a = none →
      let l := (k.act a).after (List.replicate text.utf8ByteSize (.press .delete))
      text.utf8ByteSize = text.length ∧ l.entry = k.entry ∧ l.display = k.entry) ∧
    (∀ actions strokes, k.Edits actions strokes →
      (k.after actions).entry =
          String.ofList (Stroke.run k.entry.toList.reverse strokes).reverse ∧
        (actions ≠ [] → (k.after actions).display = (k.after actions).entry)) ∧
    (k.entry = "" → k.press .delete = k.withEntry "") := by
  refine ⟨fun a text happended htaken hkept => ?_, fun actions strokes h => ?_, fun hempty => ?_⟩
  · intro l
    have hbytes : text.utf8ByteSize = text.length := utf8ByteSize_of_taken htaken
    obtain ⟨hstack, -, hshown⟩ := after_edits (edits_undone happended htaken hkept)
    rw [run_undone hbytes] at hstack
    have hentry : l.entry = k.entry := entry_eq_of_stack hstack
    have hdisplay : l.display = l.entry := hshown (.inl (List.cons_ne_nil _ _))
    exact ⟨hbytes, hentry, hdisplay.trans hentry⟩
  · obtain ⟨hstack, -, hshown⟩ := after_edits h
    refine ⟨?_, fun hne => hshown (.inl hne)⟩
    rw [← String.toList_inj, String.toList_ofList, ← List.reverse_eq_iff]
    exact hstack
  · show k.withEntry (String.ofList k.entry.toList.dropLast) = _
    rw [hempty]
    rfl

/-- Behind `1+` five deletions undo the key of the root. And when `23` is typed there and four characters
are deleted, the last one by a line, the entry is empty, which a fifth deletion leaves. -/
theorem delete_undoes_root :
    let k := (fresh {}).after [.write "1+"]
    let root := Action.press (.function .squareRoot)
    let deletions := [.press .delete, .press .delete, .press .delete, .submit "DEL", .press .delete]
    (root.text? = some "sqrt(" ∧ (k.write "sqrt(").2 = true ∧ k.evaluated? root = none ∧
        ((k.act root).after (List.replicate 5 (.press .delete))).entry = "1+") ∧
      k.Edits (.write "23" :: deletions) (Stroke.ofText "23" ++ List.replicate 5 .pop) ∧
        (k.after (.write "23" :: deletions)).entry = "" := by
  intro k root deletions
  have hedits : k.Edits (.write "23" :: deletions) (Stroke.ofText "23" ++ List.replicate 5 .pop) :=
    .append rfl (by decide) rfl <| .delete .press <| .delete .press <| .delete .press <|
      .delete (.submit rfl) <| .delete .press .nil
  obtain ⟨hundone, hstack, -⟩ := delete_undoes k
  have hroot : (k.write "sqrt(").2 = true := by decide
  exact ⟨⟨rfl, hroot, rfl, (hundone root "sqrt(" rfl hroot rfl).2.1⟩, hedits,
    (hstack _ _ hedits).1.trans (by decide)⟩

end Keypad

end PocketCalculator
