import PocketCalculator.Calculation
import Mathlib.Data.List.DropRight

/-!
# What trimming leaves

The text that is left begins and ends with no blank, so there is nothing more to trim. It is a
stretch of the text it was trimmed from, and it is empty if and only if that is all blanks.

* `Text.trim_trim`: trimming twice is trimming once.
* `Text.trim_eq_self`: a text without a blank at either end.
* `Text.trim_eq_empty_iff`: nothing is left of a text of blanks, and of no other.
* `Text.mem_of_mem_trim`: what is left was there before.
* `Text.trim_append_blank`: a blank behind a text does not count.
* `Text.exists_toList_eq_blanks`: a text is the blanks in front, what trimming leaves, and the
  blanks behind.
* `calculate_trim`: blanks around an expression do not count.
-/

namespace PocketCalculator

namespace Text

theorem isBlank_of_isDigit {c : Char} (h : c.isDigit = true) : isBlank c = false := by
  have hc : 48 ≤ c.toNat ∧ c.toNat ≤ 57 := Char.isDigit_iff_toNat.1 h
  simp only [isBlank, Bool.or_eq_false_iff, Bool.and_eq_false_iff, decide_eq_false_iff_not,
    beq_eq_false_iff_ne]
  omega

/-- A text with a character that is no blank is not all blanks. -/
theorem isAllBlank_of_mem {s : String} {c : Char} (hc : c ∈ s.toList)
    (h : isBlank c = false) : isAllBlank s = false := by
  rw [isAllBlank, List.all_eq_false]
  exact ⟨c, hc, by rw [h]; decide⟩

/-! ### The ends of a text -/

theorem trimBack_isPrefix (cs : List Char) : trimBack cs <+: cs :=
  List.rdropWhile_prefix isBlank cs

theorem head?_trimFront (cs : List Char) : ∀ c ∈ (trimFront cs).head?, isBlank c = false := by
  intro c hc
  have h := List.head?_dropWhile_not isBlank cs
  rw [show (cs.dropWhile isBlank).head? = some c from hc] at h
  exact h

/-- What is left begins with no blank. -/
theorem head?_trimChars (cs : List Char) : ∀ c ∈ (trimChars cs).head?, isBlank c = false := by
  intro c hc
  obtain ⟨rest, hrest⟩ := trimBack_isPrefix (trimFront cs)
  have hc : (trimBack (trimFront cs)).head? = some c := hc
  refine head?_trimFront cs c ?_
  rw [← hrest, List.head?_append, hc]
  rfl

/-- What is left ends with no blank. -/
theorem getLast?_trimChars (cs : List Char) : ∀ c ∈ (trimChars cs).getLast?, isBlank c = false := by
  intro c hc
  have h := head?_trimFront (trimFront cs).reverse c
  rw [trimChars, trimBack, List.getLast?_reverse] at hc
  exact h hc

theorem trimChars_trimChars (cs : List Char) : trimChars (trimChars cs) = trimChars cs :=
  trimChars_of_ends (head?_trimChars cs) (getLast?_trimChars cs)

theorem toList_trim (s : String) : (trim s).toList = trimChars s.toList :=
  String.toList_ofList

/-- **Trimming twice** is trimming once. -/
theorem trim_trim (s : String) : trim (trim s) = trim s := by
  rw [trim, toList_trim, trimChars_trimChars, trim]

/-- **Nothing to trim** at either end of a text. -/
theorem trim_eq_self {s : String} (hf : ∀ c ∈ s.toList.head?, isBlank c = false)
    (hb : ∀ c ∈ s.toList.getLast?, isBlank c = false) : trim s = s := by
  rw [trim, trimChars_of_ends hf hb, String.ofList_toList]

theorem trimChars_eq_nil_iff {cs : List Char} : trimChars cs = [] ↔ ∀ c ∈ cs, isBlank c = true := by
  constructor
  · intro h
    have hall : ∀ c ∈ trimFront cs, isBlank c = true := List.rdropWhile_eq_nil_iff.1 h
    refine List.dropWhile_eq_nil_iff.1 ?_
    show trimFront cs = []
    by_contra hne
    -- the first character that the front leaves would have to be a blank
    obtain ⟨c, rest, hcs⟩ := List.exists_cons_of_ne_nil hne
    have hc := head?_trimFront cs c (by rw [hcs]; rfl)
    rw [hall c (by rw [hcs]; exact List.mem_cons_self)] at hc
    cases hc
  · intro h
    have hfront : trimFront cs = [] := List.dropWhile_eq_nil_iff.2 h
    rw [trimChars, hfront]
    rfl

/-- **Nothing is left** of a text of blanks, and of no other. -/
theorem trim_eq_empty_iff {s : String} : trim s = "" ↔ isAllBlank s = true := by
  rw [← String.toList_inj, toList_trim, isAllBlank, List.all_eq_true]
  exact trimChars_eq_nil_iff

theorem isEmpty_trim (s : String) : (trim s).isEmpty = isAllBlank s := by
  rw [Bool.eq_iff_iff, String.isEmpty_iff, trim_eq_empty_iff]

/-- What is left was there before. -/
theorem mem_of_mem_trim {s : String} {c : Char} (h : c ∈ (trim s).toList) : c ∈ s.toList := by
  rw [toList_trim] at h
  have hfront : c ∈ trimFront s.toList := (trimBack_isPrefix _).subset h
  exact (List.dropWhile_suffix isBlank).subset hfront

/-- A text is all blanks if what is left of it is. -/
theorem isAllBlank_trim (s : String) : isAllBlank (trim s) = isAllBlank s := by
  rw [← isEmpty_trim, trim_trim, isEmpty_trim]

theorem trimChars_concat {cs : List Char} {c : Char} (h : isBlank c = true) :
    trimChars (cs ++ [c]) = trimChars cs := by
  have hfront : trimFront (cs ++ [c]) = if (trimFront cs).isEmpty then [] else trimFront cs ++ [c] := by
    rw [trimFront, List.dropWhile_append, List.dropWhile_cons_of_pos h, List.dropWhile_nil]
    rfl
  rw [trimChars, trimChars, hfront]
  by_cases hnil : trimFront cs = []
  · rw [hnil]
    rfl
  · rw [if_neg (by rwa [List.isEmpty_iff])]
    exact List.rdropWhile_concat_pos isBlank (trimFront cs) c h

/-- **A blank behind a text** is taken off with the others. -/
theorem trim_append_blank {s : String} {c : Char} (h : isBlank c = true) :
    trim (s ++ String.singleton c) = trim s := by
  rw [trim, String.toList_append, String.toList_singleton, trimChars_concat h, trim]

/-- A character that is no blank may be put behind what is left. -/
theorem trim_trim_append {s : String} {c : Char} (hs : isAllBlank s = false)
    (hc : isBlank c = false) :
    trim (trim s ++ String.singleton c) = trim s ++ String.singleton c := by
  have hlist : (trim s ++ String.singleton c).toList = trimChars s.toList ++ [c] := by
    rw [String.toList_append, toList_trim, String.toList_singleton]
  refine trim_eq_self ?_ ?_ <;> rw [hlist]
  · cases hcs : trimChars s.toList with
    | nil =>
      have hblank : isAllBlank s = true :=
        trim_eq_empty_iff.1 (String.toList_inj.1 ((toList_trim s).trans hcs))
      rw [hs] at hblank
      cases hblank
    | cons a rest =>
      intro b hb
      exact head?_trimChars s.toList b (by rw [hcs]; exact hb)
  · intro b hb
    rw [List.getLast?_concat] at hb
    cases hb
    exact hc

/-! ### What trimming takes off -/

/-- The blanks in front of a text. -/
def leadingBlanks (s : String) : List Char := s.toList.takeWhile isBlank

/-- The blanks behind a text. -/
def trailingBlanks (s : String) : List Char := s.toList.rtakeWhile isBlank

theorem subset_trailingBlanks {s : String} {front back : List Char} (text : s.toList = front ++ back)
    (blank : ∀ c ∈ back, isBlank c = true) : back ⊆ trailingBlanks s := by
  have hblank : ∀ c ∈ back.reverse, isBlank c = true := fun c hc => blank c (List.mem_reverse.1 hc)
  intro c hc
  rw [trailingBlanks, List.rtakeWhile, text, List.reverse_append,
    List.takeWhile_append_of_pos hblank, List.mem_reverse]
  exact List.mem_append_left _ (List.mem_reverse.2 hc)

/-- **A text** is the blanks in front of it, what trimming leaves, and blanks behind it. -/
theorem exists_toList_eq_blanks (s : String) : ∃ back,
    s.toList = leadingBlanks s ++ (trim s).toList ++ back ∧ back ⊆ trailingBlanks s := by
  have hfront : s.toList = leadingBlanks s ++ trimFront s.toList :=
    List.takeWhile_append_dropWhile.symm
  have hback : trimFront s.toList = (trim s).toList ++ (trimFront s.toList).rtakeWhile isBlank := by
    rw [toList_trim]
    exact List.rdropWhile_append_rtakeWhile.symm
  have htext : s.toList = leadingBlanks s ++ (trim s).toList ++
      (trimFront s.toList).rtakeWhile isBlank := by
    rw [List.append_assoc, ← hback]
    exact hfront
  exact ⟨_, htext, subset_trailingBlanks htext fun c hc => List.mem_rtakeWhile_imp hc⟩

/-- **A text** is the blanks in front of it, what trimming leaves, and what trimming takes off
behind. -/
theorem exists_toList_eq (s : String) :
    ∃ back, s.toList = leadingBlanks s ++ (trim s).toList ++ back := by
  obtain ⟨back, htext, -⟩ := exists_toList_eq_blanks s
  exact ⟨back, htext⟩

theorem leadingBlanks_eq_nil {s : String} (h : ∀ c ∈ s.toList.head?, isBlank c = false) :
    leadingBlanks s = [] := by
  unfold leadingBlanks
  cases hs : s.toList with
  | nil => rfl
  | cons c rest =>
    rw [hs] at h
    have hc : isBlank c = false := h c rfl
    exact List.takeWhile_cons_of_neg (by rw [hc]; decide)

end Text

/-- **Blanks around an expression** do not count. -/
theorem calculate_trim (input : String) (d : DisplaySettings) :
    calculate (Text.trim input) d = calculate input d := by
  unfold calculate
  rw [Text.trim_trim]

end PocketCalculator
