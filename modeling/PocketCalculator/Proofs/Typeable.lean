import PocketCalculator.Expression.Alphabet
import PocketCalculator.Keypad.Key
import PocketCalculator.Proofs.Joining
import PocketCalculator.Proofs.Trimming

/-!
# Texts that can be typed

Characters of expressions take one byte each, so a text of them has as many bytes as characters.
What keys append can be typed, and a label of such characters is what its key appends, but for the
functions, whose keys open a group.

* `isTypeable_iff`, `isTypeable_trim`, `isTypeable_join`: which texts can be typed.
* `utf8ByteSize_of_inAlphabet`: bytes are characters.
* `isTypeable_of_text?`, `Key.text?_eq_label`: the texts of keys, and their labels.
* `Key.ofLabel?_append_equals`: a text in front of `=` makes no label.
-/

namespace PocketCalculator

theorem isTypeable_iff {s : String} :
    isTypeable s = true ↔ Text.isAllBlank s = false ∧ ∀ c ∈ s.toList, inAlphabet c = true := by
  unfold isTypeable
  rw [Bool.and_eq_true, Bool.not_eq_true', List.all_eq_true]

theorem isTypeable_trim {s : String} (h : isTypeable s = true) :
    isTypeable (Text.trim s) = true := by
  obtain ⟨hvisible, halphabet⟩ := isTypeable_iff.1 h
  refine isTypeable_iff.2 ⟨?_, fun c hc => halphabet c (Text.mem_of_mem_trim hc)⟩
  rw [Text.isAllBlank_trim, hvisible]

/-- Chunks of which one is visible make a visible text. -/
theorem isTypeable_join {chunks : List String} (hne : chunks ≠ [])
    (hvisible : ∀ chunk ∈ chunks, Text.isAllBlank chunk = false)
    (halphabet : ∀ c ∈ (String.join chunks).toList, inAlphabet c = true) :
    isTypeable (String.join chunks) = true := by
  refine isTypeable_iff.2 ⟨?_, halphabet⟩
  obtain ⟨chunk, rest, rfl⟩ := List.exists_cons_of_ne_nil hne
  have hfirst := hvisible chunk List.mem_cons_self
  unfold Text.isAllBlank at hfirst ⊢
  rw [String.join_cons, String.toList_append, List.all_append, hfirst]
  rfl

/-! ### Bytes -/

/-- Characters of expressions take one byte. -/
theorem utf8Size_of_inAlphabet {c : Char} (h : inAlphabet c = true) : c.utf8Size = 1 := by
  unfold inAlphabet at h
  rw [Bool.or_eq_true, Bool.or_eq_true] at h
  rcases h with (hdigit | hlower) | hother
  · have hc : c.toNat ≤ 57 := (Char.isDigit_iff_toNat.1 hdigit).2
    rw [Char.utf8Size_eq_one_iff, UInt32.le_iff_toNat_le]
    exact Nat.le_trans hc (by decide)
  · have hc : c.val ≤ 122 := by
      unfold Char.isLower at hlower
      simp only [Bool.and_eq_true, decide_eq_true_eq] at hlower
      exact hlower.2
    rw [Char.utf8Size_eq_one_iff]
    exact UInt32.le_trans hc (by decide)
  · have hmem := List.contains_iff_mem.1 hother
    simp only [List.mem_cons, List.not_mem_nil, or_false] at hmem
    rcases hmem with rfl | rfl | rfl | rfl | rfl | rfl | rfl | rfl | rfl <;> rfl

theorem byteLength_of_inAlphabet {cs : List Char} (h : ∀ c ∈ cs, inAlphabet c = true) :
    byteLength cs = cs.length := by
  induction cs with
  | nil => rfl
  | cons c rest ih =>
    have hc := utf8Size_of_inAlphabet (h c List.mem_cons_self)
    have hrest := ih fun a ha => h a (List.mem_cons_of_mem c ha)
    rw [byteLength, List.length_cons]
    omega

/-- **Bytes are characters** in a text of expression characters. -/
theorem utf8ByteSize_of_inAlphabet {s : String} (h : ∀ c ∈ s.toList, inAlphabet c = true) :
    s.utf8ByteSize = s.length := by
  rw [← byteLength_toList, byteLength_of_inAlphabet h, String.length_toList]

/-! ### Keys -/

theorem inAlphabet_of_isDigit {c : Char} (h : c.isDigit = true) : inAlphabet c = true := by
  unfold inAlphabet
  rw [h]
  rfl

namespace Key

theorem isDigit_of_mem_label {d : UInt8} {c : Char} (h : c ∈ (digit d).label.toList) :
    c.isDigit = true := by
  rw [label, String.toList_ofList] at h
  exact Nat.isDigit_of_mem_toDigits (by decide) (by decide) h

theorem isTypeable_label_digit (d : UInt8) : isTypeable (digit d).label = true := by
  have hne : (digit d).label.toList ≠ [] := by
    rw [label, String.toList_ofList]
    exact Nat.toDigits_ne_nil
  have hfirst := isDigit_of_mem_label (List.head_mem hne)
  exact isTypeable_iff.2
    ⟨Text.isAllBlank_of_mem (List.head_mem hne) (Text.isBlank_of_isDigit hfirst),
      fun c hc => inAlphabet_of_isDigit (isDigit_of_mem_label hc)⟩

/-- **What keys append** can be typed. -/
theorem isTypeable_of_text? {key : Key} {text : String} (h : key.text? = some text) :
    isTypeable text = true := by
  cases key with
  | digit d => cases h; exact isTypeable_label_digit d
  | operator o => cases h; cases o <;> decide
  | function f => cases h; cases f <;> decide
  | point | opening | closing => cases h; decide
  | equals | clear | delete => cases h

/-- **Labels as texts**: a label of expression characters that is no function's name is what its key
appends. -/
theorem text?_eq_label {key : Key} (h : ∀ c ∈ key.label.toList, inAlphabet c = true)
    (unnamed : ∀ f : Scientific, key.label ≠ f.name) : key.text? = some key.label := by
  cases key with
  | function f => exact absurd rfl (unnamed f)
  | equals => exact absurd (h '=' (by decide)) (by decide)
  | clear => exact absurd (h 'C' (by decide)) (by decide)
  | delete => exact absurd (h 'D' (by decide)) (by decide)
  | _ => rfl

theorem eq_equals_of_getLast? {key : Key} (h : key.label.toList.getLast? = some '=') :
    key = equals := by
  cases key with
  | equals => rfl
  | digit d =>
    have hdigit := isDigit_of_mem_label (List.mem_of_getLast? h)
    exact absurd hdigit (by decide)
  | operator o => cases o <;> exact absurd h (by decide)
  | function f => cases f <;> exact absurd h (by decide)
  | _ => exact absurd h (by decide)

/-- **No label** ends in `=` but that of the `=` key. -/
theorem ofLabel?_append_equals {text : String} (h : text ≠ "") :
    ofLabel? (text ++ String.singleton '=') = none := by
  by_contra hsome
  obtain ⟨key, hkey⟩ := Option.ne_none_iff_exists'.1 hsome
  have hlabel : key.label.toList = text.toList ++ ['='] := by
    rw [label_of_ofLabel? hkey, String.toList_append, String.toList_singleton]
  have hequals : key = equals := by
    refine eq_equals_of_getLast? ?_
    rw [hlabel, List.getLast?_concat]
  have hlength : 1 = text.toList.length + 1 := by
    have := congrArg List.length hlabel
    rwa [hequals, List.length_append] at this
  have hnil : text.toList = [] := List.eq_nil_of_length_eq_zero (by omega)
  exact h (String.toList_inj.1 hnil)

end Key

end PocketCalculator
