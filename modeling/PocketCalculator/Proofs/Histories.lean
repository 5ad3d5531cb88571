import PocketCalculator.Proofs.Steps

/-!
# What holds at all times

Two facts about a keypad that was used in any way at all, each kept by every step.

* `display_after`: the display shows the entry, or behind an evaluation its outcome, and every key
  and line returns what the display shows.
* `entry_after`: the entry is never too long, and it holds characters of expressions only, of one
  byte each. Its length and that of a further text can be added in a machine word.
-/

namespace PocketCalculator

namespace Keypad

variable {k l : Keypad}

theorem settings_step (h : Step k l) : l.settings = k.settings := by
  cases h <;> rfl

theorem settings_after (actions : List Action) : (k.after actions).settings = k.settings :=
  after_keeps (P := fun l => l.settings = k.settings) (fun h hk => (settings_step h).trans hk) rfl
    actions

/-! ### The display -/

/-- **What the display shows**: the entry, or the latest calculation behind an empty entry. -/
def Shows (k : Keypad) : Prop :=
  k.display = k.entry ∨ k.entry = "" ∧ ∃ c, k.last? = some c ∧ k.display = c.shown

theorem shows_step (h : Step k l) : Shows l := by
  cases h with
  | evaluate => exact .inr ⟨rfl, _, rfl, rfl⟩
  | _ => exact .inl rfl

theorem shows_after (settings : Settings) (actions : List Action) :
    Shows ((fresh settings).after actions) :=
  after_keeps (fun h _ => shows_step h) (.inl rfl) actions

/-- **The latest calculation** is that of its own expression. -/
def Calculated (k : Keypad) : Prop :=
  ∀ c, k.last? = some c → c = calculate c.expression k.settings.display

theorem calculated_step (h : Step k l) (hk : Calculated k) : Calculated l := by
  cases h with
  | evaluate =>
    intro c hc
    cases hc
    exact (calculate_trim k.entry k.settings.display).symm
  | _ => exact hk

/-- **The display at all times.** It shows the entry, or the entry is empty and it shows the latest
calculation, which is the calculation of its expression under the settings of the keypad. These
do not change. Every key and every line returns the display of the keypad it leaves. -/
theorem display_after (settings : Settings) (actions : List Action) :
    let k := (fresh settings).after actions
    (k.display = k.entry ∨ k.entry = "" ∧ ∃ c, k.last? = some c ∧ k.display = c.shown) ∧
      k.settings = settings ∧
      (∀ c, k.last? = some c → c = calculate c.expression settings.display) ∧
      (∀ key, (k.answerKey key).2 = (k.answerKey key).1.display) ∧
      ∀ line, (k.answerLine line).2 = (k.answerLine line).1.display := by
  intro k
  have hshows : Shows k := after_keeps (fun h _ => shows_step h) (.inl rfl) actions
  have hsettings : k.settings = settings := settings_after actions
  have hlast : Calculated k :=
    after_keeps calculated_step (fun _ hc => by cases hc) actions
  refine ⟨hshows, hsettings, hsettings ▸ hlast, ?_, ?_⟩
  · intro key
    rw [answerKey_eq, showing_snd, showing_fst]
  · intro line
    rw [answerLine_eq, showing_snd, showing_fst]

end Keypad

/-! ### The entry -/

/-- The number of bytes of a text in a machine word. -/
def byteWord (s : String) : UInt64 := UInt64.ofNat s.utf8ByteSize

/-- **Texts in memory** have at most `2^63 - 1` bytes. -/
def InMemory (s : String) : Prop := s.utf8ByteSize ≤ 9223372036854775807

theorem toNat_byteWord {s : String} (h : InMemory s) : (byteWord s).toNat = s.utf8ByteSize :=
  UInt64.toNat_ofNat_of_lt' (Nat.lt_of_le_of_lt h (by decide))

/-- **No overflow.** The lengths of two texts in memory are added exactly in a machine word. -/
theorem byteWord_add {a b : String} (ha : InMemory a) (hb : InMemory b) :
    BitVec.uaddOverflow (byteWord a).toBitVec (byteWord b).toBitVec = false ∧
      (byteWord a + byteWord b).toNat = a.utf8ByteSize + b.utf8ByteSize := by
  have hsum : (byteWord a).toNat + (byteWord b).toNat < 18446744073709551616 := by
    rw [toNat_byteWord ha, toNat_byteWord hb]
    unfold InMemory at ha hb
    omega
  constructor
  · unfold BitVec.uaddOverflow
    exact decide_eq_false (Nat.not_le.2 hsum)
  · rw [UInt64.toNat_add, Nat.mod_eq_of_lt hsum, toNat_byteWord ha, toNat_byteWord hb]

namespace Keypad

variable {k l : Keypad}

/-- **The bounds of an entry**: its length and its characters. -/
structure Bounded (k : Keypad) : Prop where
  length : k.entry.utf8ByteSize ≤ k.settings.entry.maxLength.toNat
  alphabet : ∀ c ∈ k.entry.toList, inAlphabet c = true

theorem bounded_empty (hentry : k.entry = "") : Bounded k := by
  constructor
  · rw [hentry]
    exact Nat.zero_le _
  · intro c hc
    rw [hentry] at hc
    cases hc

theorem bounded_step (h : Step k l) (hk : Bounded k) : Bounded l := by
  cases h with
  | reshow => exact ⟨hk.length, hk.alphabet⟩
  | extend text typeable room =>
    constructor
    · have hroom := hasRoom_iff.1 room
      show (k.entry ++ text).utf8ByteSize ≤ _
      rw [String.utf8ByteSize_append]
      exact hroom
    · intro c hc
      have hc : c ∈ (k.entry ++ text).toList := hc
      rw [String.toList_append, List.mem_append] at hc
      rcases hc with hc | hc
      · exact hk.alphabet c hc
      · exact (isTypeable_iff.1 typeable).2 c hc
  | shorten =>
    have halphabet : ∀ c ∈ k.entry.toList.dropLast, inAlphabet c = true :=
      fun c hc => hk.alphabet c (List.dropLast_subset _ hc)
    constructor
    · show (String.ofList k.entry.toList.dropLast).utf8ByteSize ≤ k.settings.entry.maxLength.toNat
      -- one byte for each character, before and after
      have hbefore := hk.length
      rw [← byteLength_toList, byteLength_of_inAlphabet hk.alphabet] at hbefore
      rw [← byteLength_eq, byteLength_of_inAlphabet halphabet, List.length_dropLast]
      omega
    · intro c hc
      have hc : c ∈ (String.ofList k.entry.toList.dropLast).toList := hc
      rw [String.toList_ofList] at hc
      exact halphabet c hc
  | clear => exact bounded_empty rfl
  | evaluate => exact bounded_empty rfl

/-- **The entry at all times.** It has no more bytes than are set, and as many characters, since
all of them are characters of expressions. It is blank, or it could be typed. The length that is
compared with the greatest one is a sum of two machine words which does not overflow. -/
theorem entry_after (settings : Settings) (actions : List Action) :
    let k := (fresh settings).after actions
    k.entry.utf8ByteSize ≤ settings.entry.maxLength.toNat ∧
      (∀ c ∈ k.entry.toList, inAlphabet c = true) ∧
      k.entry.utf8ByteSize = k.entry.length ∧
      (Text.isAllBlank k.entry = true ∨ isTypeable k.entry = true) ∧
      ∀ text : String, InMemory k.entry → InMemory text →
        BitVec.uaddOverflow (byteWord k.entry).toBitVec (byteWord text).toBitVec = false ∧
        k.hasRoom text = decide (byteWord k.entry + byteWord text ≤ settings.entry.maxLength) := by
  intro k
  have hsettings : k.settings = settings := settings_after actions
  obtain ⟨hlength, halphabet⟩ : Bounded k := after_keeps bounded_step (bounded_empty rfl) actions
  rw [hsettings] at hlength
  refine ⟨hlength, halphabet, utf8ByteSize_of_inAlphabet halphabet, ?_, ?_⟩
  · by_cases hblank : Text.isAllBlank k.entry = true
    · exact .inl hblank
    · exact .inr (isTypeable_iff.2 ⟨Bool.not_eq_true _ ▸ hblank, halphabet⟩)
  · intro text hentry htext
    obtain ⟨hfits, hsum⟩ := byteWord_add hentry htext
    refine ⟨hfits, ?_⟩
    rw [Bool.eq_iff_iff, hasRoom_iff, decide_eq_true_iff, UInt64.le_iff_toNat_le, hsum, hsettings]

end Keypad

end PocketCalculator
