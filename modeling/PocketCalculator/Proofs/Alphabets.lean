import PocketCalculator.Proofs.Pieces
import PocketCalculator.Proofs.Substitution
import PocketCalculator.Proofs.Typeable

/-!
# Texts that can be typed and texts that can be read

Two tests look at the characters of a text: a quick one before it is typed, and the scan when it is
evaluated. They know the same characters. What the scan reads can be typed, as a whole and in parts,
and where the scan stops at a text that was typed, it stops at digits, points and small letters.

* `isTokenChar_of_lexemes`: a text without a stray run is made of the characters of tokens.
* `inAlphabet_of_isTokenChar`: these are in the alphabet.
* `eq_space_of_isBlank`: the space is the one blank in the alphabet.
* `alphabets_agree`: the two tests, each against the other.
-/

namespace PocketCalculator

/-- **The alphabet**: marks, the space, and the characters that runs are made of. -/
theorem inAlphabet_iff {c : Char} : inAlphabet c = true ↔
    c ∈ marks ∨ c = ' ' ∨ c.isDigit = true ∨ c = '.' ∨ c.isLower = true := by
  unfold inAlphabet marks
  simp only [Bool.or_eq_true, List.contains_iff_mem, List.mem_cons, List.not_mem_nil, or_false]
  tauto

/-- **The characters of tokens**: those of marks, literals and names, and the space between them. -/
def isTokenChar (c : Char) : Bool :=
  marks.contains c || c == ' ' || c.isDigit || c == '.' || "sincosqrt".toList.contains c

/-- What tokens are made of is in the alphabet. -/
theorem inAlphabet_of_isTokenChar {c : Char} (h : isTokenChar c = true) : inAlphabet c = true := by
  have hnames : "sincosqrt".toList.all Char.isLower = true := by decide
  unfold isTokenChar at h
  simp only [Bool.or_eq_true, beq_iff_eq, List.contains_iff_mem] at h
  rw [inAlphabet_iff]
  rcases h with (((hmark | hspace) | hdigit) | hpoint) | hname
  · exact .inl hmark
  · exact .inr (.inl hspace)
  · exact .inr (.inr (.inl hdigit))
  · exact .inr (.inr (.inr (.inl hpoint)))
  · exact .inr (.inr (.inr (.inr (List.all_eq_true.1 hnames c hname))))

theorem isTokenChar_of_ofMark? {c : Char} {t : Token} (h : Token.ofMark? c = some t) :
    isTokenChar c = true := by
  have hmark := List.contains_iff_mem.2 (exists_ofMark?_iff.1 ⟨t, h⟩)
  unfold isTokenChar
  rw [hmark]
  simp only [Bool.true_or]

/-- A run that has a token is a literal or a name. -/
theorem isTokenChar_of_ofRun? {w : List Char} {t : Token} (h : Token.ofRun? w = some t) :
    ∀ c ∈ w, isTokenChar c = true := by
  intro c hc
  rcases ofRun?_cases w with ⟨x, hx⟩ | ⟨f, rfl⟩ | ⟨-, -, hnone⟩
  · have hl := Literal.isLiteral_of_value? hx
    simp only [Literal.isLiteral, Bool.and_eq_true, List.all_eq_true] at hl
    have hchar := hl.1.1 c hc
    rw [Bool.or_eq_true] at hchar
    unfold isTokenChar
    rcases hchar with hdigit | hpoint
    · simp only [hdigit, Bool.or_true, Bool.true_or]
    · simp only [hpoint, Bool.or_true, Bool.true_or]
  · have hname : f.name.toList.all isTokenChar = true := by cases f <;> decide
    exact List.all_eq_true.1 hname c hc
  · rw [h] at hnone
    cases hnone

/-- **A text without a stray run** is made of the characters of tokens. -/
theorem isTokenChar_of_lexemes {cs : List Char} {k : Nat}
    (h : ∀ x ∈ Cursor.lexemes ⟨k, cs⟩, x.token? ≠ none) : ∀ c ∈ cs, isTokenChar c = true := by
  induction cs using scan_induction generalizing k with
  | nil => intro c hc; cases hc
  | space cs ih =>
    rw [Cursor.lexemes_space] at h
    intro c hc
    rcases List.mem_cons.1 hc with rfl | hc
    · decide
    · exact ih h c hc
  | mark a t cs hm ih =>
    rw [Cursor.lexemes_mark k hm] at h
    intro c hc
    rcases List.mem_cons.1 hc with rfl | hc
    · exact isTokenChar_of_ofMark? hm
    · exact ih (fun x hx => h x (List.mem_cons_of_mem _ hx)) c hc
  | run w cs hne hw hcs ih =>
    rw [Cursor.lexemes_run k hne hw hcs] at h
    obtain ⟨t, ht⟩ := Option.ne_none_iff_exists'.1 (h _ List.mem_cons_self)
    intro c hc
    rcases List.mem_append.1 hc with hc | hc
    · exact isTokenChar_of_ofRun? ht c hc
    · exact ih (fun x hx => h x (List.mem_cons_of_mem _ hx)) c hc

theorem Reads.isTokenChar {s : String} {ts : List Token} (h : Reads s ts) :
    ∀ c ∈ s.toList, isTokenChar c = true := by
  refine isTokenChar_of_lexemes (k := 0) fun x hx hnone => ?_
  have hmem : x.token? ∈ (scan s).map Lexeme.token? := List.mem_map_of_mem hx
  rw [h, hnone] at hmem
  obtain ⟨t, -, ht⟩ := List.mem_map.1 hmem
  cases ht

/-! ### Blank texts -/

theorem isBlank_of_isLower {c : Char} (h : c.isLower = true) : Text.isBlank c = false := by
  unfold Char.isLower at h
  simp only [Bool.and_eq_true, decide_eq_true_eq, UInt32.le_iff_toNat_le] at h
  have hc : 97 ≤ c.toNat ∧ c.toNat ≤ 122 := h
  simp only [Text.isBlank, Bool.or_eq_false_iff, Bool.and_eq_false_iff, decide_eq_false_iff_not,
    beq_eq_false_iff_ne]
  omega

/-- **The one blank** in the alphabet is the space. -/
theorem eq_space_of_isBlank {c : Char} (halphabet : inAlphabet c = true)
    (hblank : Text.isBlank c = true) : c = ' ' := by
  rcases inAlphabet_iff.1 halphabet with hmark | rfl | hdigit | rfl | hlower
  · have hmarks : marks.all (fun c => !Text.isBlank c) = true := by decide
    have hnone := List.all_eq_true.1 hmarks c hmark
    rw [hblank] at hnone
    cases hnone
  · rfl
  · rw [Text.isBlank_of_isDigit hdigit] at hblank
    cases hblank
  · exact absurd hblank (by decide)
  · rw [isBlank_of_isLower hlower] at hblank
    cases hblank

theorem Cursor.lexemes_of_spaces {cs : List Char} (h : ∀ c ∈ cs, c = ' ') (k : Nat) :
    lexemes ⟨k, cs⟩ = [] := by
  induction cs generalizing k with
  | nil => exact lexemes_nil k
  | cons c rest ih =>
    rw [h c List.mem_cons_self, lexemes_space]
    exact ih (fun d hd => h d (List.mem_cons_of_mem c hd)) (k + 1)

theorem Reads.inAlphabet {s : String} {ts : List Token} (h : Reads s ts) :
    ∀ c ∈ s.toList, inAlphabet c = true :=
  fun c hc => inAlphabet_of_isTokenChar (h.isTokenChar c hc)

/-- **A text with a value** is not blank. -/
theorem isAllBlank_of_evaluate {s : String} {v : Float} (h : evaluate s = .ok v) :
    Text.isAllBlank s = false := by
  obtain ⟨ts, hreads⟩ := exists_reads_of_evaluate h
  by_contra hblank
  rw [Bool.not_eq_false, Text.isAllBlank, List.all_eq_true] at hblank
  have hscan : scan s = [] := Cursor.lexemes_of_spaces
    (fun c hc => eq_space_of_isBlank (hreads.inAlphabet c hc) (hblank c hc)) 0
  rw [evaluate, hscan] at h
  cases h

/-! ### Stray runs -/

/-- **A stray run** of a text in the alphabet has digits, points and small letters. -/
theorem chars_of_stray {s text : String} {offset : Nat} {x : Lexeme} (hx : x ∈ scan s)
    (hread : x.read = .error (.unrecognized text offset))
    (halphabet : ∀ c ∈ s.toList, inAlphabet c = true) :
    text ≠ "" ∧ ∀ c ∈ text.toList, c.isDigit = true ∨ c = '.' ∨ c.isLower = true := by
  obtain ⟨front, w, back, hs, hpiece, -, -, hreads⟩ := Cursor.mem_lexemes_iff.1 hx
  rw [hread] at hreads
  cases hreads with
  | stray hchars _ _ =>
    constructor
    · intro hempty
      rw [← String.toList_inj, String.toList_ofList] at hempty
      exact hpiece.ne_nil hempty
    · intro c hc
      rw [String.toList_ofList] at hc
      have hmem : c ∈ s.toList := by
        rw [hs]
        exact List.mem_append_left back (List.mem_append_right front hc)
      obtain ⟨hspace, hmark⟩ := hchars c hc
      rcases inAlphabet_iff.1 (halphabet c hmem) with h | h | h
      · exact absurd h hmark
      · exact absurd h hspace
      · exact h

/-- **The two alphabets agree.** If all lexemes of a text have tokens, then every part of the text
that is not blank can be typed; in particular a text with a value can be typed. If a text can be
typed, then its stray runs are made of digits, points and small letters. -/
theorem alphabets_agree (s : String) :
    ((∀ x ∈ scan s, ∀ f, x.read ≠ .error f) → ∀ front part back : String,
        s = front ++ part ++ back → Text.isAllBlank part = false → isTypeable part = true) ∧
      (∀ v, evaluate s = .ok v → isTypeable s = true) ∧
      (isTypeable s = true → ∀ x ∈ scan s, ∀ text offset,
        x.read = .error (.unrecognized text offset) →
          text ≠ "" ∧ ∀ c ∈ text.toList, c.isDigit = true ∨ c = '.' ∨ c.isLower = true) := by
  refine ⟨fun hread front part back hs hpart => ?_, fun v hv => ?_, fun htyped x hx text offset h =>
    chars_of_stray hx h (isTypeable_iff.1 htyped).2⟩
  · have htokens : ∀ x ∈ scan s, x.token? ≠ none := by
      intro x hx hnone
      exact hread x hx _ (Lexeme.read_eq_error_iff.2 ⟨hnone, rfl⟩)
    refine isTypeable_iff.2 ⟨hpart, fun c hc =>
      inAlphabet_of_isTokenChar (isTokenChar_of_lexemes htokens c ?_)⟩
    rw [hs, String.toList_append, String.toList_append]
    exact List.mem_append_left _ (List.mem_append_right _ hc)
  · obtain ⟨ts, hreads⟩ := exists_reads_of_evaluate hv
    exact isTypeable_iff.2 ⟨isAllBlank_of_evaluate hv, hreads.inAlphabet⟩

/-- The part `qrt(` of `2*sqrt(9)` can be typed, and `1e5 + 2` can be typed and has the stray run
`1e5`. -/
theorem alphabets_agree_parts :
    isTypeable "qrt(" = true ∧ isTypeable "1e5 + 2" = true ∧
      ∃ x ∈ scan "1e5 + 2", x.read = .error (.unrecognized "1e5" 0) ∧
        ∀ c ∈ "1e5".toList, c.isDigit = true ∨ c = '.' ∨ c.isLower = true := by
  have htokens : (scan "2*sqrt(9)").all (fun x => x.token?.isSome) = true := by decide +kernel
  have hread : ∀ x ∈ scan "2*sqrt(9)", ∀ f, x.read ≠ .error f := by
    intro x hx f hf
    have hsome := List.all_eq_true.1 htokens x hx
    rw [(Lexeme.read_eq_error_iff.1 hf).1] at hsome
    cases hsome
  have hpart := (alphabets_agree "2*sqrt(9)").1 hread "2*s" "qrt(" "9)" (by decide) (by decide)
  have hmem : (⟨"1e5", 0, none⟩ : Lexeme) ∈ scan "1e5 + 2" := by decide +kernel
  have hstray := (alphabets_agree "1e5 + 2").2.2 (by decide) _ hmem "1e5" 0 rfl
  exact ⟨hpart, by decide, _, hmem, rfl, hstray.2⟩

end PocketCalculator
