import PocketCalculator.Proofs.Alphabets
import PocketCalculator.Proofs.Decomposition

/-!
# The diagnosis of stray runs

The fault of a stray run names the run and the byte where it stands. It is the first stray run of
the text, all before it has been taken, and as tokens are made of ASCII characters, the byte where
it stands is the character where it stands as well.

* `IsRun`, `IsLegible`: the runs of a text, and those that have tokens.
* `StandsAt`: where a text stands in another one.
* `Diagnosed`: what the fault says of its run.
* `evaluate_diagnosed`: a text has such a fault exactly when the run is as it says, and no text
  of legible runs has one.
* `diagnosed_long_zeros`: a finite literal that is diagnosed.
-/

namespace PocketCalculator

/-! ### Runs -/

/-- **A run of a text**: characters that are no marks and no spaces, as many as there are side by
side. -/
structure IsRun (cs front w back : List Char) : Prop where
  text : cs = front ++ w ++ back
  nonempty : w ≠ []
  chars : ∀ c ∈ w, c ≠ ' ' ∧ c ∉ marks
  before : ∀ c ∈ front.getLast?, c = ' ' ∨ c ∈ marks
  behind : ∀ c ∈ back.head?, c = ' ' ∨ c ∈ marks

/-- **Legible runs**: the names of functions, and the finite literals for which the signed 32-bit word
that counts their digits ends above zero. -/
def IsLegible (w : List Char) : Prop :=
  (∃ v, IsFiniteLiteral w v ∧ 0 < Literal.wrapped (w.countP Char.isDigit)) ∨
    ∃ f : Scientific, w = f.name.toList

/-- **Below `2^31` digits** legible runs are the finite literals and the names of functions. -/
theorem isLegible_iff_of_few {w : List Char} (few : w.countP Char.isDigit < 2147483648) :
    IsLegible w ↔ (∃ v, IsFiniteLiteral w v) ∨ ∃ f : Scientific, w = f.name.toList := by
  simp only [IsLegible, ← Literal.value?_eq_some_iff, Literal.value?_eq_some_iff_of_few few]

/-- Legible runs are those that have a token. -/
theorem ofRun?_eq_none_iff {w : List Char} : Token.ofRun? w = none ↔ ¬ IsLegible w := by
  simp only [IsLegible, ← Literal.value?_eq_some_iff]
  rcases ofRun?_cases w with ⟨x, hx⟩ | ⟨f, rfl⟩ | ⟨hvalue, hname, hnone⟩
  · rw [(Literal.run_of_value? hx).2.2]
    exact ⟨fun h => (by cases h), fun h => absurd (.inl ⟨x, hx⟩) h⟩
  · rw [f.run_name.2.2]
    exact ⟨fun h => (by cases h), fun h => absurd (.inr ⟨f, rfl⟩) h⟩
  · refine ⟨fun _ => ?_, fun _ => hnone⟩
    rintro (⟨x, hx⟩ | ⟨f, hf⟩)
    · rw [hvalue] at hx; cases hx
    · exact hname f hf

/-- **The lexeme of a run** that has no token. -/
theorem mem_scan_stray_iff {s t : String} {n : Nat} :
    ⟨t, n, none⟩ ∈ scan s ↔ ∃ front back, IsRun s.toList front t.toList back ∧
      n = byteLength front ∧ ¬ IsLegible t.toList := by
  rw [scan, Cursor.mem_lexemes_iff]
  constructor
  · rintro ⟨front, w, back, htext, hpiece, hw, hplace, hreads⟩
    obtain rfl : t = String.ofList w := hw
    rw [Nat.zero_add] at hplace
    rw [String.toList_ofList]
    cases hreads with
    | stray chars literal name =>
      have hillegible : ¬ IsLegible w := by
        rintro (⟨x, hliteral, hcount⟩ | ⟨f, hf⟩)
        · exact absurd hcount (Int.not_lt.2 (literal x hliteral))
        · exact name f hf
      cases hpiece with
      | mark c single mark =>
        have hc : c ∈ w := by rw [single]; exact List.mem_singleton_self c
        exact absurd mark (chars c hc).2
      | run nonempty chars before behind =>
        exact ⟨front, back, ⟨htext, nonempty, chars, before, behind⟩, hplace, hillegible⟩
  · rintro ⟨front, back, hrun, hplace, hillegible⟩
    have hpiece : IsPiece front t.toList back :=
      .run hrun.nonempty hrun.chars hrun.before hrun.behind
    have hchars : ∀ c ∈ t.toList, inRun c = true := fun c hc => inRun_iff.2 (hrun.chars c hc)
    refine ⟨front, t.toList, back, hrun.text, hpiece, String.ofList_toList.symm, ?_, ?_⟩
    · rw [Nat.zero_add]
      exact hplace
    · rw [readsAs_run_iff hchars, ofRun?_eq_none_iff.2 hillegible, String.ofList_toList]

/-! ### Places -/

/-- **A text stands at a byte** of another one: these are its bytes from there on. -/
def StandsAt (t s : String) (n : Nat) : Prop :=
  s.toByteArray.extract n (n + t.utf8ByteSize) = t.toByteArray

instance (t s : String) (n : Nat) : Decidable (StandsAt t s n) :=
  inferInstanceAs (Decidable (_ = _))

theorem standsAt_of_append {s t : String} {front back : List Char}
    (text : s.toList = front ++ t.toList ++ back) : StandsAt t s (byteLength front) := by
  obtain rfl : s = String.ofList front ++ t ++ String.ofList back := by
    rw [← String.ofList_toList (s := t), ← String.ofList_append, ← String.ofList_append, ← text,
      String.ofList_toList]
  have hmiddle := extract_middle (String.ofList front).toByteArray t.toByteArray
    (String.ofList back).toByteArray
  rw [← String.toByteArray_append, ← String.toByteArray_append] at hmiddle
  rw [StandsAt, byteLength_eq]
  exact hmiddle

/-! ### The fault of a stray run -/

/-- **Before the first fault** all lexemes have tokens. -/
theorem FailsAt.token?_of_lt {s : String} {x y : Lexeme} {f : Fault} (h : FailsAt s x f)
    (hy : y ∈ scan s) (hlt : y.offset < x.offset) : y.token? ≠ none := by
  obtain ⟨before, after, m, hscan, hbefore, -⟩ := h
  have hascending : (scan s).Pairwise fun x y => x.offset < y.offset := Cursor.ascending 0 s.toList
  rw [hscan] at hy hascending
  rcases List.mem_append.1 hy with hy | hy
  · exact Machine.token?_of_feed hbefore y hy
  · exfalso
    rcases List.mem_cons.1 hy with rfl | hy
    · exact Nat.lt_irrefl _ hlt
    · have hlater := List.rel_of_pairwise_cons (List.pairwise_append.1 hascending).2.1 hy
      omega

/-- What stands before a run can be scanned by itself. -/
theorem IsRun.mem_scan_of_front {s : String} {front w back : List Char}
    (h : IsRun s.toList front w back) {x : Lexeme} (hx : x ∈ Cursor.lexemes ⟨0, front⟩) :
    x ∈ scan s ∧ x.offset < byteLength front := by
  have hcut : Separated front (w ++ back) := .inl fun c hc => inRun_eq_false_iff.2 (h.before c hc)
  have hplace := Cursor.offset_of_mem hx
  refine ⟨?_, by omega⟩
  rw [scan, h.text, List.append_assoc, Cursor.lexemes_append hcut]
  exact List.mem_append_left _ hx

/-- **The fault of a stray run** says: the run stands where it says, and it has no token; the place
is the same in bytes and in characters, since what stands before is ASCII; no run before is stray,
and all lexemes before are taken. -/
structure Diagnosed (s t : String) (n : Nat) (front back : List Char) : Prop where
  run : IsRun s.toList front t.toList back
  illegible : ¬ IsLegible t.toList
  stands : StandsAt t s n
  bytes : n = byteLength front
  characters : n = front.length
  ascii : ∀ c ∈ front, c.toNat < 128
  first : ∀ front' w back', IsRun s.toList front' w back' → ¬ IsLegible w → n ≤ byteLength front'
  taken : FailsAt s ⟨t, n, none⟩ (.unrecognized t n)

theorem diagnosed_of_failsAt {s t : String} {n : Nat}
    (h : FailsAt s ⟨t, n, none⟩ (.unrecognized t n)) :
    ∃ front back, Diagnosed s t n front back := by
  have hmem : ⟨t, n, none⟩ ∈ scan s := by
    obtain ⟨before, after, -, hscan, -⟩ := h
    rw [hscan]
    exact List.mem_append_right before List.mem_cons_self
  obtain ⟨front, back, hrun, hplace, hillegible⟩ := mem_scan_stray_iff.1 hmem
  -- what stands before the run scans to lexemes of the text before the fault
  have htokens : ∀ x ∈ Cursor.lexemes ⟨0, front⟩, x.token? ≠ none := by
    intro x hx
    obtain ⟨hscan, hlt⟩ := hrun.mem_scan_of_front hx
    rw [← hplace] at hlt
    exact h.token?_of_lt hscan hlt
  have halphabet : ∀ c ∈ front, inAlphabet c = true :=
    fun c hc => inAlphabet_of_isTokenChar (isTokenChar_of_lexemes htokens c hc)
  have hascii : ∀ c ∈ front, c.toNat < 128 := by
    intro c hc
    have hsize := Char.utf8Size_eq_one_iff.1 (utf8Size_of_inAlphabet (halphabet c hc))
    have hle : c.toNat ≤ 127 := UInt32.le_iff_toNat_le.1 hsize
    omega
  have hfirst : ∀ front' w back', IsRun s.toList front' w back' → ¬ IsLegible w →
      n ≤ byteLength front' := by
    intro front' w back' hrun' hw
    by_contra hbefore
    -- a stray run further in front would have been the fault
    have hmem' : ⟨String.ofList w, byteLength front', none⟩ ∈ scan s :=
      mem_scan_stray_iff.2 ⟨front', back', by rwa [String.toList_ofList], rfl,
        by rwa [String.toList_ofList]⟩
    exact h.token?_of_lt hmem' (Nat.not_le.1 hbefore) rfl
  refine ⟨front, back, hrun, hillegible, ?_, hplace, ?_, hascii, hfirst, h⟩
  · rw [hplace]
    exact standsAt_of_append hrun.text
  · rw [hplace, byteLength_of_inAlphabet halphabet]

/-- **The diagnosis of stray runs.** The fault of a stray run is a diagnosis, and every diagnosis is
the fault of its text. A text whose runs are all legible has no such fault. Below `2^31` digits the
legible runs are the finite literals and the names of functions. -/
theorem evaluate_diagnosed (s : String) :
    (∀ t n, evaluate s = .error (.unrecognized t n) ↔
        ∃ front back, Diagnosed s t n front back) ∧
      ((∀ front w back, IsRun s.toList front w back → IsLegible w) →
        ∀ t n, evaluate s ≠ .error (.unrecognized t n)) ∧
      ∀ w : List Char, w.countP Char.isDigit < 2147483648 →
        (IsLegible w ↔ (∃ v, IsFiniteLiteral w v) ∨ ∃ f : Scientific, w = f.name.toList) := by
  have hdiagnosed (t : String) (n : Nat) : evaluate s = .error (.unrecognized t n) ↔
      ∃ front back, Diagnosed s t n front back := by
    rw [evaluate_eq_unrecognized_iff]
    exact ⟨diagnosed_of_failsAt, fun ⟨_, _, h⟩ => h.taken⟩
  refine ⟨hdiagnosed, fun hlegible t n h => ?_, fun w few => isLegible_iff_of_few few⟩
  obtain ⟨front, back, hd⟩ := (hdiagnosed t n).1 h
  exact hd.illegible (hlegible front t.toList back hd.run)

/-- In `(3 + €5) tan` the run `€5` is stray and so is `tan`, and `€` takes three bytes. The fault is
about `€5`. -/
theorem evaluate_diagnosed_foreign :
    evaluate "(3 + €5) tan" = .error (.unrecognized "€5" 5) ∧
      (∃ front back, Diagnosed "(3 + €5) tan" "€5" 5 front back) ∧
      ∀ v, ¬ IsFiniteLiteral "€5".toList v := by
  have h : evaluate "(3 + €5) tan" = .error (.unrecognized "€5" 5) := by decide +kernel
  obtain ⟨hdiagnosed, -, hlegible⟩ := evaluate_diagnosed "(3 + €5) tan"
  obtain ⟨front, back, hd⟩ := (hdiagnosed "€5" 5).1 h
  exact ⟨h, ⟨front, back, hd⟩,
    fun v hv => hd.illegible ((hlegible "€5".toList (by decide)).2 (.inl ⟨v, hv⟩))⟩

/-- **A finite literal that is diagnosed.** The only run of `2^31` zeros is all of them, and they stand
for zero. The evaluation fails because of this run. -/
theorem diagnosed_long_zeros :
    evaluate (String.ofList (List.replicate 2147483648 '0')) =
        .error (.unrecognized (String.ofList (List.replicate 2147483648 '0')) 0) ∧
      IsFiniteLiteral (List.replicate 2147483648 '0') 0 ∧
      ∀ front w back, IsRun (List.replicate 2147483648 '0') front w back → IsFiniteLiteral w 0 := by
  have hliteral : IsFiniteLiteral (List.replicate 2147483648 '0') 0 :=
    Literal.isFiniteLiteral_zeros _ (by decide)
  refine ⟨Literal.evaluate_of_wrapped hliteral.toIsNumeral Literal.wrapped_zeros, hliteral,
    fun front w back hrun => ?_⟩
  obtain ⟨rfl, rfl⟩ := run_whole hrun.text hliteral.toIsNumeral.inRun hrun.before hrun.behind
  have htext := hrun.text
  rw [List.nil_append, List.append_nil] at htext
  exact htext ▸ hliteral

end PocketCalculator
