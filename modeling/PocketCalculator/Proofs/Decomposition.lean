import PocketCalculator.Proofs.LongNumerals

/-!
# The lexical decomposition of a text

A reader is called again and again for the next lexeme. It gives the pieces of the text in the order
in which they stand there, passes over nothing but spaces, and cuts no character.

* `Fills`: lexemes that make up a text with the spaces between them.
* `exists_slice`, `Cursor.StandsIn`: offsets are places between characters.
* `Cursor.call_after`: what each call gives.
* `scan_decomposition`: a text is read as its decomposition, and nothing comes after it.
* `scan_long_zeros`: a finite literal that is read as no number.
-/

namespace PocketCalculator

/-! ### Texts from their lexemes -/

/-- **A text filled by lexemes** from byte `k` on: spaces, then the text of the next lexeme at the
byte where it says it is, and so on, and spaces at the end. -/
inductive Fills : Nat → List Lexeme → List Char → Prop
  | spaces (k n : Nat) : Fills k [] (List.replicate n ' ')
  | lexeme {k n : Nat} {x : Lexeme} {xs : List Lexeme} {cs : List Char} (place : x.offset = k + n)
      (rest : Fills (x.offset + x.text.utf8ByteSize) xs cs) :
      Fills k (x :: xs) (List.replicate n ' ' ++ (x.text.toList ++ cs))

theorem Fills.space {k : Nat} {xs : List Lexeme} {cs : List Char} (h : Fills (k + 1) xs cs) :
    Fills k xs (' ' :: cs) := by
  cases h with
  | spaces _ n => exact .spaces k (n + 1)
  | @lexeme _ n x xs cs place rest =>
    have place' : x.offset = k + (n + 1) := by omega
    exact .lexeme place' rest

theorem Cursor.fills (k : Nat) (cs : List Char) : Fills k (lexemes ⟨k, cs⟩) cs := by
  induction cs using scan_induction generalizing k with
  | nil => rw [lexemes_nil]; exact .spaces k 0
  | space cs ih => rw [lexemes_space]; exact (ih (k + 1)).space
  | mark c t cs hm ih =>
    have size : (String.singleton c).utf8ByteSize = 1 := by
      rw [String.utf8ByteSize_singleton, utf8Size_of_ofMark? hm]
    have rest : Fills (k + (String.singleton c).utf8ByteSize) (lexemes ⟨k + 1, cs⟩) cs := by
      rw [size]
      exact ih (k + 1)
    have filled := Fills.lexeme (n := 0) (x := ⟨String.singleton c, k, some t⟩) rfl rest
    rw [String.toList_singleton] at filled
    rw [lexemes_mark k hm]
    exact filled
  | run w cs hne hw hcs ih =>
    have rest : Fills (k + (String.ofList w).utf8ByteSize) (lexemes ⟨k + byteLength w, cs⟩) cs := by
      rw [← byteLength_eq]
      exact ih (k + byteLength w)
    have filled := Fills.lexeme (n := 0) (x := ⟨String.ofList w, k, Token.ofRun? w⟩) rfl rest
    rw [String.toList_ofList] at filled
    rw [lexemes_run k hne hw hcs]
    exact filled

theorem Cursor.ascending (k : Nat) (cs : List Char) :
    (lexemes ⟨k, cs⟩).Pairwise fun x y => x.offset < y.offset := by
  induction cs using scan_induction generalizing k with
  | nil => rw [lexemes_nil]; exact .nil
  | space cs ih => rw [lexemes_space]; exact ih (k + 1)
  | mark c t cs hm ih =>
    rw [lexemes_mark k hm]
    refine .cons (fun y hy => ?_) (ih (k + 1))
    have later := offset_of_mem hy
    simp only
    omega
  | run w cs hne hw hcs ih =>
    rw [lexemes_run k hne hw hcs]
    refine .cons (fun y hy => ?_) (ih _)
    have later := offset_of_mem hy
    have long := byteLength_pos hne
    simp only
    omega

theorem Cursor.length_lexemes_le (k : Nat) (cs : List Char) :
    (lexemes ⟨k, cs⟩).length ≤ byteLength cs := by
  induction cs using scan_induction generalizing k with
  | nil => rw [lexemes_nil]; exact Nat.le_refl 0
  | space cs ih =>
    have one : byteLength (' ' :: cs) = 1 + byteLength cs := rfl
    have rest := ih (k + 1)
    rw [lexemes_space]
    omega
  | mark c t cs hm ih =>
    have rest := ih (k + 1)
    rw [lexemes_mark k hm, List.length_cons, byteLength, utf8Size_of_ofMark? hm]
    omega
  | run w cs hne hw hcs ih =>
    have rest := ih (k + byteLength w)
    have long := byteLength_pos hne
    rw [lexemes_run k hne hw hcs, List.length_cons, byteLength_append]
    omega

/-! ### Places in a text -/

theorem extract_middle (a b c : ByteArray) :
    (a ++ b ++ c).extract a.size (a.size + b.size) = b := by
  have none : c.extract (a.size - (a ++ b).size) (a.size + b.size - (a ++ b).size) =
      ByteArray.empty := by
    rw [ByteArray.size_append, Nat.sub_self]
    exact ByteArray.extract_eq_empty_iff.2 (by omega)
  rw [ByteArray.extract_append, ByteArray.extract_append_eq_right rfl rfl, none,
    ByteArray.append_empty]

/-- A part of a text is the slice between two places, and neither is inside a character. -/
theorem exists_slice {s : String} {front w back : List Char}
    (text : s.toList = front ++ w ++ back) :
    ∃ p q : s.Pos, p.offset.byteIdx = byteLength front ∧
      q.offset.byteIdx = byteLength front + byteLength w ∧
      String.extract p q = String.ofList w := by
  obtain rfl : s = String.ofList front ++ String.ofList w ++ String.ofList back := by
    rw [← String.ofList_append, ← String.ofList_append, ← text, String.ofList_toList]
  have start := String.Pos.Raw.isValid_iff_exists_append.2
    ⟨String.ofList front, String.ofList w ++ String.ofList back, String.append_assoc, rfl⟩
  have stop := String.Pos.Raw.isValid_iff_exists_append.2
    ⟨String.ofList front ++ String.ofList w, String.ofList back, rfl, rfl⟩
  refine ⟨⟨_, start⟩, ⟨_, stop⟩, ?_, ?_, ?_⟩
  · rw [byteLength_eq]
    rfl
  · rw [byteLength_eq, byteLength_eq, ← String.utf8ByteSize_append]
    rfl
  · apply String.toByteArray_inj.1
    have middle := extract_middle (String.ofList front).toByteArray (String.ofList w).toByteArray
      (String.ofList back).toByteArray
    rw [← ByteArray.size_append, ← String.toByteArray_append, ← String.toByteArray_append] at middle
    exact middle

namespace Cursor

/-- **A cursor stands in a text**: its offset is a place between two characters, and the slice of
the text from there is what the cursor has before it. -/
def StandsIn (c : Cursor) (s : String) : Prop :=
  ∃ p : s.Pos, p.offset.byteIdx = c.offset ∧ (s.sliceFrom p).copy = String.ofList c.rest

theorem standsIn_of_append {s : String} {c : Cursor} {front : List Char}
    (text : s.toList = front ++ c.rest) (place : c.offset = byteLength front) : c.StandsIn s := by
  obtain rfl : s = String.ofList front ++ String.ofList c.rest := by
    rw [← String.ofList_append, ← text, String.ofList_toList]
  refine ⟨_, ?_, String.Pos.splits_append_rawEndPos.copy_sliceFrom_eq⟩
  rw [place, byteLength_eq]
  rfl

/-! ### Calls -/

/-- **One call** of the reader: a lexeme, or nothing when only spaces are left, and the cursor for
the next call. -/
def call (c : Cursor) : Option Lexeme × Cursor :=
  match c.next? with
  | some (x, d) => (some x, d)
  | none => (none, c.skipSpaces)

/-- The cursor after a number of calls. -/
def after (c : Cursor) : Nat → Cursor
  | 0 => c
  | n + 1 => c.call.2.after n

/-- Behind the spaces there is nothing, or a lexeme that is gone over. -/
theorem next?_cases (c : Cursor) : (c.skipSpaces.rest = [] ∧ c.next? = none) ∨
    ∃ w x d, c.next? = some (x, d) ∧ c.skipSpaces.rest = w ++ d.rest ∧
      d.offset = c.skipSpaces.offset + byteLength w := by
  cases hr : c.skipSpaces.rest with
  | nil =>
    left
    simp only [next?, hr, and_self]
  | cons a rest =>
    right
    cases hm : Token.ofMark? a with
    | some t =>
      have h : c.next? = some (⟨String.singleton a, c.skipSpaces.offset, some t⟩,
          ⟨c.skipSpaces.offset + 1, rest⟩) := by
        simp only [next?, hr, hm]
      refine ⟨[a], _, _, h, rfl, ?_⟩
      rw [byteLength, utf8Size_of_ofMark? hm]
      rfl
    | none =>
      have h : c.next? = some (⟨String.ofList (a :: rest.takeWhile inRun), c.skipSpaces.offset,
            Token.ofRun? (a :: rest.takeWhile inRun)⟩,
          ⟨c.skipSpaces.offset + byteLength (a :: rest.takeWhile inRun), rest.dropWhile inRun⟩) := by
        simp only [next?, hr, hm]
      refine ⟨a :: rest.takeWhile inRun, _, _, h, ?_, rfl⟩
      rw [List.cons_append, List.takeWhile_append_dropWhile]

theorem call_of_some {c d : Cursor} {x : Lexeme} (h : c.next? = some (x, d)) :
    c.call = (some x, d) := by
  rw [call, h]

theorem call_of_none {c : Cursor} (h : c.next? = none) : c.call = (none, c.skipSpaces) := by
  rw [call, h]

/-- A call takes off the first lexeme. -/
theorem lexemes_call (c : Cursor) :
    c.call.1 = c.lexemes.head? ∧ c.call.2.lexemes = c.lexemes.tail := by
  rcases c.next?_cases with ⟨hr, h⟩ | ⟨w, x, d, h, -, -⟩
  · have nothing : c.skipSpaces.lexemes = [] := by
      have empty : c.skipSpaces = ⟨c.skipSpaces.offset, []⟩ := by rw [← hr]
      rw [empty]
      exact lexemes_nil _
    rw [call_of_none h, lexemes_of_none h]
    exact ⟨rfl, nothing⟩
  · rw [call_of_some h, lexemes_of_some h]
    exact ⟨rfl, rfl⟩

/-- **The calls of a reader** give the lexemes one after the other, and nothing ever after. -/
theorem call_after (c : Cursor) (n : Nat) : (c.after n).call.1 = c.lexemes[n]? := by
  induction n generalizing c with
  | zero => rw [after, c.lexemes_call.1, List.head?_eq_getElem?]
  | succ n ih => rw [after, ih, c.lexemes_call.2, List.getElem?_tail]

theorem byteLength_spaces (cs : List Char) :
    byteLength (cs.takeWhile (· == ' ')) = (cs.takeWhile (· == ' ')).length := by
  induction cs with
  | nil => rfl
  | cons c rest ih =>
    by_cases hc : c = ' '
    · subst hc
      rw [List.takeWhile_cons_of_pos (p := (· == ' ')) rfl, byteLength, ih, List.length_cons,
        Nat.add_comm]
      rfl
    · rw [List.takeWhile_cons_of_neg (p := (· == ' ')) (by simpa using hc)]
      rfl

/-- What a call goes over lies between the cursor before it and the one after it. -/
theorem exists_of_call (c : Cursor) : ∃ w, c.rest = w ++ c.call.2.rest ∧
    c.call.2.offset = c.offset + byteLength w := by
  have skipped : c.rest = c.rest.takeWhile (· == ' ') ++ c.skipSpaces.rest :=
    List.takeWhile_append_dropWhile.symm
  have place : c.skipSpaces.offset = c.offset + byteLength (c.rest.takeWhile (· == ' ')) := by
    rw [byteLength_spaces]
    rfl
  rcases c.next?_cases with ⟨-, h⟩ | ⟨w, x, d, h, hrest, hoffset⟩
  · rw [call_of_none h]
    exact ⟨_, skipped, place⟩
  · rw [call_of_some h]
    refine ⟨c.rest.takeWhile (· == ' ') ++ w, ?_, ?_⟩
    · rw [List.append_assoc, ← hrest]
      exact skipped
    · rw [hoffset, place, byteLength_append, Nat.add_assoc]

/-- **A reader stays between characters.** -/
theorem standsIn_after (s : String) (n : Nat) : ((Cursor.mk 0 s.toList).after n).StandsIn s := by
  have walked (c : Cursor) (front : List Char) (text : s.toList = front ++ c.rest)
      (place : c.offset = byteLength front) : (c.after n).StandsIn s := by
    induction n generalizing c front with
    | zero => exact standsIn_of_append text place
    | succ n ih =>
      obtain ⟨w, hrest, hoffset⟩ := c.exists_of_call
      refine ih c.call.2 (front ++ w) ?_ ?_
      · rw [List.append_assoc, ← hrest]
        exact text
      · rw [hoffset, place, byteLength_append]
  exact walked _ [] rfl rfl

end Cursor

/-! ### The decomposition -/

/-- **The decomposition of a text**: the lexemes are the pieces in the text, in the order in which
they stand there, and fill it up to spaces. Each is the slice of the text that begins at its
offset. -/
structure Decomposition (s : String) (xs : List Lexeme) : Prop where
  mem_iff : ∀ x, x ∈ xs ↔ Occurs s.toList 0 x
  ascending : xs.Pairwise fun x y => x.offset < y.offset
  fills : Fills 0 xs s.toList
  sliced : ∀ x ∈ xs, ∃ p q : s.Pos, p.offset.byteIdx = x.offset ∧
    q.offset.byteIdx = x.offset + x.text.utf8ByteSize ∧ String.extract p q = x.text

/-- **A text is read as its decomposition.** There are at most as many lexemes as bytes. Calling the
reader again and again gives them one after the other, and nothing from then on, and no call cuts
the text inside a character. A lexeme is a number if it is a finite literal and the signed 32-bit word
that counts its digits ends above zero, which is so below `2^31` digits. -/
theorem scan_decomposition (s : String) :
    Decomposition s (scan s) ∧ (scan s).length ≤ s.utf8ByteSize ∧
      (∀ n, ((Cursor.mk 0 s.toList).after n).call.1 = (scan s)[n]? ∧
        ((Cursor.mk 0 s.toList).after n).StandsIn s) ∧
      ∀ x ∈ scan s, let w := x.text.toList
        (∀ v, x.read = .ok (.number v) ↔
          IsFiniteLiteral w v ∧ 0 < Literal.wrapped (w.countP Char.isDigit)) ∧
        (w.countP Char.isDigit < 2147483648 →
          ∀ v, x.read = .ok (.number v) ↔ IsFiniteLiteral w v) := by
  have pieces (x : Lexeme) : x ∈ scan s ↔ Occurs s.toList 0 x := Cursor.mem_lexemes_iff
  have sliced : ∀ x ∈ scan s, ∃ p q : s.Pos, p.offset.byteIdx = x.offset ∧
      q.offset.byteIdx = x.offset + x.text.utf8ByteSize ∧ String.extract p q = x.text := by
    intro x hx
    obtain ⟨front, w, back, text, -, htext, hoffset, -⟩ := (pieces x).1 hx
    rw [htext, hoffset, Nat.zero_add, ← byteLength_eq]
    exact exists_slice text
  refine ⟨⟨pieces, Cursor.ascending 0 s.toList, Cursor.fills 0 s.toList, sliced⟩, ?_, ?_, ?_⟩
  · rw [← byteLength_toList]
    exact Cursor.length_lexemes_le 0 s.toList
  · intro n
    exact ⟨Cursor.call_after _ n, Cursor.standsIn_after s n⟩
  · intro x hx w
    have number (v : Float) : x.read = .ok (.number v) ↔
        IsFiniteLiteral w v ∧ 0 < Literal.wrapped (w.countP Char.isDigit) :=
      ((pieces x).1 hx).read_eq_number_iff
    refine ⟨number, fun few v => ?_⟩
    rw [number, ← Literal.value?_eq_some_iff]
    exact Literal.value?_eq_some_iff_of_few few

/-- **A finite literal that is no number.** A run of `2^31` zeros stands for zero, and it is read as a
fault that carries the run. With one zero less it is read as the number. -/
theorem scan_long_zeros :
    IsFiniteLiteral (List.replicate 2147483648 '0') 0 ∧
      (scan (String.ofList (List.replicate 2147483648 '0'))).map Lexeme.read =
        [.error (.unrecognized (String.ofList (List.replicate 2147483648 '0')) 0)] ∧
      (scan (String.ofList (List.replicate 2147483647 '0'))).map Lexeme.read =
        [.ok (.number 0)] := by
  have hliteral (n : Nat) (hn : 0 < n) : IsFiniteLiteral (List.replicate n '0') 0 :=
    Literal.isFiniteLiteral_zeros n hn
  have hlong := hliteral 2147483648 (by decide)
  have hshort := hliteral 2147483647 (by decide)
  refine ⟨hlong, ?_, ?_⟩
  · rw [Literal.scan_of_wrapped hlong.toIsNumeral Literal.wrapped_zeros]
    rfl
  · have hnumeral := hshort.toIsNumeral
    have hvalue := (Literal.value?_eq_some_iff_of_few (by rw [Literal.countP_zeros]; decide)).2 hshort
    rw [← String.toList_ofList (l := List.replicate 2147483647 '0')] at hnumeral
    rw [scan_of_isNumeral hnumeral, String.toList_ofList, hvalue]
    rfl

end PocketCalculator
