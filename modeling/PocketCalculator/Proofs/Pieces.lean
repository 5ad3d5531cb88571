import PocketCalculator.Proofs.Joining

/-!
# The pieces of a text

Which lexemes a text has can be said without cutting it: they are the marks in it and the runs of
other characters that are as long as they can be, each at the byte where it stands.

* `IsPiece`: a part of a text that is a mark or a maximal run.
* `ReadsAs`: what such a part is read as.
* `occurs_append`: the pieces of two texts, where no run goes on over the cut.
* `Cursor.mem_lexemes_iff`: the lexemes of a text are the pieces in it.
-/

namespace PocketCalculator

/-! ### Marks and runs -/

/-- The characters that are lexemes by themselves. -/
def marks : List Char := ['+', '-', '*', '/', '^', '(', ')']

theorem exists_ofMark?_iff {c : Char} : (∃ t, Token.ofMark? c = some t) ↔ c ∈ marks := by
  constructor
  · rintro ⟨t, h⟩
    rcases ofMark?_cases h with ⟨rfl, -⟩ | ⟨rfl, -⟩ | ⟨o, rfl, -⟩
    · decide
    · decide
    · cases o <;> decide
  · intro h
    simp only [marks, List.mem_cons, List.not_mem_nil, or_false] at h
    rcases h with rfl | rfl | rfl | rfl | rfl | rfl | rfl <;> exact ⟨_, rfl⟩

theorem inRun_iff {c : Char} : inRun c = true ↔ c ≠ ' ' ∧ c ∉ marks := by
  rw [← exists_ofMark?_iff, inRun]
  cases Token.ofMark? c with
  | none => simp
  | some t => simp

theorem inRun_eq_false_iff {c : Char} : inRun c = false ↔ c = ' ' ∨ c ∈ marks := by
  rw [← Bool.not_eq_true, inRun_iff, Classical.not_and_iff_not_or_not, Classical.not_not,
    Classical.not_not]

/-- **A piece of a text** between the parts before and behind it: a mark, or a run of characters
that are no marks and no spaces, which cannot be made longer. -/
inductive IsPiece (front w back : List Char) : Prop
  | mark (c : Char) (single : w = [c]) (mark : c ∈ marks)
  | run (nonempty : w ≠ []) (chars : ∀ c ∈ w, c ≠ ' ' ∧ c ∉ marks)
      (before : ∀ c ∈ front.getLast?, c = ' ' ∨ c ∈ marks)
      (behind : ∀ c ∈ back.head?, c = ' ' ∨ c ∈ marks)

namespace IsPiece

variable {a b front w back : List Char}

theorem ne_nil (h : IsPiece front w back) : w ≠ [] := by
  cases h with
  | mark c single _ => rw [single]; exact List.cons_ne_nil c []
  | run nonempty => exact nonempty

/-- A piece of the first of two texts. -/
theorem append_right (h : IsPiece front w back) (cut : Separated (front ++ w ++ back) b) :
    IsPiece front w (back ++ b) := by
  cases h with
  | mark c single mark => exact .mark c single mark
  | run nonempty chars before behind =>
    refine .run nonempty chars before fun c hc => ?_
    have run : ∀ c ∈ w, inRun c = true := fun c hc => inRun_iff.2 (chars c hc)
    have ends : EndsRun back := fun c hc => inRun_eq_false_iff.2 (behind c hc)
    rw [List.append_assoc] at cut
    exact inRun_eq_false_iff.1 (cut.tail.endsRun nonempty run ends c hc)

/-- A piece of the second of two texts. -/
theorem append_left (h : IsPiece front w back) (cut : Separated a (front ++ w ++ back)) :
    IsPiece (a ++ front) w back := by
  cases h with
  | mark c single mark => exact .mark c single mark
  | run nonempty chars before behind =>
    refine .run nonempty chars (fun c hc => ?_) behind
    cases front with
    | cons d rest =>
      rw [List.getLast?_append, List.getLast?_cons] at hc
      exact before c (by rwa [List.getLast?_cons])
    | nil =>
      rw [List.append_nil] at hc
      rcases cut with cut | cut
      · exact inRun_eq_false_iff.1 (cut c hc)
      · -- the piece itself would have to end a run
        obtain ⟨d, rest, rfl⟩ := List.exists_cons_of_ne_nil nonempty
        have stop : inRun d = false := cut d rfl
        rw [inRun_iff.2 (chars d List.mem_cons_self)] at stop
        cases stop

theorem of_append_right (h : IsPiece front w (back ++ b)) : IsPiece front w back := by
  cases h with
  | mark c single mark => exact .mark c single mark
  | run nonempty chars before behind =>
    refine .run nonempty chars before fun c hc => behind c ?_
    rw [List.head?_append, Option.mem_def.1 hc]
    rfl

theorem of_append_left (h : IsPiece (a ++ front) w back) : IsPiece front w back := by
  cases h with
  | mark c single mark => exact .mark c single mark
  | run nonempty chars before behind =>
    refine .run nonempty chars (fun c hc => before c ?_) behind
    rw [List.getLast?_append, Option.mem_def.1 hc]
    rfl

/-- **No piece goes over a cut.** -/
theorem split (h : IsPiece front w back) (cut : Separated a b) (text : a ++ b = front ++ w ++ back) :
    (∃ c, a = front ++ w ++ c ∧ back = c ++ b) ∨ ∃ c, front = a ++ c ∧ b = c ++ w ++ back := by
  rcases List.append_eq_append_iff.1 text with ⟨v, hfront, hb⟩ | ⟨c, ha, hback⟩
  · rcases List.append_eq_append_iff.1 hfront with ⟨u, ha, hw⟩ | ⟨c, hfront, hv⟩
    · by_cases hu : u = []
      · subst hu
        refine .inr ⟨[], ?_, ?_⟩
        · simpa using ha.symm
        · simpa [hw] using hb
      by_cases hv : v = []
      · subst hv
        refine .inl ⟨[], ?_, ?_⟩
        · simpa [hw] using ha
        · simpa using hb.symm
      -- both parts of the piece are there, so it is a run and goes over the cut
      subst hw ha hb
      cases h with
      | mark c single _ =>
        have long := congrArg List.length single
        have hu' := List.length_pos_iff.2 hu
        have hv' := List.length_pos_iff.2 hv
        rw [List.length_append, List.length_singleton] at long
        omega
      | run nonempty chars before behind =>
        have run : ∀ c ∈ u, inRun c = true := by
          intro c hc
          exact inRun_iff.2 (chars c (List.mem_append_left v hc))
        have tail : Separated (u ++ []) (v ++ back) := by
          rw [List.append_nil]
          exact cut.tail
        have stop := tail.endsRun hu run (fun c hc => by cases hc)
        obtain ⟨d, rest, rfl⟩ := List.exists_cons_of_ne_nil hv
        have inside := inRun_iff.2 (chars d (List.mem_append_right u List.mem_cons_self))
        have outside : inRun d = false := stop d rfl
        rw [inside] at outside
        cases outside
    · refine .inr ⟨c, hfront, ?_⟩
      rw [hb, hv]
  · exact .inl ⟨c, ha, hback⟩

end IsPiece

/-! ### What a piece is read as -/

/-- **What a piece is read as**: a mark and the name of a function as what they say, a finite literal
as its value if the word that counts its digits ends above zero, and any other run as a fault that
carries the run and its place. -/
inductive ReadsAs (w : List Char) (offset : Nat) : Except Fault Token → Prop
  | opening (text : w = ['(']) : ReadsAs w offset (.ok .opening)
  | closing (text : w = [')']) : ReadsAs w offset (.ok .closing)
  | operator (o : Operator) (text : w = [o.symbol]) : ReadsAs w offset (.ok (.operator o))
  | function (f : Scientific) (text : w = f.name.toList) : ReadsAs w offset (.ok (.function f))
  | number (x : Float) (literal : IsFiniteLiteral w x)
      (count : 0 < Literal.wrapped (w.countP Char.isDigit)) : ReadsAs w offset (.ok (.number x))
  | stray (chars : ∀ c ∈ w, c ≠ ' ' ∧ c ∉ marks)
      (literal : ∀ x, IsFiniteLiteral w x → Literal.wrapped (w.countP Char.isDigit) ≤ 0)
      (name : ∀ f : Scientific, w ≠ f.name.toList) :
      ReadsAs w offset (.error (.unrecognized (String.ofList w) offset))

/-- A run is a literal, the name of a function, or neither. -/
theorem ofRun?_cases (w : List Char) :
    (∃ x, Literal.value? w = some x) ∨ (∃ f : Scientific, w = f.name.toList) ∨
      (Literal.value? w = none ∧ (∀ f : Scientific, w ≠ f.name.toList) ∧
        Token.ofRun? w = none) := by
  cases hx : Literal.value? w with
  | some x => exact .inl ⟨x, rfl⟩
  | none =>
    by_cases hf : ∃ f : Scientific, w = f.name.toList
    · exact .inr (.inl hf)
    · refine .inr (.inr ⟨rfl, fun f h => hf ⟨f, h⟩, ?_⟩)
      unfold Token.ofRun?
      split
      · rw [hx]
        rfl
      · cases hn : Scientific.ofName? (String.ofList w) with
        | none => rfl
        | some f =>
          have name := Scientific.name_of_ofName? hn
          exact absurd ⟨f, by rw [name, String.toList_ofList]⟩ hf

theorem readsAs_run_iff {w : List Char} (run : ∀ c ∈ w, inRun c = true)
    {offset : Nat} {r : Except Fault Token} :
    ReadsAs w offset r ↔ r = (Lexeme.mk (String.ofList w) offset (Token.ofRun? w)).read := by
  have unmarked {c : Char} (text : w = [c]) : c ∉ marks :=
    (inRun_iff.1 (run c (by rw [text]; exact List.mem_singleton_self c))).2
  constructor
  · intro h
    cases h with
    | opening text => exact absurd (by decide) (unmarked text)
    | closing text => exact absurd (by decide) (unmarked text)
    | operator o text => exact absurd (by cases o <;> decide) (unmarked text)
    | function f text => rw [text, f.run_name.2.2]; rfl
    | number x literal count =>
      rw [(Literal.run_of_value? (Literal.value?_eq_some_iff.2 ⟨literal, count⟩)).2.2]; rfl
    | stray chars literal name =>
      rcases ofRun?_cases w with ⟨x, hx⟩ | ⟨f, hf⟩ | ⟨-, -, none⟩
      · rw [Literal.value?_eq_none_iff.2 literal] at hx; cases hx
      · exact absurd hf (name f)
      · rw [none]; rfl
  · rintro rfl
    rcases ofRun?_cases w with ⟨x, hx⟩ | ⟨f, hf⟩ | ⟨literal, name, none⟩
    · obtain ⟨hliteral, hcount⟩ := Literal.value?_eq_some_iff.1 hx
      rw [(Literal.run_of_value? hx).2.2]
      exact .number x hliteral hcount
    · rw [hf, f.run_name.2.2]
      exact .function f rfl
    · rw [none]
      exact .stray (fun c hc => inRun_iff.1 (run c hc)) (Literal.value?_eq_none_iff.1 literal) name

theorem readsAs_mark_iff {c : Char} {t : Token} (hm : Token.ofMark? c = some t) {offset : Nat}
    {r : Except Fault Token} :
    ReadsAs [c] offset r ↔ r = (Lexeme.mk (String.singleton c) offset (some t)).read := by
  have marked : c ∈ marks := exists_ofMark?_iff.1 ⟨t, hm⟩
  have noRun : inRun c = false := inRun_eq_false_iff.2 (.inr marked)
  have token {u : Token} (hu : Token.ofMark? c = some u) : (.ok u : Except Fault Token) =
      (Lexeme.mk (String.singleton c) offset (some t)).read := by
    rw [hm] at hu
    cases hu
    rfl
  constructor
  · intro h
    cases h with
    | opening text => cases text; exact token rfl
    | closing text => cases text; exact token rfl
    | operator o text => cases text; exact token (ofMark?_symbol o)
    | function f text =>
      have run := f.run_name.2.1 c (by rw [← text]; exact List.mem_singleton_self c)
      rw [noRun] at run
      cases run
    | number x literal =>
      have run := inRun_of_literalChar (by simpa using literal.chars c (List.mem_singleton_self c))
      rw [noRun] at run
      cases run
    | stray chars => exact absurd marked (chars c (List.mem_singleton_self c)).2
  · rintro rfl
    rcases ofMark?_cases hm with ⟨rfl, rfl⟩ | ⟨rfl, rfl⟩ | ⟨o, rfl, rfl⟩
    · exact .opening rfl
    · exact .closing rfl
    · exact .operator o rfl

/-- A lexeme is given by its text, its place and what it is read as. -/
theorem Lexeme.eq_of_read {x y : Lexeme} (text : x.text = y.text) (offset : x.offset = y.offset)
    (read : x.read = y.read) : x = y := by
  obtain ⟨xt, xo, xk⟩ := x
  obtain ⟨yt, yo, yk⟩ := y
  obtain rfl : xt = yt := text
  obtain rfl : xo = yo := offset
  unfold Lexeme.read at read
  cases xk <;> cases yk <;> simp_all

/-! ### Where the pieces are -/

/-- **A lexeme occurs in a text** that begins at byte `k`: its own text is a piece there, its offset
is the byte where the piece begins, and it is read as the piece is. -/
def Occurs (cs : List Char) (k : Nat) (x : Lexeme) : Prop :=
  ∃ front w back, cs = front ++ w ++ back ∧ IsPiece front w back ∧ x.text = String.ofList w ∧
    x.offset = k + byteLength front ∧ ReadsAs w x.offset x.read

theorem occurs_append {a b : List Char} (cut : Separated a b) (k : Nat) (x : Lexeme) :
    Occurs (a ++ b) k x ↔ Occurs a k x ∨ Occurs b (k + byteLength a) x := by
  constructor
  · rintro ⟨front, w, back, text, piece, htext, hoffset, reads⟩
    rcases piece.split cut text with ⟨c, ha, rfl⟩ | ⟨c, rfl, hb⟩
    · exact .inl ⟨front, w, c, ha, piece.of_append_right, htext, hoffset, reads⟩
    · refine .inr ⟨c, w, back, hb, piece.of_append_left, htext, ?_, reads⟩
      rw [hoffset, byteLength_append, Nat.add_assoc]
  · rintro (⟨front, w, back, rfl, piece, htext, hoffset, reads⟩ |
      ⟨front, w, back, rfl, piece, htext, hoffset, reads⟩)
    · exact ⟨front, w, back ++ b, by simp, piece.append_right cut, htext, hoffset, reads⟩
    · refine ⟨a ++ front, w, back, by simp, piece.append_left cut, htext, ?_, reads⟩
      rw [hoffset, byteLength_append, Nat.add_assoc]

theorem not_occurs_nil (k : Nat) (x : Lexeme) : ¬ Occurs [] k x := by
  rintro ⟨front, w, back, text, piece, -⟩
  have empty : w = [] := by simp_all
  exact piece.ne_nil empty

theorem not_occurs_space (k : Nat) (x : Lexeme) : ¬ Occurs [' '] k x := by
  rintro ⟨front, w, back, text, piece, -⟩
  have space : ∀ c ∈ w, c = ' ' := by
    intro c hc
    have mem : c ∈ [' '] := by
      rw [text]
      exact List.mem_append_left back (List.mem_append_right front hc)
    exact List.mem_singleton.1 mem
  cases piece with
  | mark c single mark =>
    have h := space c (by rw [single]; exact List.mem_singleton_self c)
    rw [h] at mark
    exact absurd mark (by decide)
  | run nonempty chars _ _ =>
    obtain ⟨c, hc⟩ := List.exists_mem_of_ne_nil w nonempty
    exact (chars c hc).1 (space c hc)

theorem occurs_mark_iff {c : Char} {t : Token} (hm : Token.ofMark? c = some t) (k : Nat)
    (x : Lexeme) : Occurs [c] k x ↔ x = ⟨String.singleton c, k, some t⟩ := by
  have marked : c ∈ marks := exists_ofMark?_iff.1 ⟨t, hm⟩
  constructor
  · rintro ⟨front, w, back, text, piece, htext, hoffset, reads⟩
    have nonempty := List.length_pos_iff.2 piece.ne_nil
    have long := congrArg List.length text
    rw [List.length_append, List.length_append, List.length_singleton] at long
    obtain rfl : front = [] := List.length_eq_zero_iff.1 (by omega)
    obtain rfl : back = [] := List.length_eq_zero_iff.1 (by omega)
    obtain rfl : w = [c] := by simpa using text.symm
    have place : x.offset = k := hoffset
    exact Lexeme.eq_of_read htext place (by rw [(readsAs_mark_iff hm).1 reads, place])
  · rintro rfl
    exact ⟨[], [c], [], rfl, .mark c rfl marked, rfl, rfl, (readsAs_mark_iff hm).2 rfl⟩

/-- **A run that is a whole text**: where all characters are of runs, no space and no mark ends one. -/
theorem run_whole {cs front w back : List Char} (text : cs = front ++ w ++ back)
    (run : ∀ c ∈ cs, inRun c = true) (before : ∀ c ∈ front.getLast?, c = ' ' ∨ c ∈ marks)
    (behind : ∀ c ∈ back.head?, c = ' ' ∨ c ∈ marks) : front = [] ∧ back = [] := by
  have chars : ∀ c ∈ front ++ w ++ back, ¬ (c = ' ' ∨ c ∈ marks) := by
    intro c hc
    rw [← inRun_eq_false_iff, Bool.not_eq_false]
    exact run c (text ▸ hc)
  constructor
  · by_contra some
    exact chars (front.getLast some) (by simp) (before _ (List.getLast?_eq_some_getLast some))
  · by_contra some
    obtain ⟨d, rest, rfl⟩ := List.exists_cons_of_ne_nil some
    exact chars d (by simp) (behind d rfl)

theorem occurs_run_iff {w : List Char} (nonempty : w ≠ []) (run : ∀ c ∈ w, inRun c = true)
    (k : Nat) (x : Lexeme) : Occurs w k x ↔ x = ⟨String.ofList w, k, Token.ofRun? w⟩ := by
  constructor
  · rintro ⟨front, v, back, text, piece, htext, hoffset, reads⟩
    cases piece with
    | mark c single mark =>
      have inside := inRun_iff.1 (run c (by rw [text, single]; simp))
      exact absurd mark inside.2
    | run _ _ before behind =>
      obtain ⟨rfl, rfl⟩ := run_whole text run before behind
      obtain rfl : v = w := by simpa using text.symm
      have place : x.offset = k := hoffset
      exact Lexeme.eq_of_read htext place (by rw [(readsAs_run_iff run).1 reads, place])
  · rintro rfl
    have piece : IsPiece [] w [] := .run nonempty (fun c hc => inRun_iff.1 (run c hc))
      (fun c hc => by cases hc) (fun c hc => by cases hc)
    exact ⟨[], w, [], by simp, piece, rfl, rfl, (readsAs_run_iff run).2 rfl⟩

/-- **The lexemes of a text are the pieces in it.** -/
theorem Cursor.mem_lexemes_iff {cs : List Char} {k : Nat} {x : Lexeme} :
    x ∈ lexemes ⟨k, cs⟩ ↔ Occurs cs k x := by
  induction cs using scan_induction generalizing k with
  | nil =>
    rw [lexemes_nil]
    exact ⟨fun h => (by cases h), fun h => absurd h (not_occurs_nil k x)⟩
  | space cs ih =>
    have cut : Separated [' '] cs := .inl fun c hc => by cases hc; rfl
    have both := occurs_append cut k x
    rw [lexemes_space, ih]
    exact ⟨fun h => both.2 (.inr h), fun h => (both.1 h).resolve_left (not_occurs_space k x)⟩
  | mark c t cs hm ih =>
    have cut : Separated [c] cs := by
      refine .inl fun d hd => ?_
      cases hd
      exact inRun_eq_false_iff.2 (.inr (exists_ofMark?_iff.1 ⟨t, hm⟩))
    have both := occurs_append cut k x
    rw [occurs_mark_iff hm, byteLength, utf8Size_of_ofMark? hm] at both
    rw [lexemes_mark k hm, List.mem_cons, ih]
    exact both.symm
  | run w cs hne hw hcs ih =>
    have cut : Separated w cs := .inr hcs
    have both := occurs_append cut k x
    rw [occurs_run_iff hne hw] at both
    rw [lexemes_run k hne hw hcs, List.mem_cons, ih]
    exact both.symm

/-- A piece is read as a number when it is a finite literal of it, whose digits can be counted. -/
theorem Occurs.read_eq_number_iff {cs : List Char} {k : Nat} {x : Lexeme} (h : Occurs cs k x)
    {v : Float} : x.read = .ok (.number v) ↔
      IsFiniteLiteral x.text.toList v ∧ 0 < Literal.wrapped (x.text.toList.countP Char.isDigit) := by
  obtain ⟨front, w, back, -, -, htext, -, reads⟩ := h
  rw [htext, String.toList_ofList]
  constructor
  · intro number
    rw [number] at reads
    cases reads with
    | number _ literal count => exact ⟨literal, count⟩
  · intro literal
    have run := Literal.run_of_value? (Literal.value?_eq_some_iff.2 literal)
    rw [(readsAs_run_iff run.2.1).1 reads, run.2.2]
    rfl

/-! ### Texts that are one run -/

section

variable {s : String}

theorem scan_eq_singleton (nonempty : s ≠ "") (run : ∀ c ∈ s.toList, inRun c = true) :
    scan s = [⟨String.ofList s.toList, 0, Token.ofRun? s.toList⟩] := by
  have hne : s.toList ≠ [] := fun h => nonempty (String.toList_inj.1 h)
  have hends : EndsRun [] := fun c hc => by cases hc
  have hlexemes := Cursor.lexemes_run 0 hne run hends
  rwa [List.append_nil, Cursor.lexemes_nil] at hlexemes

theorem IsNumeral.inRun {w : List Char} (h : IsNumeral w) : ∀ c ∈ w, inRun c = true :=
  fun c hc => inRun_of_literalChar (by simpa using h.chars c hc)

/-- **A numeral is one lexeme**, with the token of its value if it has one. -/
theorem scan_of_isNumeral (h : IsNumeral s.toList) :
    scan s = [⟨s, 0, (Literal.value? s.toList).map .number⟩] := by
  have hne : s ≠ "" := by
    rintro rfl
    obtain ⟨c, hc, -⟩ := h.digit
    cases hc
  rw [scan_eq_singleton hne h.inRun, String.ofList_toList]
  rcases ofRun?_cases s.toList with ⟨v, hv⟩ | ⟨f, hf⟩ | ⟨literal, -, none⟩
  · rw [(Literal.run_of_value? hv).2.2, hv]
    rfl
  · exact absurd hf (h.ne_name f)
  · rw [none, literal]
    rfl

end

end PocketCalculator
