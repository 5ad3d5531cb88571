import PocketCalculator.Expression.Machine
import PocketCalculator.Proofs.FiniteLiterals

/-!
# Scanning a text from its front

The lexemes of a text by what it begins with, and the texts that a list of tokens can be
written as.

* `Cursor.lexemes_space`, `Cursor.lexemes_mark`, `Cursor.lexemes_run`: a space is skipped,
  a mark is a lexeme by itself, and a run goes on up to the next mark or space.
* `scan_induction`: every text is built from its end by spaces, marks and whole runs.
* `Reads`: all lexemes of a text have tokens, and these are they.
* `Written`: a text of given tokens, with spaces anywhere between them and at least one
  between two runs.
* `Written.reads`: a text written for tokens is read as these tokens.
-/

namespace PocketCalculator

/-! ### Equations of the cursor -/

/-- A text that goes on with no character of a run: it is empty, or it begins with a
space, an operator or a parenthesis. -/
def EndsRun (cs : List Char) : Prop := ∀ c ∈ cs.head?, inRun c = false

theorem endsRun_cons {c : Char} {cs : List Char} : EndsRun (c :: cs) ↔ inRun c = false := by
  simp [EndsRun]

instance : (cs : List Char) → Decidable (EndsRun cs)
  | [] => .isTrue fun _ h => by cases h
  | _ :: _ => decidable_of_iff _ endsRun_cons.symm

theorem inRun_space : inRun ' ' = false := by decide

theorem ofMark?_cases {c : Char} {t : Token} (h : Token.ofMark? c = some t) :
    (c = '(' ∧ t = .opening) ∨ (c = ')' ∧ t = .closing) ∨
      ∃ o : Operator, c = o.symbol ∧ t = .operator o := by
  unfold Token.ofMark? at h
  split at h
  · exact .inl ⟨rfl, (Option.some.inj h).symm⟩
  · exact .inr (.inl ⟨rfl, (Option.some.inj h).symm⟩)
  · obtain ⟨o, ho, rfl⟩ := Option.map_eq_some_iff.1 h
    exact .inr (.inr ⟨o, (Operator.symbol_of_ofSymbol? ho).symm, rfl⟩)

theorem ofMark?_of_inRun {c : Char} (h : inRun c = true) : Token.ofMark? c = none := by
  simp only [inRun, Bool.and_eq_true] at h
  exact Option.isNone_iff_eq_none.1 h.2

theorem ne_space_of_inRun {c : Char} (h : inRun c = true) : c ≠ ' ' := by
  rintro rfl
  rw [inRun_space] at h; cases h

theorem ne_space_of_ofMark? {c : Char} {t : Token} (h : Token.ofMark? c = some t) : c ≠ ' ' := by
  rintro rfl
  rw [show Token.ofMark? ' ' = none from rfl] at h; cases h

namespace Cursor

theorem lexemes_of_none {c : Cursor} (h : c.next? = none) : c.lexemes = [] := by
  rw [lexemes]
  split
  · rfl
  · next hs => rw [h] at hs; cases hs

theorem lexemes_of_some {c d : Cursor} {x : Lexeme} (h : c.next? = some (x, d)) :
    c.lexemes = x :: d.lexemes := by
  rw [lexemes]
  split
  · next hn => rw [h] at hn; cases hn
  · next hs =>
    rw [h] at hs
    obtain ⟨rfl, rfl⟩ := Prod.mk.inj (Option.some.inj hs)
    rfl

theorem lexemes_congr {c d : Cursor} (h : c.next? = d.next?) : c.lexemes = d.lexemes := by
  cases hd : d.next? with
  | none => rw [lexemes_of_none hd, lexemes_of_none (h.trans hd)]
  | some p => rw [lexemes_of_some hd, lexemes_of_some (h.trans hd)]

theorem skipSpaces_of_ne {k : Nat} {c : Char} {cs : List Char} (h : c ≠ ' ') :
    skipSpaces ⟨k, c :: cs⟩ = ⟨k, c :: cs⟩ := by
  simp [skipSpaces, h]

theorem skipSpaces_space (k : Nat) (cs : List Char) :
    skipSpaces ⟨k, ' ' :: cs⟩ = skipSpaces ⟨k + 1, cs⟩ := by
  simp [skipSpaces]
  omega

theorem lexemes_nil (k : Nat) : lexemes ⟨k, []⟩ = [] := lexemes_of_none rfl

/-- **A space** is skipped. -/
theorem lexemes_space (k : Nat) (cs : List Char) :
    lexemes ⟨k, ' ' :: cs⟩ = lexemes ⟨k + 1, cs⟩ := by
  apply lexemes_congr
  simp only [next?, skipSpaces_space]

/-- **A mark** is a lexeme by itself. -/
theorem lexemes_mark (k : Nat) {c : Char} {t : Token} (h : Token.ofMark? c = some t)
    (cs : List Char) :
    lexemes ⟨k, c :: cs⟩ = ⟨String.singleton c, k, some t⟩ :: lexemes ⟨k + 1, cs⟩ := by
  apply lexemes_of_some
  simp only [next?, skipSpaces_of_ne (ne_space_of_ofMark? h), h]

theorem takeWhile_run {w cs : List Char} (hw : ∀ c ∈ w, inRun c = true) (hcs : EndsRun cs) :
    (w ++ cs).takeWhile inRun = w := by
  have stop : cs.takeWhile inRun = [] := by
    cases cs with
    | nil => rfl
    | cons c rest => rw [List.takeWhile_cons_of_neg (by simp [hcs c rfl])]
  rw [List.takeWhile_append_of_pos hw, stop, List.append_nil]

theorem dropWhile_run {w cs : List Char} (hw : ∀ c ∈ w, inRun c = true) (hcs : EndsRun cs) :
    (w ++ cs).dropWhile inRun = cs := by
  rw [List.dropWhile_append_of_pos hw]
  cases cs with
  | nil => rfl
  | cons c rest => rw [List.dropWhile_cons_of_neg (by simp [hcs c rfl])]

/-- **A run** is one lexeme, up to the next mark or space. -/
theorem lexemes_run (k : Nat) {w cs : List Char} (hne : w ≠ []) (hw : ∀ c ∈ w, inRun c = true)
    (hcs : EndsRun cs) :
    lexemes ⟨k, w ++ cs⟩ =
      ⟨String.ofList w, k, Token.ofRun? w⟩ :: lexemes ⟨k + byteLength w, cs⟩ := by
  obtain ⟨c, rest, rfl⟩ := List.exists_cons_of_ne_nil hne
  have hc : inRun c = true := hw c List.mem_cons_self
  have hrest : ∀ c ∈ rest, inRun c = true := fun d hd => hw d (List.mem_cons_of_mem c hd)
  apply lexemes_of_some
  simp only [next?, List.cons_append, skipSpaces_of_ne (ne_space_of_inRun hc),
    ofMark?_of_inRun hc, takeWhile_run hrest hcs, dropWhile_run hrest hcs]

end Cursor

/-- **Texts from the end.** Every text is built by putting a space, a mark or a whole run
in front of a text, starting from the empty one. -/
theorem scan_induction {P : List Char → Prop} (nil : P [])
    (space : ∀ cs, P cs → P (' ' :: cs))
    (mark : ∀ c t cs, Token.ofMark? c = some t → P cs → P (c :: cs))
    (run : ∀ w cs, w ≠ [] → (∀ c ∈ w, inRun c = true) → EndsRun cs → P cs → P (w ++ cs)) :
    ∀ cs, P cs
  | [] => nil
  | c :: rest => by
    -- a run is cut off whole, so the recursion is on the length of the text
    have tail : ∀ ds : List Char, ds.length ≤ rest.length → P ds :=
      fun ds _ => scan_induction nil space mark run ds
    by_cases hc : inRun c = true
    · have ends : EndsRun (rest.dropWhile inRun) := by
        intro d hd
        simpa [Option.mem_def.1 hd] using List.head?_dropWhile_not inRun rest
      have shorter := (List.dropWhile_suffix (l := rest) inRun).length_le
      have h := run (c :: rest.takeWhile inRun) (rest.dropWhile inRun) (List.cons_ne_nil _ _)
        (by
          intro d hd
          rcases List.mem_cons.1 hd with rfl | hd
          · exact hc
          · exact List.all_eq_true.1 List.all_takeWhile d hd)
        ends (tail _ shorter)
      rwa [List.cons_append, List.takeWhile_append_dropWhile] at h
    · cases hm : Token.ofMark? c with
      | some t => exact mark c t rest hm (tail rest (Nat.le_refl _))
      | none =>
        have hs : c = ' ' := by simpa [inRun, hm] using hc
        exact hs ▸ space rest (tail rest (Nat.le_refl _))
  termination_by cs => cs.length

/-! ### Texts and their tokens -/

theorem Lexeme.read_eq_ok_iff {x : Lexeme} {t : Token} : x.read = .ok t ↔ x.token? = some t := by
  unfold Lexeme.read
  cases x.token? with
  | none => simp
  | some u => simp

theorem Lexeme.read_eq_error_iff {x : Lexeme} {f : Fault} :
    x.read = .error f ↔ x.token? = none ∧ f = .unrecognized x.text x.offset := by
  unfold Lexeme.read
  cases x.token? with
  | none => simp [eq_comm]
  | some u => simp

/-- **The tokens of a text**: all its lexemes have tokens, and these are they. -/
def Reads (s : String) (ts : List Token) : Prop := (scan s).map Lexeme.token? = ts.map some

theorem Reads.unique {s : String} {ts us : List Token} (ht : Reads s ts) (hu : Reads s us) :
    ts = us :=
  (List.map_inj_right fun _ _ => Option.some.inj).1 (ht.symm.trans hu)

theorem Reads.filterMap {s : String} {ts : List Token} (h : Reads s ts) :
    (scan s).filterMap Lexeme.token? = ts := by
  have all : (scan s).filterMap Lexeme.token? = ((scan s).map Lexeme.token?).filterMap id := by
    rw [List.filterMap_map]; rfl
  rw [all, h, List.filterMap_map]
  exact List.filterMap_some

theorem evaluate_of_reads {s : String} {ts : List Token} (h : Reads s ts) :
    evaluate s = (Machine.start.run ts >>= Machine.result) := by
  rw [evaluate, Machine.feed_eq_run Machine.start h]

/-- **A text of tokens.** Each token is written in one of its spellings, with any number
of spaces before, between and after them. After a number or a function comes a space, an
operator, a parenthesis or the end. A number is written as any finite literal of its value whose
digits a signed 32-bit word can count. -/
inductive Written : List Token → List Char → Prop
  | nil : Written [] []
  | space {ts cs} : Written ts cs → Written ts (' ' :: cs)
  | opening {ts cs} : Written ts cs → Written (.opening :: ts) ('(' :: cs)
  | closing {ts cs} : Written ts cs → Written (.closing :: ts) (')' :: cs)
  | operator {ts cs} (o : Operator) : Written ts cs → Written (.operator o :: ts) (o.symbol :: cs)
  | function {ts cs} (f : Scientific) : EndsRun cs → Written ts cs →
      Written (.function f :: ts) (f.name.toList ++ cs)
  | number {ts cs w x} : IsFiniteLiteral w x → 0 < Literal.wrapped (w.countP Char.isDigit) →
      EndsRun cs → Written ts cs → Written (.number x :: ts) (w ++ cs)

theorem ofMark?_symbol (o : Operator) : Token.ofMark? o.symbol = some (.operator o) := by
  cases o <;> rfl

theorem Literal.isLiteral_of_value? {w : List Char} {x : Float} (h : Literal.value? w = some x) :
    Literal.isLiteral w = true := by
  unfold Literal.value? at h
  split at h
  · assumption
  · cases h

theorem inRun_of_literalChar {c : Char} (h : (c.isDigit || c == '.') = true) : inRun c = true := by
  have hm : Token.ofMark? c = none := by
    unfold Token.ofMark?
    split
    · simp at h
    · simp at h
    · unfold Operator.ofSymbol?
      split <;> first | rfl | simp at h
  have hs : c ≠ ' ' := by rintro rfl; simp at h
  simp [inRun, hm, hs]

/-- **A literal is a run**, and it is read as its value. -/
theorem Literal.run_of_value? {w : List Char} {x : Float} (h : Literal.value? w = some x) :
    w ≠ [] ∧ (∀ c ∈ w, inRun c = true) ∧ Token.ofRun? w = some (.number x) := by
  have hl := Literal.isLiteral_of_value? h
  refine ⟨?_, ?_, by rw [Token.ofRun?, if_pos hl, h]; rfl⟩
  · rintro rfl; exact absurd hl (by decide)
  · simp only [Literal.isLiteral, Bool.and_eq_true, List.all_eq_true] at hl
    exact fun c hc => inRun_of_literalChar (hl.1.1 c hc)

/-- **The name of a function is a run**, and it is read as the function. -/
theorem Scientific.run_name (f : Scientific) :
    f.name.toList ≠ [] ∧ (∀ c ∈ f.name.toList, inRun c = true) ∧
      Token.ofRun? f.name.toList = some (.function f) := by
  have all : f.name.toList.all inRun = true := by cases f <;> decide
  refine ⟨?_, List.all_eq_true.1 all, ?_⟩
  · cases f <;> decide
  · cases f <;> rfl

theorem Written.lexemes {ts : List Token} {cs : List Char} (h : Written ts cs) :
    ∀ k, (Cursor.lexemes ⟨k, cs⟩).map Lexeme.token? = ts.map some := by
  induction h with
  | nil => intro k; rw [Cursor.lexemes_nil]; rfl
  | space _ ih => intro k; rw [Cursor.lexemes_space]; exact ih _
  | opening _ ih =>
    intro k; rw [Cursor.lexemes_mark k (t := .opening) rfl, List.map_cons, ih]; rfl
  | closing _ ih =>
    intro k; rw [Cursor.lexemes_mark k (t := .closing) rfl, List.map_cons, ih]; rfl
  | operator o _ ih =>
    intro k; rw [Cursor.lexemes_mark k (ofMark?_symbol o), List.map_cons, ih]; rfl
  | function f hcs _ ih =>
    intro k
    obtain ⟨hne, hw, ht⟩ := f.run_name
    rw [Cursor.lexemes_run k hne hw hcs, List.map_cons, ih, ht]; rfl
  | number hx hcount hcs _ ih =>
    intro k
    obtain ⟨hne, hw, ht⟩ := Literal.run_of_value? (Literal.value?_eq_some_iff.2 ⟨hx, hcount⟩)
    rw [Cursor.lexemes_run k hne hw hcs, List.map_cons, ih, ht]; rfl

/-- **A text written for tokens is read as these tokens.** -/
theorem Written.reads {ts : List Token} {s : String} (h : Written ts s.toList) : Reads s ts :=
  h.lexemes 0

end PocketCalculator
