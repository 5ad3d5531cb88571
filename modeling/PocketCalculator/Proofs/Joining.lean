import PocketCalculator.Proofs.Applying

/-!
# Texts joined and moved

Where one of two texts shows a space or a mark at the cut, the lexemes of both together are those
of the first and then those of the second, counted from where the second begins. Moving a text
changes where its lexemes are and nothing else, so it moves the place that a fault reports.

* `Cursor.lexemes_append`: the lexemes of two texts.
* `Cursor.lexemes_add`: the lexemes of a text that begins further on.
* `Machine.feed_relocate`, `evaluate_relocate`: lexemes moved, and the fault with them.
-/

namespace PocketCalculator

/-! ### Bytes -/

theorem byteLength_append (a b : List Char) :
    byteLength (a ++ b) = byteLength a + byteLength b := by
  induction a with
  | nil => exact (Nat.zero_add _).symm
  | cons c rest ih => rw [List.cons_append, byteLength, byteLength, ih, Nat.add_assoc]

theorem byteLength_toList (s : String) : byteLength s.toList = s.utf8ByteSize := by
  rw [byteLength_eq, String.ofList_toList]

theorem length_le_byteLength (cs : List Char) : cs.length ≤ byteLength cs := by
  induction cs with
  | nil => exact Nat.le_refl 0
  | cons c rest ih =>
    have one := c.utf8Size_pos
    rw [List.length_cons, byteLength]
    omega

theorem byteLength_pos {w : List Char} (h : w ≠ []) : 0 < byteLength w := by
  have long := length_le_byteLength w
  have some := List.length_pos_iff.2 h
  omega

theorem utf8Size_of_ofMark? {c : Char} {t : Token} (h : Token.ofMark? c = some t) :
    c.utf8Size = 1 := by
  rcases ofMark?_cases h with ⟨rfl, -⟩ | ⟨rfl, -⟩ | ⟨o, rfl, -⟩
  · rfl
  · rfl
  · cases o <;> rfl

/-! ### Lexemes of two texts -/

/-- **Separated texts**: no run goes on over the cut. The first is empty or ends with a space or a
mark, or the second is empty or begins with one. -/
def Separated (a b : List Char) : Prop := (∀ c ∈ a.getLast?, inRun c = false) ∨ EndsRun b

theorem Separated.tail {a b c : List Char} (h : Separated (a ++ b) c) : Separated b c := by
  rcases h with h | h
  · left
    intro d hd
    apply h
    rw [List.getLast?_append, Option.mem_def.1 hd]
    rfl
  · exact .inr h

/-- Behind a run that the first text ends with, the second begins with no run. -/
theorem Separated.endsRun {w cs b : List Char} (h : Separated (w ++ cs) b) (nonempty : w ≠ [])
    (run : ∀ c ∈ w, inRun c = true) (ends : EndsRun cs) : EndsRun (cs ++ b) := by
  cases cs with
  | cons c rest =>
    intro d hd
    exact ends d hd
  | nil =>
    rcases h with h | h
    · have last := w.getLast_mem nonempty
      have none : inRun (w.getLast nonempty) = false := by
        apply h
        rw [List.append_nil, List.getLast?_eq_some_getLast nonempty]
        rfl
      rw [run _ last] at none
      cases none
    · exact h

namespace Cursor

/-- **The lexemes of two texts** are those of one and then those of the other. -/
theorem lexemes_append {a b : List Char} (h : Separated a b) (k : Nat) :
    lexemes ⟨k, a ++ b⟩ = lexemes ⟨k, a⟩ ++ lexemes ⟨k + byteLength a, b⟩ := by
  induction a using scan_induction generalizing k with
  | nil => rw [lexemes_nil]; rfl
  | space cs ih =>
    have rest := ih (Separated.tail (a := [' ']) h) (k + 1)
    rw [List.cons_append, lexemes_space, lexemes_space, rest, Nat.add_assoc]
    rfl
  | mark c t cs hm ih =>
    have rest := ih (Separated.tail (a := [c]) h) (k + 1)
    rw [List.cons_append, lexemes_mark k hm, lexemes_mark k hm, rest, Nat.add_assoc, byteLength,
      utf8Size_of_ofMark? hm]
    rfl
  | run w cs hne hw hcs ih =>
    have rest := ih h.tail (k + byteLength w)
    rw [List.append_assoc, lexemes_run k hne hw (h.endsRun hne hw hcs), lexemes_run k hne hw hcs,
      rest, byteLength_append, Nat.add_assoc]
    rfl

/-- A lexeme stands within its text. -/
theorem offset_of_mem {x : Lexeme} {k : Nat} {cs : List Char} (h : x ∈ lexemes ⟨k, cs⟩) :
    k ≤ x.offset ∧ x.offset < k + byteLength cs := by
  induction cs using scan_induction generalizing k with
  | nil => rw [lexemes_nil] at h; cases h
  | space cs ih =>
    rw [lexemes_space] at h
    have one : byteLength (' ' :: cs) = 1 + byteLength cs := rfl
    have rest := ih h
    omega
  | mark c t cs hm ih =>
    rw [lexemes_mark k hm] at h
    have one : byteLength (c :: cs) = 1 + byteLength cs := by
      rw [byteLength, utf8Size_of_ofMark? hm]
    rcases List.mem_cons.1 h with rfl | h
    · exact ⟨Nat.le_refl k, by simp only; omega⟩
    · have rest := ih h
      omega
  | run w cs hne hw hcs ih =>
    rw [lexemes_run k hne hw hcs] at h
    have long := byteLength_pos hne
    rw [byteLength_append]
    rcases List.mem_cons.1 h with rfl | h
    · exact ⟨Nat.le_refl k, by simp only; omega⟩
    · have rest := ih h
      omega

end Cursor

/-! ### Moving -/

/-- The lexeme at another place. -/
def Lexeme.relocate (g : Nat → Nat) (x : Lexeme) : Lexeme := { x with offset := g x.offset }

/-- The fault reported for another place. Only a stray run has one. -/
def Fault.relocate (g : Nat → Nat) : Fault → Fault
  | unrecognized text offset => unrecognized text (g offset)
  | f => f

/-- A lexeme at another place has the same token, or its fault there. -/
theorem Lexeme.read_relocate (g : Nat → Nat) (x : Lexeme) :
    (x.relocate g).read = x.read.mapError (Fault.relocate g) := by
  unfold read relocate
  cases x.token? with
  | none => rfl
  | some t => rfl

theorem Cursor.lexemes_add (d k : Nat) (cs : List Char) :
    lexemes ⟨k + d, cs⟩ = (lexemes ⟨k, cs⟩).map (Lexeme.relocate (· + d)) := by
  induction cs using scan_induction generalizing k with
  | nil => rw [lexemes_nil, lexemes_nil]; rfl
  | space cs ih =>
    rw [lexemes_space, lexemes_space, ← ih, Nat.add_right_comm]
  | mark c t cs hm ih =>
    rw [lexemes_mark _ hm, lexemes_mark _ hm, List.map_cons, ← ih, Nat.add_right_comm]
    rfl
  | run w cs hne hw hcs ih =>
    rw [lexemes_run _ hne hw hcs, lexemes_run _ hne hw hcs, List.map_cons, ← ih,
      Nat.add_right_comm]
    rfl

/-- **A text further on** has its lexemes further on. -/
theorem Cursor.lexemes_eq_map_scan (k : Nat) (s : String) :
    lexemes ⟨k, s.toList⟩ = (scan s).map (Lexeme.relocate (· + k)) := by
  have hmoved := lexemes_add k 0 s.toList
  rwa [Nat.zero_add] at hmoved

section

variable {α β : Type}

theorem mapError_bind (x : Except Fault α) (f : α → Except Fault β) (g : Fault → Fault) :
    (x >>= f).mapError g = (x.mapError g >>= fun a => (f a).mapError g) := by
  cases x with
  | error e => rfl
  | ok a => rfl

theorem mapError_mapError (x : Except Fault α) (f g : Fault → Fault) :
    (x.mapError f).mapError g = x.mapError (g ∘ f) := by
  cases x with
  | error e => rfl
  | ok a => rfl

end

namespace Machine

variable (g : Nat → Nat)

theorem drain_relocate (ps : List Pending) (vs : List Float) :
    (drain ps vs).mapError (Fault.relocate g) = drain ps vs := by
  induction ps generalizing vs with
  | nil => rfl
  | cons p rest ih =>
    have first : (p.perform vs).mapError (Fault.relocate g) = p.perform vs := by
      match p, vs with
      | .opening, _ => rfl
      | .operation (.function _), [] => rfl
      | .operation (.function _), _ :: _ => rfl
      | .operation (.operator _), [] => rfl
      | .operation (.operator _), [_] => rfl
      | .operation (.operator _), _ :: _ :: _ => rfl
    rw [drain, mapError_bind, first]
    exact bind_congr ih

theorem accept_relocate (m : Machine) (t : Token) :
    (m.accept t).mapError (Fault.relocate g) = m.accept t := by
  rw [accept_eq, mapError_bind, drain_relocate]
  refine bind_congr fun vs => ?_
  cases Postfix.step? m.pending t with
  | none => rfl
  | some p => rfl

theorem result_relocate (m : Machine) : m.result.mapError (Fault.relocate g) = m.result := by
  rw [result_eq, mapError_bind, drain_relocate]
  refine bind_congr fun vs => ?_
  match vs with
  | [] => rfl
  | [_] => rfl
  | _ :: _ :: _ => rfl

/-- **Lexemes moved.** Only the place of a stray run moves with them. -/
theorem feed_relocate (m : Machine) (xs : List Lexeme) :
    m.feed (xs.map (Lexeme.relocate g)) = (m.feed xs).mapError (Fault.relocate g) := by
  induction xs generalizing m with
  | nil => rfl
  | cons x rest ih =>
    rw [List.map_cons, feed, feed, x.read_relocate, mapError_bind]
    refine bind_congr fun t => ?_
    rw [mapError_bind, accept_relocate]
    exact bind_congr ih

/-- Lexemes are taken one part after the other. -/
theorem feed_append (m : Machine) (xs ys : List Lexeme) :
    m.feed (xs ++ ys) = (m.feed xs >>= fun m => m.feed ys) := by
  induction xs generalizing m with
  | nil => rfl
  | cons x rest ih =>
    rw [List.cons_append, feed, feed, bind_assoc]
    refine bind_congr fun t => ?_
    rw [bind_assoc]
    exact bind_congr ih

end Machine

/-- **A text whose lexemes are those of another one**, at other places, has its outcome. -/
theorem evaluate_relocate {s t : String} {g : Nat → Nat}
    (h : scan t = (scan s).map (Lexeme.relocate g)) :
    evaluate t = (evaluate s).mapError (Fault.relocate g) := by
  rw [evaluate, evaluate, h, Machine.feed_relocate, mapError_bind]
  exact bind_congr fun m => (m.result_relocate g).symm

end PocketCalculator
