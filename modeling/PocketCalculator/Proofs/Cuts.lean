import PocketCalculator.Proofs.FirstFault
import PocketCalculator.Proofs.Pieces

/-!
# Texts cut in two

A text that is cut in two can be scanned part by part, and the lexemes of the second part are only
further on, unless the cut goes through a run. A run that is cut is one lexeme of the whole text, and
no lexeme begins at the cut.

* `endsRun_or_exists_run`: what a text begins with.
* `separated_of_mem_scan`: where a lexeme begins there is a good cut.
* `scan_append_iff`: the cuts at which a text can be scanned part by part.
-/

namespace PocketCalculator

/-- **What a text begins with**: nothing that belongs to a run, or a whole run. -/
theorem endsRun_or_exists_run (cs : List Char) : EndsRun cs ∨ ∃ w rest, cs = w ++ rest ∧ w ≠ [] ∧
    (∀ c ∈ w, inRun c = true) ∧ EndsRun rest := by
  induction cs using scan_induction with
  | nil => exact .inl fun c hc => by cases hc
  | space cs _ => exact .inl (endsRun_cons.2 inRun_space)
  | mark c t cs hm _ =>
    have hmark := inRun_eq_false_iff.2 (.inr (exists_ofMark?_iff.1 ⟨t, hm⟩))
    exact .inl (endsRun_cons.2 hmark)
  | run w cs hne hw hcs _ => exact .inr ⟨w, cs, rfl, hne, hw, hcs⟩

/-- **Two front parts** of a text that have the same bytes are the same. -/
theorem eq_of_byteLength_eq {a b c d : List Char} (text : a ++ b = c ++ d)
    (size : byteLength a = byteLength c) : a = c := by
  have hnothing {u v : List Char} (h : byteLength (u ++ v) = byteLength u) : v = [] := by
    by_contra hne
    have hpos := byteLength_pos hne
    rw [byteLength_append] at h
    omega
  rcases List.append_eq_append_iff.1 text with ⟨v, rfl, -⟩ | ⟨v, rfl, -⟩
  · rw [hnothing size.symm, List.append_nil]
  · rw [hnothing size, List.append_nil]

/-- **A lexeme that begins at the cut**: no run goes on over the cut. -/
theorem separated_of_mem_scan {a b : String} {x : Lexeme} (hx : x ∈ scan (a ++ b))
    (hplace : x.offset = a.utf8ByteSize) : Separated a.toList b.toList := by
  rcases endsRun_or_exists_run b.toList with hends | ⟨run, rest, hb, hne, hrun, -⟩
  · exact .inr hends
  obtain ⟨front, w, back, htext, hpiece, -, hoffset, -⟩ := Cursor.mem_lexemes_iff.1 hx
  -- the piece stands behind the first part and is the run that the second begins with
  rw [String.toList_append, List.append_assoc] at htext
  have hsize : byteLength a.toList = byteLength front := by
    rw [byteLength_toList, ← hplace, hoffset, Nat.zero_add]
  obtain rfl : a.toList = front := eq_of_byteLength_eq htext hsize
  left
  intro c hc
  cases hpiece with
  | run _ _ before _ => exact inRun_eq_false_iff.2 (before c hc)
  | mark d single mark =>
    exfalso
    obtain ⟨e, run, rfl⟩ := List.exists_cons_of_ne_nil hne
    have hfirst : e = d := by
      have hrest := List.append_cancel_left htext
      rw [hb, single] at hrest
      exact (List.cons.inj hrest).1
    have hinside := (inRun_iff.1 (hrun e List.mem_cons_self)).2
    rw [hfirst] at hinside
    exact hinside mark

/-- **Scanning part by part.** The lexemes of two texts in one are those of the first, and then those
of the second further on by the bytes of the first, exactly when the cut is at the end of the text or
beside a space or a mark. A lexeme further on has the same token, or the same fault further on. -/
theorem scan_append_iff (a b : String) :
    (scan (a ++ b) = scan a ++ (scan b).map (Lexeme.relocate (· + a.utf8ByteSize)) ↔
        Separated a.toList b.toList) ∧
      ∀ x ∈ scan b, (x.relocate (· + a.utf8ByteSize)).read =
        x.read.mapError (Fault.relocate (· + a.utf8ByteSize)) := by
  refine ⟨⟨fun h => ?_, fun hcut => ?_⟩, fun x _ => x.read_relocate _⟩
  · rcases endsRun_or_exists_run b.toList with hends | ⟨run, rest, hb, hne, hrun, hrest⟩
    · exact .inr hends
    -- the run that the second text begins with is a lexeme at the cut
    have hfirst : ⟨String.ofList run, 0, Token.ofRun? run⟩ ∈ scan b := by
      rw [scan, hb, Cursor.lexemes_run 0 hne hrun hrest]
      exact List.mem_cons_self
    have hmem := List.mem_map_of_mem (f := Lexeme.relocate (· + a.utf8ByteSize)) hfirst
    have hscan := List.mem_append_right (scan a) hmem
    rw [← h] at hscan
    exact separated_of_mem_scan hscan (Nat.zero_add _)
  · rw [scan_append hcut, Cursor.lexemes_eq_map_scan]

end PocketCalculator
