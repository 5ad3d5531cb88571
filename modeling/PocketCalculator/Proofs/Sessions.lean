import PocketCalculator.Command.Run
import PocketCalculator.Proofs.Encoding
import PocketCalculator.Proofs.Steps

/-!
# Sessions

A session takes the pieces of its input between line feeds, one after the other, on one keypad. Blank
pieces do nothing and write nothing, and the blanks around a line do not count, a carriage return before
the line feed among them. So a session depends on the lines that are left when all this is taken away.

* `Command.sessionLine_return`: a carriage return at the end of a line.
* `Command.pieces`, `Command.runJob_session`: the pieces of an input, with the one behind its last line
  feed.
* `Command.entered`, `Keypad.answers`: what lines enter, and what the keypad answers.
* `Command.sessionJob_append`: lines of text in front of any lines.
* `Command.session_entered`: sessions that enter the same lines, and lines that are no text.
-/

namespace PocketCalculator

namespace Keypad

/-- **The answers to lines**, taken in order on one keypad. -/
def answers (k : Keypad) : List String → List String
  | [] => []
  | line :: rest => (k.answerLine line).2 :: (k.submit line).answers rest

/-- Blanks around a line do not count. -/
theorem answerLine_trim (k : Keypad) (line : String) :
    k.answerLine (Text.trim line) = k.answerLine line := by
  unfold answerLine
  rw [Text.trim_trim]

theorem submit_trim (k : Keypad) (line : String) : k.submit (Text.trim line) = k.submit line := by
  rw [submit, answerLine_trim, submit]

end Keypad

namespace Command

/-- **The pieces of an input** between line feeds, with the one behind the last line feed even if it is
empty. -/
def pieces (input : ByteArray) : List (List UInt8) := input.toList.splitOn 10

/-- **What lines enter**: each without the blanks around it, and no blank line. -/
def entered (lines : List String) : List String :=
  (lines.filter (!Text.isAllBlank ·)).map Text.trim

theorem entered_of_blank {line : String} (h : Text.isAllBlank line = true) (rest : List String) :
    entered (line :: rest) = entered rest := by
  rw [entered, List.filter_cons_of_neg (by rw [h]; decide), entered]

theorem entered_of_text {line : String} (h : Text.isAllBlank line = false) (rest : List String) :
    entered (line :: rest) = Text.trim line :: entered rest := by
  rw [entered, List.filter_cons_of_pos (by rw [h]; decide), List.map_cons, entered]

variable (k : Keypad)

/-! ### Single lines -/

/-- A blank line does nothing and writes nothing. -/
theorem sessionLine_of_blank {line : String} (h : Text.isAllBlank line = true) :
    sessionLine k ⟨(bytes line).toArray⟩ = .ok (k, "") := by
  rw [sessionLine, fromUTF8?_bytes]
  simp only [h, if_true]

/-- A line that is not blank is submitted, and the answer is written. -/
theorem sessionLine_of_text {line : String} (h : Text.isAllBlank line = false) :
    sessionLine k ⟨(bytes line).toArray⟩ =
      .ok (k.submit line, (k.answerLine line).2 ++ "\n") := by
  rw [sessionLine, fromUTF8?_bytes]
  simp only [h, Bool.false_eq_true, if_false, Keypad.submit]

/-- **A carriage return behind a line** does not count, and does not make it a text. -/
theorem sessionLine_return (line : List UInt8) :
    sessionLine k ⟨(line ++ [13]).toArray⟩ = sessionLine k ⟨line.toArray⟩ := by
  by_cases hline : ∃ text, bytes text = line
  · obtain ⟨text, rfl⟩ := hline
    have htrim : Text.trim (text ++ String.singleton '\r') = Text.trim text :=
      Text.trim_append_blank (by decide)
    have hblank : Text.isAllBlank (text ++ String.singleton '\r') = Text.isAllBlank text := by
      rw [← Text.isEmpty_trim, htrim, Text.isEmpty_trim]
    have hanswer : k.answerLine (text ++ String.singleton '\r') = k.answerLine text := by
      rw [← Keypad.answerLine_trim, htrim, Keypad.answerLine_trim]
    rw [← bytes_return, sessionLine, sessionLine, fromUTF8?_bytes, fromUTF8?_bytes]
    simp only [hblank, hanswer]
  · have hnone : String.fromUTF8? ⟨line.toArray⟩ = none :=
      fromUTF8?_eq_none_iff.2 fun text htext => hline ⟨text, toUTF8_eq_iff.1 htext⟩
    have hnone' : String.fromUTF8? ⟨(line ++ [13]).toArray⟩ = none :=
      fromUTF8?_eq_none_iff.2 fun text htext =>
        hline (exists_of_bytes_concat (toUTF8_eq_iff.1 htext))
    rw [sessionLine, sessionLine, hnone, hnone']

/-- **A line that is no text** ends a session. -/
theorem sessionJob_of_unreadable {line : List UInt8} (h : ∀ text, bytes text ≠ line)
    (behind : List (List UInt8)) :
    sessionJob k (line :: behind) = ⟨"", some (.unreadableLine Settings.notText)⟩ := by
  have hnone : String.fromUTF8? ⟨line.toArray⟩ = none :=
    fromUTF8?_eq_none_iff.2 fun text htext => h text (toUTF8_eq_iff.1 htext)
  rw [sessionJob, sessionLine, hnone]

/-! ### Sessions -/

/-- **Lines of text** in front of any lines: what they enter is answered. -/
theorem sessionJob_append (lines : List String) (behind : List (List UInt8)) :
    let rest := sessionJob (k.after ((entered lines).map .submit)) behind
    sessionJob k (lines.map bytes ++ behind) =
      ⟨String.join ((k.answers (entered lines)).map (· ++ "\n")) ++ rest.output, rest.failure?⟩ := by
  induction lines generalizing k with
  | nil => simp [entered, Keypad.answers, Keypad.after]
  | cons line lines ih =>
    intro rest
    rw [List.map_cons, List.cons_append, sessionJob]
    by_cases hline : Text.isAllBlank line = true
    · have hrest := ih k
      rw [← entered_of_blank hline lines] at hrest
      rw [sessionLine_of_blank k hline]
      simp only [hrest, String.empty_append]
      rfl
    · have hline := Bool.eq_false_iff.2 hline
      have hafter : k.after ((entered (line :: lines)).map .submit) =
          (k.submit line).after ((entered lines).map .submit) := by
        rw [entered_of_text hline, List.map_cons, Keypad.after, Keypad.act, Keypad.submit_trim]
      have hanswers : k.answers (entered (line :: lines)) =
          (k.answerLine line).2 :: (k.submit line).answers (entered lines) := by
        rw [entered_of_text hline, Keypad.answers, Keypad.answerLine_trim, Keypad.submit_trim]
      rw [sessionLine_of_text k hline, hanswers, List.map_cons, String.join_cons]
      simp only [ih (k.submit line), rest, hafter, String.append_assoc]

/-- An empty line at the end does nothing. -/
theorem sessionJob_concat_nil (lines : List (List UInt8)) :
    sessionJob k (lines ++ [[]]) = sessionJob k lines := by
  induction lines generalizing k with
  | nil =>
    have hblank : Text.isAllBlank "" = true := rfl
    have hline : sessionLine k ⟨(bytes "").toArray⟩ = .ok (k, "") := sessionLine_of_blank k hblank
    show sessionJob k [bytes ""] = ⟨"", none⟩
    rw [sessionJob, hline]
    rfl
  | cons line lines ih =>
    rw [List.cons_append, sessionJob, sessionJob]
    cases sessionLine k ⟨line.toArray⟩ with
    | error f => rfl
    | ok p => simp only [ih p.1]

/-- **A line of a piece**: the piece, without a carriage return at its end or with it. -/
def IsLineOf (piece line : List UInt8) : Prop := piece = line ∨ piece = line ++ [13]

theorem IsLineOf.cons {piece line : List UInt8} (b : UInt8) (h : IsLineOf piece line) :
    IsLineOf (b :: piece) (b :: line) := by
  rcases h with rfl | rfl
  · exact .inl rfl
  · exact .inr rfl

/-- Lines are answered as their pieces are. -/
theorem sessionJob_congr {lines others : List (List UInt8)} (h : List.Forall₂ IsLineOf lines others) :
    sessionJob k lines = sessionJob k others := by
  induction h generalizing k with
  | nil => rfl
  | @cons piece line pieces lines hline _ ih =>
    have hsame : sessionLine k ⟨piece.toArray⟩ = sessionLine k ⟨line.toArray⟩ := by
      rcases hline with rfl | rfl
      · rfl
      · exact sessionLine_return k line
    rw [sessionJob, sessionJob, hsame]
    cases sessionLine k ⟨line.toArray⟩ with
    | error f => rfl
    | ok p => simp only [ih p.1]

/-- One more byte in front of the pieces and in front of the lines. -/
theorem forall₂_modifyHead (b : UInt8) {pieces lines : List (List UInt8)}
    (h : List.Forall₂ IsLineOf pieces lines) :
    List.Forall₂ IsLineOf (pieces.modifyHead (b :: ·)) (lines.modifyHead (b :: ·)) := by
  cases h with
  | nil => exact .nil
  | cons hline hrest => exact .cons (hline.cons b) hrest

/-- **The lines of an input** are those of its pieces, without an empty one at the end. -/
theorem forall₂_splitLines (input : List UInt8) :
    List.Forall₂ IsLineOf (input.splitOn 10) (splitLines input) ∨
      List.Forall₂ IsLineOf (input.splitOn 10) (splitLines input ++ [[]]) := by
  induction input with
  | nil => exact .inr (List.splitOn_nil (10 : UInt8) ▸ .cons (.inl rfl) .nil)
  | cons b rest ih =>
    rw [List.splitOn_cons_eq_if_modifyHead]
    by_cases hb : b = 10
    · rw [splitLines, if_pos hb, if_pos (beq_iff_eq.2 hb)]
      exact ih.imp (.cons (.inl rfl)) (.cons (.inl rfl))
    rw [splitLines, if_neg hb, if_neg (by rw [beq_iff_eq]; exact hb)]
    by_cases hreturn : b = 13 ∧ rest.head? = some 10
    · -- the piece that begins behind the line feed is empty, and so is its line
      rw [if_pos hreturn]
      obtain ⟨rfl, hfeed⟩ := hreturn
      obtain ⟨behind, rfl⟩ := List.head?_eq_some_iff.1 hfeed
      rw [List.splitOn_cons_eq_if_modifyHead, if_pos (by decide), splitLines, if_pos rfl] at ih ⊢
      refine ih.imp (fun h => ?_) (fun h => ?_) <;>
        · cases h with
          | cons _ hbehind => exact .cons (.inr rfl) hbehind
    · rw [if_neg hreturn]
      cases hlines : splitLines rest with
      | nil =>
        -- what is behind the last line feed has a byte now
        rw [hlines] at ih
        rcases ih with ih | ih
        · cases hpieces : rest.splitOn 10 with
          | nil => exact absurd hpieces (List.splitOn_ne_nil _ _)
          | cons piece pieces => rw [hpieces] at ih; cases ih
        · exact .inl (forall₂_modifyHead b ih)
      | cons line lines =>
        rw [hlines] at ih
        exact ih.imp (forall₂_modifyHead b) (forall₂_modifyHead b)

/-- **A session over the pieces** of its input. -/
theorem runJob_session (s : Settings) (input : ByteArray) :
    runJob s input .session = sessionJob (.fresh s) (pieces input) := by
  rw [runJob, pieces]
  rcases forall₂_splitLines input.toList with h | h
  · rw [sessionJob_congr _ h]
  · rw [sessionJob_congr _ h, sessionJob_concat_nil]

/-- Texts without a line feed, with one between each two, are the pieces of their input. -/
theorem pieces_intercalate {texts : List String} (hne : texts ≠ [])
    (h : ∀ text ∈ texts, 10 ∉ bytes text) :
    pieces ("\n".intercalate texts).toUTF8 = texts.map bytes := by
  have hbytes : bytes ("\n".intercalate texts) = [10].intercalate (texts.map bytes) := by
    clear hne h
    induction texts with
    | nil => rfl
    | cons text texts ih =>
      cases texts with
      | nil => simp
      | cons next texts =>
        rw [String.intercalate_cons_cons, bytes_line, ih]
        simp only [List.map_cons, List.intercalate_cons_cons, List.append_assoc,
          List.singleton_append]
  rw [pieces, toList_toUTF8, hbytes]
  refine List.splitOn_intercalate 10 (fun line hline => ?_) (by simpa using hne)
  obtain ⟨text, htext, rfl⟩ := List.mem_map.1 hline
  exact h text htext

/-- With a line feed behind the last text too, there is an empty piece behind it. -/
theorem join_ended (texts : List String) :
    String.join (texts.map (· ++ "\n")) = "\n".intercalate (texts ++ [""]) := by
  induction texts with
  | nil => rfl
  | cons text texts ih =>
    rw [List.map_cons, String.join_cons, ih]
    cases texts with
    | nil => simp
    | cons next texts => simp only [List.cons_append, String.intercalate_cons_cons]

/-- **A session of texts** succeeds, and writes what the keypad answers them. -/
theorem runJob_of_pieces (s : Settings) {input : ByteArray} {lines : List String}
    (h : pieces input = lines.map bytes) : runJob s input .session =
      ⟨String.join (((Keypad.fresh s).answers (entered lines)).map (· ++ "\n")), none⟩ := by
  have hrun := sessionJob_append (.fresh s) lines []
  simp only [List.append_nil, sessionJob, String.append_empty] at hrun
  rw [runJob_session, h, hrun]

/-- Lines are texts, or there is a first one that is none. -/
theorem texts_or_unreadable (lines : List (List UInt8)) :
    (∃ texts : List String, lines = texts.map bytes) ∨
      ∃ (front : List String) (bad : List UInt8) (behind : List (List UInt8)),
        lines = front.map bytes ++ bad :: behind ∧ ∀ text, bytes text ≠ bad := by
  induction lines with
  | nil => exact .inl ⟨[], rfl⟩
  | cons line lines ih =>
    by_cases hline : ∃ text, bytes text = line
    · obtain ⟨text, rfl⟩ := hline
      rcases ih with ⟨texts, rfl⟩ | ⟨front, bad, behind, rfl, hbad⟩
      · exact .inl ⟨text :: texts, rfl⟩
      · exact .inr ⟨text :: front, bad, behind, rfl, hbad⟩
    · exact .inr ⟨[], line, lines, rfl, not_exists.1 hline⟩

/-- **A session depends on what its lines enter.** Two inputs of text whose lines are the same up to the
blanks around them and blank lines have the same outcome: both sessions succeed and write, for each line
that is not blank, what the keypad answers it, and a line feed. If there is a line that is no text, the
lines before the first such line are answered in the same way, and it is why the session fails. -/
theorem session_entered (s : Settings) :
    let written := fun lines =>
      String.join (((Keypad.fresh s).answers (entered lines)).map (· ++ "\n"))
    (∀ (input other : ByteArray) (lines others : List String),
      pieces input = lines.map bytes → pieces other = others.map bytes →
      entered lines = entered others →
      runJob s input .session = ⟨written lines, none⟩ ∧
        runJob s other .session = ⟨written lines, none⟩) ∧
      (∀ (input : ByteArray) (front : List String) (bad : List UInt8) (behind : List (List UInt8)),
        pieces input = front.map bytes ++ bad :: behind → (∀ text, bytes text ≠ bad) →
        ∃ failure, runJob s input .session = ⟨written front, some failure⟩ ∧
          failure.message = "Failed to read from stdin") ∧
      ∀ input : ByteArray, (∃ lines : List String, pieces input = lines.map bytes) ∨
        ∃ (front : List String) (bad : List UInt8) (behind : List (List UInt8)),
          pieces input = front.map bytes ++ bad :: behind ∧ ∀ text, bytes text ≠ bad := by
  intro written
  refine ⟨?_, ?_, fun input => texts_or_unreadable (pieces input)⟩
  · intro input other lines others hinput hother hsame
    have hwritten : written others = written lines := by simp only [written, hsame]
    exact ⟨runJob_of_pieces s hinput, hwritten ▸ runJob_of_pieces s hother⟩
  · intro input front bad behind hinput hbad
    refine ⟨.unreadableLine Settings.notText, ?_, rfl⟩
    rw [runJob_session, hinput, sessionJob_append, sessionJob_of_unreadable _ hbad,
      String.append_empty]

/-- Carriage returns, a blank line, indentation and a line feed at the end change nothing. The byte `255`
is in no text, and the line behind it is not answered. -/
theorem session_entered_root :
    entered ["1+2\r", "\t\r", "  sqrt"] = entered ["1+2", "sqrt", ""] ∧
      runJob {} ("\n".intercalate ["1+2\r", "\t\r", "  sqrt"]).toUTF8 .session =
        ⟨"1+2\n1+2sqrt(\n", none⟩ ∧
      runJob {} ("\n".intercalate ["1+2", "sqrt", ""]).toUTF8 .session =
        ⟨"1+2\n1+2sqrt(\n", none⟩ ∧
      ∃ failure, runJob {} ⟨#[55, 10, 255, 10, 56]⟩ .session = ⟨"7\n", some failure⟩ ∧
        failure.message = "Failed to read from stdin" := by
  obtain ⟨hsame, hunreadable, -⟩ := session_entered {}
  have hentered : entered ["1+2\r", "\t\r", "  sqrt"] = entered ["1+2", "sqrt", ""] := by decide
  have hinput := pieces_intercalate (List.cons_ne_nil "1+2\r" ["\t\r", "  sqrt"]) (by decide)
  have hother := pieces_intercalate (List.cons_ne_nil "1+2" ["sqrt", ""]) (by decide)
  obtain ⟨hrun, hrun'⟩ := hsame _ _ _ _ hinput hother hentered
  have hpieces : pieces ⟨#[55, 10, 255, 10, 56]⟩ = ["7"].map bytes ++ [255] :: [[56]] := by
    rw [pieces, toList_eq]
    show (bytes "7" ++ 10 :: ([255] ++ 10 :: [56])).splitOn 10 = _
    rw [List.splitOn_append_cons_self_of_not_mem (by decide),
      List.splitOn_append_cons_self_of_not_mem (by decide), List.splitOn_eq_singleton (by decide)]
    rfl
  have hbad : ∀ text, bytes text ≠ [255] := by
    have hnone : String.fromUTF8? ⟨[255].toArray⟩ = none := by decide
    exact fun text htext => fromUTF8?_eq_none_iff.1 hnone text (toUTF8_eq_iff.2 htext)
  have hseven : String.join (((Keypad.fresh {}).answers (entered ["7"])).map (· ++ "\n")) = "7\n" := by
    decide
  obtain ⟨failure, hfailure, hmessage⟩ := hunreadable _ _ _ _ hpieces hbad
  exact ⟨hentered, hrun.trans (by decide), hrun'.trans (by decide), failure,
    hfailure.trans (congrArg (Outcome.mk · (some failure)) hseven), hmessage⟩

end Command

end PocketCalculator
