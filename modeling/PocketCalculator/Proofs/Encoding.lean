/-!
# Texts and their bytes

Bytes are read as a text, in UTF-8, if and only if they are the bytes of that text.

* `Command.bytes`: the bytes of a text, as a list.
* `Command.exists_of_bytes_concat`: a carriage return behind the bytes of a text.
* `Command.fromUTF8?_eq_some_iff`, `Command.fromUTF8?_eq_none_iff`: which bytes are read.
-/

namespace PocketCalculator.Command

/-- The bytes of a text. -/
def bytes (text : String) : List UInt8 := text.toByteArray.data.toList

theorem bytes_append (a b : String) : bytes (a ++ b) = bytes a ++ bytes b := by
  rw [bytes, String.toByteArray_append, ByteArray.data_append, Array.toList_append]
  rfl

/-- A text, a line feed, and what is behind it. -/
theorem bytes_line (text rest : String) :
    bytes (text ++ "\n" ++ rest) = bytes text ++ 10 :: bytes rest := by
  have hfeed : bytes "\n" = [10] := by decide
  rw [bytes_append, bytes_append, hfeed, List.append_assoc]
  rfl

theorem length_bytes (text : String) : (bytes text).length = text.utf8ByteSize :=
  Array.length_toList ..

/-- The bytes of a text with a carriage return behind it. -/
theorem bytes_return (text : String) :
    bytes (text ++ String.singleton '\r') = bytes text ++ [13] := by
  have hreturn : bytes (String.singleton '\r') = [13] := by decide
  rw [bytes_append, hreturn]

/-- **A carriage return behind bytes** is a character of their text. -/
theorem exists_of_bytes_concat {text : String} {line : List UInt8} (h : bytes text = line ++ [13]) :
    ∃ front, bytes front = line := by
  have hlength : text.utf8ByteSize = line.length + 1 := by
    rw [← length_bytes, h, List.length_append, List.length_singleton]
  have hlast : (⟨line.length⟩ : String.Pos.Raw) < text.rawEndPos := by
    show line.length < text.utf8ByteSize
    omega
  -- the last byte begins a character, so the text can be cut in front of it
  have hvalid : String.Pos.Raw.IsValid text ⟨line.length⟩ := by
    refine String.Pos.Raw.isValid_iff_isUTF8FirstByte.2 (.inr ⟨hlast, ?_⟩)
    have hbyte : text.getUTF8Byte ⟨line.length⟩ hlast = 13 := by
      have hget : (bytes text)[line.length]? = some 13 := by rw [h]; simp
      obtain ⟨hi, hget⟩ := List.getElem?_eq_some_iff.1 hget
      exact (Array.getElem_toList hi).symm.trans hget
    rw [hbyte]
    decide
  obtain ⟨front, back, rfl, hfront⟩ := String.Pos.Raw.isValid_iff_exists_append.1 hvalid
  have hsize : (bytes front).length = line.length :=
    (length_bytes front).trans (congrArg String.Pos.Raw.byteIdx hfront).symm
  rw [bytes_append] at h
  exact ⟨front, (List.append_inj h hsize).1⟩

/-- The tail-recursive list of bytes, behind the bytes read so far. -/
theorem toList_loop (input : ByteArray) (i : Nat) (read : List UInt8) :
    ByteArray.toList.loop input i read = read.reverse ++ input.data.toList.drop i := by
  induction i, read using ByteArray.toList.loop.induct input with
  | case1 i read inside ih =>
    have hi : i < input.data.toList.length := inside
    have hget : input.get! i = input.data.toList[i] := by
      show input.data[i]! = _
      rw [getElem!_pos input.data i inside, Array.getElem_toList]
    rw [ByteArray.toList.loop, if_pos inside, ih, List.drop_eq_getElem_cons hi, hget,
      List.reverse_cons, List.append_assoc]
    rfl
  | case2 i read outside =>
    have hi : input.data.toList.length ≤ i := Nat.le_of_not_lt outside
    rw [ByteArray.toList.loop, if_neg outside, List.drop_eq_nil_of_le hi, List.append_nil]

theorem toList_eq (input : ByteArray) : input.toList = input.data.toList := by
  rw [ByteArray.toList, toList_loop]
  rfl

theorem toList_toUTF8 (text : String) : text.toUTF8.toList = bytes text :=
  toList_eq text.toUTF8

/-! ### Reading bytes -/

variable {text : String}

theorem fromUTF8?_toUTF8 : String.fromUTF8? text.toUTF8 = some text := by
  have hvalid : text.toUTF8.IsValidUTF8 := text.isValidUTF8
  rw [String.fromUTF8?, dif_pos hvalid]
  rfl

/-- **Bytes are read as a text** if they are the bytes of it. -/
theorem fromUTF8?_eq_some_iff {array : ByteArray} :
    String.fromUTF8? array = some text ↔ text.toUTF8 = array := by
  constructor
  · intro h
    unfold String.fromUTF8? at h
    split at h
    · cases h
      rfl
    · cases h
  · rintro rfl
    exact fromUTF8?_toUTF8

theorem fromUTF8?_eq_none_iff {array : ByteArray} :
    String.fromUTF8? array = none ↔ ∀ text : String, text.toUTF8 ≠ array := by
  constructor
  · intro hnone text htext
    rw [fromUTF8?_eq_some_iff.2 htext] at hnone
    cases hnone
  · intro h
    cases htext : String.fromUTF8? array with
    | none => rfl
    | some text => exact absurd (fromUTF8?_eq_some_iff.1 htext) (h text)

theorem toUTF8_eq_iff {piece : List UInt8} :
    text.toUTF8 = ⟨piece.toArray⟩ ↔ bytes text = piece := by
  constructor
  · intro h
    show text.toUTF8.data.toList = piece
    rw [h]
  · rintro rfl
    rw [bytes, Array.toArray_toList]
    rfl

theorem fromUTF8?_bytes : String.fromUTF8? ⟨(bytes text).toArray⟩ = some text :=
  fromUTF8?_eq_some_iff.2 (toUTF8_eq_iff.2 rfl)

end PocketCalculator.Command
