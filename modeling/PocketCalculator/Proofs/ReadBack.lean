import Mathlib
import PocketCalculator.Display.Style
import PocketCalculator.Proofs.Alphabets
import PocketCalculator.Proofs.Nearest

/-!
# Plain style reads back

A number that is written out in plain style is evaluated to the number itself, and every other text of
plain style is refused: with a sign there is an operand missing, and exponents, infinities and `NaN` have
letters that no token has.

* `Decimal.ofText?_positional`: a decimal that is written out is read as a decimal nearest to the same
  magnitude.
* `value?_positional`: written out, the shortest decimal is a literal of its magnitude.
* `evaluate_of_foreign`: a text with a character that no token has is refused.
* `evaluate_write_plain`: what is read back of a number in plain style.
-/

namespace PocketCalculator

/-! ### Numbers that are written out -/

/-- **A decimal that is written out** is read as one that is nearest to the same magnitude. -/
theorem Decimal.ofText?_positional (x : Decimal) :
    ∃ y : Decimal, Decimal.ofText? x.positional = some y ∧ y.nearest = x.nearest := by
  obtain ⟨steps, grid⟩ := x
  cases grid with
  | ofNat g =>
    have hzero : AllDigits ['0'] := allDigits_zeros 1
    refine ⟨_, Decimal.ofText?_point (allDigits_decimalDigits (steps * Nat.pow 10 g))
      (decimalDigits_ne_nil _) hzero, ?_⟩
    rw [Decimal.nearest_places, digitsValue_append, digitsValue_decimalDigits, Decimal.nearest_ofNat]
    exact Binary.nearest_mul_right _ 1 (by decide)
  | negSucc g =>
    have hlast : AllDigits (lastDigits (g + 1) steps) := allDigits_lastDigits steps
    refine ⟨_, Decimal.ofText?_point (allDigits_decimalDigits (steps / Nat.pow 10 (g + 1)))
      (decimalDigits_ne_nil _) hlast, ?_⟩
    rw [Decimal.nearest_places, digitsValue_divide (Nat.succ_pos g),
      length_lastDigits (Nat.succ_pos g)]
    rfl

/-- **Written out, the shortest decimal** is a literal of its magnitude. -/
theorem value?_positional {p : Nat} (h : p < Binary.infinite) :
    Literal.value? (shortest p).positional = some (Binary.ofMagnitude p) := by
  obtain ⟨y, hy, hnearest⟩ := (shortest p).ofText?_positional
  rw [nearest_shortest] at hnearest
  rw [Literal.value?_eq_some_iff_of_short (length_positional_shortest h), isFiniteLiteral_iff, hy,
    Option.bind_some, Decimal.toFloat?, hnearest, if_pos h]

/-! ### Evaluation of a written number -/

section

variable {w : List Char} {x : Float}

theorem Written.reads_ofList {ts : List Token} (h : Written ts w) : Reads (String.ofList w) ts :=
  Written.reads (by rw [String.toList_ofList]; exact h)

theorem Written.literal (h : Literal.value? w = some x) : Written [.number x] w := by
  obtain ⟨hliteral, hcount⟩ := Literal.value?_eq_some_iff.1 h
  have hwritten : Written [.number x] (w ++ []) := .number hliteral hcount (by decide) .nil
  rwa [List.append_nil] at hwritten

theorem evaluate_literal (h : Literal.value? w = some x) : evaluate (String.ofList w) = .ok x := by
  rw [evaluate_of_reads (Written.literal h).reads_ofList]
  rfl

/-- A sign takes two operands, and there is one. -/
theorem evaluate_minus_literal (h : Literal.value? w = some x) :
    evaluate (String.ofList ('-' :: w)) = .error (.missingOperand (.operator .subtract)) := by
  have hwritten : Written [.operator .subtract, .number x] ('-' :: w) :=
    .operator .subtract (Written.literal h)
  rw [evaluate_of_reads hwritten.reads_ofList]
  rfl

end

/-- **A character that no token has** makes a text one without a value. -/
theorem evaluate_of_foreign {s : String} {c : Char} (hc : c ∈ s.toList)
    (hforeign : isTokenChar c = false) : ∃ f, evaluate s = .error f := by
  rcases evaluate_cases s with ⟨ts, -, hreads, -⟩ | ⟨f, hf, -⟩
  · have htoken := hreads.isTokenChar c hc
    rw [hforeign] at htoken
    cases htoken
  · exact ⟨f, hf⟩

/-! ### The texts of plain style -/

theorem exponent_mem_scientific (x : Decimal) : 'e' ∈ x.scientific := by
  unfold Decimal.scientific
  simp only
  split
  · exact List.mem_cons_self
  · exact List.mem_cons_of_mem _ List.mem_cons_self
  · exact List.mem_append_right _ List.mem_cons_self

open Binary Display

/-- **The shapes of plain style**: digits with a point, with a sign in front or not, or a text with a
letter that no token has. -/
theorem write_plain_cases (v : Float) :
    (magnitude v < infinite ∧ isWrittenOut (magnitude v) = true ∧
      Style.plain.write v = String.ofList
        ((if isNegative v then ['-'] else []) ++ (shortest (magnitude v)).positional)) ∨
    (¬ (magnitude v < infinite ∧ isWrittenOut (magnitude v) = true) ∧
      ∃ c ∈ (Style.plain.write v).toList, isTokenChar c = false) := by
  rw [show (Style.plain.write v).toList = Style.plain.writeChars v from String.toList_ofList]
  unfold Style.write Style.writeChars
  simp only
  split
  · next hnan => exact .inr ⟨fun h => absurd h.1 (by omega), 'N', by decide, by decide⟩
  · split
    · next hinfinite =>
      have hletter : 'I' ∈ "Infinity".toList := by decide
      exact .inr ⟨fun h => absurd h.1 (by omega), 'I', List.mem_append_right _ hletter, by decide⟩
    · -- a finite number, with or without an exponent
      by_cases hout : isWrittenOut (magnitude v) = true
      · rw [plainDigits_positional hout]
        exact .inl ⟨by omega, hout, rfl⟩
      · rw [plainDigits_scientific (Bool.not_eq_true _ ▸ hout)]
        exact .inr ⟨fun h => hout h.2, 'e', List.mem_append_right _ (exponent_mem_scientific _),
          by decide⟩

/-- The number without a sign is its magnitude. -/
theorem ofMagnitude_magnitude {x : Float} (h : isNegative x = false) :
    ofMagnitude (magnitude x) = x := by
  have hbits : x.toBits.toNat < signBit := Nat.not_le.1 (of_decide_eq_false h)
  rw [ofMagnitude, magnitude, Nat.mod_eq_of_lt hbits, UInt64.ofNat_toNat, Float.ofBits_toBits]

theorem toBits_eq_zero_iff {x : Float} :
    x.toBits = 0 ↔ isNegative x = false ∧ magnitude x = 0 := by
  constructor
  · intro h
    unfold isNegative magnitude
    rw [h]
    decide
  · rintro ⟨hsign, hzero⟩
    rw [← ofMagnitude_magnitude hsign, hzero]
    rfl

theorem leastWrittenOut_eq : leastWrittenOut = magnitude 1e-4 := by decide +kernel

theorem writtenOutBound_eq : writtenOutBound = magnitude 1e16 := by decide +kernel

/-- **What is written out without a sign** is zero and the numbers from `10^-4` to below `10^16`. -/
theorem plain_range_iff (v : Float) : (v.toBits = 0 ∨ ((1e-4 : Float) ≤ v ∧ v < 1e16)) ↔
    isNegative v = false ∧ magnitude v < infinite ∧ isWrittenOut (magnitude v) = true := by
  have hleast : (1e-4 : Float) ≤ v ↔
      isNegative v = false ∧ leastWrittenOut ≤ magnitude v ∧ magnitude v ≤ infinite := by
    rw [leastWrittenOut_eq]
    exact le_iff (by decide +kernel) (by decide +kernel) (by decide +kernel)
  have hbound : v < (1e16 : Float) ↔
      (isNegative v = true ∧ magnitude v ≤ infinite) ∨ magnitude v < writtenOutBound := by
    rw [writtenOutBound_eq]
    exact lt_iff (by decide +kernel) (by decide +kernel) (by decide +kernel)
  have hfinite : writtenOutBound < infinite := by decide +kernel
  rw [toBits_eq_zero_iff, hleast, hbound]
  unfold isWrittenOut
  simp only [Bool.or_eq_true, Bool.and_eq_true, beq_iff_eq, decide_eq_true_eq]
  constructor
  · rintro (⟨hsign, hzero⟩ | ⟨⟨hsign, hle, -⟩, ⟨hneg, -⟩ | hlt⟩)
    · exact ⟨hsign, by omega, .inl hzero⟩
    · rw [hsign] at hneg
      cases hneg
    · exact ⟨hsign, by omega, .inr ⟨hle, hlt⟩⟩
  · rintro ⟨hsign, -, hzero | ⟨hle, hlt⟩⟩
    · exact .inl ⟨hsign, hzero⟩
    · exact .inr ⟨⟨hsign, hle, by omega⟩, .inr hlt⟩

/-- **Plain style reads back** or is refused. Zero and the numbers from `10^-4` to below `10^16` are
evaluated to themselves, bit by bit, and the text of any other number has no value. -/
theorem evaluate_write_plain (v : Float) :
    ((v.toBits = 0 ∨ ((1e-4 : Float) ≤ v ∧ v < 1e16)) → evaluate (Style.plain.write v) = .ok v) ∧
    (¬ (v.toBits = 0 ∨ ((1e-4 : Float) ≤ v ∧ v < 1e16)) →
      ∃ f, evaluate (Style.plain.write v) = .error f) := by
  rw [plain_range_iff]
  rcases write_plain_cases v with ⟨hfinite, hout, htext⟩ | ⟨hother, c, hc, hforeign⟩
  · have hliteral := value?_positional hfinite
    constructor
    · rintro ⟨hsign, -, -⟩
      rw [ofMagnitude_magnitude hsign] at hliteral
      rw [htext, hsign]
      exact evaluate_literal hliteral
    · intro h
      have hsign : isNegative v = true := by
        by_contra hpos
        exact h ⟨Bool.not_eq_true _ ▸ hpos, hfinite, hout⟩
      rw [htext, hsign]
      exact ⟨_, evaluate_minus_literal hliteral⟩
  · exact ⟨fun h => absurd h.2 hother, fun _ => evaluate_of_foreign hc hforeign⟩

/-- A tenth reads back, and what has a sign or an exponent is refused. -/
theorem evaluate_write_plain_tenth :
    (1e-4 : Float) ≤ 0.1 ∧ (0.1 : Float) < 1e16 ∧ evaluate (Style.plain.write 0.1) = .ok 0.1 ∧
      (∃ f, evaluate (Style.plain.write (-2.5)) = .error f) ∧
      ∃ f, evaluate (Style.plain.write 1e-7) = .error f := by
  have hleast : (1e-4 : Float) ≤ 0.1 := by decide +kernel
  have hbound : (0.1 : Float) < 1e16 := by decide +kernel
  exact ⟨hleast, hbound, (evaluate_write_plain 0.1).1 (.inr ⟨hleast, hbound⟩),
    (evaluate_write_plain (-2.5)).2 (by decide +kernel),
    (evaluate_write_plain 1e-7).2 (by decide +kernel)⟩

end PocketCalculator
