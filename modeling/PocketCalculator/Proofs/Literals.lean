import PocketCalculator.Proofs.Pieces
import PocketCalculator.Proofs.Rounded

/-!
# Literals

A run of digits with at most one point stands for an exact rational, and that alone decides what it is
read as: the finite number nearest to it, or no token at all if it is too large.

* `exactValue`: what digits with at most one point stand for.
* `isFiniteLiteral_iff_isRounded`: finite literals are numerals below the bound, and their values are
  rounded.
* `scan_run`: what a run is read as.
-/

namespace PocketCalculator

/-! ### Exact values -/

/-- What is before the point. -/
def wholePart (w : List Char) : List Char := w.takeWhile (· != '.')

/-- What is behind the point, if there is one. -/
def fractionPart (w : List Char) : List Char := (w.dropWhile (· != '.')).tail

/-- **The exact value** of the digits before and behind the point. -/
def exactValue (w : List Char) : ℚ :=
  digitsValue (wholePart w) + digitsValue (fractionPart w) / 10 ^ (fractionPart w).length

namespace IsNumeral

variable {w : List Char}

theorem allDigits_wholePart (h : IsNumeral w) : AllDigits (wholePart w) := by
  intro c hc
  have hpoint : (c != '.') = true := List.mem_takeWhile_imp (p := (· != '.')) hc
  exact (h.chars c ((List.takeWhile_prefix _).subset hc)).resolve_right (bne_iff_ne.1 hpoint)

/-- Behind the digits before the point there is nothing, or a point and digits. -/
theorem dropWhile_eq (h : IsNumeral w) :
    (w.dropWhile (· != '.') = [] ∨ w.dropWhile (· != '.') = '.' :: fractionPart w) ∧
      AllDigits (fractionPart w) := by
  have hsuffix : w.dropWhile (· != '.') <:+ w := List.dropWhile_suffix _
  unfold fractionPart
  cases hdrop : w.dropWhile (· != '.') with
  | nil => exact ⟨.inl rfl, fun c hc => by cases hc⟩
  | cons a rest =>
    have ha : a = '.' := by
      have hhead := List.head?_dropWhile_not (· != '.') w
      rw [hdrop] at hhead
      simpa using hhead
    subst ha
    rw [hdrop] at hsuffix
    refine ⟨.inr rfl, fun c hc => ?_⟩
    refine (h.chars c (hsuffix.subset (List.mem_cons_of_mem _ hc))).resolve_right ?_
    -- a second point would be counted
    rintro rfl
    have hcount := hsuffix.sublist.count_le '.'
    have hsecond : 0 < rest.count '.' := List.count_pos_iff.2 hc
    have hpoint := h.point
    rw [List.count_cons_self] at hcount
    omega

/-- **The digits** of a numeral are those before the point and those behind it. -/
theorem filter_isDigit_eq (h : IsNumeral w) :
    w.filter Char.isDigit = wholePart w ++ fractionPart w := by
  obtain ⟨hdrop, hfraction⟩ := h.dropWhile_eq
  have hw : w = wholePart w ++ w.dropWhile (· != '.') := List.takeWhile_append_dropWhile.symm
  have hpoint : (w.dropWhile (· != '.')).filter Char.isDigit = fractionPart w := by
    rcases hdrop with hdrop | hdrop
    · rw [fractionPart, hdrop]
      rfl
    · rw [hdrop, List.filter_cons_of_neg (by decide), Decimal.filter_isDigit hfraction]
  conv_lhs => rw [hw]
  rw [List.filter_append, Decimal.filter_isDigit h.allDigits_wholePart, hpoint]

/-- **The decimal of a numeral** has its exact value. -/
theorem value_eq (h : IsNumeral w) : Decimal.value
    ⟨digitsValue (w.filter Char.isDigit), -((w.dropWhile (· != '.')).length - 1 : Nat)⟩ =
      exactValue w := by
  rw [h.filter_isDigit_eq, ← List.length_tail]
  exact Decimal.value_point (wholePart w) (fractionPart w)

end IsNumeral

/-- **Finite literals** are the numerals below the bound, and their values are rounded. -/
theorem isFiniteLiteral_iff_isRounded {w : List Char} {v : Float} : IsFiniteLiteral w v ↔
    IsNumeral w ∧ exactValue w < 2 ^ 1024 - 2 ^ 970 ∧ IsRounded (exactValue w) v := by
  constructor
  · rintro ⟨h, value⟩
    rw [Decimal.toFloat?_eq_some_iff, h.value_eq] at value
    exact ⟨h, value⟩
  · rintro ⟨h, value⟩
    rw [← h.value_eq, ← Decimal.toFloat?_eq_some_iff] at value
    exact ⟨h, value⟩

/-- A numeral below the bound is a finite literal. -/
theorem exists_isFiniteLiteral_iff {w : List Char} :
    (∃ v, IsFiniteLiteral w v) ↔ IsNumeral w ∧ exactValue w < 2 ^ 1024 - 2 ^ 970 := by
  simp only [isFiniteLiteral_iff_isRounded]
  constructor
  · rintro ⟨v, h, hbound, -⟩
    exact ⟨h, hbound⟩
  · rintro ⟨h, hbound⟩
    obtain ⟨v, hv⟩ := Decimal.exists_isRounded (h.value_eq.symm ▸ hbound)
    exact ⟨v, h, hbound, h.value_eq ▸ hv⟩

/-- **Only the exact value** of a short numeral makes its value. -/
theorem value?_congr {w u : List Char} (shortW : w.length < 2147483648)
    (shortU : u.length < 2147483648) (hw : IsNumeral w) (hu : IsNumeral u)
    (h : exactValue u = exactValue w) : Literal.value? u = Literal.value? w := by
  refine Option.ext fun v => ?_
  rw [Literal.value?_eq_some_iff_of_short shortU, Literal.value?_eq_some_iff_of_short shortW,
    isFiniteLiteral_iff_isRounded, isFiniteLiteral_iff_isRounded, h]
  exact and_congr_left fun _ => iff_of_true hu hw

/-! ### Runs -/

section

variable {s : String}

theorem map_token?_of_isNumeral (h : IsNumeral s.toList) :
    (scan s).map Lexeme.token? = [(Literal.value? s.toList).map .number] := by
  rw [scan_of_isNumeral h]
  rfl

variable (nonempty : s ≠ "") (run : ∀ c ∈ s.toList, c ≠ ' ' ∧ c ∉ marks)

include nonempty run

/-- **A run is one lexeme**, and it is read as a piece is. -/
theorem scan_eq_iff_readsAs (r : Except Fault Token) :
    (scan s).map Lexeme.read = [r] ↔ ReadsAs s.toList 0 r := by
  have hrun : ∀ c ∈ s.toList, inRun c = true := fun c hc => inRun_iff.2 (run c hc)
  rw [scan_eq_singleton nonempty hrun, readsAs_run_iff hrun, List.map_singleton,
    List.singleton_inj, eq_comm]

theorem scan_eq_number_iff (v : Float) :
    (scan s).map Lexeme.read = [.ok (.number v)] ↔ Literal.value? s.toList = some v := by
  rw [scan_eq_iff_readsAs nonempty run]
  constructor
  · intro h
    cases h with
    | number _ literal count => exact Literal.value?_eq_some_iff.2 ⟨literal, count⟩
  · intro h
    obtain ⟨literal, count⟩ := Literal.value?_eq_some_iff.1 h
    exact .number v literal count

theorem scan_eq_unrecognized_iff :
    (scan s).map Lexeme.read = [.error (.unrecognized s 0)] ↔
      Literal.value? s.toList = none ∧ ∀ f : Scientific, s ≠ f.name := by
  have hname (f : Scientific) : s ≠ f.name ↔ s.toList ≠ f.name.toList :=
    not_congr String.toList_inj.symm
  simp only [hname]
  rw [scan_eq_iff_readsAs nonempty run]
  constructor
  · intro h
    generalize hr : Except.error (Fault.unrecognized s 0) = r at h
    cases h with
    | stray chars literal name => exact ⟨Literal.value?_eq_none_iff.2 literal, name⟩
    | _ => cases hr
  · rintro ⟨literal, name⟩
    have h : ReadsAs s.toList 0 _ := .stray run (Literal.value?_eq_none_iff.1 literal) name
    rwa [String.ofList_toList] at h

end

/-- **What a run is read as.** A run of fewer than `2^31` characters is a number if it is a numeral and
its exact value is below `2^1024 - 2^970`. Then it is the finite number nearest to that value, without
a sign. It is a fault that carries the run if it is neither such a numeral nor the name of a function.
Two numerals of the same exact value are read alike. -/
theorem scan_run {s : String} (nonempty : s ≠ "") (run : ∀ c ∈ s.toList, c ≠ ' ' ∧ c ∉ marks)
    (short : s.length < 2147483648) :
    (∀ v, (scan s).map Lexeme.read = [.ok (.number v)] ↔ IsNumeral s.toList ∧
      exactValue s.toList < 2 ^ 1024 - 2 ^ 970 ∧ IsRounded (exactValue s.toList) v) ∧
    ((∃ v, (scan s).map Lexeme.read = [.ok (.number v)]) ↔
      IsNumeral s.toList ∧ exactValue s.toList < 2 ^ 1024 - 2 ^ 970) ∧
    ((scan s).map Lexeme.read = [.error (.unrecognized s 0)] ↔
      ¬ (IsNumeral s.toList ∧ exactValue s.toList < 2 ^ 1024 - 2 ^ 970) ∧
        ∀ f : Scientific, s ≠ f.name) ∧
    ∀ t : String, t.length < 2147483648 → IsNumeral s.toList → IsNumeral t.toList →
      exactValue t.toList = exactValue s.toList →
        (scan t).map Lexeme.token? = (scan s).map Lexeme.token? := by
  have hshort : s.toList.length < 2147483648 := by rwa [String.length_toList]
  have hvalue (v : Float) : Literal.value? s.toList = some v ↔ IsNumeral s.toList ∧
      exactValue s.toList < 2 ^ 1024 - 2 ^ 970 ∧ IsRounded (exactValue s.toList) v :=
    (Literal.value?_eq_some_iff_of_short hshort).trans isFiniteLiteral_iff_isRounded
  have hexists : (∃ v, Literal.value? s.toList = some v) ↔
      IsNumeral s.toList ∧ exactValue s.toList < 2 ^ 1024 - 2 ^ 970 := by
    simp only [Literal.value?_eq_some_iff_of_short hshort]
    exact exists_isFiniteLiteral_iff
  refine ⟨fun v => ?_, ?_, ?_, fun t ht hs hnumeral hsame => ?_⟩
  · rw [scan_eq_number_iff nonempty run, hvalue]
  · simp only [scan_eq_number_iff nonempty run]
    exact hexists
  · rw [scan_eq_unrecognized_iff nonempty run, ← hexists, not_exists,
      Option.eq_none_iff_forall_ne_some]
  · rw [map_token?_of_isNumeral hs, map_token?_of_isNumeral hnumeral,
      value?_congr hshort (by rwa [String.length_toList]) hs hnumeral hsame]

/-- `0.10` is read as the number nearest to a tenth, and `.1` is read alike. -/
theorem scan_run_tenth :
    "0.10" ≠ "" ∧ (∀ c ∈ "0.10".toList, c ≠ ' ' ∧ c ∉ marks) ∧ "0.10".length < 2147483648 ∧
      IsRounded (exactValue "0.10".toList) 0.1 ∧
      (scan ".1").map Lexeme.token? = (scan "0.10").map Lexeme.token? := by
  have hrun : ∀ c ∈ "0.10".toList, c ≠ ' ' ∧ c ∉ marks := by
    have hall : "0.10".toList.all inRun = true := by decide
    exact fun c hc => inRun_iff.1 (List.all_eq_true.1 hall c hc)
  have hread : (scan "0.10").map Lexeme.read = [.ok (.number 0.1)] := by decide +kernel
  have hsame : exactValue ".1".toList = exactValue "0.10".toList := by decide +kernel
  obtain ⟨hnumber, -, -, halike⟩ := scan_run (s := "0.10") (by decide) hrun (by decide)
  exact ⟨by decide, hrun, by decide, ((hnumber 0.1).1 hread).2.2,
    halike ".1" (by decide) (by decide) (by decide) hsame⟩

end PocketCalculator
