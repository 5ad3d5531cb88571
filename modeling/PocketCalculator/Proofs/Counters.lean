import PocketCalculator.Proofs.Literals
import PocketCalculator.Proofs.LongNumerals
import PocketCalculator.Proofs.ReadBack

/-!
# The counters of a literal

The digits and the points of a run are counted from its front, in two signed 32-bit words. A word at its
greatest value leaves its range when it is raised: checked arithmetic stops there, and unchecked
arithmetic wraps around and goes on. So the counters tell what a run is only while both stay in their
range, and on runs with `2^31` digits or points one of them does not.

* `Counters.scan?`, `isLiteral_eq`: the form of a literal is found by counting one character after
  another.
* `Counters.Fit`, `fit_iff`: the counters stay in their range exactly below `2^31` digits and `2^31`
  points.
* `isLiteral_iff`: what the counters tell of every run.
* `counters_fit_iff`: the counters, the form of a literal, and its evaluation.
* `not_fit_zeros`: a numeral that is too long to be counted.
-/

namespace PocketCalculator.Literal

/-! ### Counting -/

/-- **The counters** of a run: how many digits and how many points there were so far. -/
structure Counters where
  digits : Int32
  points : Int32

namespace Counters

/-- The counters before the first character. -/
def zero : Counters := ⟨0, 0⟩

/-- The counters behind `d` digits and `p` points. -/
def of (d p : Nat) : Counters := ⟨Int32.ofNat d, Int32.ofNat p⟩

/-- **One character** raises a counter, unless it is neither a digit nor a point. -/
def count? (k : Counters) (c : Char) : Option Counters :=
  if c.isDigit then some { k with digits := k.digits + 1 }
  else if c = '.' then some { k with points := k.points + 1 }
  else none

/-- **The characters of a run**, counted in order up to the first that cannot be. -/
def scan? (k : Counters) : List Char → Option Counters
  | [] => some k
  | c :: rest => do scan? (← k.count? c) rest

/-- What the counters tell in the end: a digit at least, and a point at most. -/
def accept (k : Counters) : Bool := 0 < k.digits && k.points ≤ 1

/-- **A counter leaves its range** with a character that raises it beyond the greatest word. -/
def Passes (k : Counters) (c : Char) : Prop :=
  (c.isDigit = true ∧ Int32.maxValue.toInt < k.digits.toInt + 1) ∨
    (c = '.' ∧ Int32.maxValue.toInt < k.points.toInt + 1)

/-- **The counters fit a run**: no character that is counted makes one leave its range. -/
def Fit (k : Counters) : List Char → Prop
  | [] => True
  | c :: rest => ¬ k.Passes c ∧ ∀ l ∈ k.count? c, l.Fit rest

theorem accept_iff {k : Counters} : k.accept = true ↔ 0 < k.digits ∧ k.points ≤ 1 := by
  rw [accept, Bool.and_eq_true, decide_eq_true_eq, decide_eq_true_eq]

variable {d p : Nat} {c : Char}

/-- **One step** of the counters, with words that wrap around. -/
theorem count?_of : (of d p).count? c =
    if c.isDigit then some (of (d + 1) p) else if c = '.' then some (of d (p + 1)) else none := by
  simp only [count?, of, Int32.ofNat_add]
  rfl

/-- **One step** within the range. -/
theorem passes_of_iff (hd : d < 2147483648) (hp : p < 2147483648) : (of d p).Passes c ↔
    (c.isDigit = true ∧ 2147483648 ≤ d + 1) ∨ (c = '.' ∧ 2147483648 ≤ p + 1) := by
  have digits : (Int32.ofNat d).toInt = d := Int32.toInt_ofNat_of_lt hd
  have points : (Int32.ofNat p).toInt = p := Int32.toInt_ofNat_of_lt hp
  rw [Passes, of, digits, points, Int32.toInt_maxValue]
  refine or_congr (and_congr_right fun _ => ?_) (and_congr_right fun _ => ?_) <;> omega

end Counters

/-! ### Whole runs -/

/-- The characters that are counted: those in front of the first that is neither a digit nor a point. -/
def counted (run : List Char) : List Char := run.takeWhile fun c => c.isDigit || c == '.'

section

variable {run : List Char} {c : Char}

theorem counted_eq_self (h : ∀ c ∈ run, c.isDigit = true ∨ c = '.') : counted run = run := by
  rw [counted, List.takeWhile_eq_self_iff]
  simpa using h

theorem counted_cons (h : c.isDigit = true ∨ c = '.') : counted (c :: run) = c :: counted run :=
  List.takeWhile_cons_of_pos (by simpa using h)

theorem counted_cons_of_not (hdigit : c.isDigit = false) (hpoint : c ≠ '.') :
    counted (c :: run) = [] :=
  List.takeWhile_cons_of_neg (by simp [hdigit, hpoint])

end

/-- A character is a digit, the point, or neither. -/
theorem char_cases (c : Char) :
    (c.isDigit = true ∧ c ≠ '.') ∨ c = '.' ∨ (c.isDigit = false ∧ c ≠ '.') := by
  by_cases hdigit : c.isDigit = true
  · exact .inl ⟨hdigit, bne_iff_ne.1 (Decimal.not_point_of_isDigit hdigit)⟩
  · by_cases hpoint : c = '.'
    · exact .inr (.inl hpoint)
    · exact .inr (.inr ⟨Bool.not_eq_true _ ▸ hdigit, hpoint⟩)

namespace Counters

variable {d p : Nat} {run : List Char}

/-- **A whole run** raises the counters by its digits and its points. -/
theorem scan?_of (d p : Nat) (run : List Char) : (of d p).scan? run =
    if run.all (fun c => c.isDigit || c == '.') then
      some (of (d + run.countP Char.isDigit) (p + run.count '.'))
    else none := by
  induction run generalizing d p with
  | nil => rfl
  | cons c rest ih =>
    rw [scan?, count?_of]
    rcases char_cases c with ⟨hdigit, hpoint⟩ | rfl | ⟨hdigit, hpoint⟩
    · simp [hdigit, hpoint, ih, Nat.add_comm, Nat.add_left_comm]
    · simp [ih, Nat.add_comm, Nat.add_left_comm]
    · simp [hdigit, hpoint]

/-- **Within the range** the counters fit a run exactly when it has few enough digits and points. -/
theorem fit_of_iff (hd : d < 2147483648) (hp : p < 2147483648) : (of d p).Fit run ↔
    d + (counted run).countP Char.isDigit < 2147483648 ∧
      p + (counted run).count '.' < 2147483648 := by
  induction run generalizing d p with
  | nil => simpa [Fit, counted] using ⟨hd, hp⟩
  | cons c rest ih =>
    rcases char_cases c with ⟨hdigit, hpoint⟩ | rfl | ⟨hdigit, hpoint⟩
    · have hstep : (of d p).Fit (c :: rest) ↔ d + 1 < 2147483648 ∧ (of (d + 1) p).Fit rest := by
        rw [Fit, passes_of_iff hd hp, count?_of, if_pos hdigit]
        simp only [hdigit, hpoint, Option.mem_some_iff, forall_eq', true_and, false_and, or_false,
          Nat.not_le]
      rw [hstep, and_congr_right fun hlast => ih hlast hp, counted_cons (.inl hdigit),
        List.countP_cons_of_pos hdigit, List.count_cons_of_ne hpoint]
      omega
    · have hstep : (of d p).Fit ('.' :: rest) ↔ p + 1 < 2147483648 ∧ (of d (p + 1)).Fit rest := by
        rw [Fit, passes_of_iff hd hp, count?_of, if_neg (by decide), if_pos rfl]
        simp only [show '.'.isDigit = false from rfl, Bool.false_eq_true, Option.mem_some_iff,
          forall_eq', true_and, false_and, false_or, Nat.not_le]
      rw [hstep, and_congr_right fun hlast => ih hd hlast, counted_cons (.inr rfl),
        List.countP_cons_of_neg (by decide), List.count_cons_self]
      omega
    · -- nothing is counted any more
      rw [Fit, passes_of_iff hd hp, count?_of, counted_cons_of_not hdigit hpoint]
      simp [hdigit, hpoint, hd, hp]

/-- **In the end** the numbers that have wrapped around are looked at. -/
theorem accept_of_iff : (of d p).accept = true ↔ 0 < wrapped d ∧ wrapped p ≤ 1 := by
  rw [accept_iff, Int32.lt_iff_toInt_lt, Int32.le_iff_toInt_le, of, toInt_ofNat_eq, toInt_ofNat_eq,
    Int32.toInt_zero]
  rfl

end Counters

variable {run : List Char}

/-- **The form of a literal** is found by counting. -/
theorem isLiteral_eq (run : List Char) :
    isLiteral run = (Counters.zero.scan? run).any Counters.accept := by
  rw [show Counters.zero = .of 0 0 from rfl, Counters.scan?_of, Nat.zero_add, Nat.zero_add, isLiteral]
  split
  · next h => simp [h, Counters.accept, Counters.of]
  · next h => simp [h]

/-- **What the counters tell** of every run, however long. -/
theorem isLiteral_iff : isLiteral run = true ↔ (∀ c ∈ run, c.isDigit = true ∨ c = '.') ∧
    0 < wrapped (run.countP Char.isDigit) ∧ wrapped (run.count '.') ≤ 1 := by
  rw [← Counters.accept_of_iff, Counters.accept_iff]
  simp [isLiteral, Counters.of, and_assoc]

/-- **The counters stay in their range** below `2^31` digits and `2^31` points. -/
theorem fit_iff : Counters.zero.Fit run ↔ (counted run).countP Char.isDigit < 2147483648 ∧
    (counted run).count '.' < 2147483648 := by
  have hfit : (Counters.of 0 0).Fit run ↔ _ := Counters.fit_of_iff (by decide) (by decide)
  rwa [Nat.zero_add, Nat.zero_add] at hfit

/-- In their range the counters tell what the run is. -/
theorem isLiteral_iff_isNumeral (h : Counters.zero.Fit run) : isLiteral run = true ↔ IsNumeral run := by
  rw [fit_iff] at h
  rw [isLiteral_iff]
  constructor
  · rintro ⟨chars, digits, points⟩
    rw [counted_eq_self chars] at h
    rw [wrapped_of_lt h.1] at digits
    rw [wrapped_of_lt h.2] at points
    exact ⟨chars, List.countP_pos_iff.1 (by omega), by omega⟩
  · rintro ⟨chars, digit, point⟩
    rw [counted_eq_self chars] at h
    rw [wrapped_of_lt h.1, wrapped_of_lt h.2]
    have digits := List.countP_pos_iff.2 digit
    exact ⟨chars, by omega, by omega⟩

/-! ### Values -/

/-- **A literal that is counted** is evaluated to its value. -/
theorem evaluate_of_isFiniteLiteral {v : Float} (h : IsFiniteLiteral run v)
    (hcount : 0 < wrapped (run.countP Char.isDigit)) : evaluate (String.ofList run) = .ok v :=
  evaluate_literal (value?_eq_some_iff.2 ⟨h, hcount⟩)

/-- **The counters of a literal.** The form of a literal is found by counting digits and points in
signed 32-bit words. They stay in their range exactly on runs with fewer than `2^31` digits and fewer
than `2^31` points to be counted, and on these runs the form of a literal is that of a numeral. On all
other runs the words that have wrapped around decide. A numeral below the bound of the finite numbers
then has its value, or it is a stray run if the word of its digits is no longer positive. -/
theorem counters_fit_iff (run : List Char) :
    isLiteral run = (Counters.zero.scan? run).any Counters.accept ∧
    (Counters.zero.Fit run ↔ (counted run).countP Char.isDigit < 2147483648 ∧
      (counted run).count '.' < 2147483648) ∧
    (Counters.zero.Fit run → (isLiteral run = true ↔ IsNumeral run)) ∧
    (isLiteral run = true ↔ (∀ c ∈ run, c.isDigit = true ∨ c = '.') ∧
      0 < wrapped (run.countP Char.isDigit) ∧ wrapped (run.count '.') ≤ 1) ∧
    (IsNumeral run → exactValue run < 2 ^ 1024 - 2 ^ 970 →
      (0 < wrapped (run.countP Char.isDigit) →
        ∃ v, evaluate (String.ofList run) = .ok v ∧ IsRounded (exactValue run) v) ∧
      (wrapped (run.countP Char.isDigit) ≤ 0 →
        evaluate (String.ofList run) = .error (.unrecognized (String.ofList run) 0))) := by
  refine ⟨isLiteral_eq run, fit_iff, isLiteral_iff_isNumeral, isLiteral_iff, fun h hbound => ?_⟩
  refine ⟨fun hcount => ?_, evaluate_of_wrapped h⟩
  obtain ⟨v, hv⟩ := exists_isFiniteLiteral_iff.2 ⟨h, hbound⟩
  have hrounded := (isFiniteLiteral_iff_isRounded.1 hv).2.2
  exact ⟨v, evaluate_of_isFiniteLiteral hv hcount, hrounded⟩

/-! ### Runs that are too long to count -/

section

variable (n : Nat)

/-- Zeros fit while there are fewer than `2^31` of them. -/
theorem fit_zeros_iff : Counters.zero.Fit (List.replicate n '0') ↔ n < 2147483648 := by
  rw [fit_iff, counted_eq_self fun c hc => .inl (allDigits_zeros n c hc), countP_zeros,
    Decimal.count_point (allDigits_zeros n)]
  exact and_iff_left (by decide)

theorem count_points : ('0' :: List.replicate n '.').count '.' = n := by
  rw [List.count_cons_of_ne (by decide), List.count_replicate_self]

/-- A digit and points have the form of a literal while the word of the points is small enough. -/
theorem isLiteral_points_iff : isLiteral ('0' :: List.replicate n '.') = true ↔ wrapped n ≤ 1 := by
  have hdigits : ('0' :: List.replicate n '.').countP Char.isDigit = 1 := by
    rw [List.countP_cons_of_pos (by decide), List.countP_eq_zero.2]
    intro c hc
    rw [List.eq_of_mem_replicate hc]
    decide
  rw [isLiteral_iff, hdigits, count_points]
  refine ⟨fun h => h.2.2, fun h => ⟨fun c hc => ?_, by decide, h⟩⟩
  rcases List.mem_cons.1 hc with rfl | hc
  · exact .inl (by decide)
  · exact .inr (List.eq_of_mem_replicate hc)

end

/-- **Too many zeros to count.** A text of `2^31` zeros is a numeral, but the counter of its digits
leaves its range. So it is no literal, and it has no value. With one zero less it has the value zero.
A zero with `2^31` points behind it is no numeral, and has the form of a literal. -/
theorem not_fit_zeros :
    IsNumeral (List.replicate 2147483648 '0') ∧
      byteLength (List.replicate 2147483648 '0') < 2 ^ 63 ∧
      ¬ Counters.zero.Fit (List.replicate 2147483648 '0') ∧
      isLiteral (List.replicate 2147483648 '0') = false ∧
      evaluate (String.ofList (List.replicate 2147483648 '0')) =
        .error (.unrecognized (String.ofList (List.replicate 2147483648 '0')) 0) ∧
      evaluate (String.ofList (List.replicate 2147483647 '0')) = .ok 0 ∧
      ¬ IsNumeral ('0' :: List.replicate 2147483648 '.') ∧
      isLiteral ('0' :: List.replicate 2147483648 '.') = true := by
  have hnumeral : IsNumeral (List.replicate 2147483648 '0') :=
    (isFiniteLiteral_zeros _ (by decide)).toIsNumeral
  have hcount : ¬ 0 < wrapped 2147483648 := by decide
  refine ⟨hnumeral, ?_, ?_, ?_, ?_, ?_, fun h => ?_, ?_⟩
  · rw [byteLength_of_inAlphabet fun c hc => inAlphabet_of_isDigit (allDigits_zeros _ c hc),
      List.length_replicate]
    decide
  · rw [fit_zeros_iff]
    decide
  · rw [← Bool.not_eq_true, isLiteral_iff, countP_zeros]
    exact fun h => hcount h.2.1
  · exact evaluate_of_wrapped hnumeral wrapped_zeros
  · exact evaluate_of_isFiniteLiteral (isFiniteLiteral_zeros _ (by decide))
      (by rw [countP_zeros]; decide)
  · have hpoint := h.point
    rw [count_points] at hpoint
    omega
  · rw [isLiteral_points_iff]
    decide

end PocketCalculator.Literal
