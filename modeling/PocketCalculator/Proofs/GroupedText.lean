import PocketCalculator.Display.Grouped
import PocketCalculator.Proofs.Digits

/-!
# The text of a rounded number

Grouped style writes a number that is rounded in steps on its text: all ten places are written, the zeros at
the end and then the point are taken off, the sign and the whole part are split off, and commas are put
into the whole part from its end. What comes out is put together from the number of steps of `10^-10`.

* `Display.groupDigits_eq`, `Display.commas_eq`: commas stand between groups of three.
* `Display.keptDigits`, `Display.behindPoint`: what is kept of a fraction.
* `Display.trimEnd_places`: taking off zeros and the point leaves what is kept.
* `Display.splitSign_append`, `Display.splitPoint_append`: where the text is split.
* `Display.groupedRounded_eq`: the text of a rounded number.
-/

namespace PocketCalculator.Display

/-! ### Groups of three -/

/-- **Commas**: one before every third digit counted from the end, none at the front. -/
def commas : List Char → List Char
  | [] => []
  | d :: rest =>
    if rest.length % 3 = 0 ∧ rest ≠ [] then d :: ',' :: commas rest else d :: commas rest

/-- **Commas are all that is added.** -/
theorem filter_commas {ds : List Char} (h : ∀ d ∈ ds, d ≠ ',') :
    (commas ds).filter (· != ',') = ds := by
  induction ds with
  | nil => rfl
  | cons d rest ih =>
    have hd : d ≠ ',' := h d (by simp)
    have hrest := ih fun x hx => h x (by simp [hx])
    unfold commas
    split <;> simp [hd, hrest]

/-- The last digit is pushed behind all others, and a comma is in front of it if they fill their
groups. -/
theorem pushDigits_concat (result : List Char) (i : Nat) (cs : List Char) (d : Char) :
    pushDigits result i (cs ++ [d]) =
      (if 0 < i + cs.length ∧ (i + cs.length) % 3 = 0 then pushDigits result i cs ++ [',']
        else pushDigits result i cs) ++ [d] := by
  induction cs generalizing result i with
  | nil => rfl
  | cons c cs ih =>
    have hlength : i + (c :: cs).length = i + 1 + cs.length := by
      rw [List.length_cons]
      omega
    rw [List.cons_append, pushDigits, ih, hlength]
    rfl

/-- **Counting from the end** gives the commas of a run of digits. -/
theorem groupDigits_eq (ds : List Char) : groupDigits ds = commas ds := by
  induction ds with
  | nil => rfl
  | cons d rest ih =>
    have hpush : groupDigits (d :: rest) =
        d :: (if 0 < rest.length ∧ rest.length % 3 = 0 then ',' :: groupDigits rest
          else groupDigits rest) := by
      unfold groupDigits
      rw [List.reverse_cons, pushDigits_concat, Nat.zero_add, List.length_reverse]
      split <;> simp
    rw [hpush, ih, commas]
    simp only [List.length_pos_iff, and_comm]
    split <;> rfl

/-- **Groups of three digits**, counted from the end. -/
def threes : List Char → List (List Char)
  | [] => []
  | d :: rest =>
    if rest.length % 3 = 0 then [d] :: threes rest
    else
      match threes rest with
      | [] => [[d]]
      | g :: gs => (d :: g) :: gs

/-- The first group has one to three digits, and all others have three. -/
theorem threes_eq_cons {ds : List Char} (h : ds ≠ []) : ∃ g gs, threes ds = g :: gs ∧
    g.length = (ds.length - 1) % 3 + 1 ∧ (∀ g' ∈ gs, g'.length = 3) ∧ (g :: gs).flatten = ds := by
  induction ds with
  | nil => exact absurd rfl h
  | cons d rest ih =>
    by_cases hrest : rest = []
    · subst hrest
      exact ⟨[d], [], rfl, rfl, fun g' hg' => (by cases hg'), rfl⟩
    · obtain ⟨g, gs, hthrees, hfirst, hothers, hflat⟩ := ih hrest
      have hpos := List.length_pos_iff.2 hrest
      unfold threes
      -- a full first group stands still, and any other takes the digit in front
      by_cases hfull : rest.length % 3 = 0
      · rw [if_pos hfull, hthrees]
        refine ⟨[d], g :: gs, rfl, ?_, ?_, ?_⟩
        · rw [List.length_singleton, List.length_cons]
          omega
        · intro g' hg'
          rcases List.mem_cons.1 hg' with rfl | hg'
          · omega
          · exact hothers g' hg'
        · rw [List.flatten_cons, hflat]
          rfl
      · rw [if_neg hfull, hthrees]
        refine ⟨d :: g, gs, rfl, ?_, hothers, ?_⟩
        · rw [List.length_cons, List.length_cons]
          omega
        · rw [List.flatten_cons, List.cons_append, ← List.flatten_cons, hflat]

/-- **Commas** stand between the groups. -/
theorem commas_eq (ds : List Char) : commas ds = [','].intercalate (threes ds) := by
  induction ds with
  | nil => rfl
  | cons d rest ih =>
    unfold commas threes
    by_cases hrest : rest = []
    · subst hrest
      rfl
    · obtain ⟨g, gs, hthrees, -⟩ := threes_eq_cons hrest
      rw [ih, hthrees]
      by_cases hfull : rest.length % 3 = 0
      · rw [if_pos ⟨hfull, hrest⟩, if_pos hfull, List.intercalate_cons_cons]
        rfl
      · rw [if_neg (fun h => hfull h.1), if_neg hfull]
        cases gs with
        | nil => rw [List.intercalate_singleton, List.intercalate_singleton]
        | cons g' gs =>
          rw [List.intercalate_cons_cons, List.intercalate_cons_cons]
          rfl

/-! ### The fraction -/

/-- **The digits of a fraction** of ten places: without a zero at the end. -/
structure IsFraction (ds : List Char) : Prop where
  digits : AllDigits ds
  places : ds.length ≤ groupedPlaces
  last : ds.getLast? ≠ some '0'

/-- The digits that are kept of a fraction. -/
def keptDigits (n : Nat) : List Char := (lastDigits groupedPlaces n).rdropWhile (· == '0')

/-- The point and the digits behind it, if there are any. -/
def behindPoint (ds : List Char) : List Char := if ds = [] then [] else '.' :: ds

theorem keptDigits_append (n : Nat) : ∃ k, (keptDigits n).length + k = groupedPlaces ∧
    lastDigits groupedPlaces n = keptDigits n ++ List.replicate k '0' := by
  let isZero : Char → Bool := (· == '0')
  have hsplit : keptDigits n ++ (lastDigits groupedPlaces n).rtakeWhile isZero =
      lastDigits groupedPlaces n := List.rdropWhile_append_rtakeWhile
  have hzeros : ∀ c ∈ (lastDigits groupedPlaces n).rtakeWhile isZero, c = '0' :=
    fun c hc => beq_iff_eq.1 (List.mem_rtakeWhile_imp (p := isZero) hc)
  have hlength := congrArg List.length hsplit
  rw [List.length_append, length_lastDigits (by decide)] at hlength
  rw [List.eq_replicate_of_mem hzeros] at hsplit
  exact ⟨_, hlength, hsplit.symm⟩

theorem remainder_eq (n : Nat) : ∃ k, (keptDigits n).length + k = groupedPlaces ∧
    n % groupedSteps = digitsValue (keptDigits n) * 10 ^ k := by
  obtain ⟨k, hlength, hsplit⟩ := keptDigits_append n
  refine ⟨k, hlength, ?_⟩
  have h : digitsValue (lastDigits groupedPlaces n) = n % 10 ^ groupedPlaces :=
    digitsValue_lastDigits n
  rw [hsplit, digitsValue_append, digitsValue_zeros, List.length_replicate, Nat.add_zero] at h
  exact h.symm

theorem isFraction_keptDigits (n : Nat) : IsFraction (keptDigits n) := by
  obtain ⟨k, hlength, hsplit⟩ := keptDigits_append n
  refine ⟨?_, by omega, ?_⟩
  · exact (allDigits_lastDigits n).subset (hsplit ▸ List.subset_append_left _ _)
  · intro hlast
    have hne : keptDigits n ≠ [] := by
      intro hnil
      rw [hnil] at hlast
      cases hlast
    have hzero := List.rdropWhile_last_not (· == '0') (lastDigits groupedPlaces n) hne
    rw [List.getLast?_eq_some_getLast hne, Option.some_inj] at hlast
    exact hzero (beq_iff_eq.2 hlast)

/-- **The value** of what is kept of a fraction. -/
theorem digitsValue_keptDigits (n : Nat) :
    (digitsValue (keptDigits n) : ℚ) / 10 ^ (keptDigits n).length =
      (n % groupedSteps : ℕ) / groupedSteps := by
  obtain ⟨k, hlength, hvalue⟩ := remainder_eq n
  have hsteps : groupedSteps = 10 ^ (keptDigits n).length * 10 ^ k := by
    rw [← Nat.pow_add, hlength]
    rfl
  rw [hvalue, hsteps]
  push_cast
  field_simp

/-- Nothing is kept of a fraction of zeros, and of no other. -/
theorem keptDigits_eq_nil_iff (n : Nat) : keptDigits n = [] ↔ n % groupedSteps = 0 := by
  constructor
  · intro hnil
    obtain ⟨k, -, hvalue⟩ := remainder_eq n
    rw [hvalue, hnil]
    exact Nat.zero_mul _
  · intro hzero
    have hlast : lastDigits groupedPlaces n = List.replicate groupedPlaces '0' := by
      unfold lastDigits
      rw [show n % Nat.pow 10 groupedPlaces = 0 from hzero]
      rfl
    refine List.rdropWhile_eq_nil_iff.2 fun c hc => ?_
    rw [hlast] at hc
    exact beq_iff_eq.2 (List.eq_of_mem_replicate hc)

/-! ### The steps on the text -/

section

variable {c : Char} {cs : List Char}

theorem trimEnd_of_getLast? (h : cs.getLast? ≠ some c) : trimEnd c cs = cs := by
  unfold trimEnd
  rw [← List.head?_reverse] at h
  cases hcs : cs.reverse with
  | nil => simpa using hcs.symm
  | cons a rest =>
    have ha : (a == c) = false := by
      rw [beq_eq_false_iff_ne]
      rintro rfl
      exact h (by rw [hcs]; rfl)
    rw [List.dropWhile_cons_of_neg (by simp [ha]), ← hcs, List.reverse_reverse]

theorem trimEnd_append_replicate (c : Char) (cs : List Char) (k : Nat) :
    trimEnd c (cs ++ List.replicate k c) = trimEnd c cs := by
  unfold trimEnd
  rw [List.reverse_append, List.reverse_replicate, List.dropWhile_append_of_pos]
  intro a ha
  exact beq_iff_eq.2 (List.eq_of_mem_replicate ha)

end

/-- **What is left of ten places** when the zeros and then the point are taken off. -/
theorem trimEnd_places {front : List Char} (hfront : front.getLast? ≠ some '.') (n : Nat) :
    trimEnd '.' (trimEnd '0' (front ++ '.' :: lastDigits groupedPlaces n)) =
      front ++ behindPoint (keptDigits n) := by
  obtain ⟨k, -, hsplit⟩ := keptDigits_append n
  have hzeros : trimEnd '0' (front ++ '.' :: lastDigits groupedPlaces n) =
      trimEnd '0' (front ++ '.' :: keptDigits n) := by
    rw [hsplit, ← List.cons_append, ← List.append_assoc, trimEnd_append_replicate]
  rw [hzeros]
  unfold behindPoint
  by_cases hnil : keptDigits n = []
  · have hpoint : trimEnd '0' (front ++ ['.']) = front ++ ['.'] := trimEnd_of_getLast? (by simp)
    rw [hnil, if_pos rfl, hpoint, List.append_nil]
    exact (trimEnd_append_replicate '.' front 1).trans (trimEnd_of_getLast? hfront)
  · -- the last digit that is kept is behind the point, and neither a zero nor a point itself
    have hfraction := isFraction_keptDigits n
    have hlast : (front ++ '.' :: keptDigits n).getLast? = (keptDigits n).getLast? := by
      rw [List.getLast?_append, List.getLast?_cons, List.getLast?_eq_some_getLast hnil]
      rfl
    have hzero : trimEnd '0' (front ++ '.' :: keptDigits n) = front ++ '.' :: keptDigits n :=
      trimEnd_of_getLast? (hlast ▸ hfraction.last)
    have hdigit : (keptDigits n).getLast? ≠ some '.' := by
      intro h
      exact absurd (hfraction.digits '.' (List.mem_of_getLast? h)) (by decide)
    rw [if_neg hnil, hzero]
    exact trimEnd_of_getLast? (hlast ▸ hdigit)

theorem splitSign_append (negative : Bool) {ds : List Char} (h : ds.head? ≠ some '-') :
    splitSign (signChars negative ++ ds) = (signChars negative, ds) := by
  cases negative with
  | true => rfl
  | false =>
    show splitSign ds = ([], ds)
    unfold splitSign
    split
    · exact absurd rfl h
    · rfl

theorem splitPoint_eq (cs : List Char) :
    splitPoint cs = (cs.takeWhile (· != '.'), cs.dropWhile (· != '.')) := by
  have hpoint : (fun c : Char => !(c != '.')) = (· == '.') := by
    funext c
    exact Bool.not_not _
  rw [splitPoint, ← List.findIdx_eq_getD_findIdx?, List.splitAt_eq,
    List.takeWhile_eq_take_findIdx_not, List.dropWhile_eq_drop_findIdx_not, hpoint]

/-- **Digits are split in front of the point**, which may be missing. -/
theorem splitPoint_append {whole : List Char} (h : AllDigits whole) (ds : List Char) :
    splitPoint (whole ++ behindPoint ds) = (whole, behindPoint ds) := by
  have hwhole : ∀ c ∈ whole, (c != '.') = true :=
    fun c hc => Decimal.not_point_of_isDigit (h c hc)
  have hbehind : (behindPoint ds).takeWhile (· != '.') = [] ∧
      (behindPoint ds).dropWhile (· != '.') = behindPoint ds := by
    unfold behindPoint
    split <;> exact ⟨rfl, rfl⟩
  rw [splitPoint_eq, List.takeWhile_append_of_pos hwhole, List.dropWhile_append_of_pos hwhole,
    hbehind.1, hbehind.2, List.append_nil]

/-! ### The whole text -/

/-- **A magnitude rounded to ten places**, with commas in its whole part. -/
def groupedDigits (p : Nat) : List Char :=
  commas (decimalDigits (nearestSteps p / groupedSteps)) ++ behindPoint (keptDigits (nearestSteps p))

/-- **The text of a rounded number**: its sign, and its magnitude rounded to ten places. -/
theorem groupedRounded_eq (negative : Bool) (p : Nat) :
    groupedRounded negative p = signChars negative ++ groupedDigits p := by
  have hdigits := allDigits_decimalDigits (nearestSteps p / groupedSteps)
  have hne := decimalDigits_ne_nil (nearestSteps p / groupedSteps)
  have hlast : (signChars negative ++ decimalDigits (nearestSteps p / groupedSteps)).getLast? ≠
      some '.' := by
    rw [List.getLast?_append, List.getLast?_eq_some_getLast hne, Option.some_or, ne_eq,
      Option.some_inj]
    intro h
    exact absurd (hdigits '.' (h ▸ List.getLast_mem hne)) (by decide)
  have hfirst : (decimalDigits (nearestSteps p / groupedSteps) ++
      behindPoint (keptDigits (nearestSteps p))).head? ≠ some '-' := by
    rw [List.head?_append, List.head?_eq_some_head hne, Option.some_or, ne_eq, Option.some_inj]
    intro h
    exact absurd (hdigits '-' (h ▸ List.head_mem hne)) (by decide)
  have htrimmed : trimEnd '.' (trimEnd '0' (fixedPlaces negative p)) = signChars negative ++
      (decimalDigits (nearestSteps p / groupedSteps) ++ behindPoint (keptDigits (nearestSteps p))) := by
    rw [fixedPlaces, trimEnd_places hlast, List.append_assoc]
  unfold groupedRounded
  simp only
  rw [htrimmed, splitSign_append negative hfirst]
  simp only
  rw [splitPoint_append hdigits, groupDigits_eq, List.append_assoc, groupedDigits]

end PocketCalculator.Display
