/-!
# Blank characters and trimming

A character is **blank** when it has the Unicode property `White_Space`: tab to
carriage return, the space, and twenty-two others outside ASCII. Trimming takes
blanks off both ends of a text and leaves the middle alone.

* `trimChars_of_ends`: a text without a blank at either end is its own trimming.
-/

namespace PocketCalculator.Text

/-- **Blank characters**: the twenty-five code points with the property `White_Space`. -/
def isBlank (c : Char) : Bool :=
  let n := c.toNat
  (0x09 ≤ n && n ≤ 0x0D) || n == 0x20 || n == 0x85 || n == 0xA0 || n == 0x1680 ||
    (0x2000 ≤ n && n ≤ 0x200A) || n == 0x2028 || n == 0x2029 || n == 0x202F ||
    n == 0x205F || n == 0x3000

/-- The characters without the blanks at the front. -/
def trimFront (cs : List Char) : List Char := cs.dropWhile isBlank

/-- The characters without the blanks at the end. -/
def trimBack (cs : List Char) : List Char := (cs.reverse.dropWhile isBlank).reverse

/-- The characters without the blanks at either end. -/
def trimChars (cs : List Char) : List Char := trimBack (trimFront cs)

/-- The text without the blanks at either end. -/
def trim (s : String) : String := String.ofList (trimChars s.toList)

/-- A text that is empty or all blanks. -/
def isAllBlank (s : String) : Bool := s.toList.all isBlank

/-- **Nothing to trim.** A text without a blank at either end is left as it is. -/
theorem trimChars_of_ends {cs : List Char} (hf : ∀ c ∈ cs.head?, isBlank c = false)
    (hb : ∀ c ∈ cs.getLast?, isBlank c = false) : trimChars cs = cs := by
  have front : trimFront cs = cs := by
    cases cs with
    | nil => rfl
    | cons a rest => simp [trimFront, hf a (by simp)]
  have back : trimBack cs = cs := by
    rw [← List.head?_reverse] at hb
    unfold trimBack
    cases h : cs.reverse with
    | nil => simpa using h.symm
    | cons a rest =>
      rw [List.dropWhile_cons_of_neg (by simp [hb a (by simp [h])]), ← h, List.reverse_reverse]
  rw [trimChars, front, back]

end PocketCalculator.Text
