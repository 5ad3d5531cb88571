import PocketCalculator.Document.Reader

/-!
# Quoted strings

Strings in quotation marks have escapes, those in apostrophes have none. Either kind
stands on one line, or between triple marks on several; a line break right behind the
opening triple is not part of the string. In a string of several lines a backslash at
the end of a line takes away the break and all spacing and breaks behind it, and one or
two marks may stand before the closing triple.

* `basicLine`, `literalLine`: a string on one line, up to its closing mark.
* `basicLines`, `literalLines`: a string on several lines.
* `quoted`: any of the four, by its opening marks.
-/

namespace PocketCalculator.Document

namespace Quoted

/-- The character of a one-letter escape. -/
def escapeOf? : Char → Option Char
  | 'b' => some '\x08'
  | 't' => some '\t'
  | 'n' => some '\n'
  | 'f' => some '\x0c'
  | 'r' => some '\r'
  | 'e' => some '\x1b'
  | c => if c = quotationMark ∨ c = backslash then some c else none

/-- The number of hexadecimal digits behind a letter that opens a numeric escape. -/
def codeLength? : Char → Option Nat
  | 'x' => some 2
  | 'u' => some 4
  | 'U' => some 8
  | _ => none

/-- The value of a hexadecimal digit. -/
def hexDigit? (c : Char) : Option Nat :=
  if c.isDigit then some (c.toNat - '0'.toNat)
  else if 'a' ≤ c ∧ c ≤ 'f' then some (c.toNat - 'a'.toNat + 10)
  else if 'A' ≤ c ∧ c ≤ 'F' then some (c.toNat - 'A'.toNat + 10)
  else none

/-- The character with a code point, unless that is a surrogate or out of range. -/
def charOf? (n : Nat) : Option Char := if n.isValidChar then some (Char.ofNat n) else none

/-- What the next character of a string belongs to. -/
inductive Place where
  /-- Plain text, behind this many marks that may belong to the closing triple. -/
  | plain (marks : Nat)
  /-- An escape whose backslash has just been taken. -/
  | escape
  /-- A numeric escape with so many digits left, and its value so far. -/
  | code (left value : Nat)
  /-- The spacing behind a backslash at the end of a line; the flag tells whether the
  line has ended. -/
  | fold (ended : Bool)

/-- Puts characters in front of what was read. -/
def after (front : List Char) : List Char × List Char → List Char × List Char
  | (cs, rest) => (front ++ cs, rest)

/-- **A string with escapes on one line**, and the text behind its closing mark. -/
def basicLine : Place → List Char → Option (List Char × List Char)
  | _, [] => none
  | .plain _, c :: rest =>
    if c = quotationMark then some ([], rest)
    else if c = backslash then basicLine .escape rest
    else if isPrintable c then (basicLine (.plain 0) rest).map (after [c])
    else none
  | .escape, c :: rest =>
    match escapeOf? c, codeLength? c with
    | some d, _ => (basicLine (.plain 0) rest).map (after [d])
    | none, some n => basicLine (.code n 0) rest
    | none, none => none
  | .code left value, c :: rest => do
    let value := 16 * value + (← hexDigit? c)
    if left ≤ 1 then (basicLine (.plain 0) rest).map (after [← charOf? value])
    else basicLine (.code (left - 1) value) rest
  | .fold _, _ :: _ => none

/-- **A string without escapes on one line**, and the text behind its closing mark. -/
def literalLine : List Char → Option (List Char × List Char)
  | [] => none
  | c :: rest =>
    if c = apostrophe then some ([], rest)
    else if isPrintable c then (literalLine rest).map (after [c])
    else none

/-- Whether a character may stand in a string of several lines before `rest`. -/
def inLines (c : Char) (rest : List Char) : Bool :=
  isPrintable c || c == '\n' || (c == '\r' && rest.head? == some '\n')

/-- How far a place is from taking a character. -/
def Place.depth : Place → Nat
  | escape => 2
  | fold _ => 1
  | _ => 0

/-- **A string with escapes on several lines**, and the text behind its closing triple.
The last three of up to five marks in a row close it. -/
def basicLines (place : Place) (cs : List Char) : Option (List Char × List Char) :=
  match place, cs with
  | .plain marks, [] =>
    if 3 ≤ marks then some (List.replicate (marks - 3) quotationMark, []) else none
  | _, [] => none
  | .plain marks, c :: rest =>
    if c = quotationMark then
      if marks = 4 then some ([quotationMark, quotationMark], rest)
      else basicLines (.plain (marks + 1)) rest
    else if 3 ≤ marks then some (List.replicate (marks - 3) quotationMark, c :: rest)
    else if c = backslash then
      (basicLines .escape rest).map (after (List.replicate marks quotationMark))
    else if inLines c rest then
      (basicLines (.plain 0) rest).map (after (List.replicate marks quotationMark ++ [c]))
    else none
  | .escape, c :: rest =>
    match escapeOf? c, codeLength? c with
    | some d, _ => (basicLines (.plain 0) rest).map (after [d])
    | none, some n => basicLines (.code n 0) rest
    | none, none => basicLines (.fold false) (c :: rest)
  | .code left value, c :: rest => do
    let value := 16 * value + (← hexDigit? c)
    if left ≤ 1 then (basicLines (.plain 0) rest).map (after [← charOf? value])
    else basicLines (.code (left - 1) value) rest
  | .fold ended, c :: rest =>
    if isSpacing c then basicLines (.fold ended) rest
    else if c = '\n' then basicLines (.fold true) rest
    else if c = '\r' ∧ rest.head? = some '\n' then basicLines (.fold ended) rest
    else if ended then basicLines (.plain 0) (c :: rest)
    else none
  termination_by (cs.length, place.depth)
  decreasing_by all_goals simp [Prod.lex_def, Place.depth]

/-- **A string without escapes on several lines**, and the text behind its closing
triple, after so many marks that may belong to it. -/
def literalLines : Nat → List Char → Option (List Char × List Char)
  | marks, [] =>
    if 3 ≤ marks then some (List.replicate (marks - 3) apostrophe, []) else none
  | marks, c :: rest =>
    if c = apostrophe then
      if marks = 4 then some ([apostrophe, apostrophe], rest) else literalLines (marks + 1) rest
    else if 3 ≤ marks then some (List.replicate (marks - 3) apostrophe, c :: rest)
    else if inLines c rest then
      (literalLines 0 rest).map (after (List.replicate marks apostrophe ++ [c]))
    else none

/-- The text without one line break at its front. -/
def dropBreak : List Char → List Char
  | '\n' :: rest => rest
  | '\r' :: '\n' :: rest => rest
  | cs => cs

/-- Reads a string on one line. -/
def oneLine : Reader String := fun cs =>
  match cs with
  | [] => none
  | c :: rest =>
    let body :=
      if c = quotationMark then basicLine (.plain 0) rest
      else if c = apostrophe then literalLine rest
      else none
    body.map fun (s, rest) => (String.ofList s, rest)

/-- Reads a string between triple marks. -/
def manyLines : Reader String := fun cs =>
  match cs with
  | a :: b :: c :: rest =>
    if a = b ∧ b = c then
      let body :=
        if a = quotationMark then basicLines (.plain 0) (dropBreak rest)
        else if a = apostrophe then literalLines 0 (dropBreak rest)
        else none
      body.map fun (s, rest) => (String.ofList s, rest)
    else none
  | _ => none

end Quoted

/-- Reads a quoted string. Triple marks always open a string of several lines. -/
def quoted : Reader String := fun cs =>
  if cs.take 3 = List.replicate 3 quotationMark ∨ cs.take 3 = List.replicate 3 apostrophe then
    Quoted.manyLines cs
  else Quoted.oneLine cs

end PocketCalculator.Document
