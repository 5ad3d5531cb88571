/-!
# Reading characters

A reader takes characters from the front of a text, or fails. Documents are read with
the few readers of this module.

* `accept`, `expect`, `takeRun`: single characters and runs.
* `spaces`, `gap`, `lineEnd`: what may stand between the parts of a document.
-/

namespace PocketCalculator.Document

/-- A reader of `α` from the front of a text. -/
abbrev Reader := StateT (List Char) Option

/-- The quotation mark. -/
def quotationMark : Char := '\x22'

/-- The apostrophe. -/
def apostrophe : Char := '\x27'

/-- The backslash. -/
def backslash : Char := '\x5c'

/-- Characters that may stand in comments and on a line of a string: all but the control
characters other than the tab. -/
def isPrintable (c : Char) : Bool := c == '\t' || (0x20 ≤ c.toNat && c.toNat != 0x7F)

/-- Spaces and tabs. -/
def isSpacing (c : Char) : Bool := c == ' ' || c == '\t'

namespace Reader

/-- Takes a character if it comes next, and tells whether it did. -/
def accept (c : Char) : Reader Bool := fun cs =>
  match cs with
  | d :: rest => if d = c then some (true, rest) else some (false, cs)
  | [] => some (false, [])

/-- Takes a character that has to come next. -/
def expect (c : Char) : Reader Unit := do
  if !(← accept c) then failure

/-- Takes the longest run of characters of a kind. -/
def takeRun (p : Char → Bool) : Reader (List Char) := fun cs =>
  some (cs.takeWhile p, cs.dropWhile p)

/-- Takes spaces and tabs. -/
def spaces : Reader Unit := do
  let _ ← takeRun isSpacing

/-- The text without spacing, line breaks and comments at its front. The flag tells
whether a comment is open. A line breaks at a line feed, with or without a carriage
return before it. -/
def skipGap : Bool → List Char → Option (List Char)
  | _, [] => some []
  | inComment, c :: rest =>
    if c = '\n' then skipGap false rest
    else if c = '\r' then
      if rest.head? = some '\n' then skipGap false rest else none
    else if inComment then
      if isPrintable c then skipGap true rest else none
    else if isSpacing c then skipGap false rest
    else if c = '#' then skipGap true rest
    else some (c :: rest)

/-- Takes spacing, line breaks and comments. -/
def gap : Reader Unit := fun cs => (skipGap false cs).map fun rest => ((), rest)

/-- The text behind the current line, of which only spacing and a comment may be left. -/
def skipLine : Bool → List Char → Option (List Char)
  | _, [] => some []
  | inComment, c :: rest =>
    if c = '\n' then some rest
    else if c = '\r' then
      if rest.head? = some '\n' then some rest.tail else none
    else if inComment then
      if isPrintable c then skipLine true rest else none
    else if isSpacing c then skipLine false rest
    else if c = '#' then skipLine true rest
    else none

/-- Takes what may be left of a line, and the break at its end. -/
def lineEnd : Reader Unit := fun cs => (skipLine false cs).map fun rest => ((), rest)

/-- Runs a reader that has to take the whole text. -/
def takeAll {α : Type} (r : Reader α) (cs : List Char) : Option α :=
  match r cs with
  | some (a, []) => some a
  | _ => none

end Reader

end PocketCalculator.Document
