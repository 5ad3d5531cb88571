import PocketCalculator.Expression.Fault
import PocketCalculator.Expression.Literal

/-!
# Lexemes

An expression is cut into lexemes: single operators and parentheses, and the longest
runs of other characters between them. Spaces separate runs and belong to no lexeme.
A run is a number, a function, or no token at all; the cutting goes on after it.

* `byteLength_eq`: the bytes of a run are those of its text.
* `Cursor.next?`: the next lexeme and the cursor behind it.
* `Cursor.length_of_next?`: every lexeme takes at least one character.
* `scan`: all lexemes of a text.
-/

namespace PocketCalculator

/-- What a lexeme means to the evaluation. -/
inductive Token where
  | number (value : Float)
  | operator (o : Operator)
  | function (f : Scientific)
  | opening
  | closing
  deriving DecidableEq

namespace Token

/-- The token of a character that is a lexeme by itself. -/
def ofMark? : Char → Option Token
  | '(' => some opening
  | ')' => some closing
  | c => (Operator.ofSymbol? c).map operator

/-- The token of a run of characters. -/
def ofRun? (run : List Char) : Option Token :=
  if Literal.isLiteral run then (Literal.value? run).map number
  else (Scientific.ofName? (String.ofList run)).map function

end Token

/-- Whether a character belongs to a run: it is no space, operator or parenthesis. -/
def inRun (c : Char) : Bool := c != ' ' && (Token.ofMark? c).isNone

/-- The number of bytes of a run of characters in UTF-8. -/
def byteLength : List Char → Nat
  | [] => 0
  | c :: rest => c.utf8Size + byteLength rest

/-- **Bytes of a run** are the bytes of its text. -/
theorem byteLength_eq (cs : List Char) : byteLength cs = (String.ofList cs).utf8ByteSize := by
  induction cs with
  | nil => rfl
  | cons c rest ih =>
    rw [byteLength, ih, String.ofList_cons, String.utf8ByteSize_append]
    simp

/-- **A lexeme**: its text, the byte offset where it starts, and its token if it has
one. -/
structure Lexeme where
  text : String
  offset : Nat
  token? : Option Token
  deriving DecidableEq

/-- The token of a lexeme, or the fault of having none. -/
def Lexeme.read (x : Lexeme) : Except Fault Token :=
  match x.token? with
  | some t => .ok t
  | none => .error (.unrecognized x.text x.offset)

/-- The rest of a text, and the byte offset where it starts. -/
structure Cursor where
  offset : Nat
  rest : List Char

namespace Cursor

/-- The cursor behind the spaces at its front. -/
def skipSpaces (c : Cursor) : Cursor :=
  ⟨c.offset + (c.rest.takeWhile (· == ' ')).length, c.rest.dropWhile (· == ' ')⟩

/-- **The next lexeme**, and the cursor behind it; nothing if only spaces are left. -/
def next? (c : Cursor) : Option (Lexeme × Cursor) :=
  let start := c.skipSpaces
  match start.rest with
  | [] => none
  | a :: rest =>
    match Token.ofMark? a with
    | some t => some (⟨String.singleton a, start.offset, some t⟩, ⟨start.offset + 1, rest⟩)
    | none =>
      let run := a :: rest.takeWhile inRun
      some (⟨String.ofList run, start.offset, Token.ofRun? run⟩,
        ⟨start.offset + byteLength run, rest.dropWhile inRun⟩)

theorem length_skipSpaces (c : Cursor) : c.skipSpaces.rest.length ≤ c.rest.length :=
  (List.dropWhile_suffix _).length_le

/-- **Progress.** Every lexeme takes at least one character. -/
theorem length_of_next? {c d : Cursor} {x : Lexeme} (h : c.next? = some (x, d)) :
    d.rest.length < c.rest.length := by
  have skipped := c.length_skipSpaces
  unfold next? at h
  simp only at h
  split at h
  · cases h
  · next a rest hr =>
    rw [hr, List.length_cons] at skipped
    split at h
    · cases h; exact skipped
    · cases h
      exact Nat.lt_of_le_of_lt (List.dropWhile_suffix _).length_le skipped

/-- All lexemes from a cursor on. -/
def lexemes (c : Cursor) : List Lexeme :=
  match h : c.next? with
  | none => []
  | some (x, d) =>
    have := length_of_next? h
    x :: d.lexemes
  termination_by c.rest.length

end Cursor

/-- **All lexemes of a text**, in order. -/
def scan (s : String) : List Lexeme := Cursor.lexemes ⟨0, s.toList⟩

end PocketCalculator
