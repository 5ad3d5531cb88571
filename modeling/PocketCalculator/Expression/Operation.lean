/-!
# Operations

The five operators take two operands and the three functions one. Each has a symbol
and a precedence, higher for what binds tighter; functions bind tighter than any
operator. Angles are in degrees.

* `Operator.symbol_of_ofSymbol?`, `Scientific.name_of_ofName?`: what an operation is found by is its
  symbol.
* `Operator.precedence_lt`: functions bind tighter than operators.
-/

namespace PocketCalculator

/-- An operator with two operands. -/
inductive Operator where
  | add
  | subtract
  | multiply
  | divide
  | power
  deriving DecidableEq, Repr

namespace Operator

/-- The character an operator is written as. -/
def symbol : Operator → Char
  | add => '+'
  | subtract => '-'
  | multiply => '*'
  | divide => '/'
  | power => '^'

/-- The operator written as a character. -/
def ofSymbol? : Char → Option Operator
  | '+' => some add
  | '-' => some subtract
  | '*' => some multiply
  | '/' => some divide
  | '^' => some power
  | _ => none

/-- Every operator symbol is one of five characters. -/
theorem symbol_of_ofSymbol? {c : Char} {o : Operator} (h : ofSymbol? c = some o) :
    o.symbol = c := by
  unfold ofSymbol? at h
  split at h <;> cases h <;> rfl

/-- How tightly an operator binds. -/
def precedence : Operator → Nat
  | add | subtract => 1
  | multiply | divide => 2
  | power => 3

/-- The result of an operator, rounded to binary64. -/
def apply : Operator → Float → Float → Float
  | add, a, b => a + b
  | subtract, a, b => a - b
  | multiply, a, b => a * b
  | divide, a, b => a / b
  | power, a, b => a.pow b

end Operator

/-- A scientific function of one operand. -/
inductive Scientific where
  | sine
  | cosine
  | squareRoot
  deriving DecidableEq, Repr

/-- One degree in radians, `π / 180` rounded to binary64. -/
def degree : Float := Float.ofBits 0x3f91df46a2529d39

namespace Scientific

/-- The word a function is written as. -/
def name : Scientific → String
  | sine => "sin"
  | cosine => "cos"
  | squareRoot => "sqrt"

/-- The function written as a word, in lower case only. -/
def ofName? (s : String) : Option Scientific :=
  if s = "sin" then some sine
  else if s = "cos" then some cosine
  else if s = "sqrt" then some squareRoot
  else none

theorem name_of_ofName? {s : String} {f : Scientific} (h : ofName? s = some f) : f.name = s := by
  unfold ofName? at h
  split at h
  · next hs => cases h; exact hs.symm
  · split at h
    · next hs => cases h; exact hs.symm
    · split at h
      · next hs => cases h; exact hs.symm
      · cases h

/-- All functions bind equally tightly. -/
def precedence : Nat := 4

/-- The result of a function; sine and cosine take degrees. -/
def apply : Scientific → Float → Float
  | sine, a => (a * degree).sin
  | cosine, a => (a * degree).cos
  | squareRoot, a => a.sqrt

end Scientific

/-- **Functions bind tighter** than every operator. -/
theorem Operator.precedence_lt (o : Operator) : o.precedence < Scientific.precedence := by
  cases o <;> decide

/-- What can be applied to operands. -/
inductive Operation where
  | operator (o : Operator)
  | function (f : Scientific)
  deriving DecidableEq, Repr

namespace Operation

/-- The text an operation is written as. -/
def symbol : Operation → String
  | operator o => String.singleton o.symbol
  | function f => f.name

/-- How tightly an operation binds. -/
def precedence : Operation → Nat
  | operator o => o.precedence
  | function _ => Scientific.precedence

end Operation

end PocketCalculator
