import PocketCalculator.Expression.Machine

/-!
# Derivation trees of expressions

The grammar in which operators of equal precedence group to the left and functions bind
tighter than operators:

    E ::= T | E (+|-) T      T ::= P | T (*|/) P
    P ::= U | P ^ U          U ::= number | ( E ) | f U

* `Tree`: its derivation trees, by the level of their nonterminal.
* `Tree.tokens`, `Tree.value`: what a tree derives, and what it is worth from the leaves up.
-/

namespace PocketCalculator

/-- **Derivation trees** by level: `Tree 1` is `E`, `Tree 2` is `T`, `Tree 3` is `P` and
`Tree 4` is `U`. An operator stands at the level of its precedence, its right operand one
level above. -/
inductive Tree : Nat → Type
  | number (x : Float) : Tree 4
  | group (e : Tree 1) : Tree 4
  | call (f : Scientific) (u : Tree 4) : Tree 4
  | single {n : Nat} (e : Tree (n + 1)) : Tree n
  | binary {n : Nat} (o : Operator) (level : o.precedence = n) (l : Tree n) (r : Tree (n + 1)) :
      Tree n

namespace Tree

/-- The tokens that a tree derives. -/
def tokens {n : Nat} : Tree n → List Token
  | number x => [.number x]
  | group e => .opening :: (e.tokens ++ [.closing])
  | call f u => .function f :: u.tokens
  | single e => e.tokens
  | binary o _ l r => l.tokens ++ .operator o :: r.tokens

/-- The value of a tree, from its leaves up. -/
def value {n : Nat} : Tree n → Float
  | number x => x
  | group e => e.value
  | call f u => f.apply u.value
  | single e => e.value
  | binary o _ l r => o.apply l.value r.value

end Tree

end PocketCalculator
