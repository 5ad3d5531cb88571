import PocketCalculator.Main
import PocketCalculator.Proofs.Scanning
import PocketCalculator.Proofs.Grammar
import PocketCalculator.Proofs.Evaluation
import PocketCalculator.Proofs.Parentheses
import PocketCalculator.Proofs.Postfix
import PocketCalculator.Proofs.TwoPhases
import PocketCalculator.Proofs.Operands
import PocketCalculator.Proofs.Acceptance
import PocketCalculator.Proofs.Applying
import PocketCalculator.Proofs.Diagnosis
import PocketCalculator.Proofs.Joining
import PocketCalculator.Proofs.Pieces
import PocketCalculator.Proofs.Decomposition
import PocketCalculator.Proofs.Lockstep
import PocketCalculator.Proofs.Substitution
import PocketCalculator.Proofs.Trimming
import PocketCalculator.Proofs.Typeable
import PocketCalculator.Proofs.Steps
import PocketCalculator.Proofs.Histories
import PocketCalculator.Proofs.Routes
import PocketCalculator.Proofs.Independence
import PocketCalculator.Proofs.Alphabets
import PocketCalculator.Proofs.Digits
import PocketCalculator.Proofs.Patterns
import PocketCalculator.Proofs.Grouping
import PocketCalculator.Proofs.Nearest
import PocketCalculator.Proofs.ReadBack
import PocketCalculator.Proofs.Enclosing
import PocketCalculator.Proofs.StrayRuns
import PocketCalculator.Proofs.Reports
import PocketCalculator.Proofs.Cuts
import PocketCalculator.Proofs.Spacing
import PocketCalculator.Proofs.Lines
import PocketCalculator.Proofs.Literals
import PocketCalculator.Proofs.Counters
import PocketCalculator.Proofs.Signs
import PocketCalculator.Proofs.Deletions
import PocketCalculator.Proofs.Replays
import PocketCalculator.Proofs.Segments
import PocketCalculator.Proofs.Sessions
import PocketCalculator.Proofs.LawfulToml
import PocketCalculator.Proofs.Descriptions
import PocketCalculator.Proofs.SettingsFiles
