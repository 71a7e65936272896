import Achievements.Memory.Encoding
import Achievements.Memory.History
import Achievements.Formula.Clause
import Achievements.Formula.Group
import Achievements.Formula.Reader
import Achievements.Formula.Writer
import Achievements.Formula.Lint
import Achievements.Progress.Frame
import Achievements.Engine.Basic
import Achievements.Plan.Build
import Achievements.Plan.Execution
import Achievements.Plan.Listing
import Achievements.Json.Reader
import Achievements.Json.Writer
import Achievements.Plan.Document
import Achievements.Engine.Document
import Achievements.CommandLine.Folder
import Achievements.Main
import Achievements.Proofs.Progress.Standalone
import Achievements.Proofs.Memory.Contents
import Achievements.Proofs.Progress.Counting
import Achievements.Proofs.Plan.Writes
import Achievements.Proofs.Plan.Solving
import Achievements.Proofs.Plan.Watching
import Achievements.Proofs.Plan.Sums
import Achievements.Proofs.Plan.Layout
import Achievements.Proofs.Plan.Growth
import Achievements.Proofs.Plan.Frames
import Achievements.Proofs.Plan.Ramps
import Achievements.Proofs.Plan.Soundness
import Achievements.Proofs.Text.Written
import Achievements.Proofs.Formula.Operands
import Achievements.Proofs.Formula.Marks
import Achievements.Proofs.Formula.Tokens
import Achievements.Proofs.Formula.RoundTrip
import Achievements.Proofs.Engine.Operations
import Achievements.Proofs.Engine.Restoring
import Achievements.Proofs.Engine.Resuming
import Achievements.Proofs.Plan.Alternatives
import Achievements.Proofs.Engine.Reports
import Achievements.Proofs.Plan.Conjunctions
import Achievements.Proofs.Plan.Agreement
import Achievements.Proofs.Engine.Renewal
import Achievements.Proofs.Engine.Spelling
import Achievements.Proofs.Decimal.Shortest
import Achievements.Proofs.Ieee.Nearest
import Achievements.Proofs.Ieee.Patterns
import Achievements.Proofs.Json.Leaves
import Achievements.Proofs.Json.Documents
import Achievements.Proofs.Json.Fields
import Achievements.Proofs.Decimal.Digits
import Achievements.Proofs.Decimal.Estimates
import Achievements.Proofs.Decimal.Exactness
import Achievements.Proofs.Json.Doubles
import Achievements.Proofs.Plan.Documents
import Achievements.Proofs.Engine.Stored
import Achievements.Proofs.Plan.Ends
import Achievements.Proofs.Plan.Verdicts
import Achievements.Proofs.Engine.Settled
import Achievements.Proofs.Formula.LetterCase
import Achievements.Proofs.Decimal.Magnitude
import Achievements.Proofs.Formula.Literals
import Achievements.Proofs.Formula.Constants
import Achievements.Proofs.Plan.Locality
import Achievements.Proofs.Memory.Generations
import Achievements.Proofs.Plan.Neutrality
import Achievements.Proofs.Progress.Groups
import Achievements.Proofs.Progress.Interruptions
import Achievements.Proofs.Progress.Recorded
import Achievements.Proofs.Progress.InPlace
import Achievements.Proofs.Progress.Erasure
import Achievements.Proofs.Progress.Passages
import Achievements.Proofs.Progress.Alike
import Achievements.Proofs.Progress.Retargeting
import Achievements.Proofs.Ieee.Order
import Achievements.Proofs.Ieee.Rounding
import Achievements.Proofs.Ieee.Sums
import Achievements.Proofs.Ieee.Narrowing
import Achievements.Proofs.Ieee.Integers
import Achievements.Proofs.Memory.Reals
import Achievements.Proofs.Plan.Fractions
import Achievements.Proofs.Progress.Accumulators
import Achievements.Proofs.Formula.Queue
import Achievements.Proofs.Formula.Sizes
import Achievements.Proofs.Plan.Running
import Achievements.Proofs.Plan.Overwriting
import Achievements.Proofs.Formula.Durations
import Achievements.Proofs.Ieee.Quotients
import Achievements.Proofs.Memory.Microsoft
import Achievements.Proofs.Memory.Rewriting
import Achievements.Proofs.Memory.Positions
