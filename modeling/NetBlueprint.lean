import NetBlueprint.Analysis.Cycle
import NetBlueprint.Analysis.Order
import NetBlueprint.Analysis.Shapes
import NetBlueprint.Analysis.Validation
import NetBlueprint.CommandLine.Arguments
import NetBlueprint.CommandLine.Commands
import NetBlueprint.CommandLine.Help
import NetBlueprint.CommandLine.Layout
import NetBlueprint.CommandLine.Options
import NetBlueprint.Compiler.Expansion
import NetBlueprint.Compiler.Fault
import NetBlueprint.Compiler.Grouping
import NetBlueprint.Compiler.Materialize
import NetBlueprint.Compiler.Names
import NetBlueprint.Compiler.Run
import NetBlueprint.Compiler.State
import NetBlueprint.Compiler.Suffix
import NetBlueprint.Compiler.Visit
import NetBlueprint.Compiler.Wiring
import NetBlueprint.Decimal.Binary
import NetBlueprint.Decimal.Layout
import NetBlueprint.Decimal.Literal
import NetBlueprint.Decimal.Shortest
import NetBlueprint.Expr.Basic
import NetBlueprint.Expr.Evaluation
import NetBlueprint.Expr.Parser
import NetBlueprint.Graph.Activation
import NetBlueprint.Graph.Condition
import NetBlueprint.Graph.Evaluation
import NetBlueprint.Graph.Fault
import NetBlueprint.Graph.Layer
import NetBlueprint.Graph.Network
import NetBlueprint.Graph.Shape
import NetBlueprint.Json.Number
import NetBlueprint.Json.Reader
import NetBlueprint.Json.Value
import NetBlueprint.Json.Writer
import NetBlueprint.Main
import NetBlueprint.Pipeline.Config
import NetBlueprint.Pipeline.Metrics
import NetBlueprint.Pipeline.Stages
import NetBlueprint.Program.Decoding
import NetBlueprint.Program.Encoding
import NetBlueprint.Program.Instruction
import NetBlueprint.Program.Loading
import NetBlueprint.Proofs.Analysis.Converging
import NetBlueprint.Proofs.Analysis.Cycle
import NetBlueprint.Proofs.Analysis.CycleStack
import NetBlueprint.Proofs.Analysis.Declaring
import NetBlueprint.Proofs.Analysis.Order
import NetBlueprint.Proofs.Analysis.Propagating
import NetBlueprint.Proofs.Analysis.Reporting
import NetBlueprint.Proofs.Compiler.Accounting
import NetBlueprint.Proofs.Compiler.AutoInputs
import NetBlueprint.Proofs.Compiler.Binding
import NetBlueprint.Proofs.Compiler.Bookkeeping
import NetBlueprint.Proofs.Compiler.Books
import NetBlueprint.Proofs.Compiler.Branching
import NetBlueprint.Proofs.Compiler.CalledBodies
import NetBlueprint.Proofs.Compiler.Capture
import NetBlueprint.Proofs.Compiler.Children
import NetBlueprint.Proofs.Compiler.Choosing
import NetBlueprint.Proofs.Compiler.Connections
import NetBlueprint.Proofs.Compiler.Counting
import NetBlueprint.Proofs.Compiler.Deepening
import NetBlueprint.Proofs.Compiler.Defining
import NetBlueprint.Proofs.Compiler.Disjointness
import NetBlueprint.Proofs.Compiler.Drawing
import NetBlueprint.Proofs.Compiler.Exhausting
import NetBlueprint.Proofs.Compiler.Faults
import NetBlueprint.Proofs.Compiler.Following
import NetBlueprint.Proofs.Compiler.Forwarding
import NetBlueprint.Proofs.Compiler.Gathering
import NetBlueprint.Proofs.Compiler.Growth
import NetBlueprint.Proofs.Compiler.Housing
import NetBlueprint.Proofs.Compiler.Inheriting
import NetBlueprint.Proofs.Compiler.Inlining
import NetBlueprint.Proofs.Compiler.Inputs
import NetBlueprint.Proofs.Compiler.Instances
import NetBlueprint.Proofs.Compiler.Maintaining
import NetBlueprint.Proofs.Compiler.Materializing
import NetBlueprint.Proofs.Compiler.Measuring
import NetBlueprint.Proofs.Compiler.Nesting
import NetBlueprint.Proofs.Compiler.OwnSteps
import NetBlueprint.Proofs.Compiler.Parts
import NetBlueprint.Proofs.Compiler.Registering
import NetBlueprint.Proofs.Compiler.Reordering
import NetBlueprint.Proofs.Compiler.Reseeding
import NetBlueprint.Proofs.Compiler.Rooting
import NetBlueprint.Proofs.Compiler.Scoping
import NetBlueprint.Proofs.Compiler.SideNames
import NetBlueprint.Proofs.Compiler.Steps
import NetBlueprint.Proofs.Compiler.Straight
import NetBlueprint.Proofs.Compiler.Success
import NetBlueprint.Proofs.Compiler.SuffixReading
import NetBlueprint.Proofs.Compiler.SuffixedTrees
import NetBlueprint.Proofs.Compiler.Terminating
import NetBlueprint.Proofs.Compiler.Trail
import NetBlueprint.Proofs.Compiler.Turning
import NetBlueprint.Proofs.Compiler.Unfolding
import NetBlueprint.Proofs.Compiler.Watching
import NetBlueprint.Proofs.Condition.Printing
import NetBlueprint.Proofs.Expr.Exactness
import NetBlueprint.Proofs.Expr.Printing
import NetBlueprint.Proofs.Expr.References
import NetBlueprint.Proofs.Expr.Tokens
import NetBlueprint.Proofs.Graph.Allocation
import NetBlueprint.Proofs.Graph.Dependencies
import NetBlueprint.Proofs.Graph.Evaluation
import NetBlueprint.Proofs.Graph.Fitting
import NetBlueprint.Proofs.Graph.Grounded
import NetBlueprint.Proofs.Graph.Outputs
import NetBlueprint.Proofs.Graph.Sharing
import NetBlueprint.Proofs.Graph.Touching
import NetBlueprint.Proofs.Graph.Weights
import NetBlueprint.Proofs.Graph.WellFormed
import NetBlueprint.Proofs.Graph.Yielding
import NetBlueprint.Proofs.Json.Numbers
import NetBlueprint.Proofs.Json.RoundTrip
import NetBlueprint.Proofs.Outcome
import NetBlueprint.Proofs.Pipeline.Evaluating
import NetBlueprint.Proofs.Pipeline.Listing
import NetBlueprint.Proofs.Pipeline.Naming
import NetBlueprint.Proofs.Pipeline.Repeating
import NetBlueprint.Proofs.Pipeline.Selecting
import NetBlueprint.Proofs.Pipeline.Widths
import NetBlueprint.Proofs.Program.Decoding
import NetBlueprint.Proofs.Program.Loading
import NetBlueprint.Proofs.Substitution.CleanNames
import NetBlueprint.Proofs.Substitution.Ending
import NetBlueprint.Proofs.Substitution.Filling
import NetBlueprint.Proofs.Substitution.Interpolating
import NetBlueprint.Proofs.Substitution.Operations
import NetBlueprint.Proofs.Substitution.Positions
import NetBlueprint.Proofs.Substitution.RespelledFilling
import NetBlueprint.Proofs.Substitution.RespelledTrees
import NetBlueprint.Proofs.Substitution.Scanning
import NetBlueprint.Proofs.Substitution.Simultaneity
import NetBlueprint.Proofs.Substitution.Splicing
import NetBlueprint.Proofs.Substitution.Suffixing
import NetBlueprint.Proofs.Table
import NetBlueprint.Substitution.Basic
import NetBlueprint.Substitution.Hygiene
import NetBlueprint.Substitution.Tree
import NetBlueprint.Text.Blank
import NetBlueprint.Text.Integer
import NetBlueprint.Text.Order
import NetBlueprint.Text.Word
import NetBlueprint.Toml.Reader
import NetBlueprint.Toml.Scalar
import NetBlueprint.Toml.Table
