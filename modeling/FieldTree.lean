import FieldTree.Arena.Basic
import FieldTree.Arena.Forest
import FieldTree.Arena.Path
import FieldTree.Arena.Subtree
import FieldTree.Arena.Walk
import FieldTree.CommandLine.Arguments
import FieldTree.CommandLine.Output
import FieldTree.CommandLine.Run
import FieldTree.CommandLine.Wording
import FieldTree.Decimal.Binary64
import FieldTree.Decimal.Digits
import FieldTree.Decimal.Literal
import FieldTree.Decimal.Shortest
import FieldTree.Declaration
import FieldTree.Decomposition
import FieldTree.Drawing
import FieldTree.Failure
import FieldTree.Files
import FieldTree.Files.Snapshot
import FieldTree.Handler
import FieldTree.Introspection
import FieldTree.Lens
import FieldTree.NameMap
import FieldTree.Node
import FieldTree.Proofs.Planting
import FieldTree.Proofs.Unfolding
import FieldTree.Rose
import FieldTree.Schema.Basic
import FieldTree.Schema.File
import FieldTree.Schema.Format
import FieldTree.Schema.Load
import FieldTree.Schema.Symbols
import FieldTree.Settings.Basic
import FieldTree.Settings.Environment
import FieldTree.Settings.Format
import FieldTree.Settings.Load
import FieldTree.Settings.Part
import FieldTree.Settings.Tree
import FieldTree.Taken
import FieldTree.Text.Blank
import FieldTree.Text.Lower
import FieldTree.Text.Lower.Cased
import FieldTree.Text.Lower.Runs
import FieldTree.Text.Quoted
import FieldTree.Text.Quoted.Hidden
import FieldTree.Text.Ranges
import FieldTree.Toml.DateTime
import FieldTree.Toml.Document
import FieldTree.Toml.Draft
import FieldTree.Toml.Key
import FieldTree.Toml.Misfit
import FieldTree.Toml.Number
import FieldTree.Toml.Quoting
import FieldTree.Toml.Scalar
import FieldTree.Toml.Space
import FieldTree.Toml.Value
import FieldTree.Toml.Writer
import FieldTree.Traced
import FieldTree.TypeExpr.Basic
import FieldTree.TypeExpr.Parser
import FieldTree.TypeExpr.Token
import FieldTree.Main
import FieldTree.Proofs.Building
import FieldTree.Proofs.Grammar
import FieldTree.Proofs.Normal
import FieldTree.Proofs.Links
import FieldTree.Proofs.Resolution
import FieldTree.Proofs.Coverage
import FieldTree.Proofs.Strings
import FieldTree.Proofs.Documents
import FieldTree.Proofs.Saving
import FieldTree.Proofs.Endless
import FieldTree.Proofs.Subtrees
import FieldTree.Proofs.Dependence
import FieldTree.Proofs.Unread
import FieldTree.Proofs.Traversals
import FieldTree.Proofs.Flattening
import FieldTree.Proofs.Chains
import FieldTree.Proofs.Appending
import FieldTree.Proofs.Lookups
import FieldTree.Proofs.Handles
import FieldTree.Proofs.Faults
import FieldTree.Proofs.Naming
import FieldTree.Proofs.Nesting
import FieldTree.Proofs.Rendering
import FieldTree.Proofs.HandlerNames
import FieldTree.Proofs.Stages
import FieldTree.Proofs.Commands
import FieldTree.Proofs.Bracketing
import FieldTree.Proofs.Paths
import FieldTree.Proofs.Layers
import FieldTree.Proofs.Rounding
import FieldTree.Proofs.Shortest
import FieldTree.Proofs.Overrides
import FieldTree.Proofs.TitleCase
import FieldTree.Proofs.Displacing
import FieldTree.Proofs.Scalars
