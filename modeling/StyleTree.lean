import StyleTree.Assoc
import StyleTree.Breakpoint.Basic
import StyleTree.Breakpoint.Registry
import StyleTree.Breakpoint.Table
import StyleTree.Command.Files
import StyleTree.Command.Job
import StyleTree.Command.Line
import StyleTree.Command.Load
import StyleTree.Command.Run
import StyleTree.Command.Usage
import StyleTree.Compile
import StyleTree.CompileError
import StyleTree.Config
import StyleTree.Constants
import StyleTree.Declaration
import StyleTree.Entry
import StyleTree.Fault
import StyleTree.Item
import StyleTree.Json.Cursor
import StyleTree.Json.Reader
import StyleTree.Json.Token
import StyleTree.KeyKind
import StyleTree.Lint.Diagnostic
import StyleTree.Lint.Finding
import StyleTree.Lint.Rule
import StyleTree.Lint.Validate
import StyleTree.Main
import StyleTree.Number.Basic
import StyleTree.Number.Binary64
import StyleTree.Number.Decimal
import StyleTree.Path
import StyleTree.Proofs.MediaContext
import StyleTree.Proofs.Trail
import StyleTree.Property
import StyleTree.Pseudo
import StyleTree.Sheet
import StyleTree.Spec
import StyleTree.Text.Blank
import StyleTree.Text.CamelCase
import StyleTree.Text.CharClass
import StyleTree.Text.ControlSequence
import StyleTree.Text.Hex
import StyleTree.Text.Newline
import StyleTree.Text.Printable
import StyleTree.Text.Quoted
import StyleTree.Text.Similarity
import StyleTree.Value
import StyleTree.Proofs.Visit
import StyleTree.Proofs.Gathering
import StyleTree.Proofs.TreeWalk
import StyleTree.Proofs.CheckedTree
import StyleTree.Proofs.Compilation
import StyleTree.Proofs.Agreement
import StyleTree.Proofs.Regrouping
import StyleTree.Proofs.Cascade
import StyleTree.Proofs.Uniformity
import StyleTree.Proofs.Commutation
import StyleTree.Proofs.Standalone
import StyleTree.Proofs.Transparency
import StyleTree.Proofs.Bracing
import StyleTree.Proofs.PlainText
import StyleTree.Proofs.ReadBack
import StyleTree.Proofs.TreeBlock
import StyleTree.Proofs.Lookups
import StyleTree.Proofs.Verdict
import StyleTree.Proofs.OnePass
import StyleTree.Proofs.EmptyBlocks
import StyleTree.Proofs.MediaNesting
import StyleTree.Proofs.NumberText
import StyleTree.Proofs.VoidBlocks
import StyleTree.Proofs.PseudoParameters
import StyleTree.Proofs.FiniteNumbers
import StyleTree.Proofs.ModifierNames
import StyleTree.Proofs.Substitution
import StyleTree.Proofs.NodeChange
import StyleTree.Proofs.Hyphenation
import StyleTree.Proofs.Interleaving
import StyleTree.Proofs.MobileOnly
import StyleTree.Proofs.Results
import StyleTree.Proofs.RegistryFaults
import StyleTree.Proofs.Consistency
import StyleTree.Proofs.RegistryRoundTrip
import StyleTree.Proofs.ItemSteps
import StyleTree.Proofs.WalkOrder
import StyleTree.Proofs.EntryPaths
import StyleTree.Proofs.DistinctErrors
import StyleTree.Proofs.PropertyNames
import StyleTree.Proofs.NearestDouble
import StyleTree.Proofs.LiteralReading
import StyleTree.Proofs.NumberValues
import StyleTree.Proofs.ReadValues
import StyleTree.Proofs.Outcomes
import StyleTree.Proofs.CommandLines
import StyleTree.Proofs.Reports
import StyleTree.Proofs.ExitCodes
