import LogoLang.Main
import LogoLang.Syntax.Outline
import LogoLang.Proofs.Results
import LogoLang.Proofs.Text.Blank
import LogoLang.Proofs.Syntax.Cursor
import LogoLang.Proofs.Syntax.Statement
import LogoLang.Proofs.Syntax.Flaws
import LogoLang.Proofs.Syntax.Bare
import LogoLang.Proofs.Syntax.Written
import LogoLang.Proofs.Syntax.ReadBack
import LogoLang.Proofs.Syntax.Nodes
import LogoLang.Proofs.Syntax.Spans
import LogoLang.Proofs.Program.Balance
import LogoLang.Proofs.Program.Grammar
import LogoLang.Proofs.Program.Assembly
import LogoLang.Proofs.Program.LineView
import LogoLang.Proofs.Program.LockStep
import LogoLang.Proofs.Program.Aligned
import LogoLang.Proofs.Program.BalanceErrors
import LogoLang.Proofs.Program.Layout
import LogoLang.Proofs.Program.WrittenLine
import LogoLang.Proofs.Program.RoundTrip
import LogoLang.Proofs.Program.Provenance
import LogoLang.Proofs.Program.Diagnostics
import LogoLang.Proofs.Run.Effects
import LogoLang.Proofs.Run.Steps
import LogoLang.Proofs.Run.Refusals
import LogoLang.Proofs.Emit.Types
import LogoLang.Proofs.Emit.Agreement
import LogoLang.Proofs.Emit.Statement
import LogoLang.Proofs.Emit.Doubt
import LogoLang.Proofs.Session.WellFormed
import LogoLang.Proofs.Session.Diagnostics
import LogoLang.Proofs.Session.TypeSafety
import LogoLang.Proofs.Program.HiddenHeading
import LogoLang.Proofs.Number.Double
import LogoLang.Proofs.Run.HeadingRange
import LogoLang.Proofs.Session.LostHeading
import LogoLang.Proofs.Run.Calls
import LogoLang.Proofs.Run.Deeds
import LogoLang.Proofs.Run.Frames
import LogoLang.Proofs.Run.Isolation
import LogoLang.Proofs.Program.OpenBlocks
import LogoLang.Proofs.Run.SharedVariables
import LogoLang.Proofs.Number.Format
import LogoLang.Proofs.Number.Single
import LogoLang.Proofs.Number.Numerals
import LogoLang.Proofs.Syntax.Literals
import LogoLang.Proofs.Run.SinglePrecision
import LogoLang.Proofs.Turtle.Record
import LogoLang.Proofs.Turtle.Drawing
import LogoLang.Proofs.Text.Rows
import LogoLang.Proofs.Syntax.Renumbering
import LogoLang.Proofs.Syntax.Comments
import LogoLang.Proofs.Program.Derivation
import LogoLang.Proofs.Program.Rearrangement
import LogoLang.Proofs.Program.FailureLines
import LogoLang.Proofs.Program.Insertion
import LogoLang.Proofs.Program.Growth
import LogoLang.Proofs.Program.CommentLines
import LogoLang.Proofs.Run.SameVariables
import LogoLang.Proofs.Run.Growth
import LogoLang.Proofs.Emit.Functions
import LogoLang.Proofs.Emit.Growth
import LogoLang.Proofs.Emit.Rows
import LogoLang.Proofs.Emit.OneRow
import LogoLang.Proofs.Emit.Nesting
import LogoLang.Proofs.Emit.Structure
import LogoLang.Proofs.Emit.Reading
import LogoLang.Proofs.Session.Emission
import LogoLang.Proofs.Session.Rearrangement
import LogoLang.Proofs.Session.Insertion
import LogoLang.Proofs.Session.Comments
import LogoLang.Proofs.Session.BlockStructure
import LogoLang.Proofs.Run.CallFaults
import LogoLang.Proofs.Session.CallBinding
import LogoLang.Proofs.Emit.Methods
import LogoLang.Proofs.Emit.CalledNames
import LogoLang.Proofs.Emit.DefinedNames
import LogoLang.Proofs.Session.SupportClass
import LogoLang.Proofs.Session.DistinctNames
import LogoLang.Proofs.Syntax.Embedding
import LogoLang.Proofs.Program.CallLine
import LogoLang.Proofs.Session.Callable
import LogoLang.Proofs.Syntax.Operands
import LogoLang.Proofs.Syntax.Excerpt
import LogoLang.Proofs.Syntax.ExactSpans
import LogoLang.Proofs.Syntax.LeftmostFlaw
import LogoLang.Proofs.Number.Exact
import LogoLang.Proofs.Run.TurtleCalls
import LogoLang.Proofs.Tool.Folder
import LogoLang.Proofs.Tool.Arguments
import LogoLang.Proofs.Tool.AllOrNothing
import LogoLang.Proofs.Diagnostic.Context
import LogoLang.Proofs.Program.TouchingBracket
import LogoLang.Proofs.Number.Nearest
import LogoLang.Proofs.Number.Parts
import LogoLang.Proofs.Number.Shortest
import LogoLang.Proofs.Number.Magnitudes
import LogoLang.Proofs.Number.ReadBack
import LogoLang.Proofs.Number.ShortForm
import LogoLang.Proofs.Emit.Literals
import LogoLang.Proofs.Emit.InfixTree
import LogoLang.Proofs.Emit.UniqueReading
import LogoLang.Proofs.Program.StackDepth
import LogoLang.Proofs.Session.Options
import LogoLang.Proofs.Syntax.Progress
import LogoLang.Proofs.Syntax.OutlineTree
import LogoLang.Proofs.Syntax.Outline
import LogoLang.Proofs.Program.Outlines
import LogoLang.Proofs.Syntax.Indentation
