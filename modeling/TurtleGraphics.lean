import TurtleGraphics.Text.Blank
import TurtleGraphics.Text.Split
import TurtleGraphics.Number.Binary
import TurtleGraphics.Number.Arithmetic
import TurtleGraphics.Number.Shortest
import TurtleGraphics.Number.Plain
import TurtleGraphics.Diagnostic
import TurtleGraphics.Formula.Symbol
import TurtleGraphics.Formula.Error
import TurtleGraphics.Formula.Token
import TurtleGraphics.Formula.Expr
import TurtleGraphics.Formula.Reading
import TurtleGraphics.Formula.Builtin
import TurtleGraphics.Formula.Library
import TurtleGraphics.Formula.Definition
import TurtleGraphics.Formula.Template
import TurtleGraphics.Fault
import TurtleGraphics.Program.Line
import TurtleGraphics.Program.Statement
import TurtleGraphics.Program.Block
import TurtleGraphics.Program.Layout
import TurtleGraphics.Space.Vector
import TurtleGraphics.Space.Quaternion
import TurtleGraphics.Paint.Keystream
import TurtleGraphics.Paint.Color
import TurtleGraphics.Picture.Primitive
import TurtleGraphics.Picture.Timeline
import TurtleGraphics.Picture.Player
import TurtleGraphics.Run.Config
import TurtleGraphics.Run.Scene
import TurtleGraphics.Run.Context
import TurtleGraphics.Run.Machine
import TurtleGraphics.Run.Command
import TurtleGraphics.Run.Call
import TurtleGraphics.Run.Execution
import TurtleGraphics.Proofs.Fields
import TurtleGraphics.Proofs.Wording
import TurtleGraphics.Proofs.LogicalLines
import TurtleGraphics.Proofs.BlockGrammar
import TurtleGraphics.Proofs.PrintedLines
import TurtleGraphics.Proofs.Headings
import TurtleGraphics.Proofs.RoundTrip
import TurtleGraphics.Proofs.Legibility
import TurtleGraphics.Proofs.Reprinting
import TurtleGraphics.Proofs.TimelineLog
import TurtleGraphics.Proofs.Statements
import TurtleGraphics.Proofs.Trace
import TurtleGraphics.Proofs.Drawing
import TurtleGraphics.Proofs.Budgets
import TurtleGraphics.Proofs.Playback
import TurtleGraphics.Proofs.OperatorGrammar
import TurtleGraphics.Proofs.OperatorClimbing
import TurtleGraphics.Proofs.CheckedCalls
import TurtleGraphics.Proofs.Stepping
import TurtleGraphics.Proofs.ResourceBounds
import TurtleGraphics.Proofs.TimelineEdits
import TurtleGraphics.Proofs.Notices
import TurtleGraphics.Proofs.BlockScan
import TurtleGraphics.Proofs.History
import TurtleGraphics.Proofs.Marks
import TurtleGraphics.Proofs.PlayingOut
import TurtleGraphics.Proofs.FailedCommands
import TurtleGraphics.Proofs.TreeHeight
import TurtleGraphics.Proofs.Scanning
import TurtleGraphics.Proofs.CommaCount
import TurtleGraphics.Proofs.FunctionStatements
import TurtleGraphics.Proofs.FlatLog
import TurtleGraphics.Proofs.OpenPath
import TurtleGraphics.Proofs.StatementLines
import TurtleGraphics.Proofs.Interpolation
import TurtleGraphics.Proofs.ClosedTexts
import TurtleGraphics.Proofs.CallDepth
import TurtleGraphics.Proofs.WholeParts
import TurtleGraphics.Proofs.Guards
import TurtleGraphics.Proofs.Unrolling
import TurtleGraphics.Proofs.ClosedBodies
import TurtleGraphics.Proofs.ImplicitProducts
import TurtleGraphics.Proofs.FaultLines
import TurtleGraphics.Proofs.StraightLine
import TurtleGraphics.Proofs.Rotations
import TurtleGraphics.Proofs.DefinitionTexts
import TurtleGraphics.Proofs.Margins
import TurtleGraphics.Proofs.Coherence
import TurtleGraphics.Proofs.SourceLines
import TurtleGraphics.Proofs.LongestMatch
import TurtleGraphics.Proofs.Annotation
