import Pivotal.Circuit
import Pivotal.CommandLine
import Pivotal.Complex.Basic
import Pivotal.Complex.Literal
import Pivotal.Complex.Text
import Pivotal.Decimal.Binary
import Pivotal.Decimal.Layout
import Pivotal.Decimal.Literal
import Pivotal.Decimal.Shortest
import Pivotal.Demo
import Pivotal.Diagnostics.Bidiagonal
import Pivotal.Diagnostics.Determinant
import Pivotal.Diagnostics.Reflection
import Pivotal.Diagnostics.Residual
import Pivotal.Diagnostics.Rotation
import Pivotal.Diagnostics.SingularValues
import Pivotal.Diagnostics.Verdict
import Pivotal.Dict
import Pivotal.Elimination.Constant
import Pivotal.Elimination.Fault
import Pivotal.Elimination.Numeric
import Pivotal.Elimination.Symbolic
import Pivotal.Expr.Basic
import Pivotal.Expr.Count
import Pivotal.Expr.Eval
import Pivotal.Expr.Memory
import Pivotal.Expr.Text
import Pivotal.Grid
import Pivotal.Linear.Basic
import Pivotal.Linear.Coefficients
import Pivotal.Linear.Config
import Pivotal.Linear.Fault
import Pivotal.Linear.Report
import Pivotal.Main
import Pivotal.Notice
import Pivotal.Pivoting
import Pivotal.Proofs.Complex.Cuts
import Pivotal.Proofs.Complex.Grammar
import Pivotal.Proofs.Complex.ReadBack
import Pivotal.Proofs.Decimal.Double
import Pivotal.Proofs.Decimal.Grammar
import Pivotal.Proofs.Decimal.PlainText
import Pivotal.Proofs.Decimal.ReadBack
import Pivotal.Proofs.Elimination.Agreement
import Pivotal.Proofs.Elimination.Answers
import Pivotal.Proofs.Elimination.Arranged
import Pivotal.Proofs.Elimination.Blocks
import Pivotal.Proofs.Elimination.Exact
import Pivotal.Proofs.Elimination.Factorization
import Pivotal.Proofs.Elimination.FormulaSize
import Pivotal.Proofs.Elimination.Formulas
import Pivotal.Proofs.Elimination.InPlace
import Pivotal.Proofs.Elimination.Lines
import Pivotal.Proofs.Elimination.Magnitude
import Pivotal.Proofs.Elimination.Outcomes
import Pivotal.Proofs.Elimination.Refinement
import Pivotal.Proofs.Elimination.Replay
import Pivotal.Proofs.Elimination.Retirement
import Pivotal.Proofs.Elimination.Solution
import Pivotal.Proofs.Elimination.Triangular
import Pivotal.Proofs.Expr.Caching
import Pivotal.Proofs.Expr.Construction
import Pivotal.Proofs.Expr.Counting
import Pivotal.Proofs.Expr.Growth
import Pivotal.Proofs.Expr.Homomorphism
import Pivotal.Proofs.Expr.Sharing
import Pivotal.Proofs.Linear.Building
import Pivotal.Proofs.Linear.History
import Pivotal.Proofs.Linear.Numbering
import Pivotal.Proofs.Linear.Reachable
import Pivotal.Proofs.Linear.Removal
import Pivotal.Proofs.Linear.RoundTrip
import Pivotal.Proofs.Linear.Rows
import Pivotal.Proofs.Linear.SolverSection
import Pivotal.Proofs.Linear.SystemSection
import Pivotal.Proofs.Linear.Transparency
import Pivotal.Proofs.Table
import Pivotal.Proofs.Task.Classifying
import Pivotal.Proofs.Task.Comments
import Pivotal.Proofs.Task.Concatenation
import Pivotal.Proofs.Task.Filtering
import Pivotal.Proofs.Task.Hollow
import Pivotal.Proofs.Task.Kinds
import Pivotal.Proofs.Task.Layout
import Pivotal.Proofs.Task.Merging
import Pivotal.Proofs.Task.NextLine
import Pivotal.Proofs.Task.Numbers
import Pivotal.Proofs.Task.OneLine
import Pivotal.Proofs.Task.Pieces
import Pivotal.Proofs.Task.Reading
import Pivotal.Proofs.Task.Templates
import Pivotal.Proofs.Task.Writing
import Pivotal.Proofs.Text.Trim
import Pivotal.Task.Comment
import Pivotal.Task.Document
import Pivotal.Task.Reader
import Pivotal.Task.Value
import Pivotal.Text.Blank
import Pivotal.Text.Escaped
import Pivotal.Text.LetterCase
import Pivotal.Text.Lower
import Pivotal.Text.Quoted
import Pivotal.Text.Ranges
import Pivotal.Proofs.Expr.Contents
import Pivotal.Proofs.Expr.Bracketing
import Pivotal.Proofs.Elimination.Provenance
import Pivotal.Proofs.Linear.SavedTable
import Pivotal.Proofs.Elimination.Orders
import Pivotal.Proofs.Task.Progress
import Pivotal.Proofs.Elimination.PivotChoice
import Pivotal.Proofs.Elimination.Indexed
import Pivotal.Proofs.Elimination.InRange
