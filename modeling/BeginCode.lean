import BeginCode.CommandLine
import BeginCode.Console
import BeginCode.Cursor
import BeginCode.Environment
import BeginCode.Error
import BeginCode.Expr
import BeginCode.Expr.Eval
import BeginCode.Expr.Reading
import BeginCode.Main
import BeginCode.Number.Decimal
import BeginCode.Number.Digits
import BeginCode.Number.Double
import BeginCode.Number.Integer
import BeginCode.Number.Positional
import BeginCode.Number.Remainder
import BeginCode.Number.Shortest
import BeginCode.Operator
import BeginCode.Operator.Apply
import BeginCode.Program
import BeginCode.Report
import BeginCode.Source.Piece
import BeginCode.Source.Scan
import BeginCode.Stmt
import BeginCode.Stmt.Exec
import BeginCode.Stmt.Reading
import BeginCode.Text.Blank
import BeginCode.Text.Field
import BeginCode.Text.Hidden
import BeginCode.Text.Quoted
import BeginCode.Token
import BeginCode.Token.Spelling
import BeginCode.Value
import BeginCode.Value.Field
import BeginCode.Proofs.BalancedScopes
import BeginCode.Proofs.CommandLineOutcomes
import BeginCode.Proofs.ExprYield
import BeginCode.Proofs.ForLoops
import BeginCode.Proofs.InputFields
import BeginCode.Proofs.InputLocality
import BeginCode.Proofs.Layout
import BeginCode.Proofs.LimitedOutput
import BeginCode.Proofs.Lossless
import BeginCode.Proofs.Outcomes
import BeginCode.Proofs.ProgramPrinting
import BeginCode.Proofs.ProgramShape
import BeginCode.Proofs.ReadBack
import BeginCode.Proofs.ScanLines
import BeginCode.Proofs.ScopeTracking
import BeginCode.Proofs.TextExpressions
import BeginCode.Proofs.TextLiterals
import BeginCode.Proofs.TypeSafety
import BeginCode.Proofs.ViablePrefix
import BeginCode.Proofs.Modifies
import BeginCode.Proofs.Progress
import BeginCode.Proofs.Bounds
import BeginCode.Proofs.Termination
import BeginCode.Proofs.Isolation
import BeginCode.Proofs.DecimalRounding
import BeginCode.Proofs.LongestMatch
import BeginCode.Proofs.TokenShapes
import BeginCode.Proofs.TokenPrinting
import BeginCode.Proofs.LineNumbers
import BeginCode.Proofs.ShortCircuit
import BeginCode.Proofs.IntegerArithmetic
import BeginCode.Proofs.IntegerLiterals
import BeginCode.Proofs.Assignment
