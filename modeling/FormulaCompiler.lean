import FormulaCompiler.Main
import FormulaCompiler.Proofs.Acceptance
import FormulaCompiler.Proofs.Binary64.Nearest
import FormulaCompiler.Proofs.Blame
import FormulaCompiler.Proofs.Classification
import FormulaCompiler.Proofs.Lexer.Lines
import FormulaCompiler.Proofs.Lexer.Tiling
import FormulaCompiler.Proofs.Outcome
import FormulaCompiler.Proofs.Printing
import FormulaCompiler.Proofs.RoundTrip
import FormulaCompiler.Proofs.Likeness
import FormulaCompiler.Proofs.Parser.Alike
import FormulaCompiler.Proofs.Defects
import FormulaCompiler.Proofs.Insensitivity
import FormulaCompiler.Proofs.Session.History
import FormulaCompiler.Proofs.Expression
import FormulaCompiler.Proofs.Tracing
import FormulaCompiler.Proofs.Program
import FormulaCompiler.Proofs.Lexer.Spacing
import FormulaCompiler.Proofs.Source.LineEnds
import FormulaCompiler.Proofs.Construction.Orderly
import FormulaCompiler.Proofs.Reports
import FormulaCompiler.Proofs.Listing.Numbers
import FormulaCompiler.Proofs.Lexer.Progress
import FormulaCompiler.Proofs.Excerpts
import FormulaCompiler.Proofs.Equality
import FormulaCompiler.Proofs.Artifact
import FormulaCompiler.Proofs.Exhaustion
import FormulaCompiler.Proofs.Parser.Backtracking
