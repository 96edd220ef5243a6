import FormulaCompiler.Diagnostics
import FormulaCompiler.Parser.Grammar
import FormulaCompiler.Scan

/-!
# Engines

An engine reads a scan and answers with the tree of the whole unit or with the reason for rejecting
it, never with a part of a tree. The parser is one engine, and others can take its place.
-/

namespace FormulaCompiler

/-- Why there is no tree. -/
inductive EngineError where
  | invalid (diagnostics : Diagnostics)
  /-- The engine misused the tree: a defect of its own. -/
  | defect (error : Spanned TreeMisuse)
  | unreadable (error : Spanned AccessError)

/-- Turns a scan into a tree, given where the source starts. -/
abbrev Engine := Span → Scan → Except EngineError Node × Scan

/-- The error of an input that could not be read, if it is one. -/
def LexError.access? (error : Spanned LexError) : Option (Spanned AccessError) :=
  match error.value with
  | .input access => some ⟨access, error.span⟩
  | _ => none

/-- An unreadable input counts before any error in what could be read. -/
def EngineError.ofLexErrors (errors : List (Spanned LexError)) : EngineError :=
  match errors.findSome? LexError.access? with
  | some error => .unreadable error
  | none => .invalid (.ofLexErrors "Lexical error" errors)

def EngineError.ofSyntaxError (error : Spanned SyntaxError) : EngineError :=
  match error.value with
  | .tree misuse => .defect ⟨misuse, error.span⟩
  | _ => .invalid (.ofSyntaxError "Syntax error" error)

namespace Parser

/-- The tree of a whole unit, and the log of what was built for it. -/
def parse (start : Span) (tokens : List (Spanned Token)) (traced : Bool) (log : Log) :
    Except (Spanned SyntaxError) Node × Log :=
  match unit { tokens, lastRead := start, traced, log } with
  | .ok node after => (.ok node, after.log)
  | .error failure after => (.error failure.error, after.log)

/-- The engine of the grammar. It scans the whole source before it parses, so an error in any token
keeps it from parsing at all. -/
def engine (traced : Bool) : Engine := fun start scan =>
  match scan.exhaust with
  | (.error errors, scan) => (.error (.ofLexErrors errors), scan)
  | (.ok tokens, scan) =>
      let (result, log) := parse start tokens traced scan.log
      (result.mapError EngineError.ofSyntaxError, { scan with log })

end Parser

end FormulaCompiler
