import FormulaCompiler.Lexer.Mode
import FormulaCompiler.Position
import FormulaCompiler.SyntaxError

/-!
# Diagnostics

A report of problems of one kind. Each problem is shown with its place and, if the line that it starts
on has been read, an excerpt of the source: the lines of its span and a row of carets under its
columns. A footer counts the problems. Widths are words of 16 bits where a line is formatted, so a report
breaks off in front of a line with a wider column.
-/

namespace FormulaCompiler

/-- What can be wrong with a source that can be read. -/
inductive Problem where
  | lexical (error : LexError)
  | grammatical (error : SyntaxError)
  deriving DecidableEq

def Problem.message : Problem → String
  | lexical error => error.message
  | grammatical error => error.message

/-! ### Lines -/

/-- A line of a report, and the widths that its parts are padded to. -/
structure ReportLine where
  text : String
  widths : List Nat := []
  deriving DecidableEq

/-- The largest width that anything can be padded to. -/
def widthLimit : Nat := 0xffff

/-- Whether a line can be formatted. -/
def ReportLine.fits (line : ReportLine) : Bool := line.widths.all (· ≤ widthLimit)

/-- The text of some lines; every one of them ends in a line break. -/
def ReportLine.joined (lines : List ReportLine) : String := String.join (lines.map (·.text ++ "\n"))

/-! ### Excerpts -/

/-- The quoted lines of a span, each with its number, and the columns underlined below them. -/
structure Excerpt where
  /-- The width of the column of line numbers. -/
  gutter : Nat
  rows : List (Nat × String)
  /-- How many columns stand before the carets. -/
  skip : Nat
  width : Nat
  deriving DecidableEq

namespace Excerpt

/-- The excerpt for a span, if its first line is among those read. The underline reaches from the first
column to the last, whichever is larger; a span may end on another line, or before it starts. -/
def ofSpan? (lines : List String) (span : Span) : Option Excerpt :=
  if span.start.line = 0 ∨ lines.length < span.start.line then none
  else
    let numbers := List.range' span.start.line (span.stop.line + 1 - span.start.line)
    let first := span.start.column
    let last := span.stop.back.column
    some {
      gutter := (toString span.stop.line).length
      rows := numbers.filterMap fun number => lines[number - 1]?.map fun line => (number, line)
      skip := min first last - 1
      width := max first last - min first last + 1 }

def spaces (n : Nat) : String := String.ofList (List.replicate n ' ')

/-- A number at the right end of the gutter. -/
def numbered (gutter number : Nat) : String :=
  let digits := toString number
  spaces (gutter - digits.length) ++ digits

/-- A row of an excerpt with a line of the source. -/
def row (gutter : Nat) (number : Nat) (line : String) : ReportLine :=
  { text := numbered gutter number ++ " | " ++ line, widths := [gutter] }

/-- The row of an excerpt with the carets. -/
def underline (gutter skip width : Nat) : ReportLine :=
  { text := spaces gutter ++ " | " ++ spaces skip ++ String.ofList (List.replicate width '^')
    widths := [gutter, skip, width] }

/-- The rows of an excerpt between two rows of its own, all with the bar in the same column. -/
def lines (e : Excerpt) : List ReportLine :=
  [{ text := spaces e.gutter ++ " |", widths := [e.gutter] }]
    ++ e.rows.map (fun (number, line) => row e.gutter number line)
    ++ [underline e.gutter e.skip e.width]

end Excerpt

/-! ### Reports -/

/-- Problems of one kind, in the order in which they were found. -/
structure Diagnostics where
  kind : String := "error"
  problems : List (Spanned Problem) := []

namespace Diagnostics

def ofLexErrors (kind : String) (errors : List (Spanned LexError)) : Diagnostics :=
  { kind, problems := errors.map fun error => ⟨.lexical error.value, error.span⟩ }

def ofSyntaxError (kind : String) (error : Spanned SyntaxError) : Diagnostics :=
  { kind, problems := [⟨.grammatical error.value, error.span⟩] }

def size (d : Diagnostics) : Nat := d.problems.length

def messages (d : Diagnostics) : List String := d.problems.map (·.value.message)

/-- The block of lines for one problem, given the lines read so far; it ends with an empty line. -/
def block (kind : String) (read : List String) (problem : Spanned Problem) : List ReportLine :=
  [{ text := kind ++ ": " ++ problem.value.message }, { text := " --> " ++ problem.span.text }]
    ++ (Excerpt.ofSpan? read problem.span).elim [] Excerpt.lines
    ++ [{ text := "" }]

def footer (count : Nat) : ReportLine :=
  { text := "Build failed with " ++ toString count ++ (if count = 1 then " error" else " errors") }

/-- The lines of a whole report. -/
def lines (read : List String) (d : Diagnostics) : List ReportLine :=
  if d.problems.isEmpty then [{ text := "No errors were reported" }]
  else d.problems.flatMap (block d.kind read) ++ [footer d.size]

/-- The report as far as its lines can be formatted. -/
def text (read : List String) (d : Diagnostics) : String :=
  ReportLine.joined ((d.lines read).takeWhile ReportLine.fits)

/-- Whether the whole report can be formatted. -/
def whole (read : List String) (d : Diagnostics) : Bool := (d.lines read).all ReportLine.fits

def summary (d : Diagnostics) : String :=
  "Diagnostics \x7b kind: " ++ Text.quotedText d.kind ++ ", errors: ["
    ++ ", ".intercalate (d.messages.map Text.quotedText) ++ "] \x7d"

end Diagnostics

end FormulaCompiler
