/-!
# Positions and spans

A position is a line and a column, both counted from one; tabs move to the next of the columns that
lie four apart. A span names a source and a half-open range of positions in it, and is what tokens
and errors carry.
-/

namespace FormulaCompiler

/-- A line and a column of a source, both counted from one. -/
structure Position where
  line : Nat := 1
  column : Nat := 1
  deriving DecidableEq, Inhabited

namespace Position

def tabWidth : Nat := 4

def advance (p : Position) : Position := { p with column := p.column + 1 }

/-- One column back, but never before the first. -/
def back (p : Position) : Position := { p with column := max 1 (p.column - 1) }

def newline (p : Position) : Position := ⟨p.line + 1, 1⟩

def tab (p : Position) : Position :=
  { p with column := 1 + ((p.column - 1) / tabWidth + 1) * tabWidth }

/-- The position after a character that stands at `p`. -/
def after (p : Position) (c : Char) : Position :=
  if c = '\n' then p.newline else if c = '\t' then p.tab else p.advance

def text (p : Position) : String := toString p.line ++ ":" ++ toString p.column

end Position

/-- A range of positions in a named source; `stop` is the first position after it. -/
structure Span where
  source : String
  start : Position
  stop : Position
  deriving DecidableEq, Inhabited

namespace Span

/-- The single column at a position. -/
def single (source : String) (p : Position) : Span := ⟨source, p, p.advance⟩

def first (source : String) : Span := single source {}

/-- From the start of one span to the stop of another of the same source. -/
def through (first last : Span) : Span := ⟨first.source, first.start, last.stop⟩

/-- The source and the position, or both ends in brackets if the span is not one column wide. -/
def text (s : Span) : String :=
  s.source ++ ":" ++
    (if s.stop = s.start.advance then s.start.text
    else "[" ++ s.start.text ++ "-" ++ s.stop.back.text ++ "]")

end Span

structure Spanned (α : Type) where
  value : α
  span : Span

end FormulaCompiler
