import FormulaCompiler.AccessError
import FormulaCompiler.Position

/-!
# Sources and their characters

A source is a named run of bytes, perhaps cut short by a failing reader. It is read line by line: a
readable line loses its trailing carriage returns and delivers its characters followed by one line
break. The first line that is not UTF-8, or that the reader fails in, delivers only the error, and
nothing is read after it. A `CharStream` is all that a source still delivers, without regard to when
its lines are read.
-/

namespace FormulaCompiler

/-- A named input. With a `failure`, the reader reports that message after the bytes, where it would
otherwise report their end. -/
structure Source where
  name : String
  bytes : ByteArray
  failure : Option String := none

/-- What reading a source line by line gives: the readable lines and the error that ended them. -/
structure Reading where
  lines : List String
  failure : Option AccessError

namespace Source

def ofText (name text : String) : Source := { name, bytes := text.toUTF8 }

/-- The bytes between line breaks, in order. There is one piece more than there are line breaks: the
last one is what follows the last of them. -/
def pieces (bytes : List UInt8) : List (List UInt8) :=
  bytes.foldr
    (fun byte later =>
      if byte = 0x0a then [] :: later
      else match later with
        | [] => [[byte]]
        | piece :: others => (byte :: piece) :: others)
    [[]]

/-- A line without the carriage returns and line breaks at its end. -/
def trimmed (line : String) : String :=
  String.ofList ((line.toList.reverse.dropWhile fun c => c = '\r' || c = '\n').reverse)

/-- A line in front of what is read after it, unless the line is not UTF-8. -/
def readLine (bytes : List UInt8) (later : Reading) : Reading :=
  match String.fromUTF8? ⟨bytes.toArray⟩ with
  | none => ⟨[], some .invalidText⟩
  | some line => { later with lines := trimmed line :: later.lines }

/-- Reads the pieces of a source. The last piece has no line break, so a failing reader spoils it, and
if it is empty the input has ended. -/
def readPieces (failure : Option String) : List (List UInt8) → Reading
  | [] => ⟨[], none⟩
  | [last] =>
      match failure with
      | some message => ⟨[], some (.reader message)⟩
      | none => if last.isEmpty then ⟨[], none⟩ else readLine last ⟨[], none⟩
  | piece :: others => readLine piece (readPieces failure others)

def reading (s : Source) : Reading := readPieces s.failure (pieces s.bytes.data.toList)

end Source

/-- The characters that readable lines deliver: each line, then a line break. -/
def Reading.chars (r : Reading) : List Char := r.lines.flatMap fun line => line.toList ++ ['\n']

/-- The unread part of a source: the characters to come, the error after them, and the position of the
next character. -/
structure CharStream where
  source : String
  rest : List Char
  failure : Option AccessError
  here : Position

namespace CharStream

def ofSource (s : Source) : CharStream :=
  let reading := s.reading
  { source := s.name, rest := reading.chars, failure := reading.failure, here := {} }

def place (s : CharStream) : Span := Span.single s.source s.here

/-- The next character, or the error that stands in its place, and what is left after it. -/
def next? (s : CharStream) : Option (Except AccessError Char × CharStream) :=
  match s.rest, s.failure with
  | c :: rest, _ => some (.ok c, { s with rest, here := s.here.after c })
  | [], some error => some (.error error, { s with failure := none })
  | [], none => none

/-- How many lines have been read once the next character has been looked at. -/
def linesSeen (s : CharStream) : Nat := if s.rest.isEmpty then s.here.line - 1 else s.here.line

end CharStream

end FormulaCompiler
