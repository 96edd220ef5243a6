import FormulaCompiler.Engine
import FormulaCompiler.FileSystem

/-!
# Sessions

A session owns one compilation unit: it has a source scanned and parsed, holds the tree until it is
taken, and writes the artifact `<directory>/<unit>.asm`.

```text
idle -> parsing -> succeeded | failed -> idle
```

Every parse starts with a reset, so a failure never stands in the way of another attempt. Problems of
the source are reported to the error stream. A stream that refuses the report makes no difference to the
outcome, but a report that cannot be formatted breaks off the parse.
-/

namespace FormulaCompiler

inductive Phase where
  | idle
  | parsing
  | succeeded (tree : Node)
  | failed

inductive SessionError where
  /-- The input could not be opened, or not read to its end. -/
  | inputUnavailable (path : String) (cause : AccessError)
  /-- The input is not a unit of the language. -/
  | invalidInput (unit : String) (problems : Nat)
  | defect (unit : String) (cause : TreeMisuse)
  | outputUnavailable (path : String) (cause : AccessError)
  /-- The report of the problems broke off, and the parse with it: it has no result. -/
  | brokenOff

namespace SessionError

def message : SessionError → String
  | inputUnavailable path _ => "Failed to read input " ++ path
  | invalidInput unit problems =>
      "Unit `" ++ unit ++ "` failed to parse with " ++ toString problems ++ " error(s)"
  | defect unit _ => "Internal error while building the syntax tree of `" ++ unit ++ "`"
  | outputUnavailable path _ => "Failed to write output artifact " ++ path
  | brokenOff => "Formatting argument out of range"

/-- The message of what lies behind an error. -/
def cause? : SessionError → Option String
  | inputUnavailable _ cause => some cause.message
  | invalidInput _ _ => none
  | defect _ cause => some cause.message
  | outputUnavailable _ cause => some cause.message
  | brokenOff => none

end SessionError

/-- A stream for reports. It keeps what is written to it, or refuses every write with a message. -/
structure ErrorStream where
  refusal : Option String := none
  text : String := ""

def ErrorStream.write (stream : ErrorStream) (text : String) : Except String ErrorStream :=
  match stream.refusal with
  | some reason => .error reason
  | none => .ok { stream with text := stream.text ++ text }

/-- Which of the scanner and the parser log what they do. -/
structure Tracing where
  scanning : Bool := false
  parsing : Bool := false
  deriving DecidableEq

/-- One compilation unit with its collaborators and what has become of it so far. -/
structure Session where
  directory : String
  unit : String
  scanner : Scanner := Lexer.scan false
  engine : Engine := Parser.engine false
  errors : ErrorStream := {}
  /-- Where the source under way, or parsed last, starts. -/
  location : Option Span := none
  phase : Phase := .idle
  log : Log := #[]

namespace Session

def record (s : Session) (level : LogLevel) (message : String) : Session :=
  { s with log := s.log.push ⟨level, message⟩ }

def unitText (s : Session) : String := "`" ++ s.unit ++ "`"

def withTracing (s : Session) (trace : Tracing) : Session :=
  { s with scanner := Lexer.scan trace.scanning, engine := Parser.engine trace.parsing }

/-- The tree of the unit, if its last parse succeeded and nobody has taken it. -/
def tree? (s : Session) : Option Node :=
  match s.phase with
  | .succeeded tree => some tree
  | _ => none

/-- Forgets the last source and its tree. -/
def reset (s : Session) : Session :=
  let s :=
    match s.phase with
    | .idle => s
    | _ => s.record .debug ("Resetting unit " ++ s.unitText)
  { s with location := none, phase := .idle }

/-- Reports problems, shown with the lines read by then, and gives the error that a parse with them ends in.
A stream that refuses to be written to does so at once, before there is anything wide to be formatted. -/
def report (s : Session) (read : List String) (diagnostics : Diagnostics) : SessionError × Session :=
  match s.errors.write (diagnostics.text read) with
  | .ok errors =>
      (if diagnostics.whole read then .invalidInput s.unit diagnostics.size else .brokenOff,
        { s with errors })
  | .error reason =>
      (.invalidInput s.unit diagnostics.size,
        s.record .warning ("Failed to report diagnostics: " ++ reason))

/-- Ends a parse with what the engine has answered. -/
def conclude (s : Session) (read : List String) :
    Except EngineError Node → Except SessionError Unit × Session
  | .ok tree =>
      let s := s.record .debug ("Unit " ++ s.unitText ++ " parsed successfully")
      (.ok (), { s with phase := .succeeded tree })
  | .error (.invalid diagnostics) =>
      let (error, s) := { s with phase := .failed }.report read diagnostics
      (.error error, s)
  | .error (.unreadable error) =>
      let s := { s with phase := .failed }
      (.error (.inputUnavailable error.span.source error.value),
        s.record .warning
          ("Input of unit " ++ s.unitText ++ " became unreadable: " ++ error.value.message))
  | .error (.defect error) =>
      let s := { s with phase := .failed }
      (.error (.defect s.unit error.value),
        s.record .error
          ("Syntax tree contract violated at " ++ error.span.text ++ ": " ++ error.value.message))

def parse (s : Session) (source : Source) : Except SessionError Unit × Session :=
  let start := Span.first source.name
  let s := { s.reset with phase := .parsing }
  let s := s.record .debug ("Parsing unit " ++ s.unitText ++ " from " ++ source.name)
  let s := { s with location := some start }
  let (result, scan) := s.engine start (s.scanner source)
  let s := { s with log := s.log ++ scan.log }
  s.conclude (source.reading.lines.take scan.linesRead) result

/-- Parses a file, given what opening it under its path has led to. -/
def parseOpened (s : Session) (path : String) (opened : Except AccessError ByteArray) :
    Except SessionError Unit × Session :=
  match opened with
  | .ok bytes => s.reset.parse { name := path, bytes }
  | .error cause => (.error (.inputUnavailable path cause), { s.reset with phase := .failed })

def parseFile (s : Session) (fs : FileSystem) (path : String) : Except SessionError Unit × Session :=
  s.parseOpened path (fs.read path)

/-- Hands the tree out and goes back to idle; without a tree nothing happens. -/
def takeTree (s : Session) : Option Node × Session :=
  match s.phase with
  | .succeeded tree => (some tree, { s with location := none, phase := .idle })
  | _ => (none, s)

def artifactPath (s : Session) : String := Path.join s.directory (s.unit ++ ".asm")

/-- Ends the writing of the artifact, given what creating it has led to. -/
def concludeArtifact (s : Session) (created : Except AccessError Unit) :
    Except SessionError String × Session :=
  match created with
  | .ok () => (.ok s.artifactPath, s.record .info ("Wrote " ++ s.artifactPath))
  | .error cause => (.error (.outputUnavailable s.artifactPath cause), s)

def writeArtifact (s : Session) (fs : FileSystem) (content : ByteArray) :
    Except SessionError String × Session × FileSystem :=
  match fs.write s.artifactPath content with
  | .ok written =>
      let (result, s) := s.concludeArtifact (.ok ())
      (result, s, written)
  | .error cause =>
      let (result, s) := s.concludeArtifact (.error cause)
      (result, s, fs)

end Session

end FormulaCompiler
