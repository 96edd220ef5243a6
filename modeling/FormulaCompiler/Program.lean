import FormulaCompiler.Invocation
import FormulaCompiler.Listing

/-!
# The compiler program

A run of the program reads its command line, parses the input, and writes the listing of the tree as
the artifact. It exits with 0 if the artifact is written or only help or the version was asked for,
with 1 if the compilation fails, and with 2 if the command line is wrong. A report that breaks off takes
the run with it, which then exits with 101.
-/

namespace FormulaCompiler

/-- How a run ends: the exit code, what it prints, and what it has logged by then. -/
structure Exit where
  code : Nat
  output : String := ""
  errors : String := ""
  log : Log := #[]
  deriving DecidableEq

namespace Program

def versionText : String := "kabsa compiler 1.0.0\n"

def helpText : String :=
  versionText ++ "
USAGE:
    kabsa [OPTIONS] <INPUT> <OUTPUT_DIR>

ARGS:
    <INPUT>         Source file ('-' for stdin)
    <OUTPUT_DIR>    Directory where the .asm artifact is written

OPTIONS:
    -h, --help              Print help information
        --trace-parsing     Log every grammar reduction
        --trace-scanning    Log every scanned token
    -V, --version           Print version information
"

def wrongUsage (message : String) : Exit :=
  { code := 2, errors := "error: " ++ message ++ "\n\nFor more information try --help\n" }

def usageExit : UsageError → Exit
  | .help => { code := 0, output := helpText }
  | .version => { code := 0, output := versionText }
  | .missingArgument => wrongUsage "An input and an output directory are required"
  | .unknownArgument => wrongUsage "There is an unknown flag or an argument too many"
  | .unexpectedValue => wrongUsage "A flag takes no value"
  | .repeatedFlag => wrongUsage "A flag can be given only once"

/-- A text whose lines after the first are indented. -/
def indented (indentation text : String) : String :=
  String.join (text.toList.map fun c => if c = '\n' then "\n" ++ indentation else String.singleton c)

/-- A failure with the causes behind it, which are numbered if there are several. -/
def failureText (message : String) (causes : List String) : String :=
  "Error: " ++ message ++ "\n" ++
    match causes with
    | [] => ""
    | [cause] => "\nCaused by:\n    " ++ indented "    " cause ++ "\n"
    | _ =>
        "\nCaused by:\n" ++ String.join (causes.zipIdx.map fun (cause, number) =>
          "    " ++ toString number ++ ": " ++ indented "       " cause ++ "\n")

def failureExit (s : Session) (message : String) (causes : List String) : Exit :=
  { code := 1, errors := s.errors.text ++ failureText message causes, log := s.log }

/-- The end of a run whose report breaks off. It is not the program that says why, so that text is left out. -/
def brokenExit (s : Session) : Exit := { code := 101, errors := s.errors.text, log := s.log }

/-- Parses the input of an invocation, given what opening it has led to. -/
def parse (invocation : Invocation) (opened : Except AccessError ByteArray) :
    Except SessionError Unit × Session :=
  match invocation.input with
  | .file path => invocation.session.parseOpened path opened
  | .standardInput =>
      let source : Source :=
        match opened with
        | .ok bytes => { name := "<stdin>", bytes }
        | .error cause => { name := "<stdin>", bytes := .empty, failure := some cause.message }
      invocation.session.parse source

/-- The content of the artifact after a parse, or how the run ends without it. -/
def artifact (result : Except SessionError Unit) (s : Session) : Except Exit ByteArray :=
  match result, s.tree? with
  | .error .brokenOff, _ => .error (brokenExit s)
  | .error error, _ =>
      .error (failureExit s "Compilation failed" (error.message :: error.cause?.toList))
  | .ok (), none => .error (failureExit s "Parsing succeeded without a syntax tree" [])
  | .ok (), some tree => .ok (Listing.text s.unit tree).toUTF8

/-- Logs the tree that a parse has led to, if parsing is traced. -/
def noteTree (tracing : Tracing) (s : Session) : Session :=
  match s.tree? with
  | some tree => if tracing.parsing then s.record .trace ("Syntax tree: " ++ tree.text) else s
  | none => s

/-- How the run ends once the artifact has been written, or not. -/
def finish (result : Except SessionError String) (s : Session) : Exit :=
  match result with
  | .ok path =>
      let s := s.record .debug ("Artifact committed to " ++ path)
      { code := 0, errors := s.errors.text, log := s.log }
  | .error error => failureExit s error.message error.cause?.toList

/-- The log as the program prints it, in front of everything else on that stream: all of it if a trace is asked
for, and else only what has gone wrong. An environment that asks for other levels is left out. -/
def logText (tracing : Tracing) (log : Log) : String :=
  let shown := log.toList.filter fun entry =>
    tracing.scanning || tracing.parsing || entry.level = .warning || entry.level = .error
  String.join (shown.map fun entry => entry.text ++ "\n")

/-- What opening an input leads to, given what the standard input has to offer. -/
def opened (fs : FileSystem) (standardInput : Except AccessError ByteArray) :
    InputChoice → Except AccessError ByteArray
  | .standardInput => standardInput
  | .file path => fs.read path

/-- Runs the program on a file system: how it ends and what it leaves behind. The standard input may fail
to be read to its end. -/
def runGiven (fs : FileSystem) (arguments : List String)
    (standardInput : Except AccessError ByteArray) : Exit × FileSystem :=
  match Invocation.ofWords arguments with
  | .error usage => (usageExit usage, fs)
  | .ok invocation =>
      let (result, s) := parse invocation (opened fs standardInput invocation.input)
      match artifact result s with
      | .error exit => (exit, fs)
      | .ok content =>
          let (result, s, fs) := (noteTree invocation.tracing s).writeArtifact fs content
          (finish result s, fs)

/-- Runs the program with some bytes as its standard input. -/
def run (fs : FileSystem) (arguments : List String) (standardInput : ByteArray) :
    Exit × FileSystem :=
  runGiven fs arguments (.ok standardInput)

end Program

end FormulaCompiler
