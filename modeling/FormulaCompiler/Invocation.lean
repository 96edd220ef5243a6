import FormulaCompiler.Path
import FormulaCompiler.Session

/-!
# Command lines

A command line names an input, or a dash for the standard input, and the directory of the artifact. Two
flags ask for traces; help and version end the reading of the line where they stand. A dash alone and
whatever follows two dashes are no flags.
-/

namespace FormulaCompiler

inductive InputChoice where
  | standardInput
  | file (path : String)
  deriving DecidableEq

structure Invocation where
  input : InputChoice
  directory : String
  tracing : Tracing
  deriving DecidableEq

/-- Why a command line does not start a compilation. -/
inductive UsageError where
  | missingArgument
  | unknownArgument
  | unexpectedValue
  | repeatedFlag
  | help
  | version
  deriving DecidableEq

namespace Invocation

/-- The flags, each with what asking for it does. -/
inductive Flag where
  | traceScanning
  | traceParsing
  | help
  | version
  deriving DecidableEq

def Flag.ofName? : String → Option Flag
  | "trace-scanning" => some traceScanning
  | "trace-parsing" => some traceParsing
  | "help" => some help
  | "version" => some version
  | _ => none

def Flag.ofLetter? : Char → Option Flag
  | 'h' => some help
  | 'V' => some version
  | _ => none

/-- How a word of the command line is to be read where flags may stand. -/
inductive Word where
  | positional (value : String)
  /-- No flags follow. -/
  | endOfFlags
  | long (name : String) (hasValue : Bool)
  | short (letters : List Char)

def Word.ofString (word : String) : Word :=
  match word.toList with
  | ['-', '-'] => endOfFlags
  | '-' :: '-' :: name => long (String.ofList (name.takeWhile (· ≠ '='))) (name.contains '=')
  | '-' :: letter :: letters => short (letter :: letters)
  | _ => positional word

/-- What has been read of a command line, the latest first. -/
structure Progress where
  positionals : List String := []
  flags : List Flag := []

def Progress.addPositional (progress : Progress) (value : String) : Except UsageError Progress :=
  if progress.positionals.length < 2 then
    .ok { progress with positionals := value :: progress.positionals }
  else
    .error .unknownArgument

/-- A flag that asks for a trace is kept; the others end the reading. -/
def Progress.addFlag (progress : Progress) : Flag → Except UsageError Progress
  | .help => .error .help
  | .version => .error .version
  | trace => .ok { progress with flags := trace :: progress.flags }

def Progress.addLetters (progress : Progress) : List Char → Except UsageError Progress
  | [] => .ok progress
  | letter :: letters =>
      match Flag.ofLetter? letter with
      | none => .error .unknownArgument
      | some flag => (progress.addFlag flag).bind (·.addLetters letters)

/-- Reads the words of a command line in order; the first error ends the reading. -/
def Progress.readWords (progress : Progress) : List String → Except UsageError Progress
  | [] => .ok progress
  | word :: words =>
      match Word.ofString word with
      | .positional value => (progress.addPositional value).bind (·.readWords words)
      | .endOfFlags => words.foldlM addPositional progress
      | .long name hasValue =>
          match Flag.ofName? name with
          | none => .error .unknownArgument
          | some flag =>
              if hasValue then .error .unexpectedValue
              else (progress.addFlag flag).bind (·.readWords words)
      | .short letters => (progress.addLetters letters).bind (·.readWords words)

def ofWords (words : List String) : Except UsageError Invocation := do
  let progress ← Progress.readWords {} words
  match progress.positionals with
  | [directory, input] =>
      if progress.flags.Nodup then
        return {
          input := if input = "-" then .standardInput else .file input
          directory
          tracing :=
            { scanning := progress.flags.contains .traceScanning
              parsing := progress.flags.contains .traceParsing } }
      else
        throw .repeatedFlag
  | _ => throw .missingArgument

def unitName (invocation : Invocation) : String :=
  match invocation.input with
  | .standardInput => "stdin"
  | .file path => Path.unitName path

def session (invocation : Invocation) : Session :=
  let fresh : Session := { directory := invocation.directory, unit := invocation.unitName }
  fresh.withTracing invocation.tracing

end Invocation

end FormulaCompiler
