import FormulaCompiler.Program

/-!
# The command

Connects `Program` to the files and streams of the operating system.
-/

open FormulaCompiler

/-- What an error of the operating system means for a file, where a directory stands for it. -/
def accessError (directory : AccessError) : IO.Error → AccessError
  | .noFileOrDirectory .. => .notFound
  | .inappropriateType _ code _ => if code = 21 then directory else .notADirectory
  | .invalidArgument .. => .nameTooLong
  | error => .reader (toString error)

/-- Everything that a stream has to give. -/
partial def readToEnd (stream : IO.FS.Stream) (before : ByteArray) : IO ByteArray := do
  let bytes ← stream.read 65536
  if bytes.isEmpty then return before else readToEnd stream (before ++ bytes)

def openInput (choice : InputChoice) : IO (Except AccessError ByteArray) := do
  try
    match choice with
    | .standardInput => return .ok (← readToEnd (← IO.getStdin) .empty)
    | .file path => return .ok (← IO.FS.readBinFile path)
  catch error => return .error (accessError .directoryAsInput error)

def createArtifact (path : String) (content : ByteArray) : IO (Except AccessError Unit) := do
  try
    IO.FS.writeBinFile path content
    return .ok ()
  catch error => return .error (accessError .isADirectory error)

/-- Prints what a run has to say and gives its exit code. -/
def leave (tracing : Tracing) (exit : Exit) : IO UInt32 := do
  IO.print exit.output
  IO.eprint (Program.logText tracing exit.log ++ exit.errors)
  return exit.code.toUInt32

def main (arguments : List String) : IO UInt32 := do
  match Invocation.ofWords arguments with
  | .error usage => leave {} (Program.usageExit usage)
  | .ok invocation =>
      let (result, s) := Program.parse invocation (← openInput invocation.input)
      match Program.artifact result s with
      | .error exit => leave invocation.tracing exit
      | .ok content =>
          let s := Program.noteTree invocation.tracing s
          let (result, s) := s.concludeArtifact (← createArtifact s.artifactPath content)
          leave invocation.tracing (Program.finish result s)
