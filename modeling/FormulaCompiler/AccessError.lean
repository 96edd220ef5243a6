/-!
# Failures of files and readers

The ways in which an input cannot be read or an output cannot be created, with the text that each is
reported by.
-/

namespace FormulaCompiler

/-- Why a file or a stream could not be used. -/
inductive AccessError where
  /-- Nothing exists under the path, or a directory on the way is missing. -/
  | notFound
  | notADirectory
  /-- A directory stands where a file is to be created. -/
  | isADirectory
  /-- The input to be read is a directory. -/
  | directoryAsInput
  /-- The path or a name on it is longer than the system takes. -/
  | nameTooLong
  /-- The path has a null character, which no name can have. -/
  | nullInPath
  | invalidText
  /-- The reader gave up with a message of its own. -/
  | reader (message : String)
  deriving DecidableEq

def AccessError.message : AccessError → String
  | notFound => "No such file or directory (os error 2)"
  | notADirectory => "Not a directory (os error 20)"
  | isADirectory => "Is a directory (os error 21)"
  | directoryAsInput => "Is a directory"
  | nameTooLong => "File name too long (os error 36)"
  | nullInPath => "file name contained an unexpected NUL byte"
  | invalidText => "stream did not contain valid UTF-8"
  | reader message => message

end FormulaCompiler
