/-!
# Paths

A path is a text with its names separated by slashes. Empty names and single dots change nothing about
where it leads.
-/

namespace FormulaCompiler.Path

/-- The names between the slashes of a path, in order, empty ones included. -/
def splitChars (path : List Char) : List (List Char) :=
  path.foldr
    (fun c later =>
      if c = '/' then [] :: later
      else match later with
        | [] => [[c]]
        | name :: others => (c :: name) :: others)
    [[]]

def split (path : String) : List String := (splitChars path.toList).map String.ofList

def isAbsolute (path : String) : Bool := path.toList.head? == some '/'

/-- A path below a directory; an absolute path stands for itself. -/
def join (directory path : String) : String :=
  if isAbsolute path then path
  else if directory.isEmpty || directory.toList.getLast? == some '/' then directory ++ path
  else directory ++ "/" ++ path

/-- The names of a path that change where it leads. -/
def steps (path : String) : List String :=
  (split path).filter fun name => name != "" && name != "."

/-- The last name of a path, unless the path ends at a root, at the directory it starts from, or in the
parent of something. -/
def fileName? (path : String) : Option String :=
  match (steps path).getLast? with
  | some name => if name = ".." then none else some name
  | none => none

/-- The text of a path after its last slash, slashes at its end aside. -/
def ending? (path : String) : Option String :=
  ((split path).filter fun name => name != "").getLast?

/-- The name of the unit in a file: the file's name up to its first dot, or all of it if it starts with
one. A path without a file name is its own unit name. -/
def unitName (path : String) : String :=
  match fileName? path with
  | none => path
  | some name =>
      let stem := name.toList.takeWhile (· ≠ '.')
      if stem.isEmpty then name else String.ofList stem

end FormulaCompiler.Path
