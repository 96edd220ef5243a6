import FormulaCompiler.AccessError
import FormulaCompiler.Path

/-!
# File systems

A file system is a finite set of files and directories, each at its list of names from the root, and a
working directory for relative paths. A path is followed name by name, and every place it passes
through has to be a directory; where it ends, nothing need exist yet. Paths and names are limited in
length, and a path beyond its limit is refused before it is followed.
-/

namespace FormulaCompiler

/-- The names that lead from the root to a place. -/
abbrev Place := List String

/-- A place and the places above it below the root, outermost first. -/
def Place.levels (place : Place) : List Place :=
  (List.range place.length).map fun above => place.take (above + 1)

inductive FileEntry where
  | file (content : ByteArray)
  | directory

structure FileSystem where
  /-- The directory that relative paths start from. -/
  working : Place
  entries : List (Place × FileEntry)

namespace FileSystem

def empty (working : Place) : FileSystem :=
  { working, entries := working.levels.map fun place => (place, .directory) }

/-- What exists at a place. The root always is a directory. -/
def entry? (fs : FileSystem) (place : Place) : Option FileEntry :=
  if place.isEmpty then some .directory else fs.entries.lookup place

def put (fs : FileSystem) (place : Place) (entry : FileEntry) : FileSystem :=
  { fs with entries := (place, entry) :: fs.entries.filter fun other => other.1 != place }

/-- The greatest length of a name, in bytes. -/
def nameLimit : Nat := 255

/-- The greatest length of a path, in bytes. -/
def pathLimit : Nat := 4095

/-- Follows names from a place. The parent of the root is the root. -/
def follow (fs : FileSystem) : Place → List String → Except AccessError Place
  | place, [] => .ok place
  | place, name :: names =>
      match fs.entry? place with
      | none => .error .notFound
      | some (.file _) => .error .notADirectory
      | some .directory =>
          if name = "" ∨ name = "." then follow fs place names
          else if name = ".." then follow fs place.dropLast names
          else if nameLimit < name.utf8ByteSize then .error .nameTooLong
          else follow fs (place ++ [name]) names

/-- The place where a path starts: the root, or the working directory. -/
def start (fs : FileSystem) (path : String) : Place :=
  if Path.isAbsolute path then [] else fs.working

/-- Why a path cannot be followed, whatever exists. -/
def refusal? (path : String) : Option AccessError :=
  if path.toList.contains '\x00' then some .nullInPath
  else if path = "" then some .notFound
  else if pathLimit < path.utf8ByteSize then some .nameTooLong
  else none

/-- The place that a path leads to. The empty path leads nowhere. -/
def resolve (fs : FileSystem) (path : String) : Except AccessError Place :=
  match refusal? path with
  | some cause => .error cause
  | none => fs.follow (fs.start path) (Path.split path)

def read (fs : FileSystem) (path : String) : Except AccessError ByteArray := do
  let place ← fs.resolve path
  match fs.entry? place with
  | none => .error .notFound
  | some .directory => .error .directoryAsInput
  | some (.file content) => .ok content

def write (fs : FileSystem) (path : String) (content : ByteArray) :
    Except AccessError FileSystem := do
  let place ← fs.resolve path
  match fs.entry? place with
  | some .directory => .error .isADirectory
  | _ => .ok (fs.put place (.file content))

/-- Follows the steps of a path from a place and creates a directory wherever nothing exists. A file on
the way or a name over its limit ends it, and what was created before stays. -/
def createAlong : FileSystem → Place → List String → FileSystem
  | fs, _, [] => fs
  | fs, place, name :: names =>
      if name = ".." then createAlong fs place.dropLast names
      else if nameLimit < name.utf8ByteSize then fs
      else
        let next := place ++ [name]
        match fs.entry? next with
        | none => createAlong (fs.put next .directory) next names
        | some .directory => createAlong fs next names
        | some (.file _) => fs

/-- Creates a directory and those that its path passes through, where there are none. A path that ends
in a single dot asks for a directory that exists, so its last step is not created. -/
def makeDirectories (fs : FileSystem) (path : String) : FileSystem :=
  if (refusal? path).isSome then fs
  else
    let steps := Path.steps path
    fs.createAlong (fs.start path) (if Path.ending? path = some "." then steps.dropLast else steps)

/-- Removes what a path leads to and everything below it. A directory whose path ends in dots is not
named by it: it is emptied and stays. -/
def remove (fs : FileSystem) (path : String) : FileSystem :=
  match fs.resolve path with
  | .error _ => fs
  | .ok place =>
      let stays := Path.ending? path = some "." ∨ Path.ending? path = some ".."
      { fs with
        entries := fs.entries.filter fun other =>
          !place.isPrefixOf other.1 || (decide stays && other.1 == place) }

/-- The files below the working directory, by their paths from there in ascending order. -/
def files (fs : FileSystem) : List (String × ByteArray) :=
  let below := fs.entries.filterMap fun (place, entry) =>
    match entry with
    | .file content =>
        if fs.working.isPrefixOf place then
          some ("/".intercalate (place.drop fs.working.length), content)
        else none
    | .directory => none
  below.mergeSort fun a b => !decide (b.1 < a.1)

end FileSystem

end FormulaCompiler
