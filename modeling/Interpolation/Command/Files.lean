import Interpolation.Text.Utf8

/-!
# Files

A tree of directories and regular files, with the directory that relative paths start from. The
root is its own parent. Opening can fail in three ways; `resolve` follows a path name by name, and
what it finds decides whether the path can be opened for reading or for writing. Opening for writing
creates a file or empties it.
-/

namespace Interpolation.Command

abbrev Path := List Text

structure Files where
  home : Path
  directories : List Path
  contents : List (Path × Bytes)

inductive OpenError where
  | noSuchFile
  | notADirectory
  | isADirectory
  deriving DecidableEq, Repr

def OpenError.message : OpenError → Text
  | .noSuchFile => "No such file or directory (os error 2)".toList
  | .notADirectory => "Not a directory (os error 20)".toList
  | .isADirectory => "Is a directory (os error 21)".toList

/-- What a path leads to; a vacant path names nothing yet, in a directory that exists. -/
inductive Place where
  | directory (p : Path)
  | file (p : Path)
  | vacant (p : Path)
  deriving DecidableEq, Repr

namespace Files

def read? (fs : Files) (p : Path) : Option Bytes :=
  fs.contents.lookup p

def write (fs : Files) (p : Path) (bs : Bytes) : Files :=
  { fs with contents := (p, bs) :: fs.contents.filter fun entry => entry.1 ≠ p }

def addDirectory (fs : Files) (p : Path) : Files :=
  { fs with directories := (List.range (p.length + 1)).map p.take ++ fs.directories }

def isDirectory (fs : Files) (p : Path) : Bool :=
  p = [] || fs.directories.contains p

def follow (fs : Files) : Path → List Text → Except OpenError Place
  | here, [] => .ok (.directory here)
  | here, name :: names =>
    if name = [] ∨ name = ['.'] then fs.follow here names
    else if name = ['.', '.'] then fs.follow here.dropLast names
    else
      let there := here ++ [name]
      if fs.isDirectory there then fs.follow there names
      else if (fs.read? there).isSome then
        if names.isEmpty then .ok (.file there) else .error .notADirectory
      else if names.isEmpty then .ok (.vacant there)
      else .error .noSuchFile

/-- Whether a path ends in a slash, and so must not name a file. -/
def namesDirectory (path : Text) : Bool :=
  path.getLast? = some '/'

/-- Follows a path, slashes at its end left aside. -/
def resolve (fs : Files) (path : Text) : Except OpenError Place :=
  let start := if path.head? = some '/' then [] else fs.home
  let names := (path.splitOn '/').reverse.dropWhile (·.isEmpty)
  if path.isEmpty then .error .noSuchFile else fs.follow start names.reverse

/-- The path of the file to read, or none for a directory, which opens but cannot be read. -/
def openInput (fs : Files) (path : Text) : Except OpenError (Option Path) := do
  match ← fs.resolve path with
  | .directory _ => return none
  | .file p => if namesDirectory path then .error .notADirectory else return some p
  | .vacant _ => .error .noSuchFile

def openOutput (fs : Files) (path : Text) : Except OpenError Path := do
  match ← fs.resolve path with
  | .directory _ => .error .isADirectory
  | .file p | .vacant p => if namesDirectory path then .error .isADirectory else return p

def names (path : Text) : List Text :=
  (path.splitOn '/').filter fun name => !name.isEmpty && name != ['.']

def addFile (fs : Files) (p : Path) (bs : Bytes) : Files :=
  (fs.addDirectory p.dropLast).write p bs

def ofEntries (home : Path) (directories : List Text) (files : List (Text × Bytes)) : Files :=
  let empty : Files := addDirectory ⟨home, [], []⟩ home
  let tree := directories.foldl (fun fs path => fs.addDirectory (home ++ names path)) empty
  files.foldl (fun fs file => fs.addFile (home ++ names file.1) file.2) tree

/-- The regular files below the home, with their paths from there. -/
def listing (fs : Files) : List (Text × Bytes) :=
  fs.contents.filterMap fun (p, bs) =>
    if p.take fs.home.length = fs.home then
      some (['/'].intercalate (p.drop fs.home.length), bs)
    else none

end Files

end Interpolation.Command
