/-!
# Files to read

Paths, why a file cannot be read, and a tree of files that is kept in memory and answers as a
directory on a disk does.
-/

namespace SimpleLang.Command

/-! ### Paths

A path is a list of names divided by slashes.  Empty names and `.` name no step. -/

namespace Path

/-- The parts of a text between the slashes. -/
def split (cs : List Char) : List (List Char) :=
  cs.foldr (fun c parts =>
    if c = '/' then [] :: parts
    else match parts with
      | [] => [[c]]
      | part :: rest => (c :: part) :: rest) [[]]

/-- The names between the slashes of a path. -/
def parts (path : String) : List String := (split path.toList).map String.ofList

/-- Whether a part of a path names a step. -/
def isStep (part : String) : Bool := part != "" && part != "."

/-- The steps of a path. -/
def steps (path : String) : List String := (parts path).filter isStep

/-- The last name of a path, or the whole path if it does not end in a name. -/
def fileName (path : String) : String :=
  match (steps path).getLast? with
  | some name => if name = ".." then path else name
  | none => path

end Path

/-! ### Files -/

/-- Why a file cannot be read. -/
inductive ReadError where
  /-- A name on the path is missing. -/
  | notFound
  /-- A name on the path is used as a directory and is none. -/
  | notDirectory
  /-- The path leads to a directory. -/
  | isDirectory
  /-- A name on the path, or the path itself, is too long. -/
  | nameTooLong
  /-- The file does not hold text in UTF-8. -/
  | notText
  /-- Anything else, in the words of the system. -/
  | other (reason : String)
  deriving DecidableEq, Repr

namespace ReadError

/-- The reason in words. -/
def message : ReadError → String
  | .notFound => "No such file or directory (os error 2)"
  | .notDirectory => "Not a directory (os error 20)"
  | .isDirectory => "Is a directory (os error 21)"
  | .nameTooLong => "File name too long (os error 36)"
  | .notText => "stream did not contain valid UTF-8"
  | .other reason => reason

end ReadError

/-- Reads the bytes of a file as text. -/
def decode (bytes : ByteArray) : Except ReadError String :=
  match String.fromUTF8? bytes with
  | some text => .ok text
  | none => .error .notText

/-- A directory with all that is in it.  Each directory and each file is known by the steps that
lead to it, the last one first. -/
structure FileTree where
  /-- The directories below the tree's own. -/
  directories : List (List String)
  /-- The files and their contents, the newest first. -/
  files : List (List String × ByteArray)

namespace FileTree

/-- A place that a path can lead to. -/
inductive Place where
  /-- A directory of the tree. -/
  | directory (steps : List String)
  /-- A file of the tree. -/
  | file (bytes : ByteArray)
  /-- A directory that the tree is in. -/
  | outside

/-- The tree with nothing in it. -/
def empty : FileTree := ⟨[], []⟩

/-- Goes from a directory along some steps, and makes the directories that are missing. -/
def makeDirectories (t : FileTree) (place : List String) :
    List String → FileTree × List String
  | [] => (t, place)
  | step :: steps =>
    if step = ".." then makeDirectories t place.tail steps
    else makeDirectories { t with directories := (step :: place) :: t.directories }
      (step :: place) steps

/-- Writes a file, in place of the one that was there before, and makes the directories on the
way to it. -/
def write (t : FileTree) (path : String) (bytes : ByteArray) : FileTree :=
  match (Path.steps path).reverse with
  | [] => t
  | name :: way =>
    let (t, place) := t.makeDirectories [] way.reverse
    { t with files := (name :: place, bytes) :: t.files }

/-- The tree after some files were written, in order. -/
def ofFiles (files : List (String × ByteArray)) : FileTree :=
  files.foldl (fun t (path, bytes) => t.write path bytes) empty

/-- The most bytes that a name has. -/
def longestName : Nat := 255

/-- The most bytes that a path has. -/
def longestPath : Nat := 4095

/-- The place that a name leads to from a directory. -/
def child (t : FileTree) (place : List String) (name : String) : Except ReadError Place :=
  match t.files.lookup (name :: place) with
  | some bytes => .ok (.file bytes)
  | none =>
    if t.directories.contains (name :: place) then .ok (.directory (name :: place))
    else .error .notFound

/-- The place that a part of a path leads to.  Only from a directory does one lead anywhere. -/
def step (t : FileTree) (place : Place) (part : String) : Except ReadError Place :=
  match place with
  | .file _ => .error .notDirectory
  | .outside =>
    if !Path.isStep part || part = ".." then .ok .outside
    else if longestName < part.utf8ByteSize then .error .nameTooLong
    else .error .notFound
  | .directory steps =>
    if !Path.isStep part then .ok (.directory steps)
    else if part = ".." then
      match steps with
      | [] => .ok .outside
      | _ :: parent => .ok (.directory parent)
    else if longestName < part.utf8ByteSize then .error .nameTooLong
    else t.child steps part

/-- Where a path begins: a leading slash leads out of the tree. -/
def origin (path : String) : Place :=
  if path.toList.head? = some '/' then .outside else .directory []

/-- The place that a path leads to. -/
def walk (t : FileTree) (path : String) : Except ReadError Place :=
  if longestPath < path.utf8ByteSize then .error .nameTooLong
  else (Path.parts path).foldlM t.step (origin path)

/-- Reads the file that a path leads to. -/
def read (t : FileTree) (path : String) : Except ReadError String := do
  match ← t.walk path with
  | .file bytes => decode bytes
  | .directory _ | .outside => throw .isDirectory

end FileTree

end SimpleLang.Command
