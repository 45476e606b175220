/-!
# Files and paths

A disk answers what is read at a path. A directory tree is a disk: it lists files with their texts
and directories, and a path is followed in it from the working directory on, step by step. What lies
outside of the working directory is a chain of directories in which nothing is found.
-/

namespace ScriptAnalysis

inductive FileError where
  | notFound
  | notDirectory
  | isDirectory
  | invalidName
  | nameTooLong
  deriving DecidableEq

/-- A directory can be opened; only reading it fails. -/
def FileError.message (path : String) : FileError → String
  | notFound => "open " ++ path ++ ": no such file or directory"
  | notDirectory => "open " ++ path ++ ": not a directory"
  | isDirectory => "read " ++ path ++ ": is a directory"
  | invalidName => "open " ++ path ++ ": invalid argument"
  | nameTooLong => "open " ++ path ++ ": file name too long"

structure Disk where
  read : String → Except FileError String

def Disk.isFile (disk : Disk) (path : String) : Bool := (disk.read path).isOk

namespace Path

/-- The parts of a path between its slashes. -/
def parts (path : String) : List String := path.splitOn "/"

/-- Whether the last part of a path has a dot in it. -/
def hasExtension (path : String) : Bool := ((parts path).getLastD "").toList.any (· = '.')

/-- The parts kept so far, the last one first, with one more part worked in. -/
def normalizeStep (kept : List String) (part : String) : List String :=
  if part = "" ∨ part = "." then kept
  else if part = ".." then
    match kept with
    | [] => [".."]
    | last :: before => if last = ".." then ".." :: kept else before
  else part :: kept

/-- The shortest way to write a path from the working directory on. -/
def normalize (path : String) : String :=
  match (parts path).foldl normalizeStep [] with
  | [] => "."
  | kept => "/".intercalate kept.reverse

end Path

/-- A file with its text, or a directory. -/
inductive FileNode where
  | file (text : String)
  | directory

structure FileTree where
  entries : List (List String × FileNode)

namespace FileTree

/-- A place on the way along a path. -/
inductive Position where
  | inside (dir : List String)
  | outside
  | atFile (text : String)

/-- The names of directories from the working directory to a path as it was given. -/
def location (path : String) : List String :=
  ((Path.parts path).foldl Path.normalizeStep []).reverse

def empty : FileTree := ⟨[]⟩

def addFile (tree : FileTree) (path text : String) : FileTree :=
  ⟨tree.entries ++ [(location path, .file text)]⟩

def addDirectory (tree : FileTree) (path : String) : FileTree :=
  ⟨tree.entries ++ [(location path, .directory)]⟩

/-- What a place inside the tree is. A place on the way to an entry is a directory. -/
def node? (tree : FileTree) (place : List String) : Option FileNode :=
  match tree.entries.reverse.find? (·.1 = place) with
  | some (_, node) => some node
  | none =>
    if place.isEmpty ∨ tree.entries.any (fun e ↦ place.isPrefixOf e.1) then some .directory else none

/-- The most bytes of one part of a path. -/
def partLimit : Nat := 255

def step (tree : FileTree) (position : Position) (part : String) : Except FileError Position :=
  match position with
  | .atFile _ => .error .notDirectory
  | .outside =>
    if part = "" ∨ part = "." ∨ part = ".." then .ok .outside
    else if partLimit < part.utf8ByteSize then .error .nameTooLong
    else .error .notFound
  | .inside dir =>
    if part = "" ∨ part = "." then .ok (.inside dir)
    else if part = ".." then .ok (if dir.isEmpty then .outside else .inside dir.dropLast)
    else if partLimit < part.utf8ByteSize then .error .nameTooLong
    else match tree.node? (dir ++ [part]) with
      | none => .error .notFound
      | some .directory => .ok (.inside (dir ++ [part]))
      | some (.file text) => .ok (.atFile text)

/-- The most bytes of a whole path. -/
def pathLimit : Nat := 4095

def read (tree : FileTree) (path : String) : Except FileError String := do
  if path = "" then
    throw .notFound
  if path.toList.any (· = '\x00') then
    throw .invalidName
  if pathLimit < path.utf8ByteSize then
    throw .nameTooLong
  let start := if path.toList.head? = some '/' then Position.outside else .inside []
  match ← (Path.parts path).foldlM tree.step start with
  | .atFile text => return text
  | .inside _ | .outside => throw .isDirectory

def toDisk (tree : FileTree) : Disk := ⟨tree.read⟩

end FileTree

end ScriptAnalysis
