import DidYouMean.FileTree

/-!
# Disks

A disk holds files and directories at absolute paths in normal form and is seen from a working
directory. A path is followed from left to right: each segment is looked up in a directory, so a
file on the way, or a separator after one, is an error, and `..` leads to where the directory
really stands.
-/

namespace DidYouMean

/-- Files and directories by absolute path, and the directory that relative paths start from. -/
structure Disk where
  files : List (Text × Text)
  directories : List Text
  workingDirectory : Text
  deriving DecidableEq, Repr

namespace Disk

/-- A disk with nothing but the working directory on it. -/
def empty (workingDirectory : Text) : Disk :=
  ⟨[], Path.ancestors workingDirectory, workingDirectory⟩

/-- A path as seen from the working directory. -/
def absolute (d : Disk) (p : Text) : Text :=
  Path.collapse (if Path.isAbsolute p then p else Path.join d.workingDirectory p)

/-- The disk with a directory and all directories above it. -/
def addDirectory (d : Disk) (p : Text) : Disk :=
  { d with directories := (d.directories ++ Path.ancestors (d.absolute p)).eraseDups }

/-- The disk with a file; an earlier file at the path is replaced. -/
def addFile (d : Disk) (p content : Text) : Disk :=
  let p := d.absolute p
  let d := d.addDirectory (Path.dirname p)
  { d with files := (p, content) :: d.files.filter (·.1 != p) }

/-- Whether a directory stands at an absolute path. -/
def isDirectory (d : Disk) (p : Text) : Bool := d.directories.contains p

/-- One segment further from where a path has led so far. -/
def follow (d : Disk) (here segment : Text) : Except ReadError Text :=
  if !d.isDirectory here then .error .notDirectory
  else if segment = [] ∨ segment = ['.'] then .ok here
  else if segment = ['.', '.'] then .ok (Path.dirname here)
  else
    let next := Path.join here segment
    if d.isDirectory next || (d.files.lookup next).isSome then .ok next else .error .notFound

/-- The absolute path in normal form at which a path ends. -/
def locate (d : Disk) (p : Text) : Except ReadError Text :=
  if p = [] then .error .notFound
  else
    (Text.splitOn '/' p).foldlM d.follow (if Path.isAbsolute p then ['/'] else d.workingDirectory)

/-- The content of the file at a path. -/
def read (d : Disk) (p : Text) : Except ReadError Text := do
  let place ← d.locate p
  match d.files.lookup place with
  | some content => return content
  | none => throw .isDirectory

/-- Whether a file stands at a path. -/
def fileExists (d : Disk) (p : Text) : Bool :=
  match d.locate p with
  | .ok place => (d.files.lookup place).isSome
  | .error _ => false

/-- Whether a directory stands at a path. -/
def directoryExists (d : Disk) (p : Text) : Bool :=
  match d.locate p with
  | .ok place => d.isDirectory place
  | .error _ => false

/-- The names of the directories that stand in a directory, in order. -/
def listDirectories (d : Disk) (p : Text) : List Text :=
  match d.locate p with
  | .ok place =>
    Text.sort ((d.directories.filter fun x => x != place && Path.dirname x == place).map
      Path.fileName)
  | .error _ => []

/-- The disk as a file tree. -/
def toFileTree (d : Disk) : FileTree where
  fileExists := d.fileExists
  directoryExists := d.directoryExists
  read := d.read
  listDirectories := d.listDirectories

end Disk

end DidYouMean
