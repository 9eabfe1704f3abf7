import DidYouMean.FileTree

/-!
# Trees in memory

A tree in memory is filled one path at a time and knows its files and directories by their
normalized paths. Adding a path adds the directories above it as well, up to the first one that is
known already: whatever stands above that one is known too (`MemoryTree.register_eq`).
-/

namespace DidYouMean

/-- Files by path, each path once, and the directories in the order they became known. -/
structure MemoryTree where
  files : List (Text × Text)
  directories : List Text
  deriving DecidableEq, Repr

namespace MemoryTree

/-- The tree without files and directories. -/
def empty : MemoryTree := ⟨[], []⟩

/-- The known directories with one more and with those above it, up to the first known one. -/
def register (known : List Text) (d : Text) : List Text :=
  if known.contains d then known
  else if _h : Path.dirname d = d then known ++ [d]
  else register (known ++ [d]) (Path.dirname d)
termination_by Path.climb d
decreasing_by exact Path.climb_dirname_lt _h

/-- The tree with a directory and the directories above it. -/
def addDirectory (t : MemoryTree) (p : Text) : MemoryTree :=
  { t with directories := register t.directories (Path.normalize p) }

/-- The tree with a file; an earlier file at the path is replaced. -/
def addFile (t : MemoryTree) (p content : Text) : MemoryTree :=
  let p := Path.normalize p
  let t := t.addDirectory (Path.dirname p)
  { t with files := (p, content) :: t.files.filter (·.1 != p) }

/-- The content of the file at a path. -/
def read? (t : MemoryTree) (p : Text) : Option Text := t.files.lookup (Path.normalize p)

/-- The names of the directories that stand in a directory, in the order of their whole paths. -/
def listDirectories (t : MemoryTree) (p : Text) : List Text :=
  let p := Path.normalize p
  (Text.sort (t.directories.filter fun d => d != p && Path.dirname d == p)).map Path.fileName

/-- The tree as a disk. -/
def toFileTree (t : MemoryTree) : FileTree where
  fileExists p := (t.read? p).isSome
  directoryExists p := t.directories.contains (Path.normalize p)
  read p := match t.read? p with
    | some content => .ok content
    | none => .error .notFound
  listDirectories := t.listDirectories

end MemoryTree

end DidYouMean
