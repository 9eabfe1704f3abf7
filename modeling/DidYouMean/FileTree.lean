import DidYouMean.Path

/-!
# File trees

What the rest of the library asks of a disk: whether a file or a directory is there, what is in a
file, and which directories stand in a directory. A tree is these four answers and nothing more, so
whatever can give them will do.
-/

namespace DidYouMean

/-- Why a file could not be read. -/
inductive ReadError where
  | notFound
  | isDirectory
  | notDirectory
  deriving DecidableEq, Repr

namespace ReadError

/-- What is said of a path that could not be read. -/
def message (p : Text) : ReadError → Text
  | notFound => p ++ ": no such file".toList
  | isDirectory => p ++ ": is a directory".toList
  | notDirectory => p ++ ": not a directory".toList

end ReadError

/-- The answers of a disk. The directories listed are names, in order. -/
structure FileTree where
  fileExists : Text → Bool
  directoryExists : Text → Bool
  read : Text → Except ReadError Text
  listDirectories : Text → List Text

end DidYouMean
