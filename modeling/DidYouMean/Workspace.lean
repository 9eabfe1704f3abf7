import DidYouMean.FileTree
import DidYouMean.Glob.Matcher

/-!
# Workspaces

The members of a workspace are the directories below its root that its patterns select. They are
found level by level, so the nearer ones come first, and the walk goes no deeper than the patterns
reach. Hidden and vendored directories are never entered.
-/

namespace DidYouMean

/-- The patterns of a workspace, those that select and those that take back, and how many levels of
directories they reach. -/
structure WorkspacePatterns where
  included : List Glob
  excluded : List Glob
  depth : Nat

namespace WorkspacePatterns

/-- How deep a pattern with `**` reaches, and every other one at most. -/
def maxDepth : Nat := 6

/-- How many levels of directories a pattern reaches. -/
def depthOf (pattern : Text) : Nat :=
  if Text.contains ['*', '*'] pattern then maxDepth
  else min (Text.splitOn '/' pattern).length maxDepth

/-- The pattern in an entry, without `./` before it and separators after it, and whether the entry
takes back what it selects. -/
def readEntry (entry : Text) : Bool × Text :=
  let trimmed := Text.trim entry
  let bare (p : Text) := Text.dropEndWhile (· == '/') (Text.dropCopies ['.', '/'] p)
  match Text.stripStart? ['!'] trimmed with
  | some p => (true, bare p)
  | none => (false, bare trimmed)

/-- The patterns with one more entry; an empty or invalid one changes nothing. -/
def add (w : WorkspacePatterns) (entry : Text) : WorkspacePatterns :=
  let (negated, pattern) := readEntry entry
  if pattern = [] then w
  else
    match Glob.parse? true pattern with
    | none => w
    | some g =>
      if negated then { w with excluded := w.excluded ++ [g] }
      else { w with included := w.included ++ [g], depth := max w.depth (depthOf pattern) }

/-- The patterns that some entries are. -/
def ofEntries (entries : List Text) : WorkspacePatterns := entries.foldl add ⟨[], [], 0⟩

/-- Which paths relative to the root are selected, if all patterns can be compiled. -/
def selector? (w : WorkspacePatterns) : Option (Text → Bool) := do
  let included ← Glob.Matcher.ofGlobs? w.included
  let excluded ← Glob.Matcher.ofGlobs? w.excluded
  return fun relative => included.isMatch relative && !excluded.isMatch relative

end WorkspacePatterns

namespace Workspace

/-- The children of a directory that may be entered, each with its own path and its path relative
to the root. -/
def children (tree : FileTree) (vendor : Text) (directory : Text × Text) : List (Text × Text) :=
  ((tree.listDirectories directory.1).filter fun name =>
      name != vendor && name.head? != some '.').map fun name =>
    (Path.join directory.1 name,
      if directory.2 = [] then name else directory.2 ++ '/' :: name)

/-- The directories on the next levels below `level` that are selected, nearest first. -/
def below (tree : FileTree) (vendor : Text) (selects : Text → Bool) :
    (levels : Nat) → (level : List (Text × Text)) → List Text
  | 0, _ => []
  | levels + 1, level =>
    let next := level.flatMap (children tree vendor)
    (next.filter fun d => selects d.2).map (·.1) ++ below tree vendor selects levels next

/-- The member directories of the workspace with these entries at a root. There are none if the
patterns cannot be compiled. -/
def members (tree : FileTree) (vendor root : Text) (entries : List Text) : List Text :=
  let patterns := WorkspacePatterns.ofEntries entries
  match patterns.selector? with
  | some selects => below tree vendor selects patterns.depth [(root, [])]
  | none => []

end Workspace

end DidYouMean
