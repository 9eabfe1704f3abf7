import DidYouMean.Text

/-!
# Paths

A path is a text whose separator is `/`. Nothing here looks at a disk: a path's directory, its file
name, its normal form and its position relative to another path are read off the text alone, so
paths are compared as texts and an index of them needs no more than lists.

The walk upwards ends because `dirname` either shortens a path or arrives at one of its two fixed
points, `/` and `.` (`climb_dirname_lt`).
-/

namespace DidYouMean

namespace Path

/-- The path with every backslash turned into a separator. -/
def normalize (p : Text) : Text := p.map fun c => if c = '\\' then '/' else c

/-- The directory a path stands in: `/` above a path at the root, `.` above a lone name. -/
def dirname (p : Text) : Text :=
  let trimmed := if p.length > 1 then Text.dropEndWhile (· == '/') p else p
  match trimmed.reverse.dropWhile (· != '/') with
  | [] => ['.']
  | [_] => ['/']
  | _ :: above => above.reverse

/-- How much of a path the walk upwards can still take away. -/
def climb (p : Text) : Nat := if p = ['.'] ∨ p = ['/'] then 0 else p.length + 1

/-- The directory of a path is one of the two fixed points or shorter than the path. -/
theorem dirname_cases (p : Text) :
    dirname p = ['.'] ∨ dirname p = ['/'] ∨ (dirname p).length < p.length := by
  have hle : ∀ t : Text, t = p ∨ t = Text.dropEndWhile (· == '/') p →
      (t.reverse.dropWhile (· != '/')).length ≤ p.length := by
    intro t ht
    have := (List.dropWhile_sublist (· != '/') (l := t.reverse)).length_le
    rcases ht with rfl | rfl
    · simpa using this
    · have h₂ := (List.dropWhile_sublist (· == '/') (l := p.reverse)).length_le
      simp only [Text.dropEndWhile, List.length_reverse] at this h₂
      exact Nat.le_trans this h₂
  unfold dirname
  have := hle (if p.length > 1 then Text.dropEndWhile (· == '/') p else p) (by split <;> simp)
  dsimp only
  split
  · exact .inl rfl
  · exact .inr (.inl rfl)
  · rename_i heq
    rw [heq] at this
    simp only [List.length_cons] at this
    refine .inr (.inr ?_)
    simp only [List.length_reverse]
    omega

theorem climb_dirname_lt {p : Text} (h : dirname p ≠ p) : climb (dirname p) < climb p := by
  have hp : ¬(p = ['.'] ∨ p = ['/']) := by
    rintro (rfl | rfl) <;> exact h rfl
  have hpos : 0 < climb p := by simp [climb, hp]
  rcases dirname_cases p with hd | hd | hd
  · rw [hd]; exact hpos
  · rw [hd]; exact hpos
  · simp only [climb, hp, if_false]
    split <;> omega

/-- A directory and the directories above it, nearest first, up to a fixed point of `dirname`. -/
def ancestors (p : Text) : List Text :=
  p :: if _h : dirname p = p then [] else ancestors (dirname p)
termination_by climb p
decreasing_by exact climb_dirname_lt _h

/-- What follows the last separator. -/
def fileName (p : Text) : Text := Text.takeEndWhile (· != '/') p

/-- A segment below a directory, with one separator put between them unless one is there. -/
def join (base segment : Text) : Text :=
  if segment = [] then base
  else if base = [] then segment
  else if base.getLast? = some '/' then base ++ segment
  else base ++ '/' :: segment

/-- Whether a path starts at the root. -/
def isAbsolute (p : Text) : Bool := p.head? == some '/'

/-- One step of collapsing. The segments kept so far come last first; `..` takes back the one
before it, and where there is none to take back it is dropped at the root and kept elsewhere. -/
def collapseStep (absolute : Bool) (kept : List Text) (segment : Text) : List Text :=
  if segment = [] ∨ segment = ['.'] then kept
  else if segment = ['.', '.'] then
    match kept with
    | last :: before =>
      if last ≠ ['.', '.'] then before
      else if absolute then kept else segment :: kept
    | [] => if absolute then [] else [segment]
  else segment :: kept

/-- The segments of a path that are left after collapsing. -/
def collapsedSegments (p : Text) : List Text :=
  ((Text.splitOn '/' p).foldl (collapseStep (isAbsolute p)) []).reverse

/-- The path without empty and `.` segments and with each `..` carried out. An absolute path never
climbs above the root; a relative one may begin with `..`, and is `.` when nothing is left. -/
def collapse (p : Text) : Text :=
  let joined := Text.join ['/'] (collapsedSegments p)
  if isAbsolute p then '/' :: joined
  else if joined = [] then ['.']
  else joined

/-- The path a specifier names when it is written in `containingFile`. -/
def resolve (containingFile specifier : Text) : Text :=
  let specifier := normalize specifier
  if isAbsolute specifier then collapse specifier
  else collapse (join (dirname (normalize containingFile)) specifier)

/-- The segments that say where a path leads. -/
def steps (p : Text) : List Text :=
  (Text.splitOn '/' (collapse (normalize p))).filter fun s => s != [] && s != ['.']

/-- How many leading segments two paths share. -/
def sharedSteps : List Text → List Text → Nat
  | s :: ss, t :: ts => if s = t then sharedSteps ss ts + 1 else 0
  | _, _ => 0

/-- The way from a directory to a path, without a leading `./`; empty when they are the same. -/
def relative (fromDir target : Text) : Text :=
  let source := steps fromDir
  let goal := steps target
  let shared := sharedSteps source goal
  Text.join ['/'] (List.replicate (source.length - shared) ['.', '.'] ++ goal.drop shared)

/-- A path as a module specifier written in `fromDir`; it begins with `./` or `../`, except that
the directory itself is `.` and its parent may be `..`. -/
def toSpecifier (fromDir target : Text) : Text :=
  let way := relative fromDir target
  if way = ['.', '.'] ∨ ['.', '.', '/'].isPrefixOf way then way
  else if way = [] then ['.']
  else '.' :: '/' :: way

/-- The first of the extensions that the path ends with. -/
def extension? (extensions : List Text) (p : Text) : Option Text :=
  extensions.find? (·.isSuffixOf p)

/-- The path without the first extension it ends with. -/
def stripExtension (extensions : List Text) (p : Text) : Text :=
  match extension? extensions p with
  | some ext => p.take (p.length - ext.length)
  | none => p

/-- The endings of files that only declare types. -/
def declarationExtensions : List Text :=
  [".d.ts".toList, ".d.mts".toList, ".d.cts".toList]

/-- Whether the path names a file that only declares types. -/
def isDeclarationFile (p : Text) : Bool := declarationExtensions.any (·.isSuffixOf p)

/-- Whether one of the directories on the way to the path bears the name. -/
def isUnder (name p : Text) : Bool := (Text.splitOn '/' p).dropLast.contains name

/-- The marks of test files; the dot after a mark may be the end of the path. -/
def testMarks : List Text := [".test".toList, ".spec".toList]

/-- Whether the path is named like a test. -/
def isTestFile (p : Text) : Bool :=
  testMarks.any fun mark => Text.contains (mark ++ ['.']) p || mark.isSuffixOf p

end Path

end DidYouMean
