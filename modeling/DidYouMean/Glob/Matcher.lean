import DidYouMean.Glob.Match

/-!
# Matchers

Globs are compiled all together, each to a regular expression, before anything is matched against
them. An expression must not be nested too deep, and one that is leaves none of the globs to match
with. Groups, choices between branches, several factors in a row, repetitions and classes each hold
what is in them one level deeper; a literal byte, the dot for any byte and the anchors at both ends
hold nothing. Braces are all that can be put into each other without end, so only they bring a glob
to its limit.
-/

namespace DidYouMean

namespace Glob

/-- The deepest nesting that can be compiled. -/
def nestingLimit : Nat := 250

/-- How deep some things are nested that stand side by side. One alone is held by nothing; several
are held together, one level above the deepest. -/
def sideBySide : List Nat → Nat
  | [depth] => depth
  | depths => 1 + depths.foldl max 0

mutual

/-- How deep each factor is nested that a part is compiled to. A group is compiled to nothing if no
branch is left once the empty ones are dropped. -/
def factorDepths (stops : Bool) : Part → List Nat
  | .byte _ => [0]
  | .anyByte => [if stops then 1 else 0]
  | .anyRun => [if stops then 2 else 1]
  | .oneOf _ ranges => [if ranges.length = 1 then 1 else 2]
  | .leading => [4]
  | .inner => [4]
  | .trailing => [0, 1]
  | .alternatives branches =>
    match branchDepths stops branches with
    | [] => []
    | depths => [1 + sideBySide depths]

/-- How deep each branch is nested that is not empty. -/
def branchDepths (stops : Bool) : List (List Part) → List Nat
  | [] => []
  | ps :: rest =>
    match rowDepths stops ps with
    | [] => branchDepths stops rest
    | depths => sideBySide depths :: branchDepths stops rest

/-- How deep each factor is nested in a row of parts. -/
def rowDepths (stops : Bool) : List Part → List Nat
  | [] => []
  | p :: ps => factorDepths stops p ++ rowDepths stops ps

end

/-- How deep a glob is nested. Its parts stand in a row between the two anchors. -/
def nesting (g : Glob) : Nat := sideBySide (0 :: rowDepths g.stopsAtSeparator g.parts ++ [0])

/-- Globs that have been compiled. -/
structure Matcher where
  globs : List Glob
  nesting_le : ∀ g ∈ globs, g.nesting ≤ nestingLimit

namespace Matcher

/-- The matcher that some globs are compiled to. -/
def ofGlobs? (globs : List Glob) : Option Matcher :=
  if h : ∀ g ∈ globs, g.nesting ≤ nestingLimit then some ⟨globs, h⟩ else none

/-- Whether one of the globs matches a path. -/
def isMatch (m : Matcher) (path : Text) : Bool := m.globs.any (·.isMatch path)

end Matcher

end Glob

end DidYouMean
