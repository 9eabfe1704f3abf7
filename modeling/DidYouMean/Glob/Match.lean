import DidYouMean.Glob.FileName
import DidYouMean.Path

/-!
# Matching globs

The places of a path are those before each of its bytes and the one at its end. Some parts of a
glob that are matched one after another from the start can reach several places, and these are
marked. Each further part moves the marks, so a path is gone through once for each part, and it is
matched if the mark at its end is set when all parts are done.
-/

namespace DidYouMean

namespace Glob

/-- A mark for each place of a path. -/
abbrev Marks := List Bool

namespace Marks

/-- Only the start is marked. -/
def start (bs : List UInt8) : Marks := true :: bs.map fun _ => false

/-- No place is marked. -/
def clear (marks : Marks) : Marks := marks.map fun _ => false

/-- The places marked in one or the other. -/
def either (marks others : Marks) : Marks := marks.zipWith (· || ·) others

/-- The places behind one byte satisfying `p` at a marked place. -/
def step (p : UInt8 → Bool) (bs : List UInt8) (marks : Marks) : Marks :=
  false :: bs.zipWith (fun b m => m && p b) marks

/-- The places behind any number of bytes satisfying `p` at a marked place; `reached` says that such
bytes lead up to the first of these places. -/
def spread (p : UInt8 → Bool) (reached : Bool) : List UInt8 → Marks → Marks
  | _, [] => []
  | [], m :: _ => [m || reached]
  | b :: bs, m :: marks => (m || reached) :: spread p ((m || reached) && p b) bs marks

/-- The places behind any number of bytes at a marked place. -/
def anywhereBehind (bs : List UInt8) (marks : Marks) : Marks :=
  spread (fun _ => true) false bs marks

/-- The places behind a separator at a marked place. -/
def behindSeparator (bs : List UInt8) (marks : Marks) : Marks := step (· == separator) bs marks

/-- The marked places, and those behind any later separator. -/
def belowDirectories (bs : List UInt8) (marks : Marks) : Marks :=
  marks.either (behindSeparator bs (anywhereBehind bs marks))

end Marks

/-- Whether a class has a byte as a member. -/
def isMember (negated : Bool) (ranges : List (UInt8 × UInt8)) (b : UInt8) : Bool :=
  ranges.any (fun (low, high) => low ≤ b && b ≤ high) != negated

mutual

/-- Whether a part is a group of which nothing is left once its empty branches are dropped. -/
def isVoid : Part → Bool
  | .alternatives branches => branchesAreVoid branches
  | _ => false

/-- Whether every branch is void. -/
def branchesAreVoid : List (List Part) → Bool
  | [] => true
  | ps :: rest => partsAreVoid ps && branchesAreVoid rest

/-- Whether every part is void. -/
def partsAreVoid : List Part → Bool
  | [] => true
  | p :: ps => isVoid p && partsAreVoid ps

end

mutual

/-- The places that a part reaches from the marked ones. A group of void branches stays where it
is. -/
def reach (stops : Bool) (bs : List UInt8) (part : Part) (marks : Marks) : Marks :=
  match part with
  | .byte b => marks.step (· == b) bs
  | .anyByte => marks.step (fun b => !(stops && b == separator)) bs
  | .anyRun => marks.spread (fun b => !(stops && b == separator)) false bs
  | .oneOf negated ranges => marks.step (isMember negated ranges) bs
  | .leading => marks.belowDirectories bs
  | .inner => (marks.behindSeparator bs).belowDirectories bs
  | .trailing => (marks.behindSeparator bs).anywhereBehind bs
  | .alternatives branches =>
    if branchesAreVoid branches then marks else reachByBranches stops bs branches marks

/-- The places that the branches that are not void reach. -/
def reachByBranches (stops : Bool) (bs : List UInt8) : List (List Part) → Marks → Marks
  | [], marks => marks.clear
  | ps :: rest, marks =>
    (if partsAreVoid ps then marks.clear else reachByParts stops bs ps marks).either
      (reachByBranches stops bs rest marks)

/-- The places that parts reach, one after another. -/
def reachByParts (stops : Bool) (bs : List UInt8) : List Part → Marks → Marks
  | [], marks => marks
  | p :: ps, marks => reachByParts stops bs ps (reach stops bs p marks)

end

/-- Whether the parts of a glob match a whole path. The glob `**` alone matches every path. -/
def spans (g : Glob) (path : Text) : Bool :=
  match g.parts with
  | [.leading] => true
  | parts =>
    let bs := Text.bytes path
    (reachByParts g.stopsAtSeparator bs parts (.start bs)).getLastD false

/-- Whether a glob matches a path. One that goes by the file name needs a path that has one. -/
def isMatch (g : Glob) (path : Text) : Bool :=
  !(g.goesByFileName && Path.fileName path == ['.', '.']) && g.spans path

end Glob

end DidYouMean
