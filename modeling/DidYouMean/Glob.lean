import DidYouMean.Text

/-!
# Globs

A glob is a list of parts that have to match a path from end to end, byte by byte. Whether the
wildcards `?` and `*` pass over a separator is a setting of the glob; `**` as a whole component
stands for any number of directories, and elsewhere it is `*` twice.
-/

namespace DidYouMean

namespace Glob

/-- One part of a glob. A class holds ranges of bytes. Of the forms of `**`, `leading` takes
nothing or directories with the separator after them, `inner` a separator or directories between
two separators, and `trailing` everything below a directory. -/
inductive Part where
  | byte (b : UInt8)
  | anyByte
  | anyRun
  | oneOf (negated : Bool) (ranges : List (UInt8 × UInt8))
  | leading
  | inner
  | trailing
  | alternatives (branches : List (List Part))

/-- The separator as a byte. -/
def separator : UInt8 := 47

/-- A literal character: its bytes. -/
def literal (c : Char) : List Part := (Text.bytes [c]).map .byte

/-- The ranges of bytes of a range of characters. Only characters of one byte make a range of their
own; the bytes of others are members one by one, but for the two next to the dash. -/
def byteRanges : Char × Char → List (UInt8 × UInt8)
  | (low, high) =>
    if low = high then (Text.bytes [low]).map fun b => (b, b)
    else
      let lows := Text.bytes [low]
      let highs := Text.bytes [high]
      (lows.dropLast.map fun b => (b, b)) ++ [(lows.getLastD 0, highs.headD 0)]
        ++ (highs.drop 1).map fun b => (b, b)

/-- The ranges of a class, last first, and the text after its closing bracket. A bracket or a dash
is a member in first place, and a dash in last place; `dash` says that the last range is still
waiting for its end. -/
def readClass? (ranges : List (Char × Char)) (first dash : Bool) :
    Text → Option (List (Char × Char) × Text)
  | [] => none
  | c :: t =>
    if c = ']' ∧ !first then some (if dash then ('-', '-') :: ranges else ranges, t)
    else if c = '-' ∧ !first ∧ !dash then readClass? ranges false true t
    else if dash then
      match ranges with
      | (low, _) :: before =>
        if c < low then none else readClass? ((low, c) :: before) false false t
      | [] => none
    else readClass? ((c, c) :: ranges) false false t

theorem length_of_readClass? {ranges found : List (Char × Char)} {first dash : Bool}
    {t rest : Text} (h : readClass? ranges first dash t = some (found, rest)) :
    rest.length < t.length := by
  fun_induction readClass? ranges first dash t <;> simp_all <;> omega

/-- The class that begins after an opening bracket, and the text after it. -/
def readSet? (t : Text) : Option (Part × Text) :=
  let negated := t.head? == some '!' || t.head? == some '^'
  (readClass? [] true false (if negated then t.drop 1 else t)).map fun (ranges, rest) =>
    (.oneOf negated (ranges.flatMap byteRanges), rest)

theorem length_of_readSet? {t rest : Text} {part : Part} (h : readSet? t = some (part, rest)) :
    rest.length < t.length := by
  simp only [readSet?, Option.map_eq_some_iff, Prod.mk.injEq] at h
  obtain ⟨⟨ranges, after⟩, h, -, rfl⟩ := h
  have hlen : after.length < t.length := by
    have := length_of_readClass? h
    split at this
    · simp only [List.length_drop] at this
      omega
    · exact this
  exact hlen

/-- A group in braces that is being read: the branches before and the parts of the present one, both
last first. The pattern outside all braces is such a group too. -/
structure Group where
  branches : List (List Part)
  parts : List Part

namespace Group

/-- The group with more parts in its present branch. -/
def push (g : Group) (parts : List Part) : Group := { g with parts := parts.reverse ++ g.parts }

/-- The group with a form of `**` in the place of its last part, unless that is one already that
takes no separator in front. -/
def pushDirs (g : Group) (dirs : Part) : Group :=
  match g.parts with
  | .leading :: _ | .trailing :: _ => g
  | _ :: before => { g with parts := dirs :: before }
  | [] => { g with parts := [dirs] }

/-- The branches of a group. -/
def close (g : Group) : List (List Part) := (g.parts.reverse :: g.branches).reverse

end Group

/-- The parts of a pattern. `before` is the character that was read last, `outer` are the groups
around the present one. -/
def readParts? (before : Option Char) (outer : List Group) (here : Group) :
    Text → Option (List Part)
  | [] => if outer.isEmpty then some here.parts.reverse else none
  | '\\' :: [] => none
  | '\\' :: c :: t => readParts? (some c) outer (here.push (literal c)) t
  | '*' :: '*' :: t =>
    if here.parts.isEmpty then
      match t with
      | [] => readParts? none outer (here.push [.leading]) []
      | c :: rest =>
        if c = '/' then readParts? (some c) outer (here.push [.leading]) rest
        else readParts? (some '*') outer (here.push [.anyRun, .anyRun]) (c :: rest)
    else if before ≠ some '/' ∧ (outer.isEmpty ∨ before ≠ some ',' ∧ before ≠ some '{') then
      readParts? (some '*') outer (here.push [.anyRun, .anyRun]) t
    else
      match t with
      | [] => readParts? none outer (here.pushDirs .trailing) []
      | c :: rest =>
        if c = '/' then readParts? (some c) outer (here.pushDirs .inner) rest
        else if (c = ',' ∨ c = '}') ∧ !outer.isEmpty then
          readParts? (some '*') outer (here.pushDirs .trailing) (c :: rest)
        else readParts? (some '*') outer (here.push [.anyRun, .anyRun]) (c :: rest)
  | '[' :: t =>
    match h : readSet? t with
    | some (part, rest) =>
      have := length_of_readSet? h
      readParts? (some ']') outer (here.push [part]) rest
    | none => none
  | '}' :: t =>
    match outer with
    | [] => none
    | up :: outer => readParts? (some '}') outer (up.push [.alternatives here.close]) t
  | c :: t =>
    if c = '?' then readParts? (some c) outer (here.push [.anyByte]) t
    else if c = '*' then readParts? (some c) outer (here.push [.anyRun]) t
    else if c = '{' then readParts? (some c) (here :: outer) ⟨[], []⟩ t
    else if c = ',' ∧ !outer.isEmpty then
      readParts? (some c) outer ⟨here.parts.reverse :: here.branches, []⟩ t
    else readParts? (some c) outer (here.push (literal c)) t
termination_by t => t.length
decreasing_by all_goals (simp only [List.length_cons, List.length_nil]; omega)

end Glob

/-- The parts of a glob, and whether its wildcards stop at separators. -/
structure Glob where
  parts : List Glob.Part
  stopsAtSeparator : Bool

namespace Glob

/-- The glob that a pattern writes. -/
def parse? (stopsAtSeparator : Bool) (pattern : Text) : Option Glob :=
  (readParts? none [] ⟨[], []⟩ pattern).map (⟨·, stopsAtSeparator⟩)

end Glob

end DidYouMean
