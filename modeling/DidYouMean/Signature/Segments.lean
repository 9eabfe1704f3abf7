import DidYouMean.Signature.Depth

/-!
# Cutting signatures apart

A semicolon separates the parts of a signature only outside all brackets, and a leading clause of
type parameters or group in parentheses ends where its own bracket closes. Each of these is one
pass that carries the depth and the character before.
-/

namespace DidYouMean

namespace Signature

/-- The pieces between the semicolons at top level of a text read at depth `d` after `before`. -/
def pieces (d : Depth) (before : Option Char) : Text → List Text
  | [] => [[]]
  | c :: cs =>
    if c = ';' ∧ d.isTop then [] :: pieces d (some c) cs
    else match pieces (d.advance before c) (some c) cs with
      | piece :: rest => (c :: piece) :: rest
      | [] => [[c]]

/-- The pieces between top-level semicolons that are not blank, untrimmed. -/
def segments (t : Text) : List Text :=
  (pieces Depth.zero none t).filter fun piece => Text.trim piece != []

/-- The text up to the `>` that brings `depth` open angle brackets to none, read after `before`. The
depth has no end, as those of `Depth` have none. -/
def throughAngle? (depth : Nat) (before : Option Char) : Text → Option Text
  | [] => none
  | c :: cs =>
    if c = '<' then (throughAngle? (depth + 1) (some c) cs).map (c :: ·)
    else if c = '>' ∧ before ≠ some '=' ∧ 0 < depth then
      if depth = 1 then some [c] else (throughAngle? (depth - 1) (some c) cs).map (c :: ·)
    else (throughAngle? depth (some c) cs).map (c :: ·)

/-- The clause of type parameters a text begins with, brackets included, if it is closed. -/
def angleClause? (t : Text) : Option Text :=
  if t.head? = some '<' then throughAngle? 0 none t else none

/-- What stands before and after the first `)` that leaves no bracket open, in a text read at depth
`d` after `before`. -/
def closeGroup? (d : Depth) (before : Option Char) : Text → Option (Text × Text)
  | [] => none
  | c :: cs =>
    let next := d.advance before c
    if c = ')' ∧ next.isTop then some ([], cs)
    else (closeGroup? next (some c) cs).map fun (inside, rest) => (c :: inside, rest)

/-- The parameters and the result of a text `(parameters) => result`. Only the arrow right after
the parameter list counts. -/
def arrow? : Text → Option (Text × Text)
  | '(' :: cs => do
    let (parameters, rest) ← closeGroup? (Depth.zero.advance none '(') (some '(') cs
    return (parameters, ← Text.stripStart? " => ".toList rest)
  | _ => none

end Signature

end DidYouMean
