import DidYouMean.Text

/-!
# Bracket depth

Reading a signature from left to right, four counters say how deep in brackets the reader is. A
closing bracket never drives its counter below zero, and the `>` of an arrow `=>` closes nothing,
which is why a step looks at the character before as well. The counters here have no end; machine
words of 32 bits would only differ from them past `2 ^ 32` open brackets of one kind.
-/

namespace DidYouMean

namespace Signature

/-- How many brackets of each kind are open. -/
structure Depth where
  paren : Nat
  bracket : Nat
  brace : Nat
  angle : Nat
  deriving DecidableEq, Repr

namespace Depth

/-- Outside all brackets. -/
def zero : Depth := ⟨0, 0, 0, 0⟩

/-- Whether no bracket is open. -/
def isTop (d : Depth) : Bool := d.paren == 0 && d.bracket == 0 && d.brace == 0 && d.angle == 0

/-- The depth after `c`, which follows `before`. -/
def advance (d : Depth) (before : Option Char) (c : Char) : Depth :=
  match c with
  | '(' => { d with paren := d.paren + 1 }
  | ')' => { d with paren := d.paren - 1 }
  | '[' => { d with bracket := d.bracket + 1 }
  | ']' => { d with bracket := d.bracket - 1 }
  | '{' => { d with brace := d.brace + 1 }
  | '}' => { d with brace := d.brace - 1 }
  | '<' => { d with angle := d.angle + 1 }
  | '>' => if before = some '=' then d else { d with angle := d.angle - 1 }
  | _ => d

/-- The depths after each character of a text that is read at depth `d` after `before`. -/
def trace (d : Depth) (before : Option Char) : Text → List Depth
  | [] => []
  | c :: cs =>
    let next := d.advance before c
    next :: trace next (some c) cs

end Depth

end Signature

end DidYouMean
