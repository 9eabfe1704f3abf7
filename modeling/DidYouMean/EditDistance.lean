import DidYouMean.Text

/-!
# Edit distance

The least number of single characters to insert, delete or replace that turns one text into
another. It is computed one row of the usual table at a time: the row of a text `a` lists the
distances from `a` to every beginning of `b`, and one more character of `a` takes a row to the
next.
-/

namespace DidYouMean

namespace EditDistance

/-- The cells of the next row after its first, from the row before and the cell to the left. -/
def nextCells (x : Char) : (left : Nat) → (b : Text) → (row : List Nat) → List Nat
  | left, y :: b, diagonal :: above :: row =>
    let cell := min (min (above + 1) (left + 1)) (diagonal + if x = y then 0 else 1)
    cell :: nextCells x cell b (above :: row)
  | _, _, _ => []

/-- The row after `row`, one character further into the first text. -/
def nextRow (b : Text) (row : List Nat) (x : Char) : List Nat :=
  let first := row.headD 0 + 1
  first :: nextCells x first b row

/-- The distances from a text to every beginning of `b`, shortest first. -/
def row (a b : Text) : List Nat := a.foldl (nextRow b) (List.range (b.length + 1))

end EditDistance

/-- The least number of single-character edits that turns `a` into `b`. -/
def editDistance (a b : Text) : Nat := (EditDistance.row a b).getLastD 0

end DidYouMean
