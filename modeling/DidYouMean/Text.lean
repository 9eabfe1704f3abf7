/-!
# Texts

A text is the list of its characters, so that everything done to one is a recursion on a list and
its order is the order of lists. This file holds what the rest needs: cutting at a separator,
trimming at either end, and looking for one text inside another.
-/

namespace DidYouMean

/-- A text is the list of its characters. -/
abbrev Text := List Char

namespace Text

/-- The characters with the `White_Space` property. -/
def isBlank (c : Char) : Bool :=
  let n := c.toNat
  (0x9 ≤ n && n ≤ 0xd) || n == 0x20 || n == 0x85 || n == 0xa0 || n == 0x1680
    || (0x2000 ≤ n && n ≤ 0x200a) || n == 0x2028 || n == 0x2029 || n == 0x202f || n == 0x205f
    || n == 0x3000

/-- The text without its leading blanks. -/
def trimStart (t : Text) : Text := t.dropWhile isBlank

/-- The text without the longest run of characters satisfying `p` at its end. -/
def dropEndWhile (p : Char → Bool) (t : Text) : Text := (t.reverse.dropWhile p).reverse

/-- The longest run of characters satisfying `p` at the end of the text. -/
def takeEndWhile (p : Char → Bool) (t : Text) : Text := (t.reverse.takeWhile p).reverse

/-- The text without blanks at either end. -/
def trim (t : Text) : Text := dropEndWhile isBlank (trimStart t)

/-- The pieces of a text between its separators; there is always at least one. -/
def splitOn (sep : Char) : Text → List Text
  | [] => [[]]
  | c :: cs =>
    if c = sep then [] :: splitOn sep cs
    else match splitOn sep cs with
      | piece :: pieces => (c :: piece) :: pieces
      | [] => [[c]]

/-- The pieces in order, with a separator between neighbours. -/
def join (sep : Text) : List Text → Text
  | [] => []
  | [piece] => piece
  | piece :: pieces => piece ++ sep ++ join sep pieces

/-- What follows `start`, if the text begins with it. -/
def stripStart? : (start text : Text) → Option Text
  | [], t => some t
  | _ :: _, [] => none
  | c :: start, d :: t => if c = d then stripStart? start t else none

/-- What precedes `ending`, if the text ends with it. -/
def stripEnd? (ending text : Text) : Option Text :=
  (stripStart? ending.reverse text.reverse).map List.reverse

/-- The text without its leading copies of `start`, which must not be empty. -/
def dropCopies (start : Text) : Text → Text
  | [] => []
  | c :: t =>
    if start ≠ [] ∧ start.isPrefixOf (c :: t) then dropCopies start ((c :: t).drop start.length)
    else c :: t
termination_by t => t.length
decreasing_by
  rename_i h
  have : start.length ≠ 0 := by simp [h.1]
  simp only [List.length_drop, List.length_cons]
  omega

/-- What stands before and after the first occurrence of `needle`. -/
def cutAt? (needle : Text) : Text → Option (Text × Text)
  | [] => if needle = [] then some ([], []) else none
  | c :: t =>
    match stripStart? needle (c :: t) with
    | some rest => some ([], rest)
    | none => (cutAt? needle t).map fun (before, rest) => (c :: before, rest)

/-- Whether `needle` occurs in the text. -/
def contains (needle text : Text) : Bool := (cutAt? needle text).isSome

/-- Whether a text comes no later than another one in the order of their characters. -/
def notAfter (a b : Text) : Bool := !decide (b < a)

/-- The texts in order. -/
def sort (ts : List Text) : List Text := ts.mergeSort notAfter

/-- The bytes of the text in UTF-8. -/
def bytes (t : Text) : List UInt8 := t.flatMap String.utf8EncodeChar

/-- The number of bytes of the text in UTF-8. -/
def byteLength (t : Text) : Nat := (bytes t).length

/-- The decimal digits of a number. -/
def ofNat (n : Nat) : Text := Nat.toDigits 10 n

/-- The value of a decimal digit. -/
def digit? (c : Char) : Option Nat :=
  if '0' ≤ c ∧ c ≤ '9' then some (c.toNat - '0'.toNat) else none

/-- The number some decimal digits write. -/
def digits? (t : Text) : Option Nat :=
  if t = [] then none else t.foldlM (fun n c => (digit? c).map (n * 10 + ·)) 0

/-- The first number that does not fit 64 bits. -/
def wordLimit : Nat := Nat.pow 2 64

/-- The number of 64 bits that the text writes in decimal, with or without a plus sign. -/
def word? (t : Text) : Option Nat :=
  (digits? ((stripStart? ['+'] t).getD t)).filter (· < wordLimit)

end Text

end DidYouMean
