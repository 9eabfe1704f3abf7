import DidYouMean.Json.Numeral

/-!
# Fields of a JSON document

A document with a fixed list of fields is an object with these as members, or an array of their
values in order that may end early. A field given twice is an error; a member of another name is
skipped with whatever is in it. What a field holds is kept, so it has to be something that can be:
strings that are texts, numbers in range, no more than 127 levels of nesting in the document.
-/

namespace DidYouMean

namespace Json

mutual

/-- Whether all strings of a value are texts and all its numbers in range. -/
def isPlain : Json → Bool
  | null | bool _ => true
  | number n => n.double?.isSome
  | string content => content.isSome
  | array items => itemsArePlain items
  | object members => membersArePlain members

/-- Whether all items are plain. -/
def itemsArePlain : List Json → Bool
  | [] => true
  | v :: vs => isPlain v && itemsArePlain vs

/-- Whether all members are plain and their keys texts. -/
def membersArePlain : List (Option Text × Json) → Bool
  | [] => true
  | (key, v) :: ms => key.isSome && isPlain v && membersArePlain ms

end

/-- The deepest nesting of a document with its fields. -/
def maxNesting : Nat := 127

/-- Whether a value can be kept as a field of a document. -/
def isKeepable (v : Json) : Bool := isPlain v && v.nesting < maxNesting

/-- The value of a field among members: none if it is absent, an error if it is there twice or
cannot be kept. -/
def field? (members : List (Option Text × Json)) (name : Text) : Option (Option Json) :=
  match members.filter (·.1 == some name) with
  | [] => some none
  | [(_, v)] => if isKeepable v then some (some v) else none
  | _ => none

/-- The values of the named fields of a document. -/
def fields? (names : List Text) : Json → Option (List (Option Json))
  | object members =>
    if members.all (·.1.isSome) then names.mapM (field? members) else none
  | array items =>
    if items.length ≤ names.length ∧ items.all isKeepable then
      some (items.map some ++ List.replicate (names.length - items.length) none)
    else none
  | _ => none

/-! ## What fields hold -/

/-- A string that is a text. -/
def text? : Json → Option Text
  | .string content => content
  | _ => none

/-- A list of strings. -/
def texts? : Json → Option (List Text)
  | .array items => items.mapM text?
  | _ => none

/-- A number that is a word. -/
def word? : Json → Option Nat
  | .number n => n.word?
  | _ => none

/-- A number that is a double. -/
def double? : Json → Option Binary64
  | .number n => n.double?
  | _ => none

end Json

end DidYouMean
