import DidYouMean.Text

/-!
# JSON values

A value holds what its text says and nothing less: a number keeps its digits as they are written,
an object keeps all its members in their order, equal keys included, and a string may be one that
spells half of a surrogate pair, which no text is. What a reader of the value makes of these is
decided where it is read.
-/

namespace DidYouMean

namespace Json

/-- A number as it is written: digits before the point, digits after it (none without a point) and
the exponent after its mark. -/
structure Numeral where
  negative : Bool
  whole : Text
  fraction : Text
  exponent : Option Int
  deriving DecidableEq, Repr

end Json

/-- A JSON value. A string without a text is one with half of a surrogate pair in it. -/
inductive Json where
  | null
  | bool (b : Bool)
  | number (n : Json.Numeral)
  | string (content : Option Text)
  | array (items : List Json)
  | object (members : List (Option Text × Json))

namespace Json

mutual

/-- How deep arrays and objects are nested in a value. -/
def nesting : Json → Nat
  | array items => itemsNesting items + 1
  | object members => membersNesting members + 1
  | _ => 0

/-- The deepest nesting among some items. -/
def itemsNesting : List Json → Nat
  | [] => 0
  | v :: vs => max (nesting v) (itemsNesting vs)

/-- The deepest nesting among some members. -/
def membersNesting : List (Option Text × Json) → Nat
  | [] => 0
  | (_, v) :: ms => max (nesting v) (membersNesting ms)

end

mutual

/-- Whether two values are the same. -/
def isSame : Json → Json → Bool
  | null, null => true
  | bool a, bool b => a == b
  | number m, number n => m == n
  | string s, string t => s == t
  | array vs, array ws => itemsAreSame vs ws
  | object ms, object ns => membersAreSame ms ns
  | _, _ => false

/-- Whether the same items stand at each place. -/
def itemsAreSame : List Json → List Json → Bool
  | [], [] => true
  | v :: vs, w :: ws => isSame v w && itemsAreSame vs ws
  | _, _ => false

/-- Whether the same members stand at each place. -/
def membersAreSame : List (Option Text × Json) → List (Option Text × Json) → Bool
  | [], [] => true
  | (key, v) :: ms, (key', w) :: ns => key == key' && isSame v w && membersAreSame ms ns
  | _, _ => false

end

mutual

@[simp] theorem isSame_iff : ∀ v w : Json, isSame v w = true ↔ v = w
  | null, w => by cases w <;> simp [isSame]
  | bool a, w => by cases w <;> simp [isSame]
  | number n, w => by cases w <;> simp [isSame]
  | string s, w => by cases w <;> simp [isSame]
  | array vs, w => by cases w <;> simp [isSame, itemsAreSame_iff vs]
  | object ms, w => by cases w <;> simp [isSame, membersAreSame_iff ms]

@[simp] theorem itemsAreSame_iff : ∀ vs ws : List Json, itemsAreSame vs ws = true ↔ vs = ws
  | [], ws => by cases ws <;> simp [itemsAreSame]
  | v :: vs, ws => by cases ws <;> simp [itemsAreSame, isSame_iff v, itemsAreSame_iff vs]

@[simp] theorem membersAreSame_iff : ∀ ms ns : List (Option Text × Json),
    membersAreSame ms ns = true ↔ ms = ns
  | [], ns => by cases ns <;> simp [membersAreSame]
  | (key, v) :: ms, ns => by
    cases ns <;> simp [membersAreSame, isSame_iff v, membersAreSame_iff ms, Prod.ext_iff]

end

instance : DecidableEq Json := fun v w => decidable_of_iff (isSame v w = true) (isSame_iff v w)

end Json

end DidYouMean
