import DidYouMean.Json.Numeral

/-!
# Writing JSON

Values are written over several lines, two more spaces of indent for each level. Empty arrays and
objects stay on one line. In a string only quotes, backslashes and control characters are escaped.
-/

namespace DidYouMean

namespace Json

/-- The hexadecimal digit of a number below sixteen. -/
def hexDigit (n : Nat) : Char := Nat.digitChar n

/-- A character as it stands in a string. -/
def escapeChar (c : Char) : Text :=
  match c with
  | '"' => ['\\', '"']
  | '\\' => ['\\', '\\']
  | '\x08' => ['\\', 'b']
  | '\x0c' => ['\\', 'f']
  | '\n' => ['\\', 'n']
  | '\r' => ['\\', 'r']
  | '\t' => ['\\', 't']
  | c =>
    if c.toNat < 0x20 then
      ['\\', 'u', '0', '0', hexDigit (c.toNat / 16), hexDigit (c.toNat % 16)]
    else [c]

/-- A text in quotes. -/
def quote (t : Text) : Text := '"' :: t.flatMap escapeChar ++ ['"']

/-- A line break and the indent of a level. -/
def newline (level : Nat) : Text := '\n' :: List.replicate (2 * level) ' '

mutual

/-- A value whose first line stands at some level. -/
def print (level : Nat) : Json → Text
  | null => "null".toList
  | bool b => if b then "true".toList else "false".toList
  | number n => n.toText
  | string content => quote (content.getD [])
  | array [] => "[]".toList
  | array (v :: vs) =>
    '[' :: newline (level + 1) ++ print (level + 1) v ++ printItems (level + 1) vs
      ++ newline level ++ [']']
  | object [] => "{}".toList
  | object ((key, v) :: ms) =>
    '{' :: newline (level + 1) ++ quote (key.getD []) ++ [':', ' '] ++ print (level + 1) v
      ++ printMembers (level + 1) ms ++ newline level ++ ['}']

/-- The items after the first, each on its line. -/
def printItems (level : Nat) : List Json → Text
  | [] => []
  | v :: vs => ',' :: newline level ++ print level v ++ printItems level vs

/-- The members after the first, each on its line. -/
def printMembers (level : Nat) : List (Option Text × Json) → Text
  | [] => []
  | (key, v) :: ms =>
    ',' :: newline level ++ quote (key.getD []) ++ [':', ' '] ++ print level v
      ++ printMembers level ms

end

/-- A value as text. -/
def toText (v : Json) : Text := print 0 v

/-- A string of some text. -/
def ofText (t : Text) : Json := string (some t)

/-- An array of strings. -/
def ofTexts (ts : List Text) : Json := array (ts.map ofText)

/-- An object with some members. -/
def ofMembers (members : List (Text × Json)) : Json :=
  object (members.map fun (key, v) => (some key, v))

end Json

end DidYouMean
