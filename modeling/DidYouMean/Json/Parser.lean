import DidYouMean.Json

/-!
# Reading JSON

The grammar is that of RFC 8259 and the whole text has to be one value. Each reader takes a text
and gives back what it read and the text after it. The readers of values call each other with one
unit of fuel less; a text has at most as many values and members in it as it has characters, so its
length is fuel enough.
-/

namespace DidYouMean

namespace Json

/-- Whether a character may stand between tokens. -/
def isSpace (c : Char) : Bool := c == ' ' || c == '\n' || c == '\t' || c == '\r'

/-- The text from its next token on. -/
def skipSpace (t : Text) : Text := t.dropWhile isSpace

/-- The value of a hexadecimal digit. -/
def hexDigit? (c : Char) : Option Nat :=
  if '0' ≤ c ∧ c ≤ '9' then some (c.toNat - '0'.toNat)
  else if 'a' ≤ c ∧ c ≤ 'f' then some (c.toNat - 'a'.toNat + 10)
  else if 'A' ≤ c ∧ c ≤ 'F' then some (c.toNat - 'A'.toNat + 10)
  else none

/-- The character that a letter after a backslash stands for. -/
def escape? (c : Char) : Option Char :=
  match c with
  | '"' | '\\' | '/' => some c
  | 'b' => some '\x08'
  | 'f' => some '\x0c'
  | 'n' => some '\n'
  | 'r' => some '\r'
  | 't' => some '\t'
  | _ => none

/-- What a string spells after its opening quote, as code points and halves of surrogate pairs, and
the text after its closing quote. -/
def readString? : Text → Option (List Nat × Text)
  | [] => none
  | '"' :: t => some ([], t)
  | '\\' :: 'u' :: a :: b :: c :: d :: t => do
    let unit := (((← hexDigit? a) * 16 + (← hexDigit? b)) * 16 + (← hexDigit? c)) * 16
      + (← hexDigit? d)
    let (units, rest) ← readString? t
    return (unit :: units, rest)
  | '\\' :: c :: t => do
    let e ← escape? c
    let (units, rest) ← readString? t
    return (e.toNat :: units, rest)
  | c :: t =>
    if c = '\\' ∨ c.toNat < 0x20 then none
    else (readString? t).map fun (units, rest) => (c.toNat :: units, rest)

/-- Whether a number is the first half of a surrogate pair. -/
def isHighSurrogate (n : Nat) : Bool := 0xd800 ≤ n && n < 0xdc00

/-- Whether a number is the second half of a surrogate pair. -/
def isLowSurrogate (n : Nat) : Bool := 0xdc00 ≤ n && n < 0xe000

/-- The text that code points and surrogate pairs spell, unless a half stands alone. -/
def spell? : List Nat → Option Text
  | [] => some []
  | [u] => if isHighSurrogate u || isLowSurrogate u then none else some [Char.ofNat u]
  | u :: v :: rest =>
    if isHighSurrogate u then
      if isLowSurrogate v then
        (spell? rest).map (Char.ofNat (0x10000 + (u - 0xd800) * 0x400 + (v - 0xdc00)) :: ·)
      else none
    else if isLowSurrogate u then none
    else (spell? (v :: rest)).map (Char.ofNat u :: ·)

/-- Whether a character is a decimal digit. -/
def isDigit (c : Char) : Bool := (Text.digit? c).isSome

/-- The digits before the point: a lone zero, or digits that begin with another one. -/
def readWhole? : Text → Option (Text × Text)
  | [] => none
  | c :: t =>
    if c = '0' then some (['0'], t)
    else if isDigit c then some (c :: t.takeWhile isDigit, t.dropWhile isDigit)
    else none

/-- The point and the digits after it, of which there is at least one if there is a point. -/
def readFraction? : Text → Option (Text × Text)
  | '.' :: t =>
    let digits := t.takeWhile isDigit
    if digits = [] then none else some (digits, t.dropWhile isDigit)
  | t => some ([], t)

/-- The digits of an exponent as a number. -/
def readPower? (negative : Bool) (t : Text) : Option (Option Int × Text) :=
  (Text.digits? (t.takeWhile isDigit)).map fun n =>
    (some (if negative then -(n : Int) else n), t.dropWhile isDigit)

/-- The exponent, if there is a mark. -/
def readExponent? : Text → Option (Option Int × Text)
  | [] => some (none, [])
  | c :: t =>
    if c = 'e' ∨ c = 'E' then
      match t with
      | '+' :: t => readPower? false t
      | '-' :: t => readPower? true t
      | t => readPower? false t
    else some (none, c :: t)

/-- A number. -/
def readNumeral? (t : Text) : Option (Numeral × Text) := do
  let unsigned := (Text.stripStart? ['-'] t).getD t
  let (whole, t₁) ← readWhole? unsigned
  if t₁.head?.any isDigit then none
  else
    let (fraction, t₂) ← readFraction? t₁
    let (exponent, t₃) ← readExponent? t₂
    return (⟨unsigned.length ≠ t.length, whole, fraction, exponent⟩, t₃)

/-- A key and the colon after it. -/
def readKey? (t : Text) : Option (Option Text × Text) :=
  match skipSpace t with
  | '"' :: t => do
    let (units, t) ← readString? t
    match skipSpace t with
    | ':' :: t => return (spell? units, t)
    | _ => none
  | _ => none

mutual

/-- A value, after any space. -/
def readValue? : (fuel : Nat) → Text → Option (Json × Text)
  | 0, _ => none
  | fuel + 1, t =>
    match skipSpace t with
    | '{' :: t =>
      match skipSpace t with
      | '}' :: t => some (object [], t)
      | t => (readMembers? fuel t).map fun (members, t) => (object members, t)
    | '[' :: t =>
      match skipSpace t with
      | ']' :: t => some (array [], t)
      | t => (readItems? fuel t).map fun (items, t) => (array items, t)
    | '"' :: t => (readString? t).map fun (units, t) => (string (spell? units), t)
    | t =>
      match Text.stripStart? "null".toList t with
      | some t => some (null, t)
      | none =>
        match Text.stripStart? "true".toList t with
        | some t => some (bool true, t)
        | none =>
          match Text.stripStart? "false".toList t with
          | some t => some (bool false, t)
          | none => (readNumeral? t).map fun (n, t) => (number n, t)

/-- The items of an array that has some, and the bracket after them. -/
def readItems? : (fuel : Nat) → Text → Option (List Json × Text)
  | 0, _ => none
  | fuel + 1, t => do
    let (v, t) ← readValue? fuel t
    match skipSpace t with
    | ']' :: t => return ([v], t)
    | ',' :: t =>
      let (vs, t) ← readItems? fuel t
      return (v :: vs, t)
    | _ => none

/-- The members of an object that has some, and the brace after them. -/
def readMembers? : (fuel : Nat) → Text → Option (List (Option Text × Json) × Text)
  | 0, _ => none
  | fuel + 1, t => do
    let (key, t) ← readKey? t
    let (v, t) ← readValue? fuel t
    match skipSpace t with
    | '}' :: t => return ([(key, v)], t)
    | ',' :: t =>
      let (ms, t) ← readMembers? fuel t
      return ((key, v) :: ms, t)
    | _ => none

end

/-- The value that the whole text is. -/
def parse? (t : Text) : Option Json := do
  let (v, rest) ← readValue? (t.length + 1) t
  if skipSpace rest = [] then some v else none

end Json

end DidYouMean
