import DidYouMean.Signature.Segments

/-!
# Signatures as lines

A signature is shown bound to its name. A function type `(a) => b` becomes `name(a): b`, so that it
reads like the call it allows; a union of call signatures in braces takes one line for each of
them; anything else follows the name and a colon.
-/

namespace DidYouMean

namespace Signature

/-- Whether a text begins with a parameter list or a clause of type parameters. -/
def isCall (t : Text) : Bool := t.head? == some '(' || t.head? == some '<'

/-- One signature bound to a name on one line. -/
def single (name signature : Text) : Text :=
  let trimmed := Text.trim signature
  match arrow? trimmed with
  | some (parameters, result) => name ++ '(' :: parameters ++ "): ".toList ++ result
  | none =>
    if (Text.stripStart? name trimmed).any isCall then trimmed
    else if isCall trimmed then name ++ trimmed
    else name ++ ": ".toList ++ trimmed

/-- The label of one call signature of a union: its type parameters if it has any, else its
parameter list and result. -/
def overload (name segment : Text) : Text :=
  let trimmed := Text.trim segment
  let nameless := ((Text.stripStart? name trimmed).map Text.trimStart).getD trimmed
  match angleClause? nameless with
  | some clause => name ++ clause
  | none =>
    if trimmed.head? = some '(' then single name trimmed
    else if name ≠ [] ∧ nameless.head? = some '(' then trimmed
    else name

/-- What stands between a leading `{` and a final `}`. -/
def braced? : Text → Option Text
  | '{' :: t => Text.stripEnd? ['}'] t
  | _ => none

/-- The call signatures of a union in braces; a lone one makes no union. -/
def overloads? (signature : Text) : Option (List Text) := do
  let inner ← braced? (Text.trim signature)
  let found := ((segments (Text.trim inner)).map Text.trim).filter (· != [])
  if found.length > 1 then some found else none

/-- The lines a signature is shown as. -/
def lines (name signature : Text) : List Text :=
  match overloads? signature with
  | some found => found.map (overload name)
  | none => [single name signature]

end Signature

end DidYouMean
