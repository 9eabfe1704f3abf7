import DidYouMean.Ranking
import DidYouMean.Signature
import DidYouMean.Template

/-!
# Messages

What a diagnostic says is a header, a sentence on the name that was not found, and below it one
line for each suggestion, or for each call signature of a suggestion that has several. A line that
was shown already is not shown again.
-/

namespace DidYouMean

/-- What a module specifier that was not found would have named. -/
inductive ModuleKind where
  | localFile
  | package
  deriving DecidableEq, Repr

/-- What was looked up when a name was not found. -/
inductive Context where
  | member (property : Text) (typeName : Option Text)
  | exported (name modulePath : Text) (typeName : Option Text)
  | imported (name modulePath : Text) (typeName : Option Text)
  | missingName (name : Text)
  | moduleSpecifier (requested : Text) (kind : ModuleKind)
  deriving DecidableEq, Repr

namespace Context

/-- The text that was written. -/
def query : Context → Text
  | member property _ => property
  | exported name _ _ => name
  | imported name _ _ => name
  | missingName name => name
  | moduleSpecifier requested _ => requested

/-- Whether the suggestions are shown with their signatures. -/
def showsSignatures : Context → Bool
  | moduleSpecifier .. => false
  | _ => true

/-- The sentence on an export that was not found, which names the module's type if it has a name. -/
def exportHeader (name modulePath : Text) (typeName : Option Text) : Text :=
  match typeName.filter (· != []) with
  | some typeName =>
    Template.fill [name, typeName] "Export '{0}' does not exist on type '{1}'.".toList
  | none =>
    Template.fill [name, modulePath]
      "Export '{0}' does not exist in module '{1}'.".toList

/-- The sentence on what was not found. A local file stands in double quotes. -/
def header : Context → Text
  | member property typeName =>
    match typeName.filter (· != []) with
    | some typeName =>
      Template.fill [property, typeName]
        "Property '{0}' does not exist on type '{1}'.".toList
    | none => Template.fill [property] "Property '{0}' does not exist.".toList
  | exported name modulePath typeName => exportHeader name modulePath typeName
  | imported name modulePath typeName => exportHeader name modulePath typeName
  | missingName name => Template.fill [name] "Cannot find name '{0}'.".toList
  | moduleSpecifier requested .localFile =>
    Template.fill [requested] r#"Cannot find module "{0}"."#.toList
  | moduleSpecifier requested .package =>
    Template.fill [requested]
      "Cannot find module '{0}' or its corresponding type declarations.".toList

end Context

namespace Message

/-- The words above a list of suggestions. -/
def didYouMean : Text := "Did you mean:".toList

/-- What stands for an empty list of suggestions. -/
def nothingSimilar : Text := "No similar suggestions found.".toList

/-- The mark at the start of a suggestion's line. -/
def bullet : Text := "  - ".toList

/-- The lines of one suggestion, without their mark. -/
def suggestionLines (withSignatures : Bool) (s : Suggestion) : List Text :=
  match s.signature with
  | some signature => if withSignatures then Signature.lines s.name signature else [s.name]
  | none => [s.name]

/-- The lines of some suggestions in their order, each line once. -/
def listLines (withSignatures : Bool) (suggestions : List Suggestion) : List Text :=
  (suggestions.flatMap fun s => (suggestionLines withSignatures s).map (bullet ++ ·)).eraseDups

/-- The suggestions as text. -/
def list (withSignatures : Bool) (suggestions : List Suggestion) : Text :=
  Text.join ['\n'] (listLines withSignatures suggestions)

/-- The suggestions without a header, or a sentence that there are none. -/
def standalone (suggestions : List Suggestion) : Text :=
  if suggestions = [] then nothingSimilar
  else didYouMean ++ '\n' :: list false suggestions

/-- The whole message. -/
def compose (context : Context) (suggestions : List Suggestion) : Text :=
  if suggestions = [] then context.header
  else context.header ++ ' ' :: didYouMean ++ '\n' :: list context.showsSignatures suggestions

end Message

end DidYouMean
