import DidYouMean.Check.Candidates
import DidYouMean.Check.Oracle
import DidYouMean.Check.Verdict

/-!
# Checking names

Members, exports, imports and plain names are checked alike: the oracle lists what there is, and a
name that is not listed is compared with the listed ones that may be suggested there. A list the
oracle cannot give makes the name valid, and a signature it cannot give is left out, so no failure
of the oracle is ever reported as an error of the program.
-/

namespace DidYouMean

/-- Where a name is taken from a module. -/
structure ImportSite where
  specifier : Text
  containingFile : Text
  name : Text
  deriving DecidableEq, Repr

namespace SymbolCheck

/-- A signature that the oracle has and that is not empty. -/
def signature? : Except OracleError (Option Text) → Option Text
  | .ok (some t) => if t = [] then none else some t
  | _ => none

/-- The verdict on a name where `names` are valid. -/
def checkAmong (options : RankingOptions) (admissible : Text → Text → Bool)
    (signature : Text → Except OracleError (Option Text)) (context : Context) (name : Text)
    (names : List Text) : Verdict :=
  if names.contains name then .valid
  else
    .ofSuggestions context <|
      Suggestion.attachSignatures (fun s => signature? (signature s.name))
        (rankNames options name (names.eraseDups.filter (admissible name)))

variable {τ : Type}

/-- The verdict on a property of a value of type `type`. -/
def checkMember (oracle : TypeOracle τ) (options : RankingOptions) (type : τ) (name : Text) :
    Verdict :=
  match oracle.properties type with
  | .ok names =>
    checkAmong options Admissible.asMember (oracle.propertySignature type)
      (.member name (oracle.typeName type)) name names
  | .error _ => .valid

/-- The verdict on a key of an object literal; without a type to fit any key will do. -/
def checkObjectKey (oracle : TypeOracle τ) (options : RankingOptions) (type : Option τ)
    (name : Text) : Verdict :=
  match type with
  | some type => checkMember oracle options type name
  | none => .valid

/-- The verdict on a name taken from a module. A module that is not there is not reported here. -/
def checkModuleMember (oracle : TypeOracle τ) (options : RankingOptions)
    (admissible : Text → Text → Bool) (context : Option Text → Context) (site : ImportSite) :
    Verdict :=
  match oracle.resolveModule site.specifier site.containingFile with
  | .ok (some modulePath) =>
    match oracle.moduleExports modulePath site.containingFile with
    | .ok names =>
      checkAmong options admissible (oracle.exportSignature modulePath)
        (context (oracle.moduleTypeName modulePath)) site.name names
    | .error _ => .valid
  | _ => .valid

/-- The verdict on an imported name. Imports of types alone are not checked. -/
def checkImport (oracle : TypeOracle τ) (options : RankingOptions) (site : ImportSite)
    (typeOnly : Bool) : Verdict :=
  if typeOnly then .valid
  else checkModuleMember oracle options Admissible.asImport
    (.imported site.name site.specifier) site

/-- The verdict on an exported name. -/
def checkExport (oracle : TypeOracle τ) (options : RankingOptions) (site : ImportSite) : Verdict :=
  checkModuleMember oracle options Admissible.asExport (.exported site.name site.specifier) site

/-- The verdict on a name that a file uses. -/
def checkName (oracle : TypeOracle τ) (options : RankingOptions) (containingFile name : Text) :
    Verdict :=
  match oracle.namesInScope containingFile with
  | .ok names =>
    checkAmong options Admissible.asName (oracle.nameSignature containingFile)
      (.missingName name) name names
  | .error _ => .valid

end SymbolCheck

end DidYouMean
