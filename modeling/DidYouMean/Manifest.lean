import DidYouMean.FileTree
import DidYouMean.Json.Fields
import DidYouMean.Json.Parser

/-!
# Package manifests

Of a manifest only the name, the dependencies and the workspace patterns matter. A field of a shape
that is of no use counts as empty; only a text that is no manifest at all is an error.
-/

namespace DidYouMean

/-- What is read from a package manifest: the name, the packages of each section of dependencies,
and the patterns of the workspace. -/
structure Manifest where
  name : Option Text
  dependencies : List Text
  devDependencies : List Text
  peerDependencies : List Text
  optionalDependencies : List Text
  workspaces : List Text
  deriving DecidableEq, Repr

/-- Why there is no manifest at a path. -/
inductive ManifestError where
  | unreadable (path : Text) (cause : ReadError)
  | malformed (path : Text)
  deriving DecidableEq, Repr

namespace ManifestError

/-- What is said of a manifest that is not there. -/
def message : ManifestError → Text
  | unreadable path cause => "failed to read ".toList ++ path ++ ": ".toList ++ cause.message path
  | malformed path => "failed to parse ".toList ++ path

end ManifestError

namespace Manifest

/-- A string that is not empty. -/
def nonemptyString? : Json → Option Text
  | .string (some t) => if t = [] then none else some t
  | _ => none

/-- The keys of an object in the order of their first mention; anything else has none. -/
def keys : Json → List Text
  | .object members => (members.filterMap (·.1)).eraseDups
  | _ => []

/-- The patterns of a workspace, listed alone or as the `packages` of an object. Of members with
this key the last one counts. -/
def patterns : Json → List Text
  | .array items => items.filterMap nonemptyString?
  | .object members =>
    match (members.filter (·.1 == some "packages".toList)).getLast? with
    | some (_, .array items) => items.filterMap nonemptyString?
    | _ => []
  | _ => []

/-- The fields of a manifest in order. -/
def fieldNames : List Text :=
  ["name".toList, "dependencies".toList, "devDependencies".toList, "peerDependencies".toList,
    "optionalDependencies".toList, "workspaces".toList]

/-- The manifest that a JSON value is. -/
def ofJson? (v : Json) : Option Manifest :=
  match v.fields? fieldNames with
  | some [name, dependencies, dev, peer, optional, workspaces] =>
    some {
      name := name.bind nonemptyString?
      dependencies := (dependencies.map keys).getD []
      devDependencies := (dev.map keys).getD []
      peerDependencies := (peer.map keys).getD []
      optionalDependencies := (optional.map keys).getD []
      workspaces := (workspaces.map patterns).getD [] }
  | _ => none

/-- The manifest that a text is; the path is there for the error. -/
def parse (path content : Text) : Except ManifestError Manifest :=
  match (Json.parse? content).bind ofJson? with
  | some m => .ok m
  | none => .error (.malformed path)

/-- The packages of all sections that have a name, section by section. A package listed in several
sections comes several times. -/
def dependencyNames (m : Manifest) : List Text :=
  (m.dependencies ++ m.devDependencies ++ m.peerDependencies ++ m.optionalDependencies).filter
    (· != [])

/-- The manifest at a path. -/
def load (tree : FileTree) (path : Text) : Except ManifestError Manifest :=
  match tree.read path with
  | .ok content => parse path content
  | .error cause => .error (.unreadable path cause)

/-- The name in the manifest at a path, if there is one. -/
def nameAt? (tree : FileTree) (path : Text) : Option Text :=
  match load tree path with
  | .ok m => m.name
  | .error _ => none

end Manifest

end DidYouMean
