import DidYouMean.Manifest
import DidYouMean.ModuleIndex
import DidYouMean.Workspace

/-!
# Building an index

A unit's own source files are those that are neither vendored nor mere declarations. Upwards from
each of their directories the nearest manifest is looked for. Packages come from three places: the
dependencies in these manifests, the members of their workspaces, and the packages that stand next
to theirs. A manifest that cannot be read adds nothing by its content, but what stands next to it
counts all the same.
-/

namespace DidYouMean

namespace ModuleIndex

/-- The normalized source files of a unit that are neither declarations nor vendored. -/
def ownFiles (options : IndexOptions) (unit : CompilationUnit) : List Text :=
  (unit.sources.map Path.normalize).filter fun file =>
    !Path.isDeclarationFile file && !Path.isUnder options.vendorDirectory file

/-- The own files with an ending of a module. -/
def localFilesOf (options : IndexOptions) (unit : CompilationUnit) : List Text :=
  (ownFiles options unit).filter fun file => (Path.extension? options.extensions file).isSome

/-- The directories of the own files and that of the unit, each once. -/
def directoriesOf (options : IndexOptions) (unit : CompilationUnit) : List Text :=
  let base := Path.normalize unit.root
  ((ownFiles options unit).map Path.dirname ++ if base = [] then [] else [base]).eraseDups

/-- The nearest manifest from a directory upwards, and the directories that were looked into. The
walk ends where the answer is known already. -/
def walkUp (tree : FileTree) (manifestName : Text) (known : List (Text × Option Text))
    (directory : Text) : Option Text × List Text :=
  match known.lookup directory with
  | some nearest => (nearest, [])
  | none =>
    let manifest := Path.join directory manifestName
    if tree.fileExists manifest then (some manifest, [directory])
    else if _h : Path.dirname directory = directory then (none, [directory])
    else
      let (nearest, visited) := walkUp tree manifestName known (Path.dirname directory)
      (nearest, directory :: visited)
termination_by Path.climb directory
decreasing_by exact Path.climb_dirname_lt _h

/-- The nearest manifest of a directory, and what is known then: what the walk found, of every
directory it looked into, and what was known before. -/
def findNearest (tree : FileTree) (manifestName : Text) (known : List (Text × Option Text))
    (directory : Text) : Option Text × List (Text × Option Text) :=
  let (nearest, visited) := walkUp tree manifestName known directory
  (nearest, visited.map (·, nearest) ++ known)

/-- The nearest manifests of some directories, each looked for with what is known by then. -/
def nearestManifests (tree : FileTree) (manifestName : Text) :
    (known : List (Text × Option Text)) → (directories : List Text) → List Text
  | _, [] => []
  | known, directory :: rest =>
    let (nearest, known) := findNearest tree manifestName known directory
    nearest.toList ++ nearestManifests tree manifestName known rest

/-- The nearest manifests of a unit, each once. -/
def manifestsOf (tree : FileTree) (options : IndexOptions) (unit : CompilationUnit) : List Text :=
  (nearestManifests tree options.manifestName [] (directoriesOf options unit)).eraseDups

/-- The name of the package in a directory, if there is a manifest that has one. -/
def packageIn? (tree : FileTree) (options : IndexOptions) (directory : Text) : Option Text :=
  let manifest := Path.join directory options.manifestName
  if tree.fileExists manifest then Manifest.nameAt? tree manifest else none

/-- The packages that a manifest names: its dependencies and the members of its workspace. -/
def packagesOf (tree : FileTree) (options : IndexOptions) (manifest : Text) : List Text :=
  match Manifest.load tree manifest with
  | .ok m =>
    m.dependencyNames
      ++ (Workspace.members tree options.vendorDirectory (Path.dirname manifest)
        m.workspaces).filterMap (packageIn? tree options)
  | .error _ => []

/-- The packages in the directories next to some packages' own, which themselves are among them. -/
def siblingPackages (tree : FileTree) (options : IndexOptions) (manifests : List Text) :
    List Text :=
  (manifests.map fun m => Path.dirname (Path.dirname m)).eraseDups.flatMap fun parent =>
    ((tree.listDirectories parent).filter (· != options.vendorDirectory)).filterMap fun child =>
      packageIn? tree options (Path.join parent child)

/-- The index of a unit. -/
def build (tree : FileTree) (options : IndexOptions) (unit : CompilationUnit) : ModuleIndex :=
  let manifests := manifestsOf tree options unit
  { toFileTable := .ofFiles (localFilesOf options unit)
    packageNames := knownNames
      (manifests.flatMap (packagesOf tree options) ++ siblingPackages tree options manifests)
    manifests
    extensions := options.extensions
    resolver := unit.resolver }

end ModuleIndex

end DidYouMean
