import DidYouMean.FileTree
import DidYouMean.ModuleIndex.FileTable
import DidYouMean.Specifier

/-!
# Module indexes

The index of a compilation unit holds what its module specifiers may name: the unit's own files
and the packages within reach. Looking something up in it touches no disk. The one way out is the
unit's resolver, if it has one, which is asked last and may look at the disk again.
-/

namespace DidYouMean

/-- What an index is built with: the endings of module files, the name of the directory of vendored
packages, and the name of package manifests. -/
structure IndexOptions where
  extensions : List Text
  vendorDirectory : Text
  manifestName : Text
  deriving DecidableEq, Repr

namespace IndexOptions

/-- Scripts, styles and data, packages in `node_modules`, manifests in `package.json`. -/
def standard : IndexOptions where
  extensions := [".ts".toList, ".tsx".toList, ".mts".toList, ".cts".toList, ".js".toList,
    ".jsx".toList, ".mjs".toList, ".cjs".toList, ".json".toList, ".css".toList, ".scss".toList,
    ".sass".toList, ".less".toList, ".svg".toList]
  vendorDirectory := "node_modules".toList
  manifestName := "package.json".toList

end IndexOptions

/-- Says whether a specifier written in a file resolves to anything at all, on the disk as it is
when the question is put. -/
abbrev Resolver := FileTree → (specifier containingFile : Text) → Bool

/-- The identity of a compilation unit. A unit that is replaced comes back under a new one. -/
structure UnitId where
  value : Nat
  deriving DecidableEq, Repr

namespace UnitId

/-- The identity as it is shown. -/
def toText (id : UnitId) : Text := "unit#".toList ++ Text.ofNat id.value

end UnitId

/-- Source files that are checked together, and the directory they belong to. -/
structure CompilationUnit where
  id : UnitId
  root : Text
  sources : List Text
  resolver : Option Resolver

/-- The local files and the package names of a unit, each once and in the order they were found,
with the manifests that were read and what is needed for looking up. -/
structure ModuleIndex extends FileTable where
  packageNames : List Text
  manifests : List Text
  extensions : List Text
  resolver : Option Resolver

namespace ModuleIndex

/-- The paths that a path may stand for: itself, a file of its stem with one of the extensions, or
the index file of a directory. -/
def probes (extensions : List Text) (path : Text) : List Text :=
  let stem := Path.stripExtension extensions path
  path :: (extensions.map (stem ++ ·)
    ++ extensions.map fun ext => Path.join stem ("index".toList ++ ext))

/-- The first path there is among those that a path may stand for. -/
def probe? (extensions : List Text) (there : Text → Bool) (path : Text) : Option Text :=
  (probes extensions path).find? there

/-- Whether a local file has exactly this path. -/
def hasLocalFile (index : ModuleIndex) (path : Text) : Bool := index.localFiles.contains path

/-- The local files that stand in a directory. -/
def filesIn (index : ModuleIndex) (directory : Text) : List Text :=
  (index.byDirectory.lookup directory).getD []

/-- Whether a package of this name is within reach. -/
def hasPackage (index : ModuleIndex) (name : Text) : Bool := index.packageNames.contains name

/-- The local file that a path stands for. -/
def resolveLocal? (index : ModuleIndex) (path : Text) : Option Text :=
  probe? index.extensions index.hasLocalFile path

/-- What the unit's resolver says; without one nothing resolves. -/
def canResolve (index : ModuleIndex) (tree : FileTree) (specifier containingFile : Text) : Bool :=
  index.resolver.any fun resolve => resolve tree specifier containingFile

/-- The names that one package name makes known: a types package stands for its target too, which
comes first. -/
def namesOf (package : Text) : List Text :=
  if package = [] then [] else (Specifier.typesTarget? package).toList ++ [package]

/-- The names that some packages make known, each once. -/
def knownNames (packages : List Text) : List Text := (packages.flatMap namesOf).eraseDups

/-- The index of given files and packages, without a search for manifests. -/
def ofParts (files packages : List Text) (options : IndexOptions) : ModuleIndex where
  toFileTable := .ofFiles (files.map Path.normalize)
  packageNames := knownNames packages
  manifests := []
  extensions := options.extensions
  resolver := none

end ModuleIndex

end DidYouMean
