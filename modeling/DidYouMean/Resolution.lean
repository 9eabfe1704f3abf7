import DidYouMean.ModuleIndex

/-!
# Resolution on disk

A resolver that looks on a disk. A relative specifier resolves if one of the files it may stand for
is there; a package specifier if, in the file's directory or one above it, the package or its types
stand among the vendored packages.
-/

namespace DidYouMean

namespace Resolution

/-- Whether one of the files that a relative specifier may stand for is there. -/
def findsFile (tree : FileTree) (options : IndexOptions) (specifier containingFile : Text) : Bool :=
  (ModuleIndex.probe? options.extensions tree.fileExists
    (Path.resolve containingFile specifier)).isSome

/-- Whether a directory holds a package, or the types of one, among its vendored packages. -/
def holdsPackage (tree : FileTree) (options : IndexOptions) (package directory : Text) : Bool :=
  let vendor := Path.join directory options.vendorDirectory
  tree.directoryExists vendor
    && (tree.directoryExists (Path.join vendor package)
      || tree.directoryExists (Path.join vendor (Specifier.typesPackage package)))

/-- Whether a package is held by the file's directory or one above it. -/
def findsPackage (tree : FileTree) (options : IndexOptions) (specifier containingFile : Text) :
    Bool :=
  (Path.ancestors (Path.dirname (Path.normalize containingFile))).any
    (holdsPackage tree options (Specifier.packageName specifier))

/-- The resolver that looks on the disk. -/
def resolver (options : IndexOptions) : Resolver :=
  fun tree specifier containingFile =>
    match Specifier.classify specifier with
    | none => false
    | some .relative => findsFile tree options specifier containingFile
    | some .package => findsPackage tree options specifier containingFile
    | some _ => true

end Resolution

end DidYouMean
