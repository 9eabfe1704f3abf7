import DidYouMean.Proofs.FileTables
import DidYouMean.Proofs.MemoryTrees
import DidYouMean.Proofs.Probing
import DidYouMean.Resolution

/-!
# What is found on disk

A package is found from a file exactly if the file's directory or one above it holds the package
(`findsPackage_iff`), so it is found from everything below as well, as far as the paths are in
normal form. A file is found if one of the paths is there that its own may stand for, and since an
index probes the same paths in a part of the tree, what it resolves is found on disk too
(`findsFile_of_resolveLocal?`). With more files nothing is lost (`findsFile_mono`).
-/

namespace DidYouMean

namespace Resolution

variable {tree tree' : FileTree} {options : IndexOptions} {package directory specifier file : Text}

/-- A directory has vendored packages, and among them the package or the one with its types. -/
def Vendors (tree : FileTree) (options : IndexOptions) (package directory : Text) : Prop :=
  tree.directoryExists (Path.join directory options.vendorDirectory) = true
    ∧ (tree.directoryExists
          (Path.join (Path.join directory options.vendorDirectory) package) = true
      ∨ tree.directoryExists (Path.join (Path.join directory options.vendorDirectory)
          (Specifier.typesPackage package)) = true)

theorem holdsPackage_iff :
    holdsPackage tree options package directory = true ↔
      Vendors tree options package directory := by
  simp only [holdsPackage, Vendors, Bool.and_eq_true, Bool.or_eq_true]

theorem findsPackage_iff :
    findsPackage tree options specifier file = true ↔
      ∃ k, Vendors tree options (Specifier.packageName specifier)
        (Path.dirname^[k] (Path.dirname (Path.normalize file))) := by
  simp only [findsPackage, Path.any_ancestors_iff, holdsPackage_iff]

theorem findsPackage_below {other : Text} (h : findsPackage tree options specifier file = true)
    (habove : Path.dirname (Path.normalize file)
      ∈ Path.ancestors (Path.dirname (Path.normalize other))) :
    findsPackage tree options specifier other = true := by
  obtain ⟨d, hd, hholds⟩ := List.any_eq_true.1 h
  exact List.any_eq_true.2 ⟨d, Path.ancestors_subset habove hd, hholds⟩

theorem findsFile_mono (hmore : ∀ p, tree.fileExists p = true → tree'.fileExists p = true)
    (h : findsFile tree options specifier file = true) :
    findsFile tree' options specifier file = true := by
  obtain ⟨q, hq, hthere⟩ := ModuleIndex.isSome_probe?_iff.1 h
  exact ModuleIndex.isSome_probe?_iff.2 ⟨q, hq, hmore q hthere⟩

/-- What an index resolves is found on a disk that has the index's files. -/
theorem findsFile_of_resolveLocal? {index : ModuleIndex}
    (hfiles : ∀ p ∈ index.localFiles, tree.fileExists p = true)
    (hextensions : index.extensions = options.extensions)
    (h : (index.resolveLocal? (Path.resolve file specifier)).isSome = true) :
    findsFile tree options specifier file = true := by
  obtain ⟨q, hq, hlocal⟩ := ModuleIndex.isSome_probe?_iff.1 h
  rw [hextensions] at hq
  rw [ModuleIndex.hasLocalFile, List.contains_iff_mem] at hlocal
  exact ModuleIndex.isSome_probe?_iff.2 ⟨q, hq, hfiles q hlocal⟩

theorem resolver_package (hkind : Specifier.classify specifier = some .package) :
    resolver options tree specifier file = findsPackage tree options specifier file := by
  simp only [resolver, hkind]

theorem resolver_relative (hkind : Specifier.classify specifier = some .relative) :
    resolver options tree specifier file = findsFile tree options specifier file := by
  simp only [resolver, hkind]

end Resolution

/-- A package resolves in a file exactly if the file's directory or one above it has it, or its
types, among its vendored packages. So where it resolves in a file, it resolves in every file that
stands in the same directory or below. -/
theorem package_found_above (tree : FileTree) (options : IndexOptions) (specifier file : Text)
    (hkind : Specifier.classify specifier = some .package) :
    (Resolution.resolver options tree specifier file = true ↔
      ∃ k, Resolution.Vendors tree options (Specifier.packageName specifier)
        (Path.dirname^[k] (Path.dirname (Path.normalize file))))
    ∧ (Path.Collapsed (Path.normalize file) →
      Resolution.resolver options tree specifier file = true →
        ∀ other, Path.Collapsed (Path.normalize other) →
          Path.AtOrBelow (Path.dirname (Path.normalize file))
            (Path.dirname (Path.normalize other)) →
          Resolution.resolver options tree specifier other = true) := by
  simp only [Resolution.resolver_package hkind]
  refine ⟨Resolution.findsPackage_iff, fun hfile hfound other hother hbelow => ?_⟩
  exact Resolution.findsPackage_below hfound (hfile.dirname.mem_ancestors hother.dirname hbelow)

/-- A tree with the types of one package. -/
def typedTree : MemoryTree := .addDirectory .empty "/w/node_modules/@types/react".toList

theorem react_found_below :
    Specifier.classify "react/jsx-runtime".toList = some .package
      ∧ Resolution.resolver .standard typedTree.toFileTree "react/jsx-runtime".toList
          "\\w\\app\\main.ts".toList = true
      ∧ Resolution.resolver .standard typedTree.toFileTree "react/jsx-runtime".toList
          "/w/app/src/lib/util.ts".toList = true := by
  have hkind : Specifier.classify "react/jsx-runtime".toList = some .package := by decide
  obtain ⟨hiff, hbelow⟩ := package_found_above typedTree.toFileTree .standard _
    "\\w\\app\\main.ts".toList hkind
  have hmain := hiff.2 ⟨1, by decide +kernel, .inr (by decide +kernel)⟩
  exact ⟨hkind, hmain, hbelow (by decide) hmain _ (by decide) ⟨"src/lib".toList, by decide⟩⟩

/-- What the index of a unit resolves to one of its own files is found on the disk that has these
files, and with more files it is still found. -/
theorem indexed_found_on_disk (tree : MemoryTree) (options : IndexOptions) (specifier file : Text)
    (hkind : Specifier.classify specifier = some .relative) :
    (∀ unit : CompilationUnit,
      (∀ source ∈ unit.sources, tree.toFileTree.fileExists (Path.normalize source) = true) →
        ((ModuleIndex.build tree.toFileTree options unit).resolveLocal?
          (Path.resolve (Path.normalize file) specifier)).isSome = true →
        Resolution.resolver options tree.toFileTree specifier file = true)
    ∧ ∀ files, Resolution.resolver options tree.toFileTree specifier file = true →
        Resolution.resolver options (tree.addFiles files).toFileTree specifier file = true := by
  simp only [Resolution.resolver_relative hkind, Path.resolve_normalize]
  constructor
  · intro unit hsources hresolved
    have hfiles : ∀ p ∈ (ModuleIndex.build tree.toFileTree options unit).localFiles,
        tree.toFileTree.fileExists p = true := by
      intro p hp
      have hp := FileTable.mem_localFiles_ofFiles.1 hp
      rw [ModuleIndex.localFilesOf_eq] at hp
      obtain ⟨source, hsource, rfl⟩ := List.mem_map.1 (List.mem_filter.1 hp).1
      exact hsources source hsource
    exact Resolution.findsFile_of_resolveLocal? hfiles rfl hresolved
  · intro files hfound
    exact Resolution.findsFile_mono (fun p => MemoryTree.fileExists_addFiles files) hfound

/-- A tree with two modules, of which one is the index file of its directory. -/
def twoModules : MemoryTree :=
  (MemoryTree.empty.addFile "/w/src/main.ts".toList []).addFile "/w/src/lib/index.ts".toList []

def unitOfModules : CompilationUnit where
  id := ⟨1⟩
  root := []
  sources := ["\\w\\src\\main.ts".toList, "/w/src/lib/index.ts".toList]
  resolver := none

theorem library_found_on_disk :
    Specifier.classify "./lib".toList = some .relative
      ∧ Resolution.resolver .standard twoModules.toFileTree "./lib".toList
          "\\w\\src\\main.ts".toList = true
      ∧ Resolution.resolver .standard
          (twoModules.addFiles [("/w/src/lib.ts".toList, [])]).toFileTree "./lib".toList
          "\\w\\src\\main.ts".toList = true := by
  have hkind : Specifier.classify "./lib".toList = some .relative := by decide
  obtain ⟨hindexed, hmore⟩ := indexed_found_on_disk twoModules .standard _
    "\\w\\src\\main.ts".toList hkind
  have hfound := hindexed unitOfModules (by decide +kernel) (by decide +kernel)
  exact ⟨hkind, hfound, hmore _ hfound⟩

end DidYouMean
