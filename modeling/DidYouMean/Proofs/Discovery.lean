import DidYouMean.Proofs.NearestManifest
import Mathlib.Logic.Basic

/-!
# The packages a unit knows

`Mentions` says where a package name may come from: a nearest manifest that loads depends on it, or
it names a member of that manifest's workspace, or it names a package next to one that has a
nearest manifest, which need not load for that. The names an index knows are those mentioned and
what a types package among them stands for, and no others (`packageNames_build_iff`). Nothing in
this asks in which order the sources come or how often.
-/

namespace DidYouMean

namespace Manifest

/-- One of the sections lists the package. -/
def DependsOn (m : Manifest) (name : Text) : Prop :=
  name ∈ m.dependencies ∨ name ∈ m.devDependencies ∨ name ∈ m.peerDependencies
    ∨ name ∈ m.optionalDependencies

theorem mem_dependencyNames {m : Manifest} {name : Text} :
    name ∈ m.dependencyNames ↔ m.DependsOn name ∧ name ≠ [] := by
  simp only [dependencyNames, DependsOn, List.mem_filter, List.mem_append, bne_iff_ne, or_assoc]

end Manifest

namespace Specifier

theorem typesTarget?_ne_nil {package target : Text}
    (h : typesTarget? package = some target) : target ≠ [] := by
  obtain ⟨rest, -, h⟩ := Option.bind_eq_some_iff.1 h
  split_ifs at h with hrest
  split at h
  · split_ifs at h
    · cases h
      exact List.cons_ne_nil _ _
    · cases h
      exact hrest
  · cases h
    exact hrest

end Specifier

namespace ModuleIndex

/-- The directories from which a unit's manifests are looked for. -/
inductive StartsAt (options : IndexOptions) (unit : CompilationUnit) : Text → Prop where
  | source {file : Text} : file ∈ unit.sources →
      Path.isDeclarationFile (Path.normalize file) = false →
      Path.isUnder options.vendorDirectory (Path.normalize file) = false →
      StartsAt options unit (Path.dirname (Path.normalize file))
  | root : Path.normalize unit.root ≠ [] → StartsAt options unit (Path.normalize unit.root)

/-- The nearest manifests of the directories where a unit starts. -/
def IsNearest (tree : FileTree) (options : IndexOptions) (unit : CompilationUnit)
    (manifest : Text) : Prop :=
  ∃ start, StartsAt options unit start
    ∧ nearestManifest? tree options.manifestName start = some manifest

/-- There is a manifest in the directory, it loads, and it has this name. -/
def HoldsPackage (tree : FileTree) (options : IndexOptions) (directory name : Text) : Prop :=
  tree.fileExists (Path.join directory options.manifestName) = true
    ∧ ∃ m, Manifest.load tree (Path.join directory options.manifestName) = .ok m
      ∧ m.name = some name

/-- Where the packages come from that a unit knows. -/
inductive Mentions (tree : FileTree) (options : IndexOptions) (unit : CompilationUnit) :
    Text → Prop where
  | dependency {manifest name : Text} {m : Manifest} : IsNearest tree options unit manifest →
      Manifest.load tree manifest = .ok m → m.DependsOn name → Mentions tree options unit name
  | member {manifest directory name : Text} {m : Manifest} :
      IsNearest tree options unit manifest → Manifest.load tree manifest = .ok m →
      directory ∈ Workspace.members tree options.vendorDirectory (Path.dirname manifest)
        m.workspaces →
      HoldsPackage tree options directory name → Mentions tree options unit name
  | sibling {manifest child name : Text} : IsNearest tree options unit manifest →
      child ∈ tree.listDirectories (Path.dirname (Path.dirname manifest)) →
      child ≠ options.vendorDirectory →
      HoldsPackage tree options (Path.join (Path.dirname (Path.dirname manifest)) child) name →
      Mentions tree options unit name

variable {tree : FileTree} {options : IndexOptions} {unit : CompilationUnit}
  {manifest directory name : Text}

theorem mem_knownNames {packages : List Text} : name ∈ knownNames packages ↔
    ∃ package ∈ packages, package ≠ []
      ∧ (name = package ∨ Specifier.typesTarget? package = some name) := by
  have hnames : ∀ package, name ∈ namesOf package ↔ package ≠ []
      ∧ (name = package ∨ Specifier.typesTarget? package = some name) := by
    intro package
    rw [namesOf]
    split_ifs with h
    · simp [h]
    · simp only [List.mem_append, Option.mem_toList, List.mem_singleton, ne_eq, h,
        not_false_eq_true, true_and, or_comm]
  simp only [knownNames, List.mem_eraseDups, List.mem_flatMap, hnames]

theorem ne_nil_of_mem_knownNames {packages : List Text} {name : Text}
    (h : name ∈ knownNames packages) : name ≠ [] := by
  obtain ⟨package, -, hne, rfl | htarget⟩ := mem_knownNames.1 h
  · exact hne
  · exact Specifier.typesTarget?_ne_nil htarget

theorem mem_directoriesOf : directory ∈ directoriesOf options unit ↔
    StartsAt options unit directory := by
  simp only [directoriesOf, ownFiles, List.mem_eraseDups, List.mem_append, List.mem_map,
    List.mem_filter, Bool.and_eq_true, Bool.not_eq_true']
  constructor
  · rintro (⟨_, ⟨⟨file, hfile, rfl⟩, hdeclares, hunder⟩, rfl⟩ | hroot)
    · exact .source hfile hdeclares hunder
    · split_ifs at hroot with hempty
      · exact absurd hroot List.not_mem_nil
      · exact List.mem_singleton.1 hroot ▸ .root hempty
  · rintro (⟨hfile, hdeclares, hunder⟩ | hempty)
    · exact .inl ⟨_, ⟨⟨_, hfile, rfl⟩, hdeclares, hunder⟩, rfl⟩
    · exact .inr (by rw [if_neg hempty]; exact List.mem_singleton_self _)

theorem mem_manifestsOf :
    manifest ∈ manifestsOf tree options unit ↔ IsNearest tree options unit manifest := by
  simp only [manifestsOf_eq, List.mem_eraseDups, List.mem_filterMap, mem_directoriesOf, IsNearest]

theorem packageIn?_eq_some_iff : packageIn? tree options directory = some name ↔
    HoldsPackage tree options directory name := by
  rw [packageIn?, HoldsPackage]
  split_ifs with hexists
  · rw [Manifest.nameAt?]
    rcases hload : Manifest.load tree (Path.join directory options.manifestName) with _ | m
    · simp
    · simp [hexists]
  · simp [hexists]

theorem mem_packagesOf : name ∈ packagesOf tree options manifest ↔
    ∃ m, Manifest.load tree manifest = .ok m ∧ (m.DependsOn name ∧ name ≠ []
      ∨ ∃ directory ∈ Workspace.members tree options.vendorDirectory (Path.dirname manifest)
          m.workspaces, HoldsPackage tree options directory name) := by
  rw [packagesOf]
  rcases hload : Manifest.load tree manifest with _ | m
  · simp
  · simp only [List.mem_append, Manifest.mem_dependencyNames, List.mem_filterMap,
      packageIn?_eq_some_iff, Except.ok.injEq, exists_eq_left']

theorem mem_siblingPackages {manifests : List Text} :
    name ∈ siblingPackages tree options manifests ↔
      ∃ manifest ∈ manifests, ∃ child ∈ tree.listDirectories (Path.dirname (Path.dirname manifest)),
        child ≠ options.vendorDirectory
          ∧ HoldsPackage tree options (Path.join (Path.dirname (Path.dirname manifest)) child)
              name := by
  simp only [siblingPackages, List.mem_flatMap, List.mem_eraseDups, List.mem_map,
    exists_exists_and_eq_and, List.mem_filterMap, List.mem_filter, bne_iff_ne,
    packageIn?_eq_some_iff, and_assoc]

/-- What is found is what is mentioned, a name of no characters apart. -/
theorem mem_packages_iff (hname : name ≠ []) :
    name ∈ (manifestsOf tree options unit).flatMap (packagesOf tree options)
        ++ siblingPackages tree options (manifestsOf tree options unit)
      ↔ Mentions tree options unit name := by
  rw [List.mem_append, List.mem_flatMap, mem_siblingPackages]
  simp only [mem_manifestsOf, mem_packagesOf]
  constructor
  · rintro (⟨manifest, hnearest, m, hload, ⟨hdepends, -⟩ | ⟨directory, hmember, hholds⟩⟩
      | ⟨manifest, hnearest, child, hchild, hvendor, hholds⟩)
    · exact .dependency hnearest hload hdepends
    · exact .member hnearest hload hmember hholds
    · exact .sibling hnearest hchild hvendor hholds
  · rintro (⟨hnearest, hload, hdepends⟩ | ⟨hnearest, hload, hmember, hholds⟩
      | ⟨hnearest, hchild, hvendor, hholds⟩)
    · exact .inl ⟨_, hnearest, _, hload, .inl ⟨hdepends, hname⟩⟩
    · exact .inl ⟨_, hnearest, _, hload, .inr ⟨_, hmember, hholds⟩⟩
    · exact .inr ⟨_, hnearest, _, hchild, hvendor, hholds⟩

theorem mem_packageNames_build : name ∈ (build tree options unit).packageNames ↔
    ∃ mention, mention ≠ [] ∧ (name = mention ∨ Specifier.typesTarget? mention = some name)
      ∧ Mentions tree options unit mention := by
  rw [show (build tree options unit).packageNames = knownNames _ from rfl, mem_knownNames]
  constructor
  · rintro ⟨mention, hfound, hne, hname⟩
    exact ⟨mention, hne, hname, (mem_packages_iff hne).1 hfound⟩
  · rintro ⟨mention, hne, hname, h⟩
    exact ⟨mention, (mem_packages_iff hne).2 h, hne, hname⟩

/-! ## Sources in another order -/

theorem StartsAt.of_sources (h : StartsAt options unit directory) {sources : List Text}
    (hsources : ∀ file ∈ unit.sources, file ∈ sources) :
    StartsAt options { unit with sources } directory := by
  cases h with
  | source hfile hdeclares hunder => exact .source (hsources _ hfile) hdeclares hunder
  | root hempty => exact .root hempty

theorem IsNearest.of_sources (h : IsNearest tree options unit manifest) {sources : List Text}
    (hsources : ∀ file ∈ unit.sources, file ∈ sources) :
    IsNearest tree options { unit with sources } manifest := by
  obtain ⟨start, hstart, hnearest⟩ := h
  exact ⟨start, hstart.of_sources hsources, hnearest⟩

/-- More sources mention no less. -/
theorem Mentions.of_sources (h : Mentions tree options unit name) {sources : List Text}
    (hsources : ∀ file ∈ unit.sources, file ∈ sources) :
    Mentions tree options { unit with sources } name := by
  cases h with
  | dependency hnearest hload hdepends =>
    exact .dependency (hnearest.of_sources hsources) hload hdepends
  | member hnearest hload hmember hholds =>
    exact .member (hnearest.of_sources hsources) hload hmember hholds
  | sibling hnearest hchild hvendor hholds =>
    exact .sibling (hnearest.of_sources hsources) hchild hvendor hholds

theorem mentions_sources_iff {sources : List Text}
    (hsources : ∀ file, file ∈ sources ↔ file ∈ unit.sources) :
    Mentions tree options { unit with sources } name ↔ Mentions tree options unit name := by
  constructor
  · intro h
    have hback : ∀ file ∈ { unit with sources }.sources, file ∈ unit.sources :=
      fun file => (hsources file).1
    exact h.of_sources hback
  · intro h
    exact h.of_sources fun file => (hsources file).2

end ModuleIndex

/-- The names an index knows are those that are mentioned and what types packages among them stand
for. The same sources in another order, or some of them twice, make the same names known. -/
theorem packageNames_build_iff (tree : FileTree) (options : IndexOptions)
    (unit : CompilationUnit) :
    (∀ name, name ∈ (ModuleIndex.build tree options unit).packageNames ↔
      ∃ mention, mention ≠ [] ∧ (name = mention ∨ Specifier.typesTarget? mention = some name)
        ∧ ModuleIndex.Mentions tree options unit mention)
    ∧ ∀ sources : List Text, (∀ file, file ∈ sources ↔ file ∈ unit.sources) →
        ∀ name, name ∈ (ModuleIndex.build tree options { unit with sources }).packageNames ↔
          name ∈ (ModuleIndex.build tree options unit).packageNames := by
  refine ⟨fun name => ModuleIndex.mem_packageNames_build, fun sources hsources name => ?_⟩
  simp only [ModuleIndex.mem_packageNames_build, ModuleIndex.mentions_sources_iff hsources]

end DidYouMean
