import DidYouMean.Proofs.Discovery
import DidYouMean.Proofs.MemoryTrees
import Mathlib.Data.List.Find

/-!
# What a build reads

Of a tree a build wants to know where the nearest manifests are, which packages these name, and
which packages stand next to theirs. Trees that agree on this build the same index (`build_congr`).
A manifest that does not load names no packages and has no name, just like an empty object, so the
two can be exchanged (`Blanked.build_eq`); a text that is no manifest is one that does not load.
-/

namespace DidYouMean

namespace Manifest

/-- A manifest without a name, dependencies and a workspace. -/
def blank : Manifest where
  name := none
  dependencies := []
  devDependencies := []
  peerDependencies := []
  optionalDependencies := []
  workspaces := []

/-- The text of an empty object. -/
def emptyObject : Text := "{}".toList

theorem parse_emptyObject (path : Text) : parse path emptyObject = .ok blank := by
  have hparse : (Json.parse? emptyObject).bind ofJson? = some blank := by decide
  rw [parse, hparse]

theorem parse_of_error {path content : Text} {error : ManifestError}
    (h : parse path content = .error error) (path' : Text) :
    parse path' content = .error (.malformed path') := by
  rw [parse] at h ⊢
  rcases hparse : (Json.parse? content).bind ofJson? with _ | m
  · rfl
  · rw [hparse] at h
    cases h

theorem load_addFile (t : MemoryTree) (path content path' : Text) :
    load (t.addFile path content).toFileTree path'
      = if Path.normalize path = Path.normalize path' then parse path' content
        else load t.toFileTree path' := by
  simp only [load, MemoryTree.toFileTree, MemoryTree.read?_addFile]
  split_ifs <;> rfl

end Manifest

namespace Workspace

theorem below_congr {tree tree' : FileTree} (h : tree.listDirectories = tree'.listDirectories)
    (vendor : Text) (selects : Text → Bool) : ∀ (levels : Nat) (level : List (Text × Text)),
      below tree vendor selects levels level = below tree' vendor selects levels level
  | 0, _ => rfl
  | levels + 1, level => by
    have hchildren : children tree vendor = children tree' vendor := by
      funext d
      rw [children, children, h]
    rw [below, below, hchildren, below_congr h]

theorem members_congr {tree tree' : FileTree} (h : tree.listDirectories = tree'.listDirectories)
    (vendor root : Text) (entries : List Text) :
    members tree vendor root entries = members tree' vendor root entries := by
  simp only [members, below_congr h]

@[simp] theorem members_nil (tree : FileTree) (vendor root : Text) :
    members tree vendor root [] = [] := by
  simp only [members, WorkspacePatterns.ofEntries, List.foldl_nil, below]
  split <;> rfl

end Workspace

namespace ModuleIndex

variable {tree tree' : FileTree} {options : IndexOptions} {unit : CompilationUnit}

theorem exists_of_nearestManifest? {manifestName start manifest : Text}
    (h : nearestManifest? tree manifestName start = some manifest) :
    ∃ directory ∈ Path.ancestors start, manifest = Path.join directory manifestName := by
  obtain ⟨directory, hdirectory, rfl⟩ := List.mem_map.1 (List.mem_of_find?_eq_some h)
  exact ⟨directory, hdirectory, rfl⟩

theorem nearestManifest?_congr {manifestName start : Text}
    (h : ∀ directory ∈ Path.ancestors start,
      tree.fileExists (Path.join directory manifestName)
        = tree'.fileExists (Path.join directory manifestName)) :
    nearestManifest? tree manifestName start = nearestManifest? tree' manifestName start := by
  refine List.find?_congr fun manifest hmanifest => ?_
  obtain ⟨directory, hdirectory, rfl⟩ := List.mem_map.1 hmanifest
  exact h directory hdirectory

/-- The packages in the directories that stand in a directory. -/
def packagesUnder (tree : FileTree) (options : IndexOptions) (parent : Text) : List Text :=
  ((tree.listDirectories parent).filter (· != options.vendorDirectory)).filterMap fun child =>
    packageIn? tree options (Path.join parent child)

/-- Trees with the same nearest manifests, which name the same packages and have the same packages
next to their own, build the same index. -/
theorem build_congr
    (hnearest : ∀ start ∈ directoriesOf options unit,
      nearestManifest? tree options.manifestName start
        = nearestManifest? tree' options.manifestName start)
    (hnamed : ∀ manifest ∈ manifestsOf tree options unit,
      packagesOf tree options manifest = packagesOf tree' options manifest)
    (hnext : ∀ manifest ∈ manifestsOf tree options unit,
      packagesUnder tree options (Path.dirname (Path.dirname manifest))
        = packagesUnder tree' options (Path.dirname (Path.dirname manifest))) :
    build tree options unit = build tree' options unit := by
  have hmanifests : manifestsOf tree options unit = manifestsOf tree' options unit := by
    rw [manifestsOf_eq, manifestsOf_eq, List.filterMap_congr hnearest]
  have hsiblings : siblingPackages tree options (manifestsOf tree options unit)
      = siblingPackages tree' options (manifestsOf tree options unit) := by
    refine List.flatMap_congr fun parent hparent => ?_
    obtain ⟨manifest, hmanifest, rfl⟩ := List.mem_map.1 (List.mem_eraseDups.1 hparent)
    exact hnext manifest hmanifest
  simp only [build, ← hmanifests, ← hsiblings, List.flatMap_congr hnamed]

/-- Trees with the same files and directories, and manifests that load alike, only that the second
may have a blank one where the first has one that does not load. -/
structure Blanked (tree tree' : FileTree) : Prop where
  fileExists : tree.fileExists = tree'.fileExists
  listDirectories : tree.listDirectories = tree'.listDirectories
  load : ∀ path, Manifest.load tree path = Manifest.load tree' path
    ∨ (∃ error, Manifest.load tree path = .error error) ∧ Manifest.load tree' path = .ok .blank

theorem Blanked.packageIn?_eq (h : Blanked tree tree') (options : IndexOptions) :
    packageIn? tree options = packageIn? tree' options := by
  funext directory
  rw [packageIn?, packageIn?, h.fileExists, Manifest.nameAt?, Manifest.nameAt?]
  rcases h.load (Path.join directory options.manifestName) with hload | ⟨⟨error, hload⟩, hload'⟩
  · rw [hload]
  · rw [hload, hload']
    rfl

theorem Blanked.packagesOf_eq (h : Blanked tree tree') (options : IndexOptions) (manifest : Text) :
    packagesOf tree options manifest = packagesOf tree' options manifest := by
  rw [packagesOf, packagesOf, h.packageIn?_eq]
  rcases h.load manifest with hload | ⟨⟨error, hload⟩, hload'⟩
  · simp only [hload, Workspace.members_congr h.listDirectories]
  · simp only [hload, hload', Manifest.blank, Workspace.members_nil]
    rfl

theorem Blanked.build_eq (h : Blanked tree tree') (options : IndexOptions)
    (unit : CompilationUnit) : build tree options unit = build tree' options unit := by
  refine build_congr (fun start _ => ?_) (fun manifest _ => h.packagesOf_eq options manifest)
    fun manifest _ => ?_
  · rw [nearestManifest?, nearestManifest?, h.fileExists]
  · rw [packagesUnder, packagesUnder, h.listDirectories, h.packageIn?_eq]

theorem blanked_addFile (t : MemoryTree) {path content : Text} {error : ManifestError}
    (h : Manifest.parse path content = .error error) :
    Blanked (t.addFile path content).toFileTree
      (t.addFile path Manifest.emptyObject).toFileTree where
  fileExists := by
    funext p
    simp only [MemoryTree.toFileTree, MemoryTree.read?_addFile]
    split_ifs <;> rfl
  listDirectories := rfl
  load p := by
    simp only [Manifest.load_addFile]
    split_ifs
    · exact .inr ⟨⟨_, Manifest.parse_of_error h p⟩, Manifest.parse_emptyObject p⟩
    · exact .inl rfl

end ModuleIndex

/-- Where a text is no manifest, the index of a unit is the one that an empty object makes there. -/
theorem build_malformed_manifest (tree : MemoryTree) (options : IndexOptions)
    (unit : CompilationUnit) (path content : Text) (error : ManifestError)
    (h : Manifest.parse path content = .error error) :
    ModuleIndex.build (tree.addFile path content).toFileTree options unit
      = ModuleIndex.build (tree.addFile path Manifest.emptyObject).toFileTree options unit :=
  (ModuleIndex.blanked_addFile tree h).build_eq options unit

/-- A tree with one package, and a unit in the directory next to it. -/
def besidePackage : MemoryTree :=
  .addFile .empty "/w/b/package.json".toList r#"{"name": "b"}"#.toList

def unitBeside : CompilationUnit where
  id := ⟨1⟩
  root := "/w/a".toList
  sources := ["/w/a/main.ts".toList]
  resolver := none

/-- The tree with a blank manifest in the directory of the unit. -/
def blankBeside : MemoryTree :=
  besidePackage.addFile "/w/a/package.json".toList Manifest.emptyObject

theorem listDirectories_blankBeside :
    blankBeside.toFileTree.listDirectories "/w".toList = ["a".toList, "b".toList] := by
  have hroot : Path.normalize "/w".toList = "/w".toList := by decide
  have hfound : blankBeside.directories.filter (fun d => d != "/w".toList
      && Path.dirname d == "/w".toList) = ["/w/b".toList, "/w/a".toList] := by decide +kernel
  have hsort := Text.sort_eq_of_perm (.swap "/w/a".toList "/w/b".toList []) (by decide)
  simp only [MemoryTree.toFileTree, MemoryTree.listDirectories, hroot, hfound, hsort]
  decide

theorem package_beside_malformed :
    Manifest.parse "/w/a/package.json".toList "[".toList
        = .error (.malformed "/w/a/package.json".toList)
      ∧ (ModuleIndex.build
          (besidePackage.addFile "/w/a/package.json".toList "[".toList).toFileTree .standard
          unitBeside).packageNames = ["b".toList]
      ∧ (ModuleIndex.build
          (besidePackage.addFile "/w/a/package.json".toList "[".toList).toFileTree .standard
          unitBeside).manifests = ["/w/a/package.json".toList] := by
  have hparse : Manifest.parse "/w/a/package.json".toList "[".toList
      = .error (.malformed "/w/a/package.json".toList) := by decide
  rw [build_malformed_manifest besidePackage .standard unitBeside _ _ _ hparse]
  have hmanifests : ModuleIndex.manifestsOf blankBeside.toFileTree .standard unitBeside
      = ["/w/a/package.json".toList] := by decide +kernel
  have hparent : (["/w/a/package.json".toList].map fun m =>
      Path.dirname (Path.dirname m)).eraseDups = ["/w".toList] := by decide
  rw [← blankBeside]
  refine ⟨hparse, ?_, hmanifests⟩
  simp only [ModuleIndex.build, hmanifests, ModuleIndex.siblingPackages, hparent,
    List.flatMap_singleton, listDirectories_blankBeside]
  decide +kernel

end DidYouMean
