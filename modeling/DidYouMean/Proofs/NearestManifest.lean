import DidYouMean.ModuleIndex.Build
import DidYouMean.Proofs.Ancestors
import DidYouMean.Proofs.Lists

/-!
# The nearest manifest

A walk that ends where the answer is known finds what a walk from scratch finds, for the directory
it starts from and for each one it looks into (`walkUp_eq`). So everything known stays right from
one search to the next (`Sound.findNearest`): whatever was looked for before, a search finds the
manifest of the first directory upwards that has one (`nearest_found`), and the manifests of a unit
are those that walks from scratch find (`manifestsOf_eq`).
-/

namespace DidYouMean

namespace ModuleIndex

/-- The manifest in the first directory, from `start` upwards, that has one. -/
def nearestManifest? (tree : FileTree) (manifestName start : Text) : Option Text :=
  ((Path.ancestors start).map fun directory => Path.join directory manifestName).find?
    tree.fileExists

variable {tree : FileTree} {manifestName : Text}

theorem nearestManifest?_of_exists {directory : Text}
    (h : tree.fileExists (Path.join directory manifestName) = true) :
    nearestManifest? tree manifestName directory = some (Path.join directory manifestName) := by
  rw [nearestManifest?, Path.ancestors, List.map_cons, List.find?_cons_of_pos h]

theorem nearestManifest?_of_top {directory : Text}
    (h : ¬ tree.fileExists (Path.join directory manifestName) = true)
    (htop : Path.dirname directory = directory) :
    nearestManifest? tree manifestName directory = none := by
  rw [nearestManifest?, Path.ancestors, dif_pos htop, List.map_cons, List.find?_cons_of_neg h]
  rfl

theorem nearestManifest?_of_above {directory : Text}
    (h : ¬ tree.fileExists (Path.join directory manifestName) = true)
    (htop : Path.dirname directory ≠ directory) :
    nearestManifest? tree manifestName directory
      = nearestManifest? tree manifestName (Path.dirname directory) := by
  rw [nearestManifest?, Path.ancestors, dif_neg htop, List.map_cons, List.find?_cons_of_neg h,
    nearestManifest?]

/-- What is known of each directory is what a walk from scratch finds. -/
def Sound (tree : FileTree) (manifestName : Text) (known : List (Text × Option Text)) : Prop :=
  ∀ entry ∈ known, entry.2 = nearestManifest? tree manifestName entry.1

variable {known : List (Text × Option Text)}

theorem walkUp_eq (h : Sound tree manifestName known) (directory : Text) :
    (walkUp tree manifestName known directory).1 = nearestManifest? tree manifestName directory
      ∧ ∀ visited ∈ (walkUp tree manifestName known directory).2,
          nearestManifest? tree manifestName visited
            = nearestManifest? tree manifestName directory := by
  induction directory using Path.upward_induction with
  | up directory ih =>
    rw [walkUp]
    rcases hlookup : known.lookup directory with _ | nearest
    · dsimp only
      split_ifs with hexists htop
      · exact ⟨(nearestManifest?_of_exists hexists).symm, by simp⟩
      · exact ⟨(nearestManifest?_of_top hexists htop).symm, by simp⟩
      · obtain ⟨hnearest, hvisited⟩ := ih htop
        rw [nearestManifest?_of_above hexists htop]
        refine ⟨hnearest, fun v hv => ?_⟩
        rcases List.mem_cons.1 hv with rfl | hv
        · exact nearestManifest?_of_above hexists htop
        · exact hvisited v hv
    · exact ⟨h _ (mem_of_lookup hlookup), by simp⟩

theorem findNearest_eq (h : Sound tree manifestName known) (directory : Text) :
    (findNearest tree manifestName known directory).1
      = nearestManifest? tree manifestName directory :=
  (walkUp_eq h directory).1

/-- What is known stays right from one search to the next. -/
theorem Sound.findNearest (h : Sound tree manifestName known) (directory : Text) :
    Sound tree manifestName (findNearest tree manifestName known directory).2 := by
  obtain ⟨hnearest, hvisited⟩ := walkUp_eq h directory
  intro entry hentry
  -- An entry is new, for a directory the walk looked into, or it was known.
  rcases List.mem_append.1 hentry with hentry | hentry
  · obtain ⟨v, hv, rfl⟩ := List.mem_map.1 hentry
    exact hnearest.trans (hvisited v hv).symm
  · exact h entry hentry

theorem sound_nil (tree : FileTree) (manifestName : Text) : Sound tree manifestName [] :=
  fun _ h => absurd h List.not_mem_nil

theorem nearestManifests_eq : ∀ (directories : List Text) {known : List (Text × Option Text)},
    Sound tree manifestName known →
      nearestManifests tree manifestName known directories
        = directories.filterMap (nearestManifest? tree manifestName)
  | [], _, _ => rfl
  | directory :: rest, known, h => by
    rw [List.filterMap_cons, ← findNearest_eq h, nearestManifests]
    simp only [nearestManifests_eq rest (h.findNearest directory)]
    cases (ModuleIndex.findNearest tree manifestName known directory).1 <;> rfl

theorem manifestsOf_eq (tree : FileTree) (options : IndexOptions) (unit : CompilationUnit) :
    manifestsOf tree options unit
      = ((directoriesOf options unit).filterMap
          (nearestManifest? tree options.manifestName)).eraseDups := by
  rw [manifestsOf, nearestManifests_eq _ (sound_nil _ _)]

/-! ## One search after the other -/

/-- What is known after some searches, beginning without knowledge. -/
def knownAfter (tree : FileTree) (manifestName : Text) (searches : List Text) :
    List (Text × Option Text) :=
  searches.foldl (fun known start => (findNearest tree manifestName known start).2) []

theorem sound_knownAfter (tree : FileTree) (manifestName : Text) (searches : List Text) :
    Sound tree manifestName (knownAfter tree manifestName searches) := by
  induction searches using List.reverseRecOn with
  | nil => exact sound_nil _ _
  | append_singleton searches start ih =>
    rw [knownAfter, List.foldl_append]
    exact ih.findNearest start

theorem nearestManifest?_eq_some_iff {start manifest : Text} :
    nearestManifest? tree manifestName start = some manifest ↔
      ∃ k, manifest = Path.join (Path.dirname^[k] start) manifestName
        ∧ tree.fileExists manifest = true
        ∧ ∀ j < k, tree.fileExists (Path.join (Path.dirname^[j] start) manifestName) = false := by
  rw [nearestManifest?, List.find?_map, Option.map_eq_some_iff]
  simp only [Path.find?_ancestors_eq_some_iff, Function.comp_apply]
  constructor
  · rintro ⟨_, ⟨k, rfl, hexists, hbefore⟩, rfl⟩
    exact ⟨k, rfl, hexists, hbefore⟩
  · rintro ⟨k, rfl, hexists, hbefore⟩
    exact ⟨_, ⟨k, rfl, hexists, hbefore⟩, rfl⟩

theorem nearestManifest?_eq_none_iff {start : Text} :
    nearestManifest? tree manifestName start = none ↔
      ∀ k, tree.fileExists (Path.join (Path.dirname^[k] start) manifestName) = false := by
  rw [nearestManifest?, List.find?_map, Option.map_eq_none_iff,
    Path.find?_ancestors_eq_none_iff]
  rfl

end ModuleIndex

/-- Whatever was looked for before, a search finds the manifest of the first directory, from where
it starts upwards, that has one, and nothing exactly if none of these directories has one. -/
theorem nearest_found (tree : FileTree) (manifestName : Text) (searches : List Text)
    (start : Text) :
    (∀ manifest,
      (ModuleIndex.findNearest tree manifestName
          (ModuleIndex.knownAfter tree manifestName searches) start).1 = some manifest ↔
        ∃ k, manifest = Path.join (Path.dirname^[k] start) manifestName
          ∧ tree.fileExists manifest = true
          ∧ ∀ j < k, tree.fileExists (Path.join (Path.dirname^[j] start) manifestName) = false)
      ∧ ((ModuleIndex.findNearest tree manifestName
          (ModuleIndex.knownAfter tree manifestName searches) start).1 = none ↔
        ∀ k, tree.fileExists (Path.join (Path.dirname^[k] start) manifestName) = false) := by
  have hsound := ModuleIndex.sound_knownAfter tree manifestName searches
  rw [ModuleIndex.findNearest_eq hsound]
  exact ⟨fun _ => ModuleIndex.nearestManifest?_eq_some_iff,
    ModuleIndex.nearestManifest?_eq_none_iff⟩

end DidYouMean
