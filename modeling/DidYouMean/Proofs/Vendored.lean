import DidYouMean.Proofs.BuildReads

/-!
# Vendored files

A build stays out of vendored directories: it starts outside of them, the directories above and
those it steps down to are outside as well (`Avoids`), and no file it asks for is under one. Adding
vendored files therefore changes nothing of what it reads (`Unread.packageIn?_eq`). It does change
what is listed, since the directories above a vendored file become known too, but a directory that
was not there before has no manifest and nothing below it that was there before. So leaving those
out of a walk down a workspace changes nothing of what the walk finds
(`Unread.filterMap_below_eq`).
-/

namespace DidYouMean

namespace Path

/-- An absolute path without empty segments, without backslashes, and without a segment that bears
the name. -/
def Avoids (name p : Text) : Prop :=
  ∃ segments, p = rooted segments
    ∧ ∀ s ∈ segments, (s ≠ [] ∧ '/' ∉ s) ∧ '\\' ∉ s ∧ s ≠ name

namespace Avoids

variable {name p s : Text}

theorem of_segments {segments : List Text} (hplain : ∀ s ∈ segments, Plain s)
    (hback : ∀ s ∈ segments, '\\' ∉ s) (hname : name ∉ segments) :
    Avoids name (rooted segments) :=
  ⟨segments, rfl, fun s hs => ⟨⟨(hplain s hs).nonempty, (hplain s hs).no_slash⟩, hback s hs,
    ne_of_mem_of_not_mem hs hname⟩⟩

theorem of_collapsed (h : Collapsed p) (hback : '\\' ∉ p) (hname : name ∉ Text.splitOn '/' p) :
    Avoids name p := by
  obtain ⟨segments, hplain, rfl⟩ := exists_rooted h.absolute h.fixed
  have hsegments := collapsedSegments_rooted hplain
  refine of_segments hplain
    (fun s hs => not_mem_collapsedSegments hback (by rwa [hsegments])) fun hmem => hname ?_
  rw [splitOn_rooted (List.ne_nil_of_mem hmem) fun s hs => (hplain s hs).no_slash]
  exact List.mem_cons_of_mem _ hmem

theorem dirname_of_collapsed (h : Collapsed p) (hback : '\\' ∉ p)
    (hunder : isUnder name p = false) : Avoids name (dirname p) := by
  obtain ⟨segments, hplain, rfl⟩ := exists_rooted h.absolute h.fixed
  rcases List.eq_nil_or_concat' segments with rfl | ⟨init, last, rfl⟩
  · exact ⟨[], rfl, by simp⟩
  · have hlast := hplain last (by simp)
    have hinit : ∀ s ∈ init, s ∈ init ++ [last] := fun s => List.mem_append_left _
    have hsegments := collapsedSegments_rooted hplain
    rw [dirname_rooted_concat hlast.nonempty hlast.no_slash]
    refine of_segments (fun s hs => hplain s (hinit s hs))
      (fun s hs => not_mem_collapsedSegments hback (by rw [hsegments]; exact hinit s hs))
      fun hmem => ?_
    rw [isUnder, splitOn_rooted (by simp) fun s hs => (hplain s hs).no_slash, ← List.cons_append,
      List.dropLast_concat] at hunder
    simp [hmem] at hunder

theorem normalize_eq (h : Avoids name p) : normalize p = p := by
  obtain ⟨segments, rfl, hsegments⟩ := h
  refine normalize_eq_self fun hback => ?_
  rcases List.mem_cons.1 hback with hback | hback
  · simp at hback
  · rcases Text.mem_join hback with hback | ⟨s, hs, hback⟩
    · simp at hback
    · exact (hsegments s hs).2.1 hback

theorem dirname (h : Avoids name p) : Avoids name (dirname p) := by
  obtain ⟨segments, rfl, hsegments⟩ := h
  rcases List.eq_nil_or_concat' segments with rfl | ⟨init, last, rfl⟩
  · exact ⟨[], rfl, by simp⟩
  · obtain ⟨hlast, hslash⟩ := (hsegments last (by simp)).1
    rw [dirname_rooted_concat hlast hslash]
    exact ⟨init, rfl, fun s hs => hsegments s (List.mem_append_left _ hs)⟩

theorem join (h : Avoids name p) (hslash : '/' ∉ s) (hback : '\\' ∉ s) (hs : s ≠ name) :
    Avoids name (join p s) := by
  by_cases hne : s = []
  · rwa [hne, Path.join, if_pos rfl]
  · obtain ⟨segments, rfl, hsegments⟩ := h
    rw [join_rooted (fun s hs => (hsegments s hs).1) hne]
    refine ⟨_, rfl, fun t ht => ?_⟩
    rcases List.mem_append.1 ht with ht | ht
    · exact hsegments t ht
    · rw [List.mem_singleton.1 ht]
      exact ⟨⟨hne, hslash⟩, hback, hs⟩

theorem normalize_join (h : Avoids name p) (hback : '\\' ∉ s) :
    normalize (Path.join p s) = Path.join p s := by
  have hp := h.normalize_eq
  refine normalize_eq_self fun hmem => ?_
  have hnot := not_mem_normalize p
  rw [hp] at hnot
  rw [Path.join] at hmem
  split_ifs at hmem <;> simp_all

theorem dirname_join (h : Avoids name p) (hne : s ≠ []) (hslash : '/' ∉ s) :
    Path.dirname (Path.join p s) = p := by
  obtain ⟨segments, rfl, hsegments⟩ := h
  rw [join_rooted (fun s hs => (hsegments s hs).1) hne, dirname_rooted_concat hne hslash]

/-- What stands in such a directory is not under one that bears the name. -/
theorem isUnder_join (h : Avoids name p) (hname : name ≠ []) (hne : s ≠ []) (hslash : '/' ∉ s) :
    isUnder name (Path.join p s) = false := by
  obtain ⟨segments, rfl, hsegments⟩ := h
  have hpieces : ∀ t ∈ segments ++ [s], '/' ∉ t := by
    intro t ht
    rcases List.mem_append.1 ht with ht | ht
    · exact (hsegments t ht).1.2
    · rwa [List.mem_singleton.1 ht]
  rw [join_rooted (fun s hs => (hsegments s hs).1) hne, isUnder,
    splitOn_rooted (by simp) hpieces, ← List.cons_append, List.dropLast_concat,
    List.contains_eq_mem, decide_eq_false_iff_not, List.mem_cons, not_or]
  exact ⟨hname, fun hmem => (hsegments name hmem).2.2 rfl⟩

end Avoids

end Path

/-- Options whose names are such as files can have. -/
structure IndexOptions.Proper (options : IndexOptions) : Prop where
  vendor_ne : options.vendorDirectory ≠ []
  manifest_ne : options.manifestName ≠ []
  no_slash : '/' ∉ options.manifestName
  no_backslash : '\\' ∉ options.manifestName

/-- A file at an absolute path in normal form under a vendored directory. -/
structure Vendored (vendor : Text) (file : Text × Text) : Prop where
  collapsed : Path.Collapsed file.1
  no_backslash : '\\' ∉ file.1
  under : Path.isUnder vendor file.1 = true

/-- Vendored files that are added to a tree in which an index is built. -/
structure Unread (t : MemoryTree) (options : IndexOptions) (files : List (Text × Text)) :
    Prop where
  closed : t.Closed
  proper : options.Proper
  vendored : ∀ file ∈ files, Vendored options.vendorDirectory file

/-- Whether a directory is known under this very path. -/
def MemoryTree.hasDirectory (t : MemoryTree) (d : Text) : Bool := t.directories.contains d

variable {t : MemoryTree} {options : IndexOptions} {files : List (Text × Text)}
  {directory name : Text}

theorem MemoryTree.hasDirectory_eq_false_iff {d : Text} :
    t.hasDirectory d = false ↔ d ∉ t.directories := by
  rw [hasDirectory, List.contains_eq_mem, decide_eq_false_iff_not]

theorem MemoryTree.Closed.hasDirectory_join (ht : t.Closed) {vendor : Text}
    (hd : Path.Avoids vendor directory) (hunknown : t.hasDirectory directory = false)
    (hslash : '/' ∉ name) : t.hasDirectory (Path.join directory name) = false := by
  by_cases hne : name = []
  · rwa [hne, Path.join, if_pos rfl]
  · rw [hasDirectory_eq_false_iff] at hunknown ⊢
    intro hmem
    have habove := ht.above _ hmem
    rw [hd.dirname_join hne hslash] at habove
    exact hunknown habove

/-- Directories on the way of a build, before and after files were added: outside of vendored ones,
and the same but for directories that are new. -/
structure Alike (t : MemoryTree) (vendor : Text) {α : Type} (path : α → Text) (ds ds' : List α) :
    Prop where
  avoids : ∀ d ∈ ds, Path.Avoids vendor (path d)
  avoids' : ∀ d ∈ ds', Path.Avoids vendor (path d)
  known : ds'.filter (t.hasDirectory ∘ path) = ds.filter (t.hasDirectory ∘ path)

namespace Alike

variable {α β : Type} {vendor : Text} {path : α → Text} {ds ds' : List α}

theorem filter (h : Alike t vendor path ds ds') (keep : α → Bool) :
    Alike t vendor path (ds.filter keep) (ds'.filter keep) where
  avoids d hd := h.avoids d (List.mem_filter.1 hd).1
  avoids' d hd := h.avoids' d (List.mem_filter.1 hd).1
  known := by rw [List.filter_comm, h.known, List.filter_comm]

theorem map {path : β → Text} {f : α → β} (h : Alike t vendor (path ∘ f) ds ds') :
    Alike t vendor path (ds.map f) (ds'.map f) where
  avoids d hd := by
    obtain ⟨e, he, rfl⟩ := List.mem_map.1 hd
    exact h.avoids e he
  avoids' d hd := by
    obtain ⟨e, he, rfl⟩ := List.mem_map.1 hd
    exact h.avoids' e he
  known := by rw [List.filter_map, List.filter_map, Function.comp_assoc, h.known]

/-- Steps from alike directories lead to alike ones, if none leads from a new directory to one that
is not. -/
theorem flatMap {path' : β → Text} {f f' : α → List β} (h : Alike t vendor path ds ds')
    (hstep : ∀ d, Path.Avoids vendor (path d) → Alike t vendor path' (f d) (f' d))
    (hnew : ∀ d, Path.Avoids vendor (path d) → t.hasDirectory (path d) = false →
      (f d).filter (t.hasDirectory ∘ path') = []) :
    Alike t vendor path' (ds.flatMap f) (ds'.flatMap f') where
  avoids c hc := by
    obtain ⟨d, hd, hc⟩ := List.mem_flatMap.1 hc
    exact (hstep d (h.avoids d hd)).avoids c hc
  avoids' c hc := by
    obtain ⟨d, hd, hc⟩ := List.mem_flatMap.1 hc
    exact (hstep d (h.avoids' d hd)).avoids' c hc
  known := by
    -- New directories lead only to new ones, so on both sides they can be left out before the step.
    rw [List.filter_flatMap, List.filter_flatMap,
      List.flatMap_congr fun d hd => (hstep d (h.avoids' d hd)).known,
      ← flatMap_filter_of_nil fun d hd => hnew d (h.avoids' d hd),
      ← flatMap_filter_of_nil fun d hd => hnew d (h.avoids d hd)]
    exact congrArg (List.flatMap _) h.known

end Alike

namespace Unread

/-! ## One directory -/

theorem read?_eq (h : Unread t options files)
    (hd : Path.Avoids options.vendorDirectory directory) :
    (t.addFiles files).read? (Path.join directory options.manifestName)
      = t.read? (Path.join directory options.manifestName) := by
  refine MemoryTree.read?_addFiles fun file hfile heq => ?_
  obtain ⟨-, hback, hunder⟩ := h.vendored file hfile
  rw [Path.normalize_eq_self hback, hd.normalize_join h.proper.no_backslash] at heq
  rw [heq, hd.isUnder_join h.proper.vendor_ne h.proper.manifest_ne h.proper.no_slash] at hunder
  simp at hunder

theorem fileExists_eq (h : Unread t options files)
    (hd : Path.Avoids options.vendorDirectory directory) :
    (t.addFiles files).toFileTree.fileExists (Path.join directory options.manifestName)
      = t.toFileTree.fileExists (Path.join directory options.manifestName) :=
  congrArg Option.isSome (h.read?_eq hd)

theorem load_eq (h : Unread t options files)
    (hd : Path.Avoids options.vendorDirectory directory) :
    Manifest.load (t.addFiles files).toFileTree (Path.join directory options.manifestName)
      = Manifest.load t.toFileTree (Path.join directory options.manifestName) := by
  simp only [Manifest.load, MemoryTree.toFileTree, h.read?_eq hd]

theorem packageIn?_eq (h : Unread t options files)
    (hd : Path.Avoids options.vendorDirectory directory) :
    ModuleIndex.packageIn? (t.addFiles files).toFileTree options directory
      = ModuleIndex.packageIn? t.toFileTree options directory := by
  rw [ModuleIndex.packageIn?, ModuleIndex.packageIn?, Manifest.nameAt?, Manifest.nameAt?,
    h.fileExists_eq hd, h.load_eq hd]

theorem packageIn?_of_unknown (h : Unread t options files)
    (hd : Path.Avoids options.vendorDirectory directory)
    (hunknown : t.hasDirectory directory = false) :
    ModuleIndex.packageIn? t.toFileTree options directory = none := by
  rw [ModuleIndex.packageIn?, if_neg]
  intro hexists
  have habove := h.closed.dirname_mem_of_read? hexists
  rw [hd.normalize_join h.proper.no_backslash,
    hd.dirname_join h.proper.manifest_ne h.proper.no_slash] at habove
  exact MemoryTree.hasDirectory_eq_false_iff.1 hunknown habove

/-- What a directory lists besides is a directory that is new, above one of the files. -/
theorem filter_listDirectories (h : Unread t options files)
    (hd : Path.Avoids options.vendorDirectory directory) :
    ((t.addFiles files).listDirectories directory).filter
        (t.hasDirectory ∘ Path.join directory)
      = (t.listDirectories directory).filter (t.hasDirectory ∘ Path.join directory) := by
  refine MemoryTree.listDirectories_addFiles h.closed
    fun file hfile e he hunknown hne habove => ?_
  obtain ⟨hcollapsed, hback, -⟩ := h.vendored file hfile
  rw [Path.normalize_eq_self hback] at he
  have hcollapsed : Path.Collapsed e :=
    Path.ancestors_induction he hcollapsed.dirname fun _ h => h.dirname
  rw [hd.normalize_eq] at hne habove
  rw [Function.comp_apply, ← habove, hcollapsed.join_dirname_fileName (habove.trans_ne hne.symm),
    MemoryTree.hasDirectory_eq_false_iff]
  exact hunknown

/-! ## Lists of directories -/

theorem filterMap_packageIn?_eq (h : Unread t options files) {α : Type} {path : α → Text}
    {ds ds' : List α} (halike : Alike t options.vendorDirectory path ds ds') :
    ds'.filterMap (fun d => ModuleIndex.packageIn? (t.addFiles files).toFileTree options (path d))
      = ds.filterMap fun d => ModuleIndex.packageIn? t.toFileTree options (path d) := by
  rw [List.filterMap_congr fun d hd => h.packageIn?_eq (halike.avoids' d hd),
    ← filterMap_filter_of_none fun d hd => h.packageIn?_of_unknown (halike.avoids' d hd),
    ← filterMap_filter_of_none fun d hd => h.packageIn?_of_unknown (halike.avoids d hd)]
  exact congrArg (List.filterMap _) halike.known

theorem alike_listed (h : Unread t options files)
    (hd : Path.Avoids options.vendorDirectory directory) {enters : Text → Bool}
    (henters : ∀ name, enters name = true → name ≠ options.vendorDirectory) :
    Alike t options.vendorDirectory (Path.join directory)
      ((t.listDirectories directory).filter enters)
      (((t.addFiles files).listDirectories directory).filter enters) := by
  have havoids : ∀ tree : MemoryTree, tree.Closed →
      ∀ name ∈ (tree.listDirectories directory).filter enters,
        Path.Avoids options.vendorDirectory (Path.join directory name) := by
    intro tree htree name hname
    obtain ⟨hname, hentered⟩ := List.mem_filter.1 hname
    obtain ⟨hslash, hback⟩ := htree.name_of_mem_listDirectories hname
    exact hd.join hslash hback (henters name hentered)
  refine ⟨havoids t h.closed, havoids _ (h.closed.addFiles files), ?_⟩
  rw [List.filter_comm, h.filter_listDirectories hd, List.filter_comm]

theorem packagesUnder_eq (h : Unread t options files)
    (hd : Path.Avoids options.vendorDirectory directory) :
    ModuleIndex.packagesUnder (t.addFiles files).toFileTree options directory
      = ModuleIndex.packagesUnder t.toFileTree options directory :=
  h.filterMap_packageIn?_eq (h.alike_listed hd fun _ => bne_iff_ne.1)

/-! ## Workspaces -/

theorem alike_children (h : Unread t options files) {d : Text × Text}
    (hd : Path.Avoids options.vendorDirectory d.1) :
    Alike t options.vendorDirectory Prod.fst
      (Workspace.children t.toFileTree options.vendorDirectory d)
      (Workspace.children (t.addFiles files).toFileTree options.vendorDirectory d) :=
  Alike.map (h.alike_listed hd fun _ hentered => bne_iff_ne.1 (Bool.and_eq_true_iff.1 hentered).1)

/-- Nothing stands in a directory that is not known itself. -/
theorem filter_children_of_unknown (h : Unread t options files) {d : Text × Text}
    (hd : Path.Avoids options.vendorDirectory d.1) (hunknown : t.hasDirectory d.1 = false) :
    (Workspace.children t.toFileTree options.vendorDirectory d).filter (t.hasDirectory ∘ Prod.fst)
      = [] := by
  rw [List.filter_eq_nil_iff]
  intro c hc
  obtain ⟨name, hname, rfl⟩ := List.mem_map.1 hc
  have hslash := (h.closed.name_of_mem_listDirectories (List.mem_filter.1 hname).1).1
  simp [h.closed.hasDirectory_join hd hunknown hslash]

theorem filterMap_below_eq (h : Unread t options files) (selects : Text → Bool) :
    ∀ (levels : Nat) {level level' : List (Text × Text)},
      Alike t options.vendorDirectory Prod.fst level level' →
        (Workspace.below (t.addFiles files).toFileTree options.vendorDirectory selects levels
            level').filterMap (ModuleIndex.packageIn? (t.addFiles files).toFileTree options)
          = (Workspace.below t.toFileTree options.vendorDirectory selects levels level).filterMap
            (ModuleIndex.packageIn? t.toFileTree options)
  | 0, _, _, _ => rfl
  | levels + 1, level, level', halike => by
    have hnext : Alike t options.vendorDirectory Prod.fst
        (level.flatMap (Workspace.children t.toFileTree options.vendorDirectory))
        (level'.flatMap
          (Workspace.children (t.addFiles files).toFileTree options.vendorDirectory)) :=
      halike.flatMap (fun d => h.alike_children) fun d => h.filter_children_of_unknown
    -- Selecting looks at the relative paths, which a directory keeps when others come beside it.
    have hselected := h.filterMap_packageIn?_eq (hnext.filter fun d => selects d.2)
    rw [Workspace.below, Workspace.below, List.filterMap_append, List.filterMap_append,
      List.filterMap_map, List.filterMap_map, filterMap_below_eq h selects levels hnext]
    exact congrArg (· ++ _) hselected

theorem filterMap_members_eq (h : Unread t options files)
    (hd : Path.Avoids options.vendorDirectory directory) (entries : List Text) :
    (Workspace.members (t.addFiles files).toFileTree options.vendorDirectory directory
        entries).filterMap (ModuleIndex.packageIn? (t.addFiles files).toFileTree options)
      = (Workspace.members t.toFileTree options.vendorDirectory directory entries).filterMap
        (ModuleIndex.packageIn? t.toFileTree options) := by
  simp only [Workspace.members]
  split
  · refine h.filterMap_below_eq _ _ ⟨?_, ?_, rfl⟩ <;> simpa using hd
  · rfl

theorem packagesOf_eq (h : Unread t options files)
    (hd : Path.Avoids options.vendorDirectory directory) :
    ModuleIndex.packagesOf (t.addFiles files).toFileTree options
        (Path.join directory options.manifestName)
      = ModuleIndex.packagesOf t.toFileTree options (Path.join directory options.manifestName) := by
  rw [ModuleIndex.packagesOf, ModuleIndex.packagesOf, h.load_eq hd,
    hd.dirname_join h.proper.manifest_ne h.proper.no_slash]
  simp only [h.filterMap_members_eq hd]

/-- If a build starts outside of vendored directories, vendored files do not change it. -/
theorem build_eq (h : Unread t options files) {unit : CompilationUnit}
    (hstarts : ∀ start, ModuleIndex.StartsAt options unit start →
      Path.Avoids options.vendorDirectory start) :
    ModuleIndex.build (t.addFiles files).toFileTree options unit
      = ModuleIndex.build t.toFileTree options unit := by
  have habove : ∀ start ∈ ModuleIndex.directoriesOf options unit, ∀ d ∈ Path.ancestors start,
      Path.Avoids options.vendorDirectory d :=
    fun start hstart d hd => Path.ancestors_induction hd
      (hstarts start (ModuleIndex.mem_directoriesOf.1 hstart)) fun _ => Path.Avoids.dirname
  have hmanifest : ∀ manifest ∈ ModuleIndex.manifestsOf (t.addFiles files).toFileTree options unit,
      ∃ d, Path.Avoids options.vendorDirectory d
        ∧ manifest = Path.join d options.manifestName := by
    intro manifest hmanifest
    obtain ⟨start, hstart, hnearest⟩ := ModuleIndex.mem_manifestsOf.1 hmanifest
    obtain ⟨d, hd, rfl⟩ := ModuleIndex.exists_of_nearestManifest? hnearest
    exact ⟨d, habove start (ModuleIndex.mem_directoriesOf.2 hstart) d hd, rfl⟩
  refine ModuleIndex.build_congr (fun start hstart => ?_) (fun manifest hmem => ?_)
    fun manifest hmem => ?_
  · exact ModuleIndex.nearestManifest?_congr fun d hd => h.fileExists_eq (habove start hstart d hd)
  · obtain ⟨d, hd, rfl⟩ := hmanifest manifest hmem
    exact h.packagesOf_eq hd
  · obtain ⟨d, hd, rfl⟩ := hmanifest manifest hmem
    rw [hd.dirname_join h.proper.manifest_ne h.proper.no_slash]
    exact h.packagesUnder_eq hd.dirname

end Unread

/-- In a tree, however it was filled, files under vendored directories leave the index of a unit as
it is, if the unit itself is not in such a directory and its paths are in normal form. -/
theorem build_ignores_vendored_files (tree : MemoryTree) (htree : tree.Built)
    (options : IndexOptions) (hoptions : options.Proper) (unit : CompilationUnit)
    (hsources : ∀ file ∈ unit.sources, Path.Collapsed file ∧ '\\' ∉ file)
    (hroot : Path.Collapsed unit.root ∧ '\\' ∉ unit.root
      ∧ options.vendorDirectory ∉ Text.splitOn '/' unit.root)
    (added : List (Text × Text))
    (hadded : ∀ file ∈ added, Vendored options.vendorDirectory file) :
    ModuleIndex.build (tree.addFiles added).toFileTree options unit
      = ModuleIndex.build tree.toFileTree options unit := by
  have hunread : Unread tree options added := ⟨htree.closed, hoptions, hadded⟩
  refine hunread.build_eq fun start hstart => ?_
  cases hstart with
  | source hfile hdeclares hunder =>
    obtain ⟨hcollapsed, hback⟩ := hsources _ hfile
    rw [Path.normalize_eq_self hback] at hunder ⊢
    exact .dirname_of_collapsed hcollapsed hback hunder
  | root hempty =>
    obtain ⟨hcollapsed, hback, hvendor⟩ := hroot
    rw [Path.normalize_eq_self hback]
    exact .of_collapsed hcollapsed hback hvendor

/-- A workspace with one member. -/
def oneMember : MemoryTree :=
  (MemoryTree.empty.addFile "/w/package.json".toList
    r#"{"workspaces": ["packages/*"]}"#.toList).addFile
      "/w/packages/a/package.json".toList r#"{"name": "a"}"#.toList

/-- Files that bring a new directory next to that member. -/
def vendoredBeside : List (Text × Text) :=
  [("/w/packages/b/node_modules/x/package.json".toList, r#"{"name": "x"}"#.toList),
    ("/w/node_modules/y/package.json".toList, r#"{"name": "y"}"#.toList)]

def unitOfWorkspace : CompilationUnit where
  id := ⟨1⟩
  root := "/w".toList
  sources := ["/w/packages/a/main.ts".toList]
  resolver := none

theorem only_member_known :
    (∀ file ∈ vendoredBeside, Vendored IndexOptions.standard.vendorDirectory file)
      ∧ (ModuleIndex.build (oneMember.addFiles vendoredBeside).toFileTree .standard
          unitOfWorkspace).packageNames = ["a".toList] := by
  have hadded : ∀ file ∈ vendoredBeside,
      Vendored IndexOptions.standard.vendorDirectory file := by
    intro file hfile
    rcases List.mem_cons.1 hfile with rfl | hfile
    · exact ⟨by decide, by decide, by decide⟩
    · obtain rfl := List.mem_singleton.1 hfile
      exact ⟨by decide, by decide, by decide⟩
  refine ⟨hadded, ?_⟩
  rw [build_ignores_vendored_files oneMember (.addFile _ _ (.addFile _ _ .empty)) .standard
    ⟨by decide, by decide, by decide, by decide⟩ unitOfWorkspace (by decide) (by decide)
    vendoredBeside hadded]
  decide +kernel

end DidYouMean
