import DidYouMean.Project
import DidYouMean.Proofs.FileTables
import DidYouMean.Proofs.MemoryTrees
import DidYouMean.Proofs.Trimming

/-!
# The files of a project and of its index

A walk of a project does not enter vendored directories, and an index leaves out what stands below
one. Both look at the names of directories, but the walk only at those below the root
(`isUnder_of_reached`). So the index of a project takes what the walk finds, unless the project
itself stands in a vendored directory.
-/

namespace DidYouMean

namespace Text

theorem dropLast_splitOn_append_sep (sep : Char) (s t : Text) :
    (splitOn sep (s ++ sep :: t)).dropLast = splitOn sep s ++ (splitOn sep t).dropLast := by
  rw [splitOn_append_sep, List.dropLast_append_of_ne_nil (splitOn_ne_nil sep t)]

end Text

namespace Project

variable {disk : Disk} {options : ProjectOptions} {tree : FileTree} {root file : Text}

theorem mem_sourceFiles :
    file ∈ sourceFiles disk options root ↔
      (∃ entry ∈ disk.files, isReached options.index.vendorDirectory root entry.1 = true
          ∧ Path.normalize entry.1 = file)
        ∧ (Path.extension? options.index.extensions file).isSome = true
        ∧ options.excludes (Path.relative root file) = false := by
  simp only [sourceFiles, (Text.sort_perm _).mem_iff, walk, List.mem_filter, List.mem_map,
    Bool.and_eq_true, Bool.not_eq_true', and_assoc, exists_exists_and_eq_and]

/-- The index of a project takes the source files that are neither declarations nor below a
vendored directory. -/
theorem mem_localFiles_build :
    file ∈ (ModuleIndex.build tree options.index (unit disk options root)).localFiles ↔
      file ∈ sourceFiles disk options root ∧ Path.isDeclarationFile file = false
        ∧ Path.isUnder options.index.vendorDirectory file = false := by
  have hnormal : ∀ p ∈ sourceFiles disk options root, Path.normalize p = id p := by
    intro p hp
    obtain ⟨⟨entry, -, -, rfl⟩, -⟩ := mem_sourceFiles.1 hp
    exact Path.normalize_normalize entry.1
  have hsources : (sourceFiles disk options root).map Path.normalize
      = sourceFiles disk options root := by
    rw [List.map_congr_left hnormal, List.map_id]
  simp only [ModuleIndex.build, ModuleIndex.localFilesOf, ModuleIndex.ownFiles, unit, hsources,
    FileTable.mem_localFiles_ofFiles, List.mem_filter, Bool.and_eq_true, Bool.not_eq_true',
    and_assoc]
  constructor
  · rintro ⟨hfile, hdeclares, hunder, -⟩
    exact ⟨hfile, hdeclares, hunder⟩
  · rintro ⟨hfile, hdeclares, hunder⟩
    exact ⟨hfile, hdeclares, hunder, (mem_sourceFiles.1 hfile).2.1⟩

/-- A file that a walk comes to is below a vendored directory only if the root is in one. -/
theorem isUnder_of_reached {vendor path : Text} (h : isReached vendor root path = true) :
    Path.isUnder vendor path = true ↔ vendor ∈ Text.splitOn '/' root := by
  simp only [isReached, below?] at h
  split at h
  · rename_i way hway
    have hentered : vendor ∉ (Text.splitOn '/' way).dropLast := by
      intro hmem
      rw [Bool.not_eq_true', List.any_eq_false] at h
      exact h vendor hmem (by simp [isSkipped])
    rw [Text.stripStart?_eq_some_iff] at hway
    split_ifs at hway with hroot
    · rw [hway, hroot, Path.isUnder, show ['/'] ++ way = [] ++ '/' :: way from rfl,
        Text.dropLast_splitOn_append_sep, List.contains_iff_mem, List.mem_append]
      simp [Text.splitOn, hentered]
    · rw [hway, Path.isUnder, List.append_assoc, List.singleton_append,
        Text.dropLast_splitOn_append_sep, List.contains_iff_mem, List.mem_append,
        or_iff_left hentered]
  · simp at h

end Project

/-- A source file of a project that is no declaration is a local file of the project's index unless
it stands below a vendored directory. Where no name on the disk has a backslash, it does so only if
the project does. -/
theorem discovered_local_iff (disk : Disk) (options : ProjectOptions) (root : Text)
    (tree : FileTree) (file : Text) (hfile : file ∈ Project.sourceFiles disk options root)
    (hdeclares : Path.isDeclarationFile file = false) :
    (file ∈ (ModuleIndex.build tree options.index
          (Project.unit disk options root)).localFiles ↔
        Path.isUnder options.index.vendorDirectory file = false)
      ∧ ((∀ entry ∈ disk.files, '\\' ∉ entry.1) →
        (file ∈ (ModuleIndex.build tree options.index
            (Project.unit disk options root)).localFiles ↔
          options.index.vendorDirectory ∉ Text.splitOn '/' root)) := by
  have hlocal : file ∈ (ModuleIndex.build tree options.index
      (Project.unit disk options root)).localFiles ↔
        Path.isUnder options.index.vendorDirectory file = false := by
    rw [Project.mem_localFiles_build, and_iff_right hfile, and_iff_right hdeclares]
  refine ⟨hlocal, fun hback => ?_⟩
  obtain ⟨⟨entry, hentry, hreached, rfl⟩, -⟩ := Project.mem_sourceFiles.1 hfile
  rw [Path.normalize_eq_self (hback entry hentry)] at hlocal ⊢
  rw [hlocal, ← Project.isUnder_of_reached hreached, Bool.not_eq_true]

/-- The options of a project without a configuration. -/
def standardProjectOptions : ProjectOptions := ⟨.standard, .standard, ⟨[], by simp⟩⟩

/-- A disk with a project that has vendored packages. -/
def vendoringDisk : Disk :=
  ((Disk.empty "/w".toList).addFile "app/src/main.ts".toList []).addFile
    "app/node_modules/dep/main.ts".toList []

theorem main_file_local :
    "/w/app/src/main.ts".toList ∈ (ModuleIndex.build vendoringDisk.toFileTree .standard
      (Project.unit vendoringDisk standardProjectOptions "/w/app".toList)).localFiles :=
  ((discovered_local_iff vendoringDisk standardProjectOptions "/w/app".toList _ _
    (by decide +kernel) (by decide +kernel)).2 (by decide +kernel)).2 (by decide +kernel)

/-- A project that is itself a vendored package has no local files. -/
theorem discovered_not_always_local :
    ¬ ∀ (disk : Disk) (path root : Text) (config : Config) (options : ProjectOptions)
        (file : Text), Project.root disk path = .ok root → config.resolve = .ok options →
      file ∈ Project.sourceFiles disk options root → Path.isDeclarationFile file = false →
      file ∈ (ModuleIndex.build disk.toFileTree options.index
        (Project.unit disk options root)).localFiles := by
  intro h
  have hlocal := h vendoringDisk "app/node_modules/dep".toList "/w/app/node_modules/dep".toList
    .empty standardProjectOptions "/w/app/node_modules/dep/main.ts".toList (by decide +kernel) rfl
    (by decide +kernel) (by decide +kernel)
  exact absurd hlocal (by decide +kernel)

end DidYouMean
