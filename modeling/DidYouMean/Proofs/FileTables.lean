import DidYouMean.ModuleIndex.Build
import DidYouMean.Proofs.Lists
import DidYouMean.Proofs.Rendering
import Mathlib.Data.List.Induction

/-!
# What a file table holds

One more file goes behind the others and behind those of its directory, or nowhere if the table has
it (`localFiles_add`, `SharesOut.add`). So a table has the files it was made of, each where it first
came (`localFiles_ofFiles`), and the lists of its directories share them out (`sharesOut_ofFiles`).
An index is made from given parts or by building that of a unit, takes its table from the files it
is made of, and may be given a resolver afterwards (`Built`). What it looks up and what it lists are
therefore the same files (`localFiles_grouped`), and their paths are normalized.
-/

namespace DidYouMean

namespace FileTable

theorem localFiles_add (t : FileTable) (file : Text) :
    (t.add file).localFiles
      = if file ∈ t.localFiles then t.localFiles else t.localFiles ++ [file] := by
  simp only [add, List.contains_iff_mem]
  split_ifs <;> rfl

theorem push_flatMap_perm (directory file : Text) : ∀ lists : List (Text × List Text),
    ((push directory file lists).flatMap Prod.snd).Perm (lists.flatMap Prod.snd ++ [file])
  | [] => List.Perm.refl _
  | (other, files) :: rest => by
    have ih := push_flatMap_perm directory file rest
    rw [push]
    split_ifs
    · -- Here the file stands behind those of its directory, in front of all the others.
      simp only [List.flatMap_cons, List.append_assoc]
      exact List.perm_append_comm.append_left files
    · simp only [List.flatMap_cons, List.append_assoc]
      exact ih.append_left files

/-- The lists of the directories share out the files. -/
def SharesOut (t : FileTable) : Prop := (t.byDirectory.flatMap Prod.snd).Perm t.localFiles

theorem SharesOut.add {t : FileTable} (h : t.SharesOut) (file : Text) : (t.add file).SharesOut := by
  rw [FileTable.add]
  split_ifs
  · exact h
  · exact (push_flatMap_perm _ file _).trans (h.append_right [file])

@[simp] theorem ofFiles_concat (files : List Text) (file : Text) :
    ofFiles (files ++ [file]) = (ofFiles files).add file := by
  rw [ofFiles, List.foldl_append]
  rfl

@[simp] theorem localFiles_ofFiles (files : List Text) :
    (ofFiles files).localFiles = files.eraseDups := by
  induction files using List.reverseRecOn with
  | nil => rfl
  | append_singleton files file ih =>
    rw [ofFiles_concat, localFiles_add, ih, eraseDups_concat]
    simp only [List.mem_eraseDups]

theorem mem_localFiles_ofFiles {files : List Text} {file : Text} :
    file ∈ (ofFiles files).localFiles ↔ file ∈ files := by
  rw [localFiles_ofFiles, List.mem_eraseDups]

theorem sharesOut_ofFiles (files : List Text) : (ofFiles files).SharesOut := by
  induction files using List.reverseRecOn with
  | nil => exact List.Perm.refl _
  | append_singleton files file ih =>
    rw [ofFiles_concat]
    exact ih.add file

end FileTable

namespace ModuleIndex

variable {index : ModuleIndex} {directory file : Text}

theorem filesIn_eq (index : ModuleIndex) (directory : Text) :
    index.filesIn directory = index.localFiles.filter fun file => Path.dirname file == directory :=
  index.grouped directory

theorem mem_filesIn : file ∈ index.filesIn directory ↔
    file ∈ index.localFiles ∧ Path.dirname file = directory := by
  rw [filesIn_eq, List.mem_filter, beq_iff_eq]

/-- The files that an index takes from a unit: they are no declarations, stand in no vendored
directory, and end in one of the extensions. -/
def Takes (options : IndexOptions) (file : Text) : Prop :=
  (∀ ending ∈ Path.declarationExtensions, ¬ ending <:+ file)
    ∧ options.vendorDirectory ∉ (Text.splitOn '/' file).dropLast
    ∧ ∃ ext ∈ options.extensions, ext <:+ file

instance (options : IndexOptions) : DecidablePred (Takes options) := fun file =>
  inferInstanceAs (Decidable ((∀ ending ∈ Path.declarationExtensions, ¬ ending <:+ file)
    ∧ options.vendorDirectory ∉ (Text.splitOn '/' file).dropLast
    ∧ ∃ ext ∈ options.extensions, ext <:+ file))

theorem localFilesOf_eq (options : IndexOptions) (unit : CompilationUnit) :
    localFilesOf options unit = (unit.sources.map Path.normalize).filter (Takes options ·) := by
  have htakes : ∀ file : Text, Takes options file ↔ (Path.isDeclarationFile file = false
      ∧ Path.isUnder options.vendorDirectory file = false)
        ∧ (Path.extension? options.extensions file).isSome = true := by
    intro file
    simp only [Takes, Path.isDeclarationFile, Path.isUnder, Path.extension?, List.any_eq_false,
      List.isSuffixOf_iff_suffix, List.contains_eq_mem, decide_eq_false_iff_not,
      List.find?_isSome, and_assoc]
  rw [localFilesOf, ownFiles, List.filter_filter]
  refine List.filter_congr fun file _ => ?_
  rw [Bool.eq_iff_iff, decide_eq_true_iff, htakes]
  simp only [Bool.and_eq_true, Bool.not_eq_true', and_comm]

/-- Each local file is listed once, every directory lists those that stand in it, in the same
order, and what the directories have together are the local files. -/
structure ListsByDirectory (index : ModuleIndex) : Prop where
  nodup : index.localFiles.Nodup
  filesIn : ∀ directory,
    index.filesIn directory = index.localFiles.filter fun file => Path.dirname file == directory
  perm : (index.byDirectory.flatMap Prod.snd).Perm index.localFiles

theorem listsByDirectory_of_ofFiles {files : List Text} (h : index.toFileTable = .ofFiles files) :
    index.ListsByDirectory where
  nodup := by
    rw [h, FileTable.localFiles_ofFiles]
    exact nodup_eraseDups files
  filesIn := filesIn_eq index
  perm := by
    rw [h]
    exact FileTable.sharesOut_ofFiles files

/-- The indexes that can be made. -/
inductive Built : ModuleIndex → Prop where
  | ofParts (files packages : List Text) (options : IndexOptions) :
      Built (ofParts files packages options)
  | build (tree : FileTree) (options : IndexOptions) (unit : CompilationUnit) :
      Built (build tree options unit)
  | withResolver {index : ModuleIndex} (resolver : Resolver) :
      Built index → Built { index with resolver := some resolver }

theorem Built.normalize_localFile {index : ModuleIndex} (h : index.Built) :
    ∀ {file : Text}, file ∈ index.localFiles → Path.normalize file = file := by
  have hmap : ∀ {files : List Text} {file : Text}, file ∈ files.map Path.normalize →
      Path.normalize file = file := by
    intro files file hfile
    obtain ⟨p, -, rfl⟩ := List.mem_map.1 hfile
    exact Path.normalize_eq_self (Path.not_mem_normalize p)
  induction h with
  | ofParts files packages options =>
    intro file hfile
    exact hmap (FileTable.mem_localFiles_ofFiles.1 hfile)
  | build tree options unit =>
    intro file hfile
    have hown := (List.mem_filter.1 (FileTable.mem_localFiles_ofFiles.1 hfile)).1
    exact hmap (List.mem_filter.1 hown).1
  | withResolver resolver _ ih => exact ih

end ModuleIndex

/-- The local files of a unit's index are the normalized sources that an index takes, and those of
an index made from parts are all files given, normalized; either way each is listed once, where it
first comes. The files of the directories are these same files: a directory has the local files
that stand in it, in the same order, and together the directories have each local file once. -/
theorem localFiles_grouped (tree : FileTree) (options : IndexOptions) (unit : CompilationUnit)
    (files packages : List Text) :
    (ModuleIndex.build tree options unit).localFiles
        = ((unit.sources.map Path.normalize).filter (ModuleIndex.Takes options ·)).eraseDups
      ∧ (ModuleIndex.ofParts files packages options).localFiles
        = (files.map Path.normalize).eraseDups
      ∧ (ModuleIndex.build tree options unit).ListsByDirectory
      ∧ (ModuleIndex.ofParts files packages options).ListsByDirectory := by
  refine ⟨?_, FileTable.localFiles_ofFiles _, ModuleIndex.listsByDirectory_of_ofFiles rfl,
    ModuleIndex.listsByDirectory_of_ofFiles rfl⟩
  rw [← ModuleIndex.localFilesOf_eq]
  exact FileTable.localFiles_ofFiles _

example : (ModuleIndex.ofParts ["/a/x.ts".toList, "/b/y.ts".toList, "\\a\\z.ts".toList,
    "/a/x.ts".toList] [] .standard).byDirectory
      = [("/a".toList, ["/a/x.ts".toList, "/a/z.ts".toList]),
        ("/b".toList, ["/b/y.ts".toList])] := by decide

end DidYouMean
