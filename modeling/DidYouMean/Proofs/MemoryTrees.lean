import DidYouMean.FileTree.Memory
import DidYouMean.Proofs.Ancestors
import DidYouMean.Proofs.Lists
import DidYouMean.Proofs.Rendering
import DidYouMean.Proofs.SameDirectory

/-!
# What a tree in memory knows

A file that is added is what is read at its path from then on, and every other path reads as before
(`read?_addFile`). However a tree is filled, its directories are known once and in normal spelling,
each with the one it stands in, and no file is without its directory (`Built.closed`). So a walk
upwards may stop at the first directory that is known (`register_eq`), and adding files only puts
directories behind those there are, all of them above one of the files (`directories_addFiles`). A
listing changes by these alone (`listDirectories_addFiles`).
-/

namespace DidYouMean

namespace Path

@[simp] theorem normalize_normalize (p : Text) : normalize (normalize p) = normalize p :=
  normalize_eq_self (not_mem_normalize p)

theorem normalize_dirname {p : Text} (h : normalize p = p) : normalize (dirname p) = dirname p := by
  rw [← h]
  exact normalize_dirname_normalize p

theorem mem_fileName {p : Text} {c : Char} (h : c ∈ fileName p) : c ∈ p := by
  rw [fileName, Text.takeEndWhile, List.mem_reverse] at h
  exact List.mem_reverse.1 ((List.takeWhile_sublist _).subset h)

end Path

namespace MemoryTree

variable {t : MemoryTree} {p d content : Text}

@[simp] theorem read?_addFile (t : MemoryTree) (p content q : Text) :
    (t.addFile p content).read? q
      = if Path.normalize p = Path.normalize q then some content else t.read? q := by
  rw [read?, addFile, List.lookup_cons, lookup_filter_key (· != Path.normalize p), read?]
  by_cases hpath : Path.normalize p = Path.normalize q
  · rw [if_pos hpath, hpath, beq_self_eq_true]
  · rw [if_neg hpath, beq_eq_false_iff_ne.2 (Ne.symm hpath),
      if_pos (bne_iff_ne.2 (Ne.symm hpath))]
    rfl

theorem fileExists_addFile (path content : Text) (h : t.toFileTree.fileExists p = true) :
    (t.addFile path content).toFileTree.fileExists p = true := by
  simp only [toFileTree, read?_addFile] at h ⊢
  split_ifs
  · rfl
  · exact h

/-- The trees that can be filled. -/
inductive Built : MemoryTree → Prop where
  | empty : Built empty
  | addDirectory {t : MemoryTree} (p : Text) : Built t → Built (t.addDirectory p)
  | addFile {t : MemoryTree} (p content : Text) : Built t → Built (t.addFile p content)

/-- Directories are known once, in normal spelling, and with the one they stand in, and so are
those of the files. -/
structure Closed (t : MemoryTree) : Prop where
  nodup : t.directories.Nodup
  normalized : ∀ d ∈ t.directories, Path.normalize d = d
  above : ∀ d ∈ t.directories, Path.dirname d ∈ t.directories
  above_file : ∀ file ∈ t.files, Path.dirname file.1 ∈ t.directories

/-- While a walk upwards registers directories, only the one at hand may be missing. So what stands
above a known directory is known, and nothing is lost by stopping there. -/
theorem register_eq {known : List Text} {d : Text}
    (h : ∀ e ∈ known, Path.dirname e ∈ known ∨ Path.dirname e = d) :
    register known d = known ++ (Path.ancestors d).filter (· ∉ known) := by
  induction d using Path.upward_induction generalizing known with
  | up d ih =>
    rw [register]
    split_ifs with hcontains htop
    · have hknown := List.contains_iff_mem.1 hcontains
      have habove : ∀ e ∈ Path.ancestors d, e ∈ known := fun e he =>
        Path.ancestors_induction (motive := (· ∈ known)) he hknown fun e he =>
          (h e he).elim id fun heq => heq ▸ hknown
      rw [List.filter_eq_nil_iff.2 (by simpa using habove), List.append_nil]
    · rw [Path.ancestors, dif_pos htop, List.filter_cons_of_pos (by simpa using hcontains),
        List.filter_nil]
    · have hnext : ∀ e ∈ known ++ [d],
          Path.dirname e ∈ known ++ [d] ∨ Path.dirname e = Path.dirname d := by
        intro e he
        rcases List.mem_append.1 he with he | he
        · rcases h e he with habove | rfl
          · exact .inl (List.mem_append_left _ habove)
          · exact .inl (by simp)
        · exact .inr (by rw [List.mem_singleton.1 he])
      have hrest : (Path.ancestors (Path.dirname d)).filter (· ∉ known ++ [d])
          = (Path.ancestors (Path.dirname d)).filter (· ∉ known) := by
        refine List.filter_congr fun e he => ?_
        have hne : e ≠ d := ne_of_mem_of_not_mem he (Path.not_mem_ancestors_dirname htop)
        simp [hne]
      rw [ih htop hnext, hrest, Path.ancestors_of_ne htop,
        List.filter_cons_of_pos (by simpa using hcontains), List.append_assoc,
        List.singleton_append]

theorem Closed.directories_addDirectory (h : t.Closed) (p : Text) :
    (t.addDirectory p).directories = t.directories
      ++ (Path.ancestors (Path.normalize p)).filter (· ∉ t.directories) :=
  register_eq fun e he => .inl (h.above e he)

theorem Closed.mem_addDirectory (h : t.Closed) :
    d ∈ (t.addDirectory p).directories
      ↔ d ∈ t.directories ∨ d ∈ Path.ancestors (Path.normalize p) := by
  by_cases hd : d ∈ t.directories <;> simp [h.directories_addDirectory, hd]

theorem Closed.addDirectory (h : t.Closed) (p : Text) : (t.addDirectory p).Closed where
  nodup := by
    rw [h.directories_addDirectory]
    refine h.nodup.append ((Path.nodup_ancestors _).filter _) fun d hd hnew => ?_
    simpa [hd] using (List.mem_filter.1 hnew).2
  normalized d hd := by
    rcases h.mem_addDirectory.1 hd with hd | hd
    · exact h.normalized d hd
    · exact Path.ancestors_induction (motive := fun e => Path.normalize e = e) hd
        (Path.normalize_normalize p) fun _ => Path.normalize_dirname
  above d hd := by
    rw [h.mem_addDirectory] at hd ⊢
    exact hd.imp (h.above d) Path.dirname_mem_ancestors
  above_file file hfile := h.mem_addDirectory.2 (.inl (h.above_file file hfile))

@[simp] theorem directories_addFile (t : MemoryTree) (p content : Text) :
    (t.addFile p content).directories
      = (t.addDirectory (Path.dirname (Path.normalize p))).directories := rfl

theorem Closed.addFile (h : t.Closed) (p content : Text) : (t.addFile p content).Closed := by
  have hdirectory := h.addDirectory (Path.dirname (Path.normalize p))
  refine ⟨hdirectory.nodup, hdirectory.normalized, hdirectory.above, fun file hfile => ?_⟩
  rcases List.mem_cons.1 hfile with rfl | hfile
  · rw [directories_addFile, h.mem_addDirectory, Path.normalize_dirname_normalize]
    exact .inr (Path.self_mem_ancestors _)
  · exact hdirectory.above_file file (List.mem_filter.1 hfile).1

theorem Built.closed (h : t.Built) : t.Closed := by
  induction h with
  | empty => exact ⟨List.nodup_nil, by simp [MemoryTree.empty], by simp [MemoryTree.empty],
      by simp [MemoryTree.empty]⟩
  | addDirectory p _ ih => exact ih.addDirectory p
  | addFile p content _ ih => exact ih.addFile p content

theorem Closed.dirname_mem_of_read? (h : t.Closed) (hfile : (t.read? p).isSome = true) :
    Path.dirname (Path.normalize p) ∈ t.directories := by
  obtain ⟨content, hcontent⟩ := Option.isSome_iff_exists.1 hfile
  exact h.above_file _ (mem_of_lookup hcontent)

/-! ## Several files -/

/-- The tree with some more files. -/
def addFiles (t : MemoryTree) (files : List (Text × Text)) : MemoryTree :=
  files.foldl (fun t file => t.addFile file.1 file.2) t

theorem addFiles_cons (t : MemoryTree) (file : Text × Text) (files : List (Text × Text)) :
    t.addFiles (file :: files) = (t.addFile file.1 file.2).addFiles files := rfl

theorem read?_addFiles {q : Text} : ∀ {t : MemoryTree} {files : List (Text × Text)},
    (∀ file ∈ files, Path.normalize file.1 ≠ Path.normalize q) →
      (t.addFiles files).read? q = t.read? q
  | _, [], _ => rfl
  | t, file :: files, h => by
    rw [addFiles_cons, read?_addFiles fun f hf => h f (List.mem_cons_of_mem _ hf), read?_addFile,
      if_neg (h file List.mem_cons_self)]

theorem fileExists_addFiles : ∀ {t : MemoryTree} (files : List (Text × Text)),
    t.toFileTree.fileExists p = true → (t.addFiles files).toFileTree.fileExists p = true
  | _, [], h => h
  | _, file :: files, h => fileExists_addFiles files (fileExists_addFile file.1 file.2 h)

theorem Closed.addFiles : ∀ {t : MemoryTree} (files : List (Text × Text)), t.Closed →
    (t.addFiles files).Closed
  | _, [], h => h
  | _, file :: files, h => (h.addFile file.1 file.2).addFiles files

/-- Files bring the directories above them, behind those that were there. -/
theorem directories_addFiles : ∀ {t : MemoryTree} (files : List (Text × Text)), t.Closed →
    ∃ new, (t.addFiles files).directories = t.directories ++ new
      ∧ ∀ d ∈ new, d ∉ t.directories
        ∧ ∃ file ∈ files, d ∈ Path.ancestors (Path.dirname (Path.normalize file.1))
  | t, [], _ => ⟨[], by simp [addFiles], by simp⟩
  | t, file :: files, h => by
    obtain ⟨new, hnew, hmem⟩ := directories_addFiles files (h.addFile file.1 file.2)
    have hfirst : (t.addFile file.1 file.2).directories = t.directories
        ++ (Path.ancestors (Path.dirname (Path.normalize file.1))).filter
          (· ∉ t.directories) := by
      rw [directories_addFile, h.directories_addDirectory, Path.normalize_dirname_normalize]
    rw [hfirst, List.append_assoc] at hnew
    refine ⟨_, hnew, fun d hd => ?_⟩
    -- A directory is new because of the first file, or still new when the others are added.
    rcases List.mem_append.1 hd with hd | hd
    · rw [List.mem_filter] at hd
      exact ⟨by simpa using hd.2, file, List.mem_cons_self, hd.1⟩
    · obtain ⟨hknown, f, hf, habove⟩ := hmem d hd
      rw [hfirst, List.mem_append, not_or] at hknown
      exact ⟨hknown.1, f, List.mem_cons_of_mem _ hf, habove⟩

theorem mem_listDirectories {name : Text} :
    name ∈ t.listDirectories d ↔ ∃ e ∈ t.directories,
      e ≠ Path.normalize d ∧ Path.dirname e = Path.normalize d ∧ Path.fileName e = name := by
  simp only [listDirectories, List.mem_map, (Text.sort_perm _).mem_iff, List.mem_filter,
    Bool.and_eq_true, bne_iff_ne, beq_iff_eq, and_assoc]

theorem Closed.no_backslash (h : t.Closed) (hd : d ∈ t.directories) : '\\' ∉ Path.fileName d := by
  intro hback
  have hnot := Path.not_mem_normalize d
  rw [h.normalized d hd] at hnot
  exact hnot (Path.mem_fileName hback)

theorem Closed.name_of_mem_listDirectories (h : t.Closed) {name : Text}
    (hname : name ∈ t.listDirectories d) : '/' ∉ name ∧ '\\' ∉ name := by
  obtain ⟨e, he, -, -, rfl⟩ := mem_listDirectories.1 hname
  exact ⟨Path.not_mem_fileName e, h.no_backslash he⟩

/-- What was listed in a directory before stays listed, in the same order. -/
theorem listDirectories_addFiles {keep : Text → Bool} {files : List (Text × Text)} (h : t.Closed)
    (hkeep : ∀ file ∈ files, ∀ e ∈ Path.ancestors (Path.dirname (Path.normalize file.1)),
      e ∉ t.directories → e ≠ Path.normalize d → Path.dirname e = Path.normalize d →
        keep (Path.fileName e) = false) :
    ((t.addFiles files).listDirectories d).filter keep = (t.listDirectories d).filter keep := by
  obtain ⟨new, hnew, hmem⟩ := directories_addFiles files h
  have hnone : (new.filter fun e => e != Path.normalize d
      && Path.dirname e == Path.normalize d).filter (keep ∘ Path.fileName) = [] := by
    rw [List.filter_filter, List.filter_eq_nil_iff]
    intro e he hlisted
    simp only [Function.comp_apply, Bool.and_eq_true, bne_iff_ne, beq_iff_eq] at hlisted
    obtain ⟨hknown, file, hfile, habove⟩ := hmem e he
    have := hkeep file hfile e habove hknown hlisted.2.1 hlisted.2.2
    simp [hlisted.1] at this
  simp only [listDirectories, hnew, List.filter_map, Text.sort_filter, List.filter_append, hnone,
    List.append_nil]

end MemoryTree

end DidYouMean
