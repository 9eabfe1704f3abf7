import DidYouMean.Proofs.MemoryTrees

/-!
# Trees as they are filled

A tree is filled by adding directories and files one after another. What is added is walked upwards
from where it starts, a directory from itself and a file from the directory it stands in, and the
directories of the tree are those such a walk comes to (`mem_directories_ofAdditions`). Which of the
additions came first leaves no trace there, although a walk breaks off at the first directory that
is known. A file holds what was added last at its path (`read?_ofAdditions_eq_some_iff`).
-/

namespace DidYouMean

namespace MemoryTree

/-- What can be added to a tree. -/
inductive Addition where
  | directory (path : Text)
  | file (path content : Text)
  deriving DecidableEq, Repr

namespace Addition

/-- Where the walk upwards from what is added starts. -/
def start : Addition → Text
  | directory p => Path.normalize p
  | file p _ => Path.dirname (Path.normalize p)

/-- What the addition writes to the file at a path. -/
def writes? (q : Text) : Addition → Option Text
  | directory _ => none
  | file p content => if Path.normalize p = Path.normalize q then some content else none

theorem writes?_eq_some_iff {a : Addition} {q content : Text} :
    a.writes? q = some content ↔
      ∃ p, a = file p content ∧ Path.normalize p = Path.normalize q := by
  rcases a with p | ⟨p, other⟩
  · simp [writes?]
  · simp only [writes?, file.injEq]
    split_ifs with hp
    · simp [hp, eq_comm]
    · simp [hp]

theorem writes?_eq_none_iff {a : Addition} {q : Text} :
    a.writes? q = none ↔ ∀ p content, a = file p content → Path.normalize p ≠ Path.normalize q := by
  rcases a with p | ⟨p, other⟩
  · simp [writes?]
  · simp only [writes?, file.injEq]
    split_ifs with hp
    · simp [hp]
    · simp [hp]

end Addition

variable {t : MemoryTree} {d q : Text} {additions others : List Addition}

/-- The tree with something added. -/
def add (t : MemoryTree) : Addition → MemoryTree
  | .directory p => t.addDirectory p
  | .file p content => t.addFile p content

/-- The tree that is filled by some additions, the first one first. -/
def ofAdditions (additions : List Addition) : MemoryTree := additions.foldl add empty

@[simp] theorem ofAdditions_concat (additions : List Addition) (a : Addition) :
    ofAdditions (additions ++ [a]) = (ofAdditions additions).add a := by
  simp [ofAdditions]

theorem built_ofAdditions (additions : List Addition) : (ofAdditions additions).Built := by
  induction additions using List.reverseRecOn with
  | nil => exact .empty
  | append_singleton additions a ih =>
    rw [ofAdditions_concat]
    rcases a with p | ⟨p, content⟩
    · exact ih.addDirectory p
    · exact ih.addFile p content

theorem Closed.mem_directories_add (h : t.Closed) (a : Addition) :
    d ∈ (t.add a).directories ↔ d ∈ t.directories ∨ d ∈ Path.ancestors a.start := by
  rcases a with p | ⟨p, content⟩
  · exact h.mem_addDirectory
  · rw [add, directories_addFile, h.mem_addDirectory, Path.normalize_dirname_normalize,
      Addition.start]

theorem mem_directories_ofAdditions :
    d ∈ (ofAdditions additions).directories ↔ ∃ a ∈ additions, d ∈ Path.ancestors a.start := by
  induction additions using List.reverseRecOn with
  | nil => simp [ofAdditions, empty]
  | append_singleton additions a ih =>
    rw [ofAdditions_concat, (built_ofAdditions additions).closed.mem_directories_add, ih]
    simp only [List.mem_append, List.mem_singleton, or_and_right, exists_or, exists_eq_left]

theorem read?_add (t : MemoryTree) (a : Addition) (q : Text) :
    (t.add a).read? q = (a.writes? q).or (t.read? q) := by
  rcases a with p | ⟨p, content⟩
  · rfl
  · rw [add, read?_addFile, Addition.writes?]
    split_ifs <;> rfl

theorem read?_ofAdditions (additions : List Addition) (q : Text) :
    (ofAdditions additions).read? q = additions.reverse.findSome? (·.writes? q) := by
  induction additions using List.reverseRecOn with
  | nil => rfl
  | append_singleton additions a ih =>
    rw [ofAdditions_concat, read?_add, ih, List.reverse_append, List.reverse_singleton,
      List.findSome?_append, List.findSome?_singleton]

/-- A file holds what was added last at its path. -/
theorem read?_ofAdditions_eq_some_iff {content : Text} :
    (ofAdditions additions).read? q = some content ↔
      ∃ before p after, additions = before ++ .file p content :: after
        ∧ Path.normalize p = Path.normalize q ∧ ∀ a ∈ after, a.writes? q = none := by
  rw [read?_ofAdditions, List.findSome?_eq_some_iff]
  constructor
  · rintro ⟨later, a, earlier, hreverse, hwrites, hlater⟩
    obtain ⟨p, rfl, hp⟩ := Addition.writes?_eq_some_iff.1 hwrites
    refine ⟨earlier.reverse, p, later.reverse, ?_, hp, by simpa using hlater⟩
    rw [← List.reverse_reverse additions, hreverse]
    simp
  · rintro ⟨before, p, after, rfl, hp, hafter⟩
    exact ⟨after.reverse, .file p content, before.reverse, by simp,
      Addition.writes?_eq_some_iff.2 ⟨p, rfl, hp⟩, by simpa using hafter⟩

theorem read?_ofAdditions_eq_none_iff :
    (ofAdditions additions).read? q = none ↔ ∀ a ∈ additions, a.writes? q = none := by
  simp [read?_ofAdditions]

/-- Filled in another order, a tree has the same directories. -/
theorem directories_perm (h : additions.Perm others) :
    (ofAdditions additions).directories.Perm (ofAdditions others).directories := by
  rw [List.perm_ext_iff_of_nodup (built_ofAdditions _).closed.nodup
    (built_ofAdditions _).closed.nodup]
  intro d
  simp only [mem_directories_ofAdditions, h.mem_iff]

theorem listDirectories_perm (h : additions.Perm others) (d : Text) :
    (ofAdditions additions).listDirectories d = (ofAdditions others).listDirectories d := by
  simp only [listDirectories]
  rw [Text.sort_congr ((directories_perm h).filter _)]

theorem mem_ancestors_start {a : Addition} : d ∈ Path.ancestors a.start ↔
    (∃ p k, a = .directory p ∧ Path.dirname^[k] (Path.normalize p) = d)
      ∨ ∃ p content k, a = .file p content ∧ Path.dirname^[k + 1] (Path.normalize p) = d := by
  rcases a with p | ⟨p, content⟩ <;> simp [Addition.start, Path.mem_ancestors_iff]

theorem directoryExists_iff {x : Text} :
    t.toFileTree.directoryExists x = true ↔ Path.normalize x ∈ t.directories := by
  simp [toFileTree]

theorem read_eq_ok_iff {x content : Text} :
    t.toFileTree.read x = .ok content ↔ t.read? x = some content := by
  unfold toFileTree
  dsimp only
  split <;> simp [*]

theorem read_eq_error_iff {x : Text} {error : ReadError} :
    t.toFileTree.read x = .error error ↔ error = .notFound ∧ t.read? x = none := by
  unfold toFileTree
  dsimp only
  split <;> simp [*, eq_comm]

end MemoryTree

open MemoryTree

/-- A tree answers from what was added to it, in whatever order the directories came: a directory
is there if a walk upwards from a directory or from above a file comes to it, and a file holds what
was added last at its path. -/
theorem filled_tree_answers (additions : List Addition) :
    (∀ x, (ofAdditions additions).toFileTree.directoryExists x = true ↔
        (∃ p k, .directory p ∈ additions
            ∧ Path.dirname^[k] (Path.normalize p) = Path.normalize x)
          ∨ ∃ p content k, .file p content ∈ additions
            ∧ Path.dirname^[k + 1] (Path.normalize p) = Path.normalize x)
      ∧ (∀ x, (ofAdditions additions).toFileTree.fileExists x = true ↔
        ∃ p content, .file p content ∈ additions ∧ Path.normalize p = Path.normalize x)
      ∧ (∀ x content, (ofAdditions additions).toFileTree.read x = .ok content ↔
        ∃ before p after, additions = before ++ .file p content :: after
          ∧ Path.normalize p = Path.normalize x
          ∧ ∀ q other, .file q other ∈ after → Path.normalize q ≠ Path.normalize x)
      ∧ (∀ x error, (ofAdditions additions).toFileTree.read x = .error error ↔
        error = .notFound
          ∧ ∀ p content, .file p content ∈ additions → Path.normalize p ≠ Path.normalize x)
      ∧ ∀ others, additions.Perm others → ∀ x,
        (ofAdditions others).toFileTree.directoryExists x
            = (ofAdditions additions).toFileTree.directoryExists x
          ∧ (ofAdditions others).toFileTree.listDirectories x
            = (ofAdditions additions).toFileTree.listDirectories x := by
  have hunwritten : ∀ {as : List Addition} {x : Text}, (∀ a ∈ as, a.writes? x = none) ↔
      ∀ p content, .file p content ∈ as → Path.normalize p ≠ Path.normalize x := by
    intro as x
    simp only [Addition.writes?_eq_none_iff]
    constructor
    · intro h p content hp
      exact h _ hp p content rfl
    · rintro h _ ha p content rfl
      exact h p content ha
  refine ⟨fun x => ?_, fun x => ?_, fun x content => ?_, fun x error => ?_, fun others h x => ?_⟩
  · simp only [directoryExists_iff, mem_directories_ofAdditions, mem_ancestors_start]
    constructor
    · rintro ⟨a, ha, ⟨p, k, rfl, hk⟩ | ⟨p, content, k, rfl, hk⟩⟩
      · exact .inl ⟨p, k, ha, hk⟩
      · exact .inr ⟨p, content, k, ha, hk⟩
    · rintro (⟨p, k, ha, hk⟩ | ⟨p, content, k, ha, hk⟩)
      · exact ⟨_, ha, .inl ⟨p, k, rfl, hk⟩⟩
      · exact ⟨_, ha, .inr ⟨p, content, k, rfl, hk⟩⟩
  · have hnone : (ofAdditions additions).read? x = none ↔ _ :=
      read?_ofAdditions_eq_none_iff.trans hunwritten
    show ((ofAdditions additions).read? x).isSome = true ↔ _
    rw [Option.isSome_iff_ne_none, Ne, hnone]
    push Not
    rfl
  · rw [read_eq_ok_iff, read?_ofAdditions_eq_some_iff]
    simp only [hunwritten]
  · rw [read_eq_error_iff, read?_ofAdditions_eq_none_iff, hunwritten]
  · refine ⟨?_, (listDirectories_perm h x).symm⟩
    rw [Bool.eq_iff_iff, directoryExists_iff, directoryExists_iff, (directories_perm h).mem_iff]

/-- Two directories and a file, spelled in three ways. -/
def spelledAdditions : List Addition :=
  [.directory "\\repo\\web/".toList, .file "/repo//lib/a.ts".toList [],
    .directory "/repo".toList]

theorem reversed_tree_answers :
    spelledAdditions.Perm spelledAdditions.reverse
      ∧ (ofAdditions spelledAdditions.reverse).toFileTree.directoryExists "/repo/".toList = true
      ∧ (ofAdditions spelledAdditions.reverse).toFileTree.listDirectories "/".toList
        = (ofAdditions spelledAdditions).toFileTree.listDirectories "/".toList := by
  have hperm := (List.reverse_perm spelledAdditions).symm
  have hall := filled_tree_answers spelledAdditions
  have hsame := hall.2.2.2.2 _ hperm
  have hthere := (hall.1 "/repo/".toList).2
    (.inr ⟨"/repo//lib/a.ts".toList, [], 1, by decide, by decide⟩)
  exact ⟨hperm, (hsame _).1.trans hthere, (hsame _).2⟩

end DidYouMean
