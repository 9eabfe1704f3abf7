import DidYouMean.Path

/-!
# File tables

A table keeps its files twice: all of them in the order they were added, which is where a path is
looked up, and those of each directory, which is where candidates come from. A file goes into both
or into neither, so the two always agree.
-/

namespace DidYouMean

/-- Files in the order they were added, and in the same order by the directory they stand in. -/
structure FileTable where
  localFiles : List Text
  byDirectory : List (Text × List Text)
  grouped : ∀ directory, (byDirectory.lookup directory).getD []
    = localFiles.filter fun file => Path.dirname file == directory

namespace FileTable

/-- The table without files. -/
def empty : FileTable := ⟨[], [], fun _ => rfl⟩

/-- The files of some directories with one more file in `directory`, which is a new one if it had
no files. -/
def push (directory file : Text) : List (Text × List Text) → List (Text × List Text)
  | [] => [(directory, [file])]
  | (other, files) :: rest =>
    if other = directory then (other, files ++ [file]) :: rest
    else (other, files) :: push directory file rest

theorem getD_lookup_push (directory file other : Text) : ∀ lists : List (Text × List Text),
    ((push directory file lists).lookup other).getD []
      = (lists.lookup other).getD [] ++ if directory = other then [file] else []
  | [] => by
    rw [push, List.lookup_cons]
    by_cases h : other = directory
    · simp [h]
    · simp [beq_eq_false_iff_ne.2 h, Ne.symm h]
  | (first, files) :: rest => by
    have ih := getD_lookup_push directory file other rest
    rw [push]
    by_cases hfirst : first = directory
    · rw [if_pos hfirst, List.lookup_cons, List.lookup_cons, ← hfirst]
      by_cases h : other = first
      · simp [h]
      · simp [beq_eq_false_iff_ne.2 h, Ne.symm h]
    · rw [if_neg hfirst, List.lookup_cons, List.lookup_cons]
      by_cases h : other = first
      · simp [h, Ne.symm hfirst]
      · rw [beq_eq_false_iff_ne.2 h]
        exact ih

/-- The table with one more file, unless it has the file already. -/
def add (t : FileTable) (file : Text) : FileTable :=
  if t.localFiles.contains file then t
  else
    { localFiles := t.localFiles ++ [file]
      byDirectory := push (Path.dirname file) file t.byDirectory
      grouped := by
        intro directory
        rw [getD_lookup_push, t.grouped, List.filter_append, List.filter_cons, List.filter_nil]
        simp only [beq_iff_eq] }

/-- The table of some files. -/
def ofFiles (files : List Text) : FileTable := files.foldl add empty

end FileTable

end DidYouMean
