import DidYouMean.Proofs.Rendering

/-!
# The normal form of a path

Collapsing leaves plain names above a run of `..` on its stack, and at the root there is no such
run. Read in again, such a stack comes out as it was (`Settled.foldl_reverse`), so a path in normal
form stays as it is, and of the front of a path only the normal form matters (`collapse_normal`).
-/

namespace DidYouMean

namespace Path

variable {absolute : Bool} {kept : List Text} {p q : Text}

theorem foldl_climbs : ∀ k : Nat,
    (List.replicate k ['.', '.']).foldl (collapseStep false) [] = List.replicate k ['.', '.']
  | 0 => rfl
  | k + 1 => by
    rw [List.replicate_succ', List.foldl_append, foldl_climbs k, List.foldl_cons, List.foldl_nil,
      collapseStep_climb]
    exact List.replicate_succ'

theorem Settled.foldl_reverse (h : Settled absolute kept) :
    kept.reverse.foldl (collapseStep absolute) [] = kept := by
  induction h with
  | climbs k hk =>
    rcases absolute with _ | _
    · rw [List.reverse_replicate, foldl_climbs]
    · rw [hk rfl]
      rfl
  | name hplain _ ih =>
    rw [List.reverse_cons, List.foldl_append, ih, List.foldl_cons, List.foldl_nil,
      collapseStep_plain hplain]

theorem Settled.exists_names (h : Settled absolute kept) : ∃ climbs names,
    kept.reverse = List.replicate climbs ['.', '.'] ++ names ∧ (∀ s ∈ names, Plain s)
      ∧ (absolute = true → climbs = 0) := by
  induction h with
  | climbs k hk => exact ⟨k, [], by simp, by simp, hk⟩
  | @name s kept hplain _ ih =>
    obtain ⟨climbs, names, hkept, hnames, habs⟩ := ih
    refine ⟨climbs, names ++ [s], by simp [hkept], ?_, habs⟩
    simpa [or_imp, forall_and] using ⟨hnames, hplain⟩

/-- The segments that a path is written with, behind the separator at the root. -/
def segmentsOf (p : Text) : List Text := Text.splitOn '/' (if isAbsolute p then p.drop 1 else p)

theorem collapse_of_nil (h : collapsedSegments p = []) :
    collapse p = if isAbsolute p then ['/'] else ['.'] := by
  simp [collapse, h, Text.join]

theorem segmentsOf_collapse (h : collapsedSegments p ≠ []) :
    segmentsOf (collapse p) = collapsedSegments p := by
  have hkept := kept_collapsedSegments p
  have hsplit := Text.splitOn_join h fun s hs => (hkept s hs).no_slash
  have hjoined := (Text.join_eq_nil_iff ['/'] fun s hs => (hkept s hs).nonempty).not.2 h
  unfold segmentsOf
  rw [isAbsolute_collapse]
  unfold collapse
  simp only [if_neg hjoined]
  split_ifs
  · exact hsplit
  · exact hsplit

theorem foldl_segmentsOf (p : Text) :
    (segmentsOf p).foldl (collapseStep absolute) []
      = (Text.splitOn '/' p).foldl (collapseStep absolute) [] := by
  unfold segmentsOf
  split_ifs with habs
  · obtain ⟨rest, rfl⟩ : ∃ rest, p = '/' :: rest := by
      simpa [isAbsolute, List.head?_eq_some_iff] using habs
    rw [Text.splitOn, if_pos rfl, List.foldl_cons, collapseStep_skip (.inl rfl)]
    rfl
  · rfl

/-- The normal form of a path leaves the same stack as the path. -/
theorem foldl_splitOn_collapse (p : Text) :
    (Text.splitOn '/' (collapse p)).foldl (collapseStep (isAbsolute p)) []
      = (Text.splitOn '/' p).foldl (collapseStep (isAbsolute p)) [] := by
  have hsettled := (settled_splitOn (isAbsolute p) p).foldl_reverse
  by_cases h : collapsedSegments p = []
  · have hstack := List.reverse_eq_nil_iff.1 h
    rw [hstack, collapse_of_nil h]
    split_ifs <;> simp [Text.splitOn, collapseStep]
  · rw [← foldl_segmentsOf, segmentsOf_collapse h]
    exact hsettled

theorem collapse_congr (habs : isAbsolute p = isAbsolute q)
    (h : (Text.splitOn '/' p).foldl (collapseStep (isAbsolute p)) []
      = (Text.splitOn '/' q).foldl (collapseStep (isAbsolute p)) []) :
    collapse p = collapse q := by
  have hsegments : collapsedSegments p = collapsedSegments q := by
    rw [collapsedSegments, collapsedSegments, h, habs]
  simp only [collapse, hsegments, habs]

@[simp] theorem collapse_ne_nil (p : Text) : collapse p ≠ [] := by
  unfold collapse
  dsimp only
  split_ifs with habs hempty
  · simp
  · simp
  · exact hempty

@[simp] theorem collapse_collapse (p : Text) : collapse (collapse p) = collapse p := by
  refine collapse_congr (isAbsolute_collapse p) ?_
  rw [isAbsolute_collapse]
  exact foldl_splitOn_collapse p

theorem collapse_join_collapse (hp : p ≠ []) (s : Text) :
    collapse (join (collapse p) s) = collapse (join p s) := by
  by_cases hs : s = []
  · simp [hs, join]
  · have habs : isAbsolute (join (collapse p) s) = isAbsolute p := by
      rw [isAbsolute_join s (collapse_ne_nil p), isAbsolute_collapse]
    refine collapse_congr (habs.trans (isAbsolute_join s hp).symm) ?_
    rw [habs, foldl_splitOn_join (collapse_ne_nil p) hs, foldl_splitOn_join hp hs,
      foldl_splitOn_collapse]

end Path

/-- In its normal form a path has plain names behind the `..` that lead out of where it starts, and
none of these if it is absolute. Collapsing keeps absolute paths absolute and normal forms as they
are, and what is joined to a path may be joined to its normal form. -/
theorem collapse_normal (p : Text) :
    (Path.collapse p = ['/'] ∨ Path.collapse p = ['.']
        ∨ ∃ climbs names, Path.segmentsOf (Path.collapse p)
            = List.replicate climbs ['.', '.'] ++ names
          ∧ (∀ s ∈ names, Path.Plain s) ∧ (Path.isAbsolute p = true → climbs = 0))
      ∧ Path.isAbsolute (Path.collapse p) = Path.isAbsolute p
      ∧ Path.collapse (Path.collapse p) = Path.collapse p
      ∧ ∀ s, p ≠ [] → Path.collapse (Path.join (Path.collapse p) s)
          = Path.collapse (Path.join p s) := by
  refine ⟨?_, Path.isAbsolute_collapse p, Path.collapse_collapse p, fun s hp =>
    Path.collapse_join_collapse hp s⟩
  by_cases hnone : Path.collapsedSegments p = []
  · rw [Path.collapse_of_nil hnone]
    split_ifs
    · exact .inl rfl
    · exact .inr (.inl rfl)
  · rw [Path.segmentsOf_collapse hnone]
    exact .inr (.inr (Path.settled_splitOn (Path.isAbsolute p) p).exists_names)

theorem climbing_path_normal :
    "../a/../..//b/".toList ≠ []
      ∧ Path.collapse (Path.join (Path.collapse "../a/../..//b/".toList) "../../c".toList)
        = Path.collapse (Path.join "../a/../..//b/".toList "../../c".toList) := by
  have hne : "../a/../..//b/".toList ≠ [] := by decide
  exact ⟨hne, (collapse_normal _).2.2.2 "../../c".toList hne⟩

end DidYouMean
