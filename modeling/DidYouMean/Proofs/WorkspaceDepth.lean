import DidYouMean.Proofs.GlobReading
import DidYouMean.Proofs.WorkspaceMembers
import Mathlib.Data.List.DropRight

/-!
# How deep workspace patterns reach

A pattern reaches as many levels as it has components, or all of them if there is `**` in it. What
the patterns select is found if one of them has as many separators as its path (`DeepEnough`), since
each level takes a separator. The pattern that matches the path is such a one, since a glob takes up
no more separators than are written in it. The exception are classes that have the separator as a
member without naming it, such as negated ones: a pattern with one of these may match paths that are
longer than it reaches (`selected_not_always_reached`).
-/

namespace DidYouMean

namespace Text

@[simp] theorem length_splitOn (sep : Char) : ∀ t : Text, (splitOn sep t).length = t.count sep + 1
  | [] => rfl
  | c :: t => by
    have ih := length_splitOn sep t
    rw [splitOn]
    split_ifs with hc
    · rw [hc, List.length_cons, ih, List.count_cons_self]
    · rw [List.count_cons_of_ne hc, ← ih]
      split
      · rename_i hpieces
        rw [hpieces, List.length_cons, List.length_cons]
      · rename_i hnil
        exact absurd hnil (splitOn_ne_nil sep t)

theorem length_le_count_join (sep : Char) : ∀ pieces : List Text,
    pieces.length ≤ (join [sep] pieces).count sep + 1
  | [] => Nat.zero_le _
  | [_] => Nat.le_add_left _ _
  | piece :: piece' :: pieces => by
    have ih := length_le_count_join sep (piece' :: pieces)
    rw [join_cons_cons, List.count_append, List.count_append, List.count_singleton_self,
      List.length_cons]
    omega

end Text

namespace Workspace

variable {tree : FileTree} {vendor root : Text} {names : List Text}

/-- Names of no characters at the beginning lead nowhere, so they can be left out. -/
theorem Reaches.dropWhile (h : Reaches tree vendor root names) :
    Reaches tree vendor root (names.dropWhile (· == []))
      ∧ Path.below root (names.dropWhile (· == [])) = Path.below root names := by
  induction h with
  | root => exact ⟨.root, rfl⟩
  | @child above name habove hlisted hvendor hhidden ih =>
    obtain ⟨hreaches, hbelow⟩ := ih
    rw [← hbelow] at hlisted
    rw [List.dropWhile_append]
    split_ifs with hempty
    · rw [List.isEmpty_iff.1 hempty] at hreaches hbelow hlisted
      by_cases hname : name = []
      · rw [List.dropWhile_cons_of_pos (by simpa using hname), Path.below_concat, ← hbelow, hname]
        exact ⟨.root, rfl⟩
      · rw [List.dropWhile_cons_of_neg (by simpa using hname), Path.below_concat, ← hbelow]
        exact ⟨.child .root hlisted hvendor hhidden, rfl⟩
    · rw [Path.below_concat, Path.below_concat, hbelow]
      exact ⟨.child hreaches hlisted hvendor hhidden, rfl⟩

/-- A directory below the root is reached on a way with no more names than its relative path has
components. -/
theorem Reaches.exists_direct (h : Reaches tree vendor root names) (hne : names ≠ []) :
    ∃ direct, Reaches tree vendor root direct ∧ direct ≠ [] ∧ direct.length ≤ names.length
      ∧ Path.below root direct = Path.below root names ∧ relative direct = relative names
      ∧ direct.length ≤ (relative names).count '/' + 1 := by
  cases h with
  | root => exact absurd rfl hne
  | @child above name habove hlisted hvendor hhidden =>
    obtain ⟨hreaches, hbelow⟩ := habove.dropWhile
    have hrelative : relative (above.dropWhile (· == [])) = relative above := by
      rw [relative, relative, List.dropWhile_idempotent]
    have hshorter : (above.dropWhile (· == [])).length ≤ above.length :=
      (List.dropWhile_sublist _).length_le
    refine ⟨above.dropWhile (· == []) ++ [name], .child hreaches (hbelow ▸ hlisted) hvendor hhidden,
      by simp, by simpa using hshorter, ?_, ?_, ?_⟩
    · rw [Path.below_concat, Path.below_concat, hbelow]
    · rw [relative_concat, relative_concat, hrelative]
    · rw [List.length_append, List.length_singleton, relative_concat]
      split_ifs with hroot
      · have hnone : above.dropWhile (· == []) = [] := relative_eq_nil_iff.1 hroot
        rw [hnone]
        exact Nat.le_add_left _ _
      · have hcount : (above.dropWhile (· == [])).length ≤ (relative above).count '/' + 1 :=
          Text.length_le_count_join '/' _
        rw [List.count_append, List.count_cons_self]
        omega

theorem Reaches.count_relative (h : Reaches tree vendor root names) (hne : names ≠ [])
    (htree : tree.ListsNames) : (relative names).count '/' + 1 = names.length := by
  have hnames := h.isName htree
  rw [relative_of_names fun name hname => (hnames name hname).1, ← Text.length_splitOn,
    Text.splitOn_join hne fun name hname => (hnames name hname).2]

end Workspace

/-- A pattern that selects has `**` in it, or no fewer separators than the path. -/
def WorkspacePatterns.DeepEnough (entries : List Text) (path : Text) : Prop :=
  ∃ pattern g, Lists entries false pattern g
    ∧ (Text.contains ['*', '*'] pattern = true ∨ path.count '/' ≤ pattern.count '/')

namespace WorkspacePatterns

variable {entries : List Text} {path pattern : Text} {g : Glob} {level : Nat}

theorem DeepEnough.reach (h : DeepEnough entries path) (hlevel : level ≤ path.count '/' + 1)
    (hmax : level ≤ maxDepth) : Reach entries level := by
  obtain ⟨pattern, g, hlists, hdeep⟩ := h
  refine ⟨pattern, g, hlists, ?_⟩
  rw [depthOf]
  split_ifs with hstars
  · exact hmax
  · rw [Text.length_splitOn]
    have := hdeep.resolve_left hstars
    exact le_min (by omega) hmax

theorem Reach.deepEnough (h : Reach entries level) (hlevel : path.count '/' + 1 ≤ level) :
    DeepEnough entries path := by
  obtain ⟨pattern, g, hlists, hreach⟩ := h
  refine ⟨pattern, g, hlists, or_iff_not_imp_left.2 fun hstars => ?_⟩
  rw [depthOf, if_neg hstars, Text.length_splitOn] at hreach
  have := hreach.trans (min_le_left _ _)
  omega

/-- A pattern is deep enough for what it matches, if none of its classes has the separator as a
member without naming it. -/
theorem deepEnough_of_isMatch (hlists : Lists entries false pattern g)
    (hmatch : g.isMatch path = true)
    (hnamed : ∀ p ∈ Glob.leavesOfParts g.parts, Glob.isHidden p = false) :
    DeepEnough entries path := by
  refine ⟨pattern, g, hlists, or_iff_not_imp_left.2 fun hstars => ?_⟩
  exact Glob.count_le_of_isMatch hlists.parses (Bool.eq_false_iff.2 hstars) hnamed hmatch

end WorkspacePatterns

/-- A directory below the root that the patterns select, and that is no deeper than any pattern may
reach, is found if all patterns can be compiled and one that selects has `**` or as many separators
as its path. Where listings are lists of names, it is found only then. The pattern that matches it
has as many separators, unless a class of it has the separator as a hidden member. -/
theorem member_within_depth (tree : FileTree) (vendor root : Text) (entries names : List Text)
    (hreaches : Workspace.Reaches tree vendor root names) (hne : names ≠ [])
    (hdepth : names.length ≤ WorkspacePatterns.maxDepth)
    (hselects : WorkspacePatterns.Selects entries (Workspace.relative names)) :
    (WorkspacePatterns.Compile entries →
        WorkspacePatterns.DeepEnough entries (Workspace.relative names) →
        Path.below root names ∈ Workspace.members tree vendor root entries)
      ∧ (tree.ListsNames → Path.below root names ∈ Workspace.members tree vendor root entries →
        WorkspacePatterns.Compile entries
          ∧ WorkspacePatterns.DeepEnough entries (Workspace.relative names))
      ∧ ∀ pattern g, WorkspacePatterns.Lists entries false pattern g →
        g.isMatch (Workspace.relative names) = true →
        (∀ p ∈ Glob.leavesOfParts g.parts, Glob.isHidden p = false) →
        WorkspacePatterns.DeepEnough entries (Workspace.relative names) := by
  refine ⟨fun hcompile hdeep => ?_, fun htree hmember => ?_,
    fun pattern g => WorkspacePatterns.deepEnough_of_isMatch⟩
  · obtain ⟨direct, hdirect, hnonempty, hshorter, hbelow, hrelative, hcount⟩ :=
      hreaches.exists_direct hne
    obtain ⟨found, hmembers, -, hfound⟩ := Workspace.exists_found tree vendor root hcompile
    rw [hmembers, ← hbelow]
    exact List.mem_map_of_mem ((hfound direct).2
      ⟨hdirect, hnonempty, hdeep.reach hcount (hshorter.trans hdepth), hrelative ▸ hselects⟩)
  · have hcompile : WorkspacePatterns.Compile entries := by
      by_contra hnot
      rw [Workspace.members_of_not_compile hnot] at hmember
      cases hmember
    obtain ⟨found, hmembers, -, hfound⟩ := Workspace.exists_found tree vendor root hcompile
    rw [hmembers] at hmember
    obtain ⟨way, hway, hbelow⟩ := List.mem_map.1 hmember
    obtain ⟨hreaches', hne', hreach, -⟩ := (hfound way).1 hway
    obtain rfl := Path.below_inj hne' hne (hreaches'.isName htree) (hreaches.isName htree) hbelow
    exact ⟨hcompile, hreach.deepEnough (hreaches.count_relative hne htree).le⟩

/-- A negated class in a pattern that has the separator besides, and two others. -/
def notUnderscored : List Text :=
  ["packages/[!_]*".toList, "!packages/w*".toList, "packages[/-9]web".toList]

theorem notUnderscored_selects :
    WorkspacePatterns.Selects notUnderscored "packages/api".toList := by
  have hparse : (Glob.parse? true "packages/[!_]*".toList).map
      (·.isMatch "packages/api".toList) = some true := by decide +kernel
  obtain ⟨g, hg, hmatch⟩ := Option.map_eq_some_iff.1 hparse
  refine ⟨⟨_, g, ⟨_, List.mem_cons_self, by decide +kernel, by decide, hg⟩, hmatch⟩, ?_⟩
  rintro pattern g' ⟨entry, hentry, hread, -, hparse⟩
  have hentries : ∀ entry ∈ notUnderscored, (WorkspacePatterns.readEntry entry).1 = true →
      (WorkspacePatterns.readEntry entry).2 = "packages/w*".toList := by decide +kernel
  have hpattern := hentries entry hentry (congrArg Prod.fst hread)
  rw [hread] at hpattern
  have hkept : ∀ g ∈ Glob.parse? true "packages/w*".toList,
      g.isMatch "packages/api".toList = false := by decide +kernel
  exact hkept g' (hpattern ▸ hparse)

theorem api_within_depth :
    WorkspacePatterns.DeepEnough notUnderscored "packages/api".toList
      ∧ "/repo/packages/api".toList ∈ Workspace.members packagesTree "node_modules".toList
        "/repo".toList notUnderscored := by
  have hparse : (Glob.parse? true "packages/[!_]*".toList).isSome = true := by decide +kernel
  obtain ⟨g, hg⟩ := Option.isSome_iff_exists.1 hparse
  have hdeep : WorkspacePatterns.DeepEnough notUnderscored "packages/api".toList :=
    ⟨_, g, ⟨_, List.mem_cons_self, by decide +kernel, by decide, hg⟩, .inr (by decide)⟩
  have hmember := (member_within_depth packagesTree "node_modules".toList "/repo".toList
    notUnderscored _ reaches_api (List.cons_ne_nil _ _) (by decide) notUnderscored_selects).1
    (WorkspacePatterns.compile_of_shallow (by decide +kernel)) hdeep
  exact ⟨hdeep, hmember⟩

/-- A negated class matches the separator, but is one component of its pattern. -/
def joinedByClass : List Text := ["packages[!x]api".toList]

/-- Neither condition can be left out. -/
theorem selected_not_always_reached :
    (¬ ∀ (tree : FileTree) (vendor root : Text) (entries names : List Text),
      WorkspacePatterns.Compile entries → Workspace.Reaches tree vendor root names → names ≠ [] →
        names.length ≤ WorkspacePatterns.maxDepth →
        WorkspacePatterns.Selects entries (Workspace.relative names) →
        Path.below root names ∈ Workspace.members tree vendor root entries)
      ∧ ¬ ∀ (tree : FileTree) (vendor root : Text) (entries names : List Text),
        WorkspacePatterns.DeepEnough entries (Workspace.relative names) →
        Workspace.Reaches tree vendor root names → names ≠ [] →
        names.length ≤ WorkspacePatterns.maxDepth →
        WorkspacePatterns.Selects entries (Workspace.relative names) →
        Path.below root names ∈ Workspace.members tree vendor root entries := by
  constructor
  · intro h
    have hparse : (Glob.parse? true "packages[!x]api".toList).map
        (·.isMatch "packages/api".toList) = some true := by decide +kernel
    obtain ⟨g, hg, hmatch⟩ := Option.map_eq_some_iff.1 hparse
    have hmember := h packagesTree "node_modules".toList "/repo".toList joinedByClass _
      (WorkspacePatterns.compile_of_shallow (by decide +kernel)) reaches_api (List.cons_ne_nil _ _)
      (by decide) ⟨⟨_, g, ⟨_, List.mem_cons_self, by decide +kernel, by decide, hg⟩, hmatch⟩,
        fun pattern g' hlists => absurd hlists (WorkspacePatterns.not_lists (by decide +kernel))⟩
    have hnone : Workspace.members packagesTree "node_modules".toList "/repo".toList joinedByClass
        = [] := by decide +kernel
    rw [hnone] at hmember
    cases hmember
  · intro h
    obtain ⟨g, hlists, -⟩ := withBraced_lists
    have hmember := h packagesTree "node_modules".toList "/repo".toList withBraced _
      ⟨_, g, hlists, .inr (by decide)⟩ reaches_api (List.cons_ne_nil _ _) (by decide)
      withBraced_selects
    rw [members_withBraced] at hmember
    cases hmember

end DidYouMean
