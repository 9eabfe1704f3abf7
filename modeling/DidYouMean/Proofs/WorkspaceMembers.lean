import DidYouMean.Proofs.Segments
import DidYouMean.Proofs.WorkspacePatterns
import Mathlib.Data.List.Basic
import Mathlib.Data.List.Nodup

/-!
# The members of a workspace

A directory below the root is known by the names on the way down to it. The walk has the ways of
each length in the order of the listings (`namesAt`), so what it finds are the ways that are
selected and no longer than a pattern reaches, shorter ways first and ways of one length in the
order of the listing where they part. A way is walked once, and where listings are lists of names,
no two ways lead to the same directory.
-/

namespace DidYouMean

/-- All listings are names, and each of them is there once. -/
structure FileTree.ListsNames (tree : FileTree) : Prop where
  nodup : ∀ directory, (tree.listDirectories directory).Nodup
  isName : ∀ directory, ∀ name ∈ tree.listDirectories directory, name ≠ [] ∧ '/' ∉ name

namespace Path

/-- The directory some names down from a root. -/
def below (root : Text) (names : List Text) : Text := names.foldl join root

variable {root name : Text} {names names' : List Text}

@[simp] theorem below_concat : below root (names ++ [name]) = join (below root names) name := by
  simp [below]

theorem lead_join (hname : name ≠ []) (hslash : '/' ∉ name) :
    lead (join root name) = lead root ++ name ++ ['/'] := by
  have hlast : (lead root ++ name).getLast? ≠ some '/' := by
    rw [List.getLast?_append_of_ne_nil _ hname]
    exact fun h => hslash (List.mem_of_getLast? h)
  rw [join_eq_lead hname, lead, if_neg]
  rintro (hempty | hslash')
  · exact hname (List.append_eq_nil_iff.1 hempty).2
  · exact hlast hslash'

theorem below_eq_lead_append : ∀ {names : List Text} {root : Text}, names ≠ [] →
    (∀ name ∈ names, name ≠ [] ∧ '/' ∉ name) →
      below root names = lead root ++ Text.join ['/'] names
  | [name], root, _, h => join_eq_lead (h name List.mem_cons_self).1
  | name :: name' :: names, root, _, h => by
    obtain ⟨hne, hslash⟩ := h name List.mem_cons_self
    have ih : below (join root name) (name' :: names)
        = lead (join root name) ++ Text.join ['/'] (name' :: names) :=
      below_eq_lead_append (List.cons_ne_nil _ _) fun p hp => h p (List.mem_cons_of_mem _ hp)
    rw [lead_join hne hslash] at ih
    rw [Text.join_cons_cons]
    simpa [below] using ih

theorem below_inj (hne : names ≠ []) (hne' : names' ≠ [])
    (h : ∀ name ∈ names, name ≠ [] ∧ '/' ∉ name) (h' : ∀ name ∈ names', name ≠ [] ∧ '/' ∉ name)
    (heq : below root names = below root names') : names = names' := by
  rw [below_eq_lead_append hne h, below_eq_lead_append hne' h'] at heq
  rw [← Text.splitOn_join hne fun name hname => (h name hname).2,
    ← Text.splitOn_join hne' fun name hname => (h' name hname).2, List.append_cancel_left heq]

end Path

namespace Workspace

/-- The path of a directory relative to the root. A name of no characters does not lead away from
the root. -/
def relative (names : List Text) : Text := Text.join ['/'] (names.dropWhile (· == []))

/-- The ways down from a root through directories that are listed, and neither hidden nor
vendored. -/
inductive Reaches (tree : FileTree) (vendor root : Text) : List Text → Prop where
  | root : Reaches tree vendor root []
  | child {names : List Text} {name : Text} : Reaches tree vendor root names →
      name ∈ tree.listDirectories (Path.below root names) → name ≠ vendor →
      name.head? ≠ some '.' → Reaches tree vendor root (names ++ [name])

/-- The first way parts from the second one at a name that is listed earlier. -/
def ListedBefore (tree : FileTree) (root : Text) (names names' : List Text) : Prop :=
  ∃ shared name name' rest rest', names = shared ++ name :: rest
    ∧ names' = shared ++ name' :: rest'
    ∧ [name, name'].Sublist (tree.listDirectories (Path.below root shared))

/-- The order of a walk in breadth: shorter ways first, and those of one length as listed. -/
def FoundBefore (tree : FileTree) (root : Text) (names names' : List Text) : Prop :=
  names.length < names'.length
    ∨ names.length = names'.length ∧ ListedBefore tree root names names'

/-- The children of a directory that are entered. -/
def entered (tree : FileTree) (vendor directory : Text) : List Text :=
  (tree.listDirectories directory).filter fun name => name != vendor && name.head? != some '.'

/-- The ways of some length in the order of the walk. -/
def namesAt (tree : FileTree) (vendor root : Text) : Nat → List (List Text)
  | 0 => [[]]
  | n + 1 => (namesAt tree vendor root n).flatMap fun names =>
    (entered tree vendor (Path.below root names)).map fun name => names ++ [name]

variable {tree : FileTree} {vendor root name : Text} {names names' : List Text}

theorem relative_of_names (h : ∀ name ∈ names, name ≠ []) :
    relative names = Text.join ['/'] names := by
  cases names with
  | nil => rfl
  | cons name names =>
    rw [relative, List.dropWhile_cons_of_neg (by simpa using h name List.mem_cons_self)]

theorem relative_eq_nil_iff : relative names = [] ↔ names.dropWhile (· == []) = [] := by
  refine ⟨fun h => ?_, fun h => by rw [relative, h]; rfl⟩
  rcases hdrop : names.dropWhile (· == []) with _ | ⟨first, rest⟩
  · rfl
  · have hfirst : first ≠ [] := by
      have := List.head?_dropWhile_not (· == []) names
      rw [hdrop] at this
      simpa using this
    rw [relative, hdrop] at h
    cases rest <;> simp [Text.join, hfirst] at h

theorem relative_concat : relative (names ++ [name])
    = if relative names = [] then name else relative names ++ '/' :: name := by
  simp only [relative_eq_nil_iff]
  unfold relative
  rw [List.dropWhile_append]
  rcases hdrop : names.dropWhile (· == []) with _ | ⟨first, rest⟩
  · by_cases hname : name = [] <;> simp [hname, Text.join]
  · rw [if_neg (by simp), if_neg (List.cons_ne_nil _ _),
      Text.join_concat _ _ (List.cons_ne_nil _ _), List.append_assoc, List.singleton_append]

@[simp] theorem mem_entered {directory : Text} : name ∈ entered tree vendor directory ↔
    name ∈ tree.listDirectories directory ∧ name ≠ vendor ∧ name.head? ≠ some '.' := by
  simp only [entered, List.mem_filter, Bool.and_eq_true, bne_iff_ne]

theorem mem_namesAt : ∀ {n : Nat} {names : List Text}, names ∈ namesAt tree vendor root n ↔
    Reaches tree vendor root names ∧ names.length = n
  | 0, names => by
    rw [namesAt, List.mem_singleton, List.length_eq_zero_iff]
    constructor
    · rintro rfl
      exact ⟨.root, rfl⟩
    · exact And.right
  | n + 1, names => by
    simp only [namesAt, List.mem_flatMap, List.mem_map, mem_entered, mem_namesAt]
    constructor
    · rintro ⟨above, ⟨habove, rfl⟩, name, ⟨hlisted, hvendor, hhidden⟩, rfl⟩
      exact ⟨.child habove hlisted hvendor hhidden, by simp⟩
    · rintro ⟨h, hlength⟩
      cases h with
      | root => simp at hlength
      | @child above name habove hlisted hvendor hhidden =>
        refine ⟨above, ⟨habove, ?_⟩, name, ⟨hlisted, hvendor, hhidden⟩, rfl⟩
        simpa using hlength

theorem pairwise_namesAt : ∀ n, (namesAt tree vendor root n).Pairwise (ListedBefore tree root)
  | 0 => List.pairwise_singleton _ _
  | n + 1 => by
    rw [namesAt, List.pairwise_flatMap]
    refine ⟨fun names _ => ?_, (pairwise_namesAt n).imp fun {names names'} hbefore => ?_⟩
    · rw [List.pairwise_map, List.pairwise_iff_forall_sublist]
      intro name name' hsublist
      exact ⟨names, name, name', [], [], rfl, rfl, hsublist.trans List.filter_sublist⟩
    · obtain ⟨shared, name, name', rest, rest', rfl, rfl, hlisted⟩ := hbefore
      intro way hway way' hway'
      obtain ⟨last, -, rfl⟩ := List.mem_map.1 hway
      obtain ⟨last', -, rfl⟩ := List.mem_map.1 hway'
      exact ⟨shared, name, name', rest ++ [last], rest' ++ [last'], by simp, by simp, hlisted⟩

/-- The walk below a level goes through the ways that are longer by up to the levels left. -/
theorem below_eq (tree : FileTree) (vendor root : Text) (selects : Text → Bool) :
    ∀ (levels n : Nat),
    below tree vendor selects levels
        ((namesAt tree vendor root n).map fun names => (Path.below root names, relative names))
      = (((List.range' (n + 1) levels).flatMap (namesAt tree vendor root)).filter
          fun names => selects (relative names)).map (Path.below root)
  | 0, n => rfl
  | levels + 1, n => by
    have hnext : ((namesAt tree vendor root n).map fun names =>
          (Path.below root names, relative names)).flatMap (children tree vendor)
        = (namesAt tree vendor root (n + 1)).map fun names =>
          (Path.below root names, relative names) := by
      rw [namesAt, List.flatMap_map, List.map_flatMap]
      refine List.flatMap_congr fun names _ => ?_
      simp only [children, List.map_map, entered, Path.below_concat, relative_concat,
        Function.comp_def]
    rw [below, hnext, below_eq tree vendor root selects levels (n + 1), List.range'_succ,
      List.flatMap_cons, List.filter_append, List.map_append, List.filter_map, List.map_map]
    rfl

theorem pairwise_foundBefore (n levels : Nat) :
    ((List.range' n levels).flatMap (namesAt tree vendor root)).Pairwise
      (FoundBefore tree root) := by
  have hlevels : (List.range' n levels).Pairwise (· < ·) := List.pairwise_lt_range'
  rw [List.pairwise_flatMap]
  refine ⟨fun k _ => ?_, hlevels.imp fun {k k'} hlt names hnames names' hnames' => ?_⟩
  · refine (pairwise_namesAt k).imp_of_mem fun {names names'} hnames hnames' hbefore => ?_
    rw [mem_namesAt] at hnames hnames'
    exact .inr ⟨hnames.2.trans hnames'.2.symm, hbefore⟩
  · rw [mem_namesAt] at hnames hnames'
    exact .inl (by omega)

/-- What the walk finds if the patterns can be compiled, as ways down from the root. -/
theorem exists_found (tree : FileTree) (vendor root : Text) {entries : List Text}
    (hcompile : WorkspacePatterns.Compile entries) :
    ∃ found : List (List Text), members tree vendor root entries = found.map (Path.below root)
      ∧ found.Pairwise (FoundBefore tree root)
      ∧ ∀ names, names ∈ found ↔ Reaches tree vendor root names ∧ names ≠ []
        ∧ WorkspacePatterns.Reach entries names.length
        ∧ WorkspacePatterns.Selects entries (relative names) := by
  obtain ⟨selects, hselects, hiff⟩ := WorkspacePatterns.selector?_of_compile hcompile
  refine ⟨((List.range' 1 (WorkspacePatterns.ofEntries entries).depth).flatMap
    (namesAt tree vendor root)).filter fun names => selects (relative names), ?_,
    (pairwise_foundBefore 1 _).filter _, fun names => ?_⟩
  · simp only [members, hselects]
    exact below_eq tree vendor root selects _ 0
  · rw [List.mem_filter, hiff, List.mem_flatMap]
    simp only [mem_namesAt, List.mem_range'_1, ← and_assoc]
    refine and_congr_left fun _ => ?_
    have hlevels : names.length ≤ (WorkspacePatterns.ofEntries entries).depth ↔
        names.length = 0 ∨ WorkspacePatterns.Reach entries names.length :=
      WorkspacePatterns.le_depth_iff
    have hne : names ≠ [] ↔ 0 < names.length := List.length_pos_iff.symm
    constructor
    · rintro ⟨k, ⟨⟨hpos, hlt⟩, hreaches⟩, rfl⟩
      exact ⟨⟨hreaches, hne.2 hpos⟩, (hlevels.1 (by omega)).resolve_left (by omega)⟩
    · rintro ⟨⟨hreaches, hnonempty⟩, hreach⟩
      have hpos := hne.1 hnonempty
      have hle := hlevels.2 (.inr hreach)
      exact ⟨names.length, ⟨⟨hpos, by omega⟩, hreaches⟩, rfl⟩

theorem members_of_not_compile {entries : List Text} (h : ¬ WorkspacePatterns.Compile entries) :
    members tree vendor root entries = [] := by
  rw [members, WorkspacePatterns.selector?_of_not_compile h]

theorem Reaches.isName (h : Reaches tree vendor root names) (htree : tree.ListsNames) :
    ∀ name ∈ names, name ≠ [] ∧ '/' ∉ name := by
  induction h with
  | root => simp
  | child _ hlisted _ _ ih =>
    intro name hname
    rcases List.mem_append.1 hname with hname | hname
    · exact ih name hname
    · rw [List.mem_singleton.1 hname]
      exact htree.isName _ _ hlisted

/-- Where each name is listed once, no way comes before itself. -/
theorem FoundBefore.ne (h : FoundBefore tree root names names') (htree : tree.ListsNames) :
    names ≠ names' := by
  rintro rfl
  rcases h with hlt | ⟨-, shared, name, name', rest, rest', hnames, hnames', hlisted⟩
  · exact Nat.lt_irrefl _ hlt
  · rw [hnames] at hnames'
    have hname : name = name' := (List.cons.inj (List.append_cancel_left hnames')).1
    have hnodup := hlisted.nodup (htree.nodup _)
    rw [hname] at hnodup
    simp at hnodup

end Workspace

/-- A repository with two packages. -/
def packagesTree : FileTree where
  fileExists _ := false
  directoryExists _ := true
  read _ := .error .notFound
  listDirectories directory :=
    if directory = "/repo".toList then
      [".git".toList, "node_modules".toList, "packages".toList]
    else if directory = "/repo/packages".toList then ["api".toList, "web".toList]
    else []

/-- The way to one of the two packages. -/
theorem reaches_api : Workspace.Reaches packagesTree "node_modules".toList "/repo".toList
    ["packages".toList, "api".toList] :=
  .child (.child .root (by decide) (by decide) (by decide)) (by decide) (by decide) (by decide)

/-- A name in so many pairs of braces. -/
def braced (n : Nat) : Text := List.replicate n '{' ++ 'b' :: List.replicate n '}'

/-- All packages, and a pattern that is nested too deep. -/
def withBraced : List Text := ["packages/*".toList, braced 250]

theorem withBraced_lists : ∃ g, WorkspacePatterns.Lists withBraced false "packages/*".toList g
    ∧ g.isMatch "packages/api".toList = true := by
  have hparse : (Glob.parse? true "packages/*".toList).map
      (·.isMatch "packages/api".toList) = some true := by decide +kernel
  obtain ⟨g, hg, hmatch⟩ := Option.map_eq_some_iff.1 hparse
  exact ⟨g, ⟨_, List.mem_cons_self, by decide +kernel, by decide, hg⟩, hmatch⟩

theorem withBraced_selects : WorkspacePatterns.Selects withBraced "packages/api".toList := by
  obtain ⟨g, hlists, hmatch⟩ := withBraced_lists
  exact ⟨⟨_, g, hlists, hmatch⟩,
    fun pattern g' hlists => absurd hlists (WorkspacePatterns.not_lists (by decide +kernel))⟩

theorem members_withBraced : Workspace.members packagesTree "node_modules".toList "/repo".toList
    withBraced = [] := by
  decide +kernel

end DidYouMean
