import DidYouMean.Proofs.Lists
import DidYouMean.Session
import Mathlib.Data.List.DropRight
import Mathlib.Data.Set.Card

/-!
# What a cache holds

A step takes the index of a unit away, gives the unit one if it has none, or leaves things as they
are (`get?_step`). So after any steps a unit has an index exactly if one was asked for since it was
last taken away, and that is the one the first such request built (`get?_after`). A session is a
cache that is always asked with the same options (`after_eq`), and each of its checks is made
against what the cache answers then.
-/

namespace DidYouMean

/-- What may be asked of a cache. -/
inductive CacheStep where
  | getOrBuild (tree : FileTree) (options : IndexOptions) (unit : CompilationUnit)
  | get (id : UnitId)
  | invalidate (id : UnitId)
  | clear

namespace CacheStep

/-- Whether the step takes the index of a unit away. -/
def drops (id : UnitId) : CacheStep → Bool
  | invalidate other => other == id
  | clear => true
  | getOrBuild .. | get _ => false

/-- The index that the step would build for a unit, if it asks for that. -/
def builds? (id : UnitId) : CacheStep → Option ModuleIndex
  | getOrBuild tree options unit =>
    if unit.id = id then some (ModuleIndex.build tree options unit) else none
  | get _ | invalidate _ | clear => none

/-- The steps since the index of a unit was last taken away. -/
def sinceDropped (id : UnitId) (steps : List CacheStep) : List CacheStep :=
  steps.rtakeWhile fun s => !s.drops id

/-- The index that was built by the first request for it since then. -/
def firstBuilt? (id : UnitId) (steps : List CacheStep) : Option ModuleIndex :=
  (sinceDropped id steps).findSome? (builds? id)

theorem firstBuilt?_concat (id : UnitId) (steps : List CacheStep) (s : CacheStep) :
    firstBuilt? id (steps ++ [s])
      = if s.drops id then none else (firstBuilt? id steps).or (s.builds? id) := by
  rw [firstBuilt?, sinceDropped, List.rtakeWhile_concat]
  rcases hdrops : s.drops id
  · rw [if_pos (by rfl), if_neg (by simp), List.findSome?_append, List.findSome?_singleton]
    rfl
  · rw [if_neg (by simp), if_pos rfl, List.findSome?_nil]

theorem isSome_builds?_iff {id : UnitId} {s : CacheStep} :
    (s.builds? id).isSome = true ↔
      ∃ tree options unit, s = .getOrBuild tree options unit ∧ unit.id = id := by
  cases s with
  | getOrBuild tree options unit =>
    rw [builds?]
    split_ifs with hid
    · exact ⟨fun _ => ⟨tree, options, unit, rfl, hid⟩, fun _ => rfl⟩
    · simp only [Option.isSome_none, Bool.false_eq_true, false_iff]
      rintro ⟨_, _, _, hs, hid'⟩
      cases hs
      exact hid hid'
  | get _ | invalidate _ | clear => simp [builds?]

theorem isSome_firstBuilt?_iff {id : UnitId} {steps : List CacheStep} :
    (firstBuilt? id steps).isSome = true ↔
      ∃ tree options unit, .getOrBuild tree options unit ∈ sinceDropped id steps
        ∧ unit.id = id := by
  simp only [firstBuilt?, List.isSome_findSome?, List.any_eq_true, isSome_builds?_iff]
  constructor
  · rintro ⟨s, hs, tree, options, unit, rfl, hid⟩
    exact ⟨tree, options, unit, hs, hid⟩
  · rintro ⟨tree, options, unit, hs, hid⟩
    exact ⟨_, hs, tree, options, unit, rfl, hid⟩

end CacheStep

namespace IndexCache

variable {c : IndexCache} {id other : UnitId}

theorem get?_insert {index : ModuleIndex} (h : c.get? id = none) :
    (c.insert id index h).get? other = if id = other then some index else c.get? other := by
  rw [get?, insert, List.lookup_cons, get?]
  split_ifs with hid
  · rw [beq_iff_eq.2 hid.symm]
  · rw [beq_eq_false_iff_ne.2 (Ne.symm hid)]

@[simp] theorem get?_invalidate :
    (c.invalidate id).2.get? other = if id = other then none else c.get? other := by
  rw [get?, invalidate, lookup_filter_key (· != id), get?]
  by_cases hother : other = id
  · rw [if_neg (by simpa using hother), if_pos hother.symm]
  · rw [if_pos (by simpa using hother), if_neg (Ne.symm hother)]

theorem getOrBuild_of_some {tree : FileTree} {options : IndexOptions} {unit : CompilationUnit}
    {index : ModuleIndex} (h : c.get? unit.id = some index) :
    c.getOrBuild tree options unit = (index, c) := by
  rw [getOrBuild]
  split
  · rename_i found hfound
    rw [h] at hfound
    cases hfound
    rfl
  · rename_i hnone
    rw [h] at hnone
    cases hnone

theorem getOrBuild_of_none {tree : FileTree} {options : IndexOptions} {unit : CompilationUnit}
    (h : c.get? unit.id = none) :
    c.getOrBuild tree options unit = (ModuleIndex.build tree options unit,
      c.insert unit.id (ModuleIndex.build tree options unit) h) := by
  rw [getOrBuild]
  split
  · rename_i hfound
    rw [h] at hfound
    cases hfound
  · rfl

/-- The cache after a step. -/
def step (c : IndexCache) : CacheStep → IndexCache
  | .getOrBuild tree options unit => (c.getOrBuild tree options unit).2
  | .get _ => c
  | .invalidate id => (c.invalidate id).2
  | .clear => c.clear

/-- The cache after some steps, beginning without indexes. -/
def after (steps : List CacheStep) : IndexCache := steps.foldl step empty

@[simp] theorem after_concat (steps : List CacheStep) (s : CacheStep) :
    after (steps ++ [s]) = (after steps).step s := by
  simp [after]

theorem get?_step (c : IndexCache) (s : CacheStep) (id : UnitId) :
    (c.step s).get? id = if s.drops id then none else (c.get? id).or (s.builds? id) := by
  cases s with
  | getOrBuild tree options unit =>
    rw [step, CacheStep.drops, CacheStep.builds?, if_neg (by simp)]
    rcases hunit : c.get? unit.id with _ | index
    · rw [getOrBuild_of_none hunit, get?_insert]
      split_ifs with hid
      · rw [← hid, hunit, Option.none_or]
      · rw [Option.or_none]
    · rw [getOrBuild_of_some hunit]
      split_ifs with hid
      · rw [← hid, hunit, Option.some_or]
      · rw [Option.or_none]
  | get other => simp [step, CacheStep.drops, CacheStep.builds?]
  | invalidate other =>
    rw [step, get?_invalidate, CacheStep.drops, CacheStep.builds?, Option.or_none]
    simp only [beq_iff_eq]
  | clear => rfl

theorem get?_after (steps : List CacheStep) (id : UnitId) :
    (after steps).get? id = CacheStep.firstBuilt? id steps := by
  induction steps using List.reverseRecOn with
  | nil => rfl
  | append_singleton steps s ih =>
    rw [after_concat, get?_step, ih, CacheStep.firstBuilt?_concat]

/-- What is answered to a request is what the cache holds after it. -/
theorem get?_getOrBuild (c : IndexCache) (tree : FileTree) (options : IndexOptions)
    (unit : CompilationUnit) :
    (c.getOrBuild tree options unit).2.get? unit.id = some (c.getOrBuild tree options unit).1 := by
  rcases hunit : c.get? unit.id with _ | index
  · rw [getOrBuild_of_none hunit, get?_insert, if_pos rfl]
  · rw [getOrBuild_of_some hunit, hunit]

theorem firstBuilt?_getOrBuild (steps : List CacheStep) (tree : FileTree)
    (options : IndexOptions) (unit : CompilationUnit) :
    CacheStep.firstBuilt? unit.id (steps ++ [.getOrBuild tree options unit])
      = some ((after steps).getOrBuild tree options unit).1 := by
  rw [← get?_after, after_concat, step, get?_getOrBuild]

theorem size_eq_ncard (c : IndexCache) : c.size = {id | (c.get? id).isSome = true}.ncard := by
  have hkeys : {id | (c.get? id).isSome = true} = ↑(c.entries.map Prod.fst).toFinset := by
    ext id
    simp only [get?, List.lookup_isSome_iff, Set.mem_ofPred_eq, Finset.mem_coe, List.mem_toFinset,
      List.mem_map, beq_iff_eq]
    exact exists_congr fun entry => and_congr_right fun _ => eq_comm
  rw [hkeys, Set.ncard_coe_finset, List.toFinset_card_of_nodup c.distinct, List.length_map, size]

end IndexCache

/-- What may be asked of a session. -/
inductive SessionStep where
  | index (tree : FileTree) (unit : CompilationUnit)
  | check (tree : FileTree) (unit : CompilationUnit) (specifier containingFile : Text)
  | invalidate (id : UnitId)

namespace SessionStep

/-- What the step asks of the session's cache. -/
def onCache (options : IndexOptions) : SessionStep → CacheStep
  | index tree unit | check tree unit _ _ => .getOrBuild tree options unit
  | invalidate id => .invalidate id

end SessionStep

namespace Session

/-- The session after a step. -/
def step (s : Session) : SessionStep → Session
  | .index tree unit => (s.index tree unit).2
  | .check tree unit specifier containingFile => (s.check tree unit specifier containingFile).2
  | .invalidate id => (s.invalidate id).2

/-- The session after some steps. -/
def after (ranking : RankingOptions) (options : IndexOptions) (steps : List SessionStep) :
    Session :=
  steps.foldl step (start ranking options)

theorem step_eq (s : Session) (t : SessionStep) :
    s.step t = { s with cache := s.cache.step (t.onCache s.options) } := by
  cases t <;> rfl

theorem after_eq (ranking : RankingOptions) (options : IndexOptions) (steps : List SessionStep) :
    after ranking options steps
      = ⟨ranking, options, .after (steps.map (SessionStep.onCache options))⟩ := by
  induction steps using List.reverseRecOn with
  | nil => rfl
  | append_singleton steps t ih =>
    rw [after, List.foldl_append, ← after, ih, List.map_append, List.map_singleton,
      IndexCache.after_concat, List.foldl_cons, List.foldl_nil, step_eq]

theorem check_after (ranking : RankingOptions) (options : IndexOptions) (steps : List SessionStep)
    (tree : FileTree) (unit : CompilationUnit) (specifier containingFile : Text) :
    ((after ranking options steps).check tree unit specifier containingFile).1
      = ModuleCheck.check
          ((IndexCache.after (steps.map (SessionStep.onCache options))).getOrBuild tree options
            unit).1 ranking tree specifier containingFile := by
  rw [after_eq]
  rfl

end Session

/-- After any steps a unit has an index exactly if one was asked for since it was last taken away,
and that is the one the first such request built, which is also what every request is answered and
what every check of a session is made against. Taking an index away tells whether there was one
and touches no other unit's. -/
theorem cache_holds_first_built (steps : List CacheStep) :
    (∀ id, (IndexCache.after steps).get? id = CacheStep.firstBuilt? id steps
        ∧ (((IndexCache.after steps).get? id).isSome = true ↔
            ∃ tree options unit, .getOrBuild tree options unit ∈ CacheStep.sinceDropped id steps
              ∧ unit.id = id)
        ∧ ((IndexCache.after steps).invalidate id).1 = ((IndexCache.after steps).get? id).isSome
        ∧ ∀ other ≠ id, ((IndexCache.after steps).invalidate id).2.get? other
            = (IndexCache.after steps).get? other)
      ∧ (∀ tree options unit, some ((IndexCache.after steps).getOrBuild tree options unit).1
          = CacheStep.firstBuilt? unit.id (steps ++ [.getOrBuild tree options unit]))
      ∧ (IndexCache.after steps).size
          = {id | (CacheStep.firstBuilt? id steps).isSome = true}.ncard
      ∧ ∀ ranking options (sessionSteps : List SessionStep) tree unit specifier file,
          ∃ index,
            CacheStep.firstBuilt? unit.id ((sessionSteps
              ++ [SessionStep.check tree unit specifier file]).map (SessionStep.onCache options))
                = some index
            ∧ ((Session.after ranking options sessionSteps).check tree unit specifier file).1
                = ModuleCheck.check index ranking tree specifier file := by
  refine ⟨fun id => ⟨IndexCache.get?_after steps id, ?_, rfl, fun other hother => ?_⟩,
    fun tree options unit => (IndexCache.firstBuilt?_getOrBuild steps tree options unit).symm,
    ?_, fun ranking options sessionSteps tree unit specifier file => ?_⟩
  · rw [IndexCache.get?_after, CacheStep.isSome_firstBuilt?_iff]
  · rw [IndexCache.get?_invalidate, if_neg (Ne.symm hother)]
  · simp only [IndexCache.size_eq_ncard, IndexCache.get?_after]
  · refine ⟨_, ?_, Session.check_after ranking options sessionSteps tree unit specifier file⟩
    rw [List.map_append, List.map_singleton, SessionStep.onCache,
      IndexCache.firstBuilt?_getOrBuild]

end DidYouMean
