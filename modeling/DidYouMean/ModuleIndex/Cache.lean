import DidYouMean.ModuleIndex.Build

/-!
# Index caches

A cache keeps the index of each unit from the first time it is asked for until it is invalidated,
whatever happens to the disk meanwhile.
-/

namespace DidYouMean

/-- Indexes by unit, at most one for each. -/
structure IndexCache where
  entries : List (UnitId × ModuleIndex)
  distinct : (entries.map Prod.fst).Nodup

namespace IndexCache

/-- The cache without indexes. -/
def empty : IndexCache := ⟨[], List.nodup_nil⟩

/-- The number of units with an index. -/
def size (c : IndexCache) : Nat := c.entries.length

/-- The index of a unit, if it is there. -/
def get? (c : IndexCache) (id : UnitId) : Option ModuleIndex := c.entries.lookup id

/-- The cache with the index of a unit that had none. -/
def insert (c : IndexCache) (id : UnitId) (index : ModuleIndex) (h : c.get? id = none) :
    IndexCache where
  entries := (id, index) :: c.entries
  distinct := by
    refine List.nodup_cons.2 ⟨fun hmem => ?_, c.distinct⟩
    obtain ⟨entry, hentry, rfl⟩ := List.mem_map.1 hmem
    have hne := List.lookup_eq_none_iff.1 h entry hentry
    simp at hne

/-- The index of a unit and the cache that has it. It is built only if it is not there yet. -/
def getOrBuild (c : IndexCache) (tree : FileTree) (options : IndexOptions)
    (unit : CompilationUnit) : ModuleIndex × IndexCache :=
  match h : c.get? unit.id with
  | some index => (index, c)
  | none =>
    let index := ModuleIndex.build tree options unit
    (index, c.insert unit.id index h)

/-- Whether a unit had an index, and the cache without it. -/
def invalidate (c : IndexCache) (id : UnitId) : Bool × IndexCache :=
  ((c.get? id).isSome,
    { entries := c.entries.filter (·.1 != id)
      distinct := c.distinct.sublist (List.filter_sublist.map Prod.fst) })

/-- The cache without any of its indexes. -/
def clear (_ : IndexCache) : IndexCache := empty

end IndexCache

end DidYouMean
