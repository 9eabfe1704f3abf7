import DidYouMean.Check.ModulePath
import DidYouMean.ModuleIndex.Cache

/-!
# Sessions

A session checks the module specifiers of many units with one set of options. The index of a unit is
built at its first check and used until the unit is invalidated.
-/

namespace DidYouMean

/-- The options of a session and the indexes built so far. -/
structure Session where
  ranking : RankingOptions
  options : IndexOptions
  cache : IndexCache

namespace Session

/-- A session in which nothing was checked yet. -/
def start (ranking : RankingOptions) (options : IndexOptions) : Session :=
  ⟨ranking, options, .empty⟩

/-- The index of a unit, and the session that has it. -/
def index (s : Session) (tree : FileTree) (unit : CompilationUnit) : ModuleIndex × Session :=
  let (index, cache) := s.cache.getOrBuild tree s.options unit
  (index, { s with cache })

/-- The verdict on a specifier written in a file of a unit, and the session after it. -/
def check (s : Session) (tree : FileTree) (unit : CompilationUnit)
    (specifier containingFile : Text) : Verdict × Session :=
  let (index, s) := s.index tree unit
  (ModuleCheck.check index s.ranking tree specifier containingFile, s)

/-- Whether a unit had an index, and the session without it. -/
def invalidate (s : Session) (id : UnitId) : Bool × Session :=
  let (found, cache) := s.cache.invalidate id
  (found, { s with cache })

end Session

end DidYouMean
