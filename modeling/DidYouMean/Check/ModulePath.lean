import DidYouMean.Check.Candidates
import DidYouMean.Check.Verdict
import DidYouMean.ModuleIndex

/-!
# Checking module specifiers

A specifier is looked up in the index, then the unit's resolver is asked, and what neither knows is
compared with what could stand in its place. A relative specifier is compared by its last segment
with the files in the directory it leads to, and the suggestion is the way to the file from where
the specifier is written; a package specifier is compared by its package with the packages within
reach.
-/

namespace DidYouMean

namespace ModuleCheck

/-- Pairs with keys, of which the first of each key is kept. -/
def firstByKey : (seen : List Text) → List (Text × Text) → List (Text × Text)
  | _, [] => []
  | seen, (key, value) :: rest =>
    if seen.contains key then firstByKey seen rest
    else (key, value) :: firstByKey (key :: seen) rest

/-- The files in the directory of `target` that may be suggested in `containingFile`: the name that
is compared, which has its extension only if the specifier has one, and the specifier for it. -/
def localCandidates (index : ModuleIndex) (specifier target containingFile : Text) :
    List (Text × Text) :=
  let keepsExtension := (Path.extension? index.extensions specifier).isSome
  let files := (index.filesIn (Path.dirname target)).filter fun file =>
    file != containingFile && Admissible.asLocalFile file
  firstByKey [] <| files.map fun file =>
    let path := if keepsExtension then file else Path.stripExtension index.extensions file
    (Path.fileName path, Path.toSpecifier (Path.dirname containingFile) path)

/-- The suggestions for a relative specifier. -/
def localSuggestions (index : ModuleIndex) (options : RankingOptions)
    (specifier target containingFile : Text) : List Suggestion :=
  let candidates := localCandidates index specifier target containingFile
  (rankNames options (Path.fileName specifier) (candidates.map (·.1))).filterMap fun s =>
    (candidates.lookup s.name).map fun rendered => ⟨Candidate.named rendered, s.score⟩

/-- The verdict on a relative specifier. -/
def checkRelative (index : ModuleIndex) (options : RankingOptions) (tree : FileTree)
    (specifier containingFile : Text) : Verdict :=
  let target := Path.resolve containingFile specifier
  if (index.resolveLocal? target).isSome || index.canResolve tree specifier containingFile then
    .valid
  else
    .ofSuggestions (.moduleSpecifier specifier .localFile)
      (localSuggestions index options specifier target containingFile)

/-- The suggestions for a package specifier. -/
def packageSuggestions (index : ModuleIndex) (options : RankingOptions) (package : Text) :
    List Suggestion :=
  rankNames options package (index.packageNames.filter (Admissible.asPackage package))

/-- The verdict on a package specifier. -/
def checkPackage (index : ModuleIndex) (options : RankingOptions) (tree : FileTree)
    (specifier containingFile : Text) : Verdict :=
  let package := Specifier.packageName specifier
  if index.hasPackage package || index.canResolve tree specifier containingFile then .valid
  else
    .ofSuggestions (.moduleSpecifier specifier .package) (packageSuggestions index options package)

/-- The verdict on a specifier written in a file. -/
def check (index : ModuleIndex) (options : RankingOptions) (tree : FileTree)
    (specifier containingFile : Text) : Verdict :=
  match Specifier.classify specifier with
  | some .relative =>
    checkRelative index options tree specifier (Path.normalize containingFile)
  | some .package => checkPackage index options tree specifier (Path.normalize containingFile)
  | _ => .valid

end ModuleCheck

end DidYouMean
