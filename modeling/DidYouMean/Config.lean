import DidYouMean.Glob.Matcher
import DidYouMean.Json.Fields
import DidYouMean.Json.Parser
import DidYouMean.ModuleIndex
import DidYouMean.Ranking

/-!
# Configurations

A configuration sets some of the options of a project and leaves the others at their standard. It
is read from JSON first and only then checked, so what the command line sets in its place need
never have been right in the file. The first setting that is not right is the error.
-/

namespace DidYouMean

/-- The options of ranking that are set. -/
structure RankingSettings where
  maxSuggestions : Option Nat
  minScore : Option Binary64
  deriving DecidableEq, Repr

/-- What a configuration sets. Excluded files are those that match one of the patterns. -/
structure Config where
  ranking : RankingSettings
  extensions : Option (List Text)
  vendorDirectory : Option Text
  exclude : List Text
  deriving DecidableEq, Repr

/-- What is not right in a configuration. -/
inductive ConfigError where
  | tooManySuggestions (count : Nat)
  | scoreOutOfRange (score : Binary64)
  | extensionWithoutDot (extension : Text)
  | vendorDirectoryPath (directory : Text)
  | invalidPattern (pattern : Text)
  | nestedPatterns
  deriving DecidableEq, Repr

/-- The options of a project: a configuration with everything filled in. -/
structure ProjectOptions where
  ranking : RankingOptions
  index : IndexOptions
  exclude : Glob.Matcher

namespace ConfigError

/-- What is said of a configuration that is not right. -/
def message : ConfigError → Text
  | tooManySuggestions count =>
    "maxSuggestions must be at most ".toList ++ Text.ofNat RankingOptions.suggestionLimit
      ++ ", got ".toList ++ Text.ofNat count
  | scoreOutOfRange score => "minScore must be in [0, 1), got ".toList ++ score.toText
  | extensionWithoutDot extension =>
    "extension '".toList ++ extension ++ "' must start with '.'".toList
  | vendorDirectoryPath directory =>
    "vendorDirectory must be a single directory name, got '".toList ++ directory ++ ['\'']
  | invalidPattern pattern => "invalid exclude pattern '".toList ++ pattern ++ ['\'']
  | nestedPatterns => "failed to compile exclude patterns".toList

end ConfigError

namespace RankingSettings

/-- Nothing set. -/
def unset : RankingSettings := ⟨none, none⟩

/-- The settings, and those of `fallback` where there are none. -/
def orElse (s fallback : RankingSettings) : RankingSettings where
  maxSuggestions := s.maxSuggestions.or fallback.maxSuggestions
  minScore := s.minScore.or fallback.minScore

/-- The double one. -/
def one : Binary64 := ⟨false, Binary64.one⟩

/-- The options that are meant. A threshold is at least zero and below one, and a limit on the
suggestions can only lower the standard one. -/
def resolve (s : RankingSettings) : Except ConfigError RankingOptions := do
  let standard := RankingOptions.standard
  let maxSuggestions ← match s.maxSuggestions with
    | some n =>
      if n ≤ RankingOptions.suggestionLimit then .ok n else .error (.tooManySuggestions n)
    | none => .ok standard.maxSuggestions
  let minScore ← match s.minScore with
    | some x => if Binary64.zero.le x && x.lt one then .ok x else .error (.scoreOutOfRange x)
    | none => .ok standard.minScore
  return ⟨maxSuggestions, minScore⟩

end RankingSettings

namespace Config

/-- The configuration that sets nothing. -/
def empty : Config := ⟨.unset, none, none, []⟩

/-- The configuration with other settings in place of its own, and with more patterns. -/
def override (c : Config) (ranking : RankingSettings) (exclude : List Text) : Config :=
  { c with ranking := ranking.orElse c.ranking, exclude := c.exclude ++ exclude }

/-! ## Reading -/

/-- What a field holds; one that is absent or null holds nothing. -/
def optional? {α : Type} (read : Json → Option α) : Option Json → Option (Option α)
  | none | some .null => some none
  | some v => (read v).map some

/-- The fields of a configuration in order. -/
def fieldNames : List Text :=
  ["maxSuggestions".toList, "minScore".toList, "extensions".toList, "vendorDirectory".toList,
    "exclude".toList]

/-- The configuration that a JSON value is. The patterns may be absent, but not null. -/
def ofJson? (v : Json) : Option Config := do
  match ← v.fields? fieldNames with
  | [maxSuggestions, minScore, extensions, vendorDirectory, exclude] =>
    let ranking : RankingSettings :=
      ⟨← optional? Json.word? maxSuggestions, ← optional? Json.double? minScore⟩
    let extensions ← optional? Json.texts? extensions
    let vendorDirectory ← optional? Json.text? vendorDirectory
    let exclude ← (exclude.map Json.texts?).getD (some [])
    return { ranking, extensions, vendorDirectory, exclude }
  | _ => none

/-- The configuration that a text is. -/
def parse? (content : Text) : Option Config := (Json.parse? content).bind ofJson?

/-! ## Checking -/

/-- An extension is a dot and something after it. -/
def isExtension (t : Text) : Bool := t.head? == some '.' && t.length != 1

/-- The options of the index that are meant. -/
def indexOptions (c : Config) : Except ConfigError IndexOptions := do
  let standard := IndexOptions.standard
  let extensions ← match c.extensions with
    | some ts =>
      match ts.find? fun t => !isExtension t with
      | some t => .error (.extensionWithoutDot t)
      | none => .ok ts
    | none => .ok standard.extensions
  let vendorDirectory ← match c.vendorDirectory with
    | some d => if d = [] ∨ '/' ∈ d then .error (.vendorDirectoryPath d) else .ok d
    | none => .ok standard.vendorDirectory
  return { standard with extensions, vendorDirectory }

/-- The glob of a pattern of excluded files, which is relative to the project anyway. -/
def excludeGlob (pattern : Text) : Except ConfigError Glob :=
  match Glob.parse? false (Text.dropCopies ['.', '/'] pattern) with
  | some g => .ok g
  | none => .error (.invalidPattern pattern)

/-- The matcher for excluded files. All patterns are read before any is compiled. -/
def excludeMatcher (c : Config) : Except ConfigError Glob.Matcher := do
  match Glob.Matcher.ofGlobs? (← c.exclude.mapM excludeGlob) with
  | some m => .ok m
  | none => .error .nestedPatterns

/-- The options that a configuration means. -/
def resolve (c : Config) : Except ConfigError ProjectOptions := do
  return ⟨← c.ranking.resolve, ← c.indexOptions, ← c.excludeMatcher⟩

end Config

namespace ProjectOptions

/-- Whether a path relative to the project is excluded. -/
def excludes (o : ProjectOptions) (relative : Text) : Bool := o.exclude.isMatch relative

end ProjectOptions

end DidYouMean
