import DidYouMean.CommandLine
import DidYouMean.FileTree.Disk
import DidYouMean.Resolution

/-!
# Projects on disk

A project is a directory. Its files are found by walking it, but for directories that are hidden or
vendored; its options stand in the configuration that is asked for, or else in the one the
directory holds.
-/

namespace DidYouMean

/-- Why a command could not be carried out. -/
inductive CommandError where
  | missingRoot (path : Text)
  | rootNotDirectory (path : Text)
  | unreadableConfig (path : Text)
  | malformedConfig (path : Text)
  | config (cause : ConfigError)
  deriving DecidableEq, Repr

namespace CommandError

/-- What is said of a command that could not be carried out. -/
def message : CommandError → Text
  | missingRoot path => "failed to resolve project root: ".toList ++ path
  | rootNotDirectory path => "project root is not a directory: ".toList ++ path
  | unreadableConfig path => "failed to read config: ".toList ++ path
  | malformedConfig path => "failed to parse config: ".toList ++ path
  | config cause => cause.message

end CommandError

namespace Project

/-- The root of the project at a path. -/
def root (disk : Disk) (path : Text) : Except CommandError Text :=
  match disk.locate path with
  | .ok place =>
    if disk.isDirectory place then .ok (Path.normalize place) else .error (.rootNotDirectory place)
  | .error _ => .error (.missingRoot path)

/-! ## Options -/

/-- The name of the configuration that a project holds. -/
def configName : Text := "suggest.json".toList

/-- The configuration at a path. -/
def readConfig (disk : Disk) (path : Text) : Except CommandError Config :=
  match disk.read path with
  | .error _ => .error (.unreadableConfig path)
  | .ok content =>
    match Config.parse? content with
    | some c => .ok c
    | none => .error (.malformedConfig path)

/-- The configuration that is asked for, or the one the project holds if it holds one. -/
def findConfig (disk : Disk) (root : Text) (asked : Option Text) : Except CommandError Config :=
  match asked with
  | some path => readConfig disk path
  | none =>
    let own := Path.join root configName
    if disk.fileExists own then readConfig disk own else .ok .empty

/-- The options that a configuration and what is set in its place mean. -/
def options (disk : Disk) (root : Text) (s : ProjectSettings) :
    Except CommandError ProjectOptions := do
  let c ← findConfig disk root s.config
  ((c.override s.ranking s.exclude).resolve).mapError .config

/-! ## Files -/

/-- The way from a directory down to a path below it. -/
def below? (directory path : Text) : Option Text :=
  Text.stripStart? (if directory = ['/'] then directory else directory ++ ['/']) path

/-- Whether a directory below the root is not entered. -/
def isSkipped (vendor name : Text) : Bool := name.head? == some '.' || name == vendor

/-- Whether a walk of the root comes to the file at a path. -/
def isReached (vendor root path : Text) : Bool :=
  match below? root path with
  | some way => !(Text.splitOn '/' way).dropLast.any (isSkipped vendor)
  | none => false

/-- The files a walk of the root comes to. -/
def walk (disk : Disk) (vendor root : Text) : List Text :=
  ((disk.files.map (·.1)).filter (isReached vendor root)).map Path.normalize

/-- The source files of a project in order: files with an ending of a module that are not
excluded. -/
def sourceFiles (disk : Disk) (options : ProjectOptions) (root : Text) : List Text :=
  Text.sort <| (walk disk options.index.vendorDirectory root).filter fun file =>
    (Path.extension? options.index.extensions file).isSome
      && !options.excludes (Path.relative root file)

/-- All source files of a project as one unit, which looks on the disk for what it does not find. -/
def unit (disk : Disk) (options : ProjectOptions) (root : Text) : CompilationUnit where
  id := ⟨1⟩
  root
  sources := sourceFiles disk options root
  resolver := some (Resolution.resolver options.index)

/-- Where a file of a project really stands; for one that is not there, where it would stand. -/
def absoluteFile (disk : Disk) (root file : Text) : Text :=
  let path := if Path.isAbsolute file then file else Path.join root file
  Path.normalize <|
    match disk.locate path with
    | .ok place => place
    | .error _ => path

end Project

end DidYouMean
