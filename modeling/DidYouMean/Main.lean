import DidYouMean.Run

/-!
# The program

The program takes a picture of the part of the disk that its command can ask about, carries the
command out on the picture, and prints what comes of it.

The picture shows everything below the topmost directory with a manifest that the project stands
in, or below the project if there is none; next to that directory, only the directories and what
stands in them; above it, only vendored packages. Links are not followed.
-/

namespace DidYouMean

namespace Picture

/-- How far down a directory is shown that is shown as a whole. -/
def allLevels : Nat := 64

/-- How far down a directory is shown of which only packages matter. -/
def packageLevels : Nat := 2

/-- The content of a file; one that cannot be read is empty. -/
def content (path : Text) : IO Text := do
  try return (← IO.FS.readFile (String.ofList path)).toList
  catch _ => return []

/-- The files and the directories below a directory, so many levels down, but for what is below
`skipped`. Only the files that `wanted` picks are shown with their content. -/
def below (wanted : Text → Bool) (skipped : Text) :
    (levels : Nat) → (directory : Text) → IO (List (Text × Text) × List Text)
  | 0, _ => return ([], [])
  | levels + 1, directory => do
    let entries ← try (← IO.FS.realPath (String.ofList directory)).readDir catch _ => pure #[]
    let mut files := []
    let mut directories := []
    for entry in entries do
      let path := Path.join directory entry.fileName.toList
      let kind ← try pure (some (← entry.path.symlinkMetadata).type) catch _ => pure none
      match kind with
      | some .file =>
        files := (path, ← if wanted path then content path else pure []) :: files
      | some .dir =>
        directories := path :: directories
        if path ≠ skipped then
          let (moreFiles, moreDirectories) ← below wanted skipped levels path
          files := moreFiles ++ files
          directories := moreDirectories ++ directories
      | _ => pure ()
    return (files, directories)

/-- The real place of a path, or the path where it has none. -/
def place (path : Text) : IO Text := do
  try return (← IO.FS.realPath (String.ofList path)).toString.toList
  catch _ => return path

/-- Whether a directory stands at a path. -/
def isDirectory (path : Text) : IO Bool := do
  try (← IO.FS.realPath (String.ofList path)).isDir
  catch _ => return false

/-- Whether a file stands at a path. -/
def isFile (path : Text) : IO Bool := do
  try
    let place ← IO.FS.realPath (String.ofList path)
    return (← place.pathExists) && !(← place.isDir)
  catch _ => return false

/-- A directory with what is below it and the directories above it; nothing where there is no
directory. -/
def around (wanted : Text → Bool) (skipped : Text) (levels : Nat) (directory : Text) :
    IO (List (Text × Text) × List Text) := do
  if ← isDirectory directory then
    let (files, directories) ← below wanted skipped levels directory
    return (files, Path.ancestors directory ++ directories)
  else return ([], [])

/-- The disk with the file at a path, if there is one. -/
def withFile (d : Disk) (path : Text) : IO Disk := do
  let path := d.absolute path
  if ← isFile path then return d.addFile path (← content path) else return d

/-- The picture for a command on a project, with a source file of the project if there is one. -/
def ofProject (here : Text) (project : ProjectSettings) (source : Option Text) : IO Disk := do
  let bare := Disk.empty here
  let root ← place (bare.absolute project.root)
  let source ← (source.map (Project.absoluteFile bare root)).mapM place
  let configured ← withFile bare (project.config.getD (Path.join root Project.configName))
  let options := match Project.options configured root project with
    | .ok o => o.index
    | .error _ => .standard
  let wanted (path : Text) : Bool :=
    [options.manifestName, Project.configName].contains (Path.fileName path)
      || source == some path
  let withManifest ← (Path.ancestors root).filterM fun d =>
    isFile (Path.join d options.manifestName)
  let top := withManifest.getLastD root
  let parts ← (do
    let whole ← around wanted [] allLevels top
    let beside ← around wanted top packageLevels (Path.dirname top)
    let vendored ← ((Path.ancestors top).drop 1).mapM fun d =>
      around wanted [] packageLevels (Path.join d options.vendorDirectory)
    let sources ← source.toList.mapM fun file =>
      around wanted top packageLevels (Path.dirname file)
    return whole :: beside :: vendored ++ sources)
  return { configured with
    files := configured.files ++ parts.flatMap (·.1)
    directories := configured.directories ++ parts.flatMap (·.2) }

/-- The picture for a command. -/
def ofCommand (here : Text) : Command → IO Disk
  | .check project source _ _ _ => ofProject here project (some source)
  | .index project _ => ofProject here project none
  | _ => return Disk.empty here

end Picture

/-- Carries out the command of a command line and gives its exit code. -/
def execute (arguments : List String) : IO UInt32 := do
  match Command.parse (arguments.map String.toList) with
  | .error e =>
    if e.isRequest then
      IO.println (String.ofList e.message)
      return 0
    else
      IO.eprintln s!"error: {String.ofList e.message}"
      return 2
  | .ok command =>
    let here ← Picture.place ['.']
    let disk ← Picture.ofCommand here command
    match command.run disk (← (← IO.getStdout).isTty) with
    | .error e =>
      IO.eprintln s!"Error: {String.ofList e.message}"
      return 1
    | .ok outcome =>
      unless outcome.output.isEmpty do
        IO.println (String.ofList outcome.output)
      return UInt32.ofNat outcome.exitCode

end DidYouMean

/-- The entry point. -/
def main (arguments : List String) : IO UInt32 := DidYouMean.execute arguments
