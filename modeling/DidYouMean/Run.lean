import DidYouMean.Project
import DidYouMean.Session
import DidYouMean.Span

/-!
# Carrying out commands

What a command shows and the code it exits with, on the disk as it is. Only a check that finds
something exits with a code of its own.
-/

namespace DidYouMean

/-- What comes of a command. -/
structure Outcome where
  exitCode : Nat
  output : Text
  deriving DecidableEq, Repr

namespace Outcome

/-- A success with some output. -/
def success (output : Text) : Outcome := ⟨0, output⟩

end Outcome

namespace Command

/-- The diagnostics for specifiers written in the file at a path. -/
def diagnostics (tree : FileTree) (unit : CompilationUnit) (path source : Text) :
    Session → List Text → List Diagnostic
  | _, [] => []
  | s, specifier :: rest =>
    let (verdict, s) := s.check tree unit specifier path
    let span := Span.ofSpecifier source specifier
    (verdict.diagnostic? .suggestModulePaths path span.start span.length).toList
      ++ diagnostics tree unit path source s rest

/-- What a check shows. Without diagnostics there is nothing to show to people. -/
def ofDiagnostics (format : ReportFormat) (color : Bool) (ds : List Diagnostic) : Outcome :=
  { exitCode := if ds = [] then 0 else 1
    output := if ds = [] ∧ format = .text then [] else Report.diagnostics format color ds }

/-- Checks specifiers of a source file; one that cannot be read counts as empty. -/
def runCheck (disk : Disk) (color : Bool) (project : ProjectSettings) (source : Text)
    (specifiers : List Text) (format : ReportFormat) : Except CommandError Outcome := do
  let root ← Project.root disk project.root
  let options ← Project.options disk root project
  let path := Project.absoluteFile disk root source
  let content := (disk.read path).toOption.getD []
  let session := Session.start options.ranking options.index
  return ofDiagnostics format color <|
    diagnostics disk.toFileTree (Project.unit disk options root) path content session specifiers

/-- Shows the index of a project. -/
def runIndex (disk : Disk) (project : ProjectSettings) (format : ReportFormat) :
    Except CommandError Outcome := do
  let root ← Project.root disk project.root
  let options ← Project.options disk root project
  let index := ModuleIndex.build disk.toFileTree options.index (Project.unit disk options root)
  return .success <| Report.summary format
    ⟨root, index.localFiles.length, index.manifests, Text.sort index.packageNames⟩

/-- Ranks names. -/
def runRank (query : Text) (candidates : List Text) (ranking : RankingSettings)
    (format : ReportFormat) : Except CommandError Outcome := do
  let options ← ranking.resolve.mapError .config
  return .success (Report.suggestions format (rankNames options query candidates))

/-- Carries out a command; `color` says whether colours can be shown. -/
def run (disk : Disk) (color : Bool) : Command → Except CommandError Outcome
  | check project source specifiers format noColor =>
    runCheck disk (color && !noColor) project source specifiers format
  | index project format => runIndex disk project format
  | rank query candidates ranking format => runRank query candidates ranking format
  | signature name text => .ok (.success (Text.join ['\n'] (Signature.lines name text)))

end Command

end DidYouMean
