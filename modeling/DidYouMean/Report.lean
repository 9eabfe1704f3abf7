import DidYouMean.Diagnostic
import DidYouMean.Json.Printer
import DidYouMean.Message

/-!
# Reports

What is shown at the end: diagnostics, suggestions or the summary of an index, for people or as
JSON. Diagnostics for people may be coloured.
-/

namespace DidYouMean

/-- Who a report is for. -/
inductive ReportFormat where
  | text
  | json
  deriving DecidableEq, Repr

namespace ReportFormat

/-- The name of a format. -/
def name : ReportFormat → Text
  | text => "text".toList
  | json => "json".toList

/-- The format of a name. -/
def ofName? (t : Text) : Option ReportFormat :=
  ([text, json] : List ReportFormat).find? (·.name == t)

end ReportFormat

/-- The styles that a terminal is asked for. -/
inductive Style where
  | cyan
  | boldRed
  | boldYellow
  | blue
  | gray
  deriving DecidableEq, Repr

namespace Style

/-- The numbers a terminal knows a style by. -/
def code : Style → Text
  | cyan => "36".toList
  | boldRed => "1;31".toList
  | boldYellow => "1;33".toList
  | blue => "34".toList
  | gray => "90".toList

/-- What starts a style. -/
def start (s : Style) : Text := '\x1b' :: '[' :: s.code ++ ['m']

/-- What ends every style. -/
def reset : Text := ['\x1b', '[', '0', 'm']

/-- The text with the style started again wherever the text itself ends it. -/
def resume (s : Style) : Text → Text
  | [] => []
  | '\x1b' :: '[' :: '0' :: 'm' :: t => reset ++ s.start ++ resume s t
  | c :: t => c :: resume s t

/-- A text in a style. -/
def paint (s : Style) (t : Text) : Text := s.start ++ s.resume t ++ reset

/-- The style of a category. -/
def ofCategory : Category → Style
  | .error => boldRed
  | .warning => boldYellow
  | .suggestion => blue

end Style

/-- What there is to say about an index. -/
structure IndexSummary where
  root : Text
  localFiles : Nat
  manifests : List Text
  packageNames : List Text
  deriving DecidableEq, Repr

namespace Report

/-- The file and the place of a diagnostic. -/
def location (d : Diagnostic) : Text :=
  if d.file = [] then "<unknown>".toList else d.file ++ ':' :: Text.ofNat d.start

/-- A diagnostic for people. -/
def diagnosticText (color : Bool) (d : Diagnostic) : Text :=
  let paint (s : Style) (t : Text) := if color then s.paint t else t
  paint .cyan (location d) ++ " - ".toList ++ paint (.ofCategory d.category) d.category.label
    ++ ' ' :: paint .gray d.rule.name ++ ": ".toList ++ d.message

/-- A diagnostic as JSON. -/
def diagnosticJson (d : Diagnostic) : Json :=
  .ofMembers [("category".toList, .ofText d.category.label), ("rule".toList, .ofText d.rule.name),
    ("file".toList, .ofText d.file), ("start".toList, .number (.ofNat d.start)),
    ("length".toList, .number (.ofNat d.length)), ("messageText".toList, .ofText d.message)]

/-- Some diagnostics. Nothing in JSON is coloured. -/
def diagnostics (format : ReportFormat) (color : Bool) (ds : List Diagnostic) : Text :=
  match format with
  | .text => Text.join ['\n'] (ds.map (diagnosticText color))
  | .json => (Json.array (ds.map diagnosticJson)).toText

/-- A suggestion as JSON; one without a signature has no member for it. -/
def suggestionJson (s : Suggestion) : Json :=
  .ofMembers ([("name".toList, .ofText s.name)]
    ++ (s.signature.map fun t => ("signature".toList, Json.ofText t)).toList
    ++ [("score".toList, .number (.ofDouble s.score.value))])

/-- Some suggestions. -/
def suggestions (format : ReportFormat) (ss : List Suggestion) : Text :=
  match format with
  | .text => Message.standalone ss
  | .json => (Json.array (ss.map suggestionJson)).toText

/-- The lines of a summary: its counts, then the manifests and the packages one by one. -/
def summaryLines (s : IndexSummary) : List Text :=
  ["root: ".toList ++ s.root, "local files: ".toList ++ Text.ofNat s.localFiles,
    "manifests: ".toList ++ Text.ofNat s.manifests.length,
    "packages: ".toList ++ Text.ofNat s.packageNames.length]
    ++ s.manifests.map ("  manifest ".toList ++ ·) ++ s.packageNames.map ("  package ".toList ++ ·)

/-- The summary of an index. -/
def summary (format : ReportFormat) (s : IndexSummary) : Text :=
  match format with
  | .text => Text.join ['\n'] (summaryLines s)
  | .json =>
    (Json.ofMembers [("root".toList, .ofText s.root),
      ("localFiles".toList, .number (.ofNat s.localFiles)),
      ("manifests".toList, .ofTexts s.manifests),
      ("packageNames".toList, .ofTexts s.packageNames)]).toText

end Report

end DidYouMean
