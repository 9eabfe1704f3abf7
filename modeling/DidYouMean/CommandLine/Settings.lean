import DidYouMean.Config
import DidYouMean.Report

/-!
# Options on the command line

Every option is given at most once, but for the excluded patterns, which add up. What an option is
given is checked when it is taken in, so the settings hold only values that make sense. Reading a
command line ends before there is a command where help or the version is asked for, or where
something in it does not fit.
-/

namespace DidYouMean

/-- Why a command line is no command. -/
inductive UsageError where
  | helpRequested
  | versionRequested
  | noCommand
  | unknownCommand
  | missingArgument
  | unknownArgument
  | repeatedOption
  | invalidValue
  | malformedNumber
  | unexpectedValue
  deriving DecidableEq, Repr

namespace UsageError

/-- What is said of a command line that is no command. -/
def message : UsageError → Text
  | helpRequested =>
    "commands: check, index, rank, signature, help".toList
  | versionRequested => "suggest 0.1.0".toList
  | noCommand => "a command is missing".toList
  | unknownCommand => "there is no such command".toList
  | missingArgument => "a required argument is missing".toList
  | unknownArgument => "an argument is not known to the command".toList
  | repeatedOption => "an option is given twice".toList
  | invalidValue => "an option has no value, or one that it does not take".toList
  | malformedNumber => "the value of an option is not a number".toList
  | unexpectedValue => "a value is given to an option that takes none".toList

/-- Whether what was asked for is only some information. -/
def isRequest : UsageError → Bool
  | helpRequested | versionRequested => true
  | _ => false

end UsageError

/-- The options there are. -/
inductive OptionName where
  | help
  | project
  | config
  | exclude
  | maxSuggestions
  | minScore
  | source
  | format
  | noColor
  deriving DecidableEq, Repr

namespace OptionName

/-- The long name of an option. -/
def long : OptionName → Text
  | help => "help".toList
  | project => "project".toList
  | config => "config".toList
  | exclude => "exclude".toList
  | maxSuggestions => "max-suggestions".toList
  | minScore => "min-score".toList
  | source => "from".toList
  | format => "format".toList
  | noColor => "no-color".toList

/-- The letter of an option that has one. -/
def letter? : OptionName → Option Char
  | help => some 'h'
  | project => some 'p'
  | config => some 'c'
  | _ => none

/-- Whether an option needs a value; the others take none. -/
def takesValue : OptionName → Bool
  | help | noColor => false
  | _ => true

end OptionName

/-- What the options of a command line set. -/
structure Settings where
  project : Option Text
  config : Option Text
  exclude : List Text
  ranking : RankingSettings
  source : Option Text
  format : Option ReportFormat
  noColor : Bool
  deriving DecidableEq, Repr

namespace Settings

/-- No option given. -/
def empty : Settings := ⟨none, none, [], .unset, none, none, false⟩

/-- The value of an option that was not given before. -/
def once {α : Type} (before : Option α) (value : Except UsageError α) :
    Except UsageError (Option α) :=
  if before.isSome then .error .repeatedOption else value.map some

/-- A path, which is not empty. -/
def path (value : Text) : Except UsageError Text :=
  if value = [] then .error .invalidValue else .ok value

/-- A number that some reader knows. -/
def number {α : Type} (read : Text → Option α) (value : Text) : Except UsageError α :=
  match read value with
  | some x => .ok x
  | none => .error .malformedNumber

/-- The format of a name. -/
def formatOf (value : Text) : Except UsageError ReportFormat :=
  match ReportFormat.ofName? value with
  | some f => .ok f
  | none => .error .invalidValue

/-- The settings with one more option; the value is of no account for one that takes none. -/
def give (s : Settings) (option : OptionName) (value : Text) : Except UsageError Settings :=
  match option with
  | .help => .error .helpRequested
  | .project => return { s with project := ← once s.project (path value) }
  | .config => return { s with config := ← once s.config (path value) }
  | .exclude => return { s with exclude := s.exclude ++ Text.splitOn ',' value }
  | .maxSuggestions => do
    let maxSuggestions ← once s.ranking.maxSuggestions (number Text.word? value)
    return { s with ranking := { s.ranking with maxSuggestions } }
  | .minScore => do
    let minScore ← once s.ranking.minScore (number Binary64.ofText? value)
    return { s with ranking := { s.ranking with minScore } }
  | .source => return { s with source := ← once s.source (path value) }
  | .format => return { s with format := ← once s.format (formatOf value) }
  | .noColor => if s.noColor then .error .repeatedOption else return { s with noColor := true }

end Settings

end DidYouMean
