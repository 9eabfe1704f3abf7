import DidYouMean.CommandLine.Scan

/-!
# Command lines

A command line names a command; what follows are its options and operands in any order. Before the
command only help and the version can be asked for.
-/

namespace DidYouMean

/-- What says where a project is and how it is configured. -/
structure ProjectSettings where
  root : Text
  config : Option Text
  exclude : List Text
  ranking : RankingSettings
  deriving DecidableEq, Repr

/-- What can be done: check the specifiers of a source file, show the index of a project, rank
names, show a signature. -/
inductive Command where
  | check (project : ProjectSettings) (source : Text) (specifiers : List Text)
      (format : ReportFormat) (noColor : Bool)
  | index (project : ProjectSettings) (format : ReportFormat)
  | rank (query : Text) (candidates : List Text) (ranking : RankingSettings)
      (format : ReportFormat)
  | signature (name signature : Text)
  deriving DecidableEq, Repr

/-- The commands by themselves. -/
inductive CommandName where
  | check
  | index
  | rank
  | signature
  deriving DecidableEq, Repr

namespace Settings

/-- The project, which is the working directory if none is given. -/
def toProject (s : Settings) : ProjectSettings :=
  ⟨s.project.getD ['.'], s.config, s.exclude, s.ranking⟩

/-- The format, for people if none is given. -/
def reportFormat (s : Settings) : ReportFormat := s.format.getD .text

end Settings

namespace CommandName

/-- All commands. -/
def all : List CommandName := [check, index, rank, signature]

/-- The word for a command. -/
def word : CommandName → Text
  | check => "check".toList
  | index => "index".toList
  | rank => "rank".toList
  | signature => "signature".toList

/-- The command of a word. -/
def ofWord? (t : Text) : Option CommandName := all.find? (·.word == t)

/-- The options that say where a project is and how it is configured. -/
def projectOptions : List OptionName :=
  [.project, .config, .exclude, .maxSuggestions, .minScore]

/-- What a command takes. -/
def shape : CommandName → CommandShape
  | check => ⟨.help :: .source :: .format :: .noColor :: projectOptions, none⟩
  | index => ⟨.help :: .format :: projectOptions, some 0⟩
  | rank => ⟨[.help, .format, .maxSuggestions, .minScore], none⟩
  | signature => ⟨[.help], some 2⟩

/-- The command that its settings and operands make, if nothing is missing. -/
def complete (name : CommandName) (s : Settings) (operands : List Text) :
    Except UsageError Command :=
  match name, operands with
  | check, _ :: _ =>
    match s.source with
    | some source => .ok (.check s.toProject source operands s.reportFormat s.noColor)
    | none => .error .missingArgument
  | index, _ => .ok (.index s.toProject s.reportFormat)
  | rank, query :: candidates => .ok (.rank query candidates s.ranking s.reportFormat)
  | signature, [subject, text] => .ok (.signature subject text)
  | _, _ => .error .missingArgument

end CommandName

namespace Command

/-- The word that asks for help on a command. -/
def helpWord : Text := "help".toList

/-- Whether a word stands where a command can stand. -/
def isWord (t : Text) : Bool := t == helpWord || (CommandName.ofWord? t).isSome

/-- The answer to asking for help on what the words name. -/
def help : List Text → UsageError
  | [] => .helpRequested
  | [word] => if isWord word then .helpRequested else .unknownCommand
  | _ => .unknownCommand

/-- What is wrong when the first argument is no command. -/
def outside (looks : Argument) (rest : List Text) : UsageError :=
  match looks with
  | .operand _ => .unknownCommand
  | .endOfOptions =>
    match rest with
    | [] => .noCommand
    | next :: _ => if isWord next then .unknownArgument else .unknownCommand
  | .long name value =>
    if name = "help".toList then if value.isSome then .unexpectedValue else .helpRequested
    else if name = "version".toList then
      if value.isSome then .unexpectedValue else .versionRequested
    else .unknownArgument
  | .short letter _ =>
    if letter = 'h' then .helpRequested
    else if letter = 'V' then .versionRequested
    else .unknownArgument

/-- The command of a command line, which does not hold the name of the program. -/
def parse : List Text → Except UsageError Command
  | [] => .error .noCommand
  | word :: rest =>
    match CommandName.ofWord? word with
    | some name => do
      let s ← Scan.start.arguments name.shape rest
      name.complete s.settings s.operands
    | none =>
      if word = helpWord then .error (help rest)
      else .error (outside (Argument.read word) rest)

end Command

end DidYouMean
