import DidYouMean.CommandLine.Settings

/-!
# Scanning arguments

The arguments of a command are read from left to right. An option whose value is an argument of its
own is pending: first until the value comes, then until the next argument is understood, and only
then is the value checked. So an argument that is not understood is reported in preference to the
bad value before it. What looks like an option is never taken for a value: an argument is an option
by its long name, an option by its letter, the mark after which there are no more options, or an
operand. A lone dash is an operand.
-/

namespace DidYouMean

/-- An argument as it looks, before anything is known of the command's options. -/
inductive Argument where
  | endOfOptions
  | long (name : Text) (value : Option Text)
  | short (letter : Char) (value : Option Text)
  | operand (text : Text)
  deriving DecidableEq, Repr

namespace Argument

/-- The value after a letter: all that follows it, less an equals sign. -/
def valueAfterLetter : Text → Option Text
  | [] => none
  | '=' :: value => some value
  | value => some value

/-- How a text looks as an argument. -/
def read : Text → Argument
  | ['-', '-'] => endOfOptions
  | '-' :: '-' :: t =>
    match Text.cutAt? ['='] t with
    | some (name, value) => long name (some value)
    | none => long t none
  | '-' :: letter :: t => short letter (valueAfterLetter t)
  | t => operand t

end Argument

/-- The options a command knows, and how many operands it takes if there is a limit. -/
structure CommandShape where
  options : List OptionName
  maxOperands : Option Nat
  deriving DecidableEq, Repr

/-- How far the reading of a command's arguments has come. -/
structure Scan where
  settings : Settings
  operands : List Text
  pending : Option (OptionName × Option Text)
  deriving DecidableEq, Repr

namespace Scan

/-- Nothing read. -/
def start : Scan := ⟨.empty, [], none⟩

/-- The scan with its pending option taken in. -/
def settle (s : Scan) : Except UsageError Scan :=
  match s.pending with
  | none => .ok s
  | some (_, none) => .error .invalidValue
  | some (option, some value) => do
    return { s with settings := ← s.settings.give option value, pending := none }

/-- One more operand, if the command takes one more. -/
def addOperand (shape : CommandShape) (s : Scan) (operand : Text) : Except UsageError Scan :=
  if shape.maxOperands.any (· ≤ s.operands.length) then .error .unknownArgument
  else do
    let s ← s.settle
    return { s with operands := s.operands ++ [operand] }

/-- One more option, with the value attached to it. -/
def addOption (s : Scan) (option : OptionName) (value : Option Text) : Except UsageError Scan :=
  if option.takesValue then do
    let s ← s.settle
    match value with
    | some value => return { s with settings := ← s.settings.give option value }
    | none => return { s with pending := some (option, none) }
  else if value.isSome then .error .unexpectedValue
  else do
    let s ← s.settle
    return { s with settings := ← s.settings.give option [] }

/-- One more argument other than the end of the options. Letters that take no value are all the
same to what follows them, since the first of them ends the reading. -/
def addArgument (shape : CommandShape) (s : Scan) (looks : Argument) : Except UsageError Scan :=
  match looks with
  | .endOfOptions => .ok s
  | .long name value =>
    match shape.options.find? (·.long == name) with
    | some option => s.addOption option value
    | none => .error .unknownArgument
  | .short letter value =>
    match shape.options.find? (·.letter? == some letter) with
    | some option => s.addOption option (if option.takesValue then value else none)
    | none => .error .unknownArgument
  | .operand text =>
    match s.pending with
    | some (option, none) => .ok { s with pending := some (option, some text) }
    | _ => s.addOperand shape text

/-- The scan of all arguments. After the end of the options everything is an operand. -/
def arguments (shape : CommandShape) : Scan → List Text → Except UsageError Scan
  | s, [] => s.settle
  | s, argument :: rest =>
    match Argument.read argument with
    | .endOfOptions => do (← rest.foldlM (addOperand shape) s).settle
    | looks => do arguments shape (← s.addArgument shape looks) rest

end Scan

end DidYouMean
