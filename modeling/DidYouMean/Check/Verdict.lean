import DidYouMean.Diagnostic
import DidYouMean.Message

/-!
# Verdicts

A query is invalid only if there is something to suggest in its place; a name that was not found
and is like no other is let pass.
-/

namespace DidYouMean

/-- The outcome of a check. -/
inductive Verdict where
  | valid
  | invalid (context : Context) (suggestions : List Suggestion)
  deriving DecidableEq, Repr

namespace Verdict

/-- Invalid with some suggestions, valid without any. -/
def ofSuggestions (context : Context) (suggestions : List Suggestion) : Verdict :=
  if suggestions = [] then valid else invalid context suggestions

/-- Whether there is nothing to report. -/
def isValid : Verdict → Bool
  | valid => true
  | invalid .. => false

/-- What is suggested. -/
def suggestions : Verdict → List Suggestion
  | valid => []
  | invalid _ suggestions => suggestions

/-- The text that was written, if it is to be reported. -/
def query? : Verdict → Option Text
  | valid => none
  | invalid context _ => some context.query

/-- What is reported. -/
def message? : Verdict → Option Text
  | valid => none
  | invalid context suggestions => some (Message.compose context suggestions)

/-- The error at some place. -/
def diagnostic? (v : Verdict) (rule : Rule) (file : Text) (start length : Nat) :
    Option Diagnostic :=
  v.message?.map fun message => ⟨.error, rule, file, start, length, message⟩

end Verdict

end DidYouMean
