import DidYouMean.Text

/-!
# Diagnostics

A diagnostic says what is wrong, where, and which rule found it.
-/

namespace DidYouMean

/-- How serious a diagnostic is. -/
inductive Category where
  | warning
  | error
  | suggestion
  deriving DecidableEq, Repr

namespace Category

/-- The word a category is reported as. -/
def label : Category → Text
  | warning => "warning".toList
  | error => "error".toList
  | suggestion => "suggestion".toList

end Category

/-- The rules a diagnostic is reported under. -/
inductive Rule where
  | suggestExports
  | suggestImports
  | suggestMembers
  | suggestMissingNames
  | suggestModulePaths
  deriving DecidableEq, Repr

namespace Rule

/-- All rules, by name. -/
def all : List Rule :=
  [suggestExports, suggestImports, suggestMembers, suggestMissingNames, suggestModulePaths]

/-- The name of a rule. -/
def name : Rule → Text
  | suggestExports => "suggest-exports".toList
  | suggestImports => "suggest-imports".toList
  | suggestMembers => "suggest-members".toList
  | suggestMissingNames => "suggest-missing-names".toList
  | suggestModulePaths => "suggest-module-paths".toList

/-- The rule of a name. -/
def ofName? (t : Text) : Option Rule := all.find? (·.name == t)

/-- The page that documents a rule. -/
def docsUrl (r : Rule) : Text :=
  "https://github.com/prover-coder-ai/suggest/blob/main/docs/rules/".toList ++ r.name
    ++ ".md".toList

@[simp] theorem ofName?_name (r : Rule) : ofName? r.name = some r := by
  cases r <;> decide

end Rule

/-- A finding: its place is a span of bytes in a file. -/
structure Diagnostic where
  category : Category
  rule : Rule
  file : Text
  start : Nat
  length : Nat
  message : Text
  deriving DecidableEq, Repr

end DidYouMean
