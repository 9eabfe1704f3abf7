import DidYouMean.Text

/-!
# Log formats

The form that log lines are written in, as it is named in a setting.
-/

namespace DidYouMean

/-- The forms of log lines. -/
inductive LogFormat where
  | text
  | tree
  | json
  deriving DecidableEq, Repr

namespace LogFormat

/-- The name of a form. -/
def name : LogFormat → Text
  | text => "text".toList
  | tree => "tree".toList
  | json => "json".toList

/-- The form that a setting names in letters of any case and with blanks around it; plain text
where it names none. -/
def ofSetting (setting : Text) : LogFormat :=
  let word := (Text.trim setting).map Char.toLower
  (([tree, json] : List LogFormat).find? (·.name == word)).getD text

@[simp] theorem ofSetting_name (f : LogFormat) : ofSetting f.name = f := by
  cases f <;> decide

end LogFormat

end DidYouMean
