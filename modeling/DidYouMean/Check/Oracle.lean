import DidYouMean.Text

/-!
# Type oracles

What the checks of names ask of a type checker. Every answer may fail; what a failure means is
decided where the answer is used.
-/

namespace DidYouMean

/-- Why an oracle gave no answer. -/
inductive OracleError where
  | unavailable
  | failed (reason : Text)
  deriving DecidableEq, Repr

namespace OracleError

/-- What is said of an oracle that gave no answer. -/
def message : OracleError → Text
  | unavailable => "type information is unavailable".toList
  | failed reason => "type oracle failed: ".toList ++ reason

end OracleError

/-- The answers of a type checker whose types are `τ`. Lists of names may hold a name twice. -/
structure TypeOracle (τ : Type) where
  properties : τ → Except OracleError (List Text)
  typeName : τ → Option Text
  propertySignature : τ → Text → Except OracleError (Option Text)
  resolveModule : (specifier containingFile : Text) → Except OracleError (Option Text)
  moduleExports : (modulePath containingFile : Text) → Except OracleError (List Text)
  moduleTypeName : Text → Option Text
  exportSignature : (modulePath name : Text) → Except OracleError (Option Text)
  namesInScope : (containingFile : Text) → Except OracleError (List Text)
  nameSignature : (containingFile name : Text) → Except OracleError (Option Text)

namespace TypeOracle

/-- An oracle that knows properties, modules and exports, and nothing else. -/
def ofNames {τ : Type} (properties : τ → Except OracleError (List Text))
    (resolveModule : Text → Text → Except OracleError (Option Text))
    (moduleExports : Text → Text → Except OracleError (List Text)) : TypeOracle τ where
  properties
  typeName _ := none
  propertySignature _ _ := .ok none
  resolveModule
  moduleExports
  moduleTypeName _ := none
  exportSignature _ _ := .ok none
  namesInScope _ := .error .unavailable
  nameSignature _ _ := .ok none

end TypeOracle

end DidYouMean
