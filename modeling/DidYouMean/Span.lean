import DidYouMean.Text

/-!
# Spans

Where a specifier stands in a source text is found without a parser: between two quotes of one
kind. Places are counted in bytes.
-/

namespace DidYouMean

/-- A stretch of a source text. -/
structure Span where
  start : Nat
  length : Nat
  deriving DecidableEq, Repr

namespace Span

/-- The span of what was not found. -/
def nowhere : Span := ⟨0, 0⟩

/-- The kinds of quotes, the preferred ones first. -/
def quotes : List Char := ['"', '\'', '\x60']

/-- Bounds of spans, start and length alike. -/
def limit : Nat := Nat.pow 2 32

/-- The span between the first two quotes of a kind with nothing but `specifier` between them. -/
def inQuotes? (source specifier : Text) (quote : Char) : Option Span :=
  (Text.cutAt? (quote :: specifier ++ [quote]) source).map fun (before, _) =>
    ⟨Text.byteLength before + 1, Text.byteLength specifier⟩

/-- The span of a specifier in a source text: its first place between quotes of the kind that is
preferred among those it is found in. -/
def ofSpecifier (source specifier : Text) : Span :=
  match quotes.findSome? (inQuotes? source specifier) with
  | some s => if s.start < limit ∧ s.length < limit then s else nowhere
  | none => nowhere

end Span

end DidYouMean
