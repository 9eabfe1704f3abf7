import DidYouMean.Score

/-!
# Candidates and suggestions

A candidate is a name that would be valid where the query stands, with its signature when one is
known. A suggestion is a candidate with its score against the query; suggestions are listed best
first.
-/

namespace DidYouMean

/-- A name that could have been meant. -/
structure Candidate where
  name : Text
  signature : Option Text
  deriving DecidableEq, Repr

namespace Candidate

/-- A candidate without a signature. -/
def named (name : Text) : Candidate := ⟨name, none⟩

end Candidate

/-- A candidate and how much it is like the query. -/
structure Suggestion extends Candidate where
  score : Score
  deriving DecidableEq, Repr

namespace Suggestion

/-- The names of some suggestions, in their order. -/
def names (suggestions : List Suggestion) : List Text := suggestions.map (·.name)

/-- The suggestions, each with the signature that `lookup` has for it and else the one it had. -/
def attachSignatures (lookup : Suggestion → Option Text) (suggestions : List Suggestion) :
    List Suggestion :=
  suggestions.map fun s => { s with signature := (lookup s).or s.signature }

end Suggestion

end DidYouMean
