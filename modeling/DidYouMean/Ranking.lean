import DidYouMean.Suggestion

/-!
# Ranking

Ranking turns the candidates of a query into its suggestions. What qualifies is every name, taken
at its first mention, that is not empty, is not the query itself and scores above the threshold;
the best of these are listed, candidates of one score in the order they came in.
-/

namespace DidYouMean

/-- How many suggestions are wanted and what score they have to exceed. -/
structure RankingOptions where
  maxSuggestions : Nat
  minScore : Binary64
  deriving DecidableEq, Repr

namespace RankingOptions

/-- The most suggestions that are ever listed. -/
def suggestionLimit : Nat := 5

/-- Five suggestions that score above three tenths. -/
def standard : RankingOptions := ⟨suggestionLimit, Binary64.ofRatio 3 10⟩

end RankingOptions

namespace Ranking

/-- The score of a name against the query, if it exceeds the threshold. The lengths alone rule out
many names before any distance is computed. -/
def score? (options : RankingOptions) (query name : Text) : Option Score :=
  if (similarityBound query.length name.length).le options.minScore then none
  else
    let s := similarity query name
    if s.le options.minScore then none else Score.ofBinary64? s

/-- A suggestion and the place of its candidate among all of them. -/
structure Placed where
  place : Nat
  suggestion : Suggestion
  deriving DecidableEq, Repr

/-- Which of two suggestions is listed first: the one with the higher score, of one score the one
that came in first, and at one place the one with the lesser name. -/
def order : Placed → Placed → Ordering :=
  compareLex (fun a b => compareOn (·.suggestion.score.magnitude) b a)
    (compareLex (compareOn (·.place)) (compareOn (·.suggestion.name)))

/-- The suggestions among some candidates, in the order of the candidates, of which the first has
the place `place`. The names in `seen` were mentioned before. -/
def qualifying (options : RankingOptions) (query : Text) :
    (place : Nat) → (seen : List Text) → List Candidate → List Placed
  | _, _, [] => []
  | place, seen, c :: rest =>
    if c.name = [] ∨ c.name = query ∨ c.name ∈ seen then
      qualifying options query (place + 1) seen rest
    else
      let others := qualifying options query (place + 1) (c.name :: seen) rest
      match score? options query c.name with
      | some s => ⟨place, c, s⟩ :: others
      | none => others

end Ranking

/-- The suggestions for a query, best first. -/
def rank (options : RankingOptions) (query : Text) (domain : List Candidate) : List Suggestion :=
  if query = [] ∨ options.maxSuggestions = 0 then []
  else
    let ranked := (Ranking.qualifying options query 0 [] domain).mergeSort fun a b =>
      (Ranking.order a b).isLE
    (ranked.take options.maxSuggestions).map (·.suggestion)

/-- The suggestions for a query among plain names. -/
def rankNames (options : RankingOptions) (query : Text) (names : List Text) : List Suggestion :=
  rank options query (names.map Candidate.named)

end DidYouMean
