import DidYouMean.Proofs.Ranking

/-!
# Ranking in one sentence

Of the candidates that are the first to mention their names those that qualify, sorted stably by
their similarity to the query, and as many of them as are wanted: that is all ranking comes to
(`rank_eq_plainRank`). Neither the bound by the lengths nor the places nor the moment at which a
name is marked leaves a trace.
-/

namespace DidYouMean

namespace Ranking

variable {options : RankingOptions} {query : Text}

instance (options : RankingOptions) (query name : Text) :
    Decidable (Qualifies options query name) :=
  decidable_of_iff (name ≠ [] ∧ name ≠ query ∧ options.minScore.lt (similarity query name) = true
      ∧ Binary64.zero.lt (similarity query name) = true)
    ⟨fun ⟨h₁, h₂, h₃, h₄⟩ => ⟨h₁, h₂, h₃, h₄⟩, fun ⟨h₁, h₂, h₃, h₄⟩ => ⟨h₁, h₂, h₃, h₄⟩⟩

/-- The candidates that are listed for a query, each with its similarity to it. -/
def plainRank (options : RankingOptions) (query : Text) (domain : List Candidate) :
    List (Candidate × Binary64) :=
  if query = [] ∨ options.maxSuggestions = 0 then []
  else
    let listed := ((firstMentions domain).filter fun c =>
      Qualifies options query c.name).mergeSort fun c d =>
        (similarity query d.name).le (similarity query c.name)
    (listed.take options.maxSuggestions).map fun c => (c, similarity query c.name)

theorem map_suggest? (hmin : options.minScore.isNaN = false) (c : Candidate) :
    (suggest? options query c).map (fun s => (s.toCandidate, s.score.value))
      = if Qualifies options query c.name then some (c, similarity query c.name) else none := by
  split_ifs with hq
  · obtain ⟨s, hs⟩ := Option.isSome_iff_exists.1 (isSome_suggest?_iff.2 ((eligible_iff hmin).2 hq))
    obtain ⟨rfl, -, hscore⟩ := suggest?_eq_some_iff.1 hs
    rw [hs, Option.map_some, ((score?_eq_some_iff hmin).1 hscore).2.2]
  · rw [← eligible_iff hmin, ← isSome_suggest?_iff, Option.not_isSome_iff_eq_none] at hq
    rw [hq, Option.map_none]

theorem map_filterMap_suggest? (hmin : options.minScore.isNaN = false) (cs : List Candidate) :
    (cs.filterMap (suggest? options query)).map (fun s => (s.toCandidate, s.score.value))
      = (cs.filter fun c => Qualifies options query c.name).map
          fun c => (c, similarity query c.name) := by
  rw [List.map_filterMap, ← List.filterMap_eq_map, List.filterMap_filter]
  refine List.filterMap_congr fun c _ => ?_
  simp only [map_suggest? hmin, decide_eq_true_eq, Function.comp_apply]

/-- The bound by the lengths never rules out a name that qualifies. -/
theorem Qualifies.bound_above (hmin : options.minScore.isNaN = false) {name : Text}
    (h : Qualifies options query name) :
    (similarityBound query.length name.length).le options.minScore = false := by
  have hscored := ((eligible_iff hmin).2 h).scored
  rw [score?] at hscored
  split_ifs at hscored with hcut
  · simp at hscored
  · exact Bool.eq_false_of_not_eq_true hcut

end Ranking

/-- Ranking lists what the plain account of it lists, and its shortcut rules out no name that
qualifies. -/
theorem rank_eq_plainRank (options : RankingOptions) (hmin : options.minScore.isNaN = false)
    (query : Text) (domain : List Candidate) :
    (rank options query domain).map (fun s => (s.toCandidate, s.score.value))
        = Ranking.plainRank options query domain
      ∧ ∀ name, Ranking.Qualifies options query name →
          (similarityBound query.length name.length).le options.minScore = false := by
  refine ⟨?_, fun name h => h.bound_above hmin⟩
  by_cases hnone : query = [] ∨ options.maxSuggestions = 0
  · rw [rank, if_pos hnone, Ranking.plainRank, if_pos hnone, List.map_nil]
  · have hrank := hnone
    rw [not_or] at hrank
    rw [rank_eq_take_mergeSort hrank.1 hrank.2, Ranking.plainRank, if_neg hnone, List.map_take,
      List.map_take]
    congr 1
    have hright := List.map_mergeSort (f := fun c => (c, similarity query c.name))
      (s := fun p q => q.2.le p.2)
      (l := (Ranking.firstMentions domain).filter fun c => Ranking.Qualifies options query c.name)
      fun _ _ _ _ => rfl
    rw [hright, ← Ranking.map_filterMap_suggest? hmin]
    exact List.map_mergeSort fun s _ t _ => (Score.value_le_value t.score s.score).symm

/-- Names that begin alike; one comes twice, two are equally far off, and one is too far off. -/
def prefixNames : List Candidate :=
  ["abcde", "abd", "abcde", "abcd", "xyz", "abc", "ab"].map fun name => .named name.toList

theorem rank_prefixNames :
    RankingOptions.standard.minScore.isNaN = false
      ∧ (rank .standard "abcd".toList prefixNames).map (fun s => (s.toCandidate, s.score.value))
          = ["abcde", "abd", "abc", "ab"].map fun name =>
              (.named name.toList, similarity "abcd".toList name.toList) := by
  have hmin : RankingOptions.standard.minScore.isNaN = false := by decide +kernel
  refine ⟨hmin, (rank_eq_plainRank .standard hmin "abcd".toList prefixNames).1.trans ?_⟩
  have hlisted : (Ranking.firstMentions prefixNames).filter (fun c =>
        Ranking.Qualifies .standard "abcd".toList c.name)
      = ["abcde", "abd", "abc", "ab"].map fun name => .named name.toList := by decide +kernel
  rw [Ranking.plainRank, if_neg (by decide), hlisted, List.mergeSort_of_pairwise]
  · rfl
  · decide +kernel

end DidYouMean
