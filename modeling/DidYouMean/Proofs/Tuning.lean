import DidYouMean.Proofs.Lists
import DidYouMean.Proofs.PlainRanking
import Mathlib.Data.List.Infix

/-!
# Tuning a ranking

A threshold that is raised drops suggestions and changes none (`suggest?_raise`), and since the
list is sorted by the scores it drops them from its end. Asking for fewer cuts the end off as well,
so what is left is a beginning of the list (`rank_isPrefix`). Which candidate is listed for a name
depends on who mentions it first, and so does the order among candidates of one score. The scores
themselves depend on nothing but which names are mentioned (`map_score_rank`).
-/

namespace DidYouMean

namespace Ranking

variable {options options' : RankingOptions} {query : Text} {domain domain' : List Candidate}

/-- A threshold that is raised lets the suggestions through that score above it. -/
theorem suggest?_raise (h : options.minScore.le options'.minScore = true) (c : Candidate) :
    suggest? options' query c
      = (suggest? options query c).filter fun s => options'.minScore.lt s.score.value := by
  obtain ⟨hmin, hmin'⟩ := Binary64.isNaN_of_le h
  ext s
  rw [Option.filter_eq_some_iff, suggest?_eq_some_iff, suggest?_eq_some_iff,
    score?_eq_some_iff hmin, score?_eq_some_iff hmin', eligible_iff hmin, eligible_iff hmin']
  constructor
  · rintro ⟨hc, he, habove, hzero, hscore⟩
    have habove' := Binary64.lt_of_le_of_lt h habove
    rw [hscore]
    exact ⟨⟨hc, ⟨he.nonempty, he.ne_query, habove', hzero⟩, habove', hzero, rfl⟩, habove⟩
  · rintro ⟨⟨hc, he, -, hzero, hscore⟩, habove⟩
    rw [hscore] at habove
    exact ⟨hc, ⟨he.nonempty, he.ne_query, habove, hzero⟩, habove, hzero, hscore⟩

/-- The score a name is listed with. -/
def listedScore? (options : RankingOptions) (query name : Text) : Option Score :=
  if name = [] ∨ name = query then none else score? options query name

theorem map_score_suggest? (c : Candidate) :
    (suggest? options query c).map (·.score) = listedScore? options query c.name := by
  rw [suggest?, listedScore?]
  split_ifs
  · rfl
  · rw [Option.map_map]
    exact Option.map_id'

theorem mem_names_firstMentions {name : Text} :
    name ∈ (firstMentions domain).map (·.name) ↔ name ∈ domain.map (·.name) := by
  constructor
  · exact fun h => ((firstMentions_sublist domain).map _).subset h
  · intro h
    obtain ⟨c, hc, rfl⟩ := List.mem_map.1 h
    obtain ⟨d, hd, hname⟩ := exists_mem_firstMentions hc
    exact List.mem_map.2 ⟨d, hd, hname⟩

theorem names_firstMentions_perm
    (h : ∀ name, name ∈ domain.map (·.name) ↔ name ∈ domain'.map (·.name)) :
    ((firstMentions domain).map (·.name)).Perm ((firstMentions domain').map (·.name)) := by
  rw [List.perm_ext_iff_of_nodup (List.pairwise_map.2 (pairwise_name_firstMentions _))
    (List.pairwise_map.2 (pairwise_name_firstMentions _))]
  intro name
  rw [mem_names_firstMentions, mem_names_firstMentions, h]

/-- The scores of a ranking are the best ones that the names have. -/
theorem map_score_rank (hquery : query ≠ []) (hmax : options.maxSuggestions ≠ 0)
    (domain : List Candidate) :
    (rank options query domain).map (·.score)
      = ((((firstMentions domain).map (·.name)).filterMap (listedScore? options query)).mergeSort
          fun s t => t ≤ s).take options.maxSuggestions := by
  have hscores : ((firstMentions domain).filterMap (suggest? options query)).map (·.score)
      = ((firstMentions domain).map (·.name)).filterMap (listedScore? options query) := by
    rw [List.map_filterMap, List.filterMap_map]
    exact List.filterMap_congr fun c _ => map_score_suggest? c
  rw [rank_eq_take_mergeSort hquery hmax, List.map_take, ← hscores]
  congr 1
  exact List.map_mergeSort fun _ _ _ _ => rfl

/-- In a sorted list the suggestions that score above a threshold come first. -/
theorem filter_above_isPrefix (threshold : Binary64) (suggestions : List Suggestion) :
    (suggestions.mergeSort fun s t => t.score ≤ s.score).filter
        (fun s => threshold.lt s.score.value)
      <+: suggestions.mergeSort fun s t => t.score ≤ s.score := by
  refine filter_isPrefix (fun s t hle habove => ?_) (Suggestion.pairwise_mergeSort suggestions)
  rw [← Score.value_le_value] at hle
  exact Binary64.lt_of_lt_of_le habove hle

/-- With a higher threshold and a lower cap a beginning of the list is left. -/
theorem rank_isPrefix (hmax : options'.maxSuggestions ≤ options.maxSuggestions)
    (hmin : options.minScore.le options'.minScore = true) :
    rank options' query domain <+: rank options query domain := by
  by_cases hnone : query = [] ∨ options'.maxSuggestions = 0
  · rw [rank, if_pos hnone]
    exact List.nil_prefix
  · rw [not_or] at hnone
    have hraise : (firstMentions domain).filterMap (suggest? options' query)
        = ((firstMentions domain).filterMap (suggest? options query)).filter
            fun s => options'.minScore.lt s.score.value := by
      rw [List.filter_filterMap]
      exact List.filterMap_congr fun c _ => suggest?_raise hmin c
    have hsort := filter_mergeSort (fun r s t => Score.bestFirst_trans r.score s.score t.score)
      (fun s t => Score.bestFirst_total s.score t.score)
      (fun s => options'.minScore.lt s.score.value)
      ((firstMentions domain).filterMap (suggest? options query))
    rw [rank_eq_take_mergeSort hnone.1 hnone.2, rank_eq_take_mergeSort hnone.1 (by omega), hraise,
      ← hsort, List.prefix_take_iff]
    exact ⟨(List.take_prefix _ _).trans (filter_above_isPrefix _ _),
      (List.length_take_le _ _).trans hmax⟩

/-- The scores depend neither on the order of the candidates nor on how often one is mentioned. -/
theorem map_score_rank_congr
    (h : ∀ name, name ∈ domain.map (·.name) ↔ name ∈ domain'.map (·.name)) :
    (rank options query domain).map (·.score) = (rank options query domain').map (·.score) := by
  by_cases hnone : query = [] ∨ options.maxSuggestions = 0
  · rw [rank, rank, if_pos hnone, if_pos hnone]
  · rw [not_or] at hnone
    rw [map_score_rank hnone.1 hnone.2, map_score_rank hnone.1 hnone.2]
    congr 1
    -- Of suggestions with one score the domain decides which comes first, but two equal scores are
    -- one, so the scores have only one sorted list.
    have hperm := (names_firstMentions_perm h).filterMap (listedScore? options query)
    refine List.Perm.eq_of_pairwise (fun _ _ _ _ => Score.bestFirst_antisymm)
      (List.pairwise_mergeSort Score.bestFirst_trans Score.bestFirst_total _)
      (List.pairwise_mergeSort Score.bestFirst_trans Score.bestFirst_total _) ?_
    exact (List.mergeSort_perm _ _).trans (hperm.trans (List.mergeSort_perm _ _).symm)

end Ranking

/-- Raising the threshold and lowering the cap leaves a beginning of what was listed, and the
scores that are listed are the same for whatever candidates bear the same names. -/
theorem tuning_trims :
    (∀ (options options' : RankingOptions) (query : Text) (domain : List Candidate),
      options'.maxSuggestions ≤ options.maxSuggestions →
      options.minScore.le options'.minScore = true →
        rank options' query domain <+: rank options query domain)
    ∧ ∀ (options : RankingOptions) (query : Text) (domain domain' : List Candidate),
        (domain.Perm domain'
          ∨ ∀ name, name ∈ domain.map (·.name) ↔ name ∈ domain'.map (·.name)) →
          (rank options query domain).map (·.score)
            = (rank options query domain').map (·.score) := by
  refine ⟨fun options options' query domain hmax hmin => Ranking.rank_isPrefix hmax hmin, ?_⟩
  rintro options query domain domain' (hperm | hnames)
  · exact Ranking.map_score_rank_congr fun name => (hperm.map _).mem_iff
  · exact Ranking.map_score_rank_congr hnames

/-- Two suggestions that score above one half. -/
def strictOptions : RankingOptions := ⟨2, Binary64.ofRatio 1 2⟩

theorem strict_prefixNames :
    (strictOptions.maxSuggestions ≤ RankingOptions.standard.maxSuggestions
        ∧ RankingOptions.standard.minScore.le strictOptions.minScore = true
        ∧ rank strictOptions "abcd".toList prefixNames ≠ []
        ∧ rank strictOptions "abcd".toList prefixNames
          <+: rank .standard "abcd".toList prefixNames)
      ∧ (∀ name, name ∈ prefixNames.map (·.name)
          ↔ name ∈ (prefixNames.reverse ++ prefixNames).map (·.name))
        ∧ (rank strictOptions "abcd".toList prefixNames).map (·.score)
          = (rank strictOptions "abcd".toList (prefixNames.reverse ++ prefixNames)).map
              (·.score) := by
  have hmax : strictOptions.maxSuggestions ≤ RankingOptions.standard.maxSuggestions := by decide
  have hmin : RankingOptions.standard.minScore.le strictOptions.minScore = true := by
    decide +kernel
  have hlisted : Ranking.Eligible strictOptions "abcd".toList "abcde".toList :=
    ⟨by decide, by decide, by decide +kernel⟩
  have hnames : ∀ name, name ∈ prefixNames.map (·.name)
      ↔ name ∈ (prefixNames.reverse ++ prefixNames).map (·.name) := by
    intro name
    simp only [List.map_append, List.map_reverse, List.mem_append, List.mem_reverse, or_self]
  refine ⟨⟨hmax, hmin, ?_, tuning_trims.1 .standard strictOptions _ _ hmax hmin⟩, hnames,
    tuning_trims.2 strictOptions _ _ _ (.inr hnames)⟩
  exact rank_ne_nil_iff.2 ⟨by decide, .named "abcde".toList, List.mem_cons_self, hlisted⟩

end DidYouMean
