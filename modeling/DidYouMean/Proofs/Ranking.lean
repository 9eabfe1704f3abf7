import DidYouMean.Proofs.Similarity
import DidYouMean.Ranking
import Mathlib.Data.List.Nodup
import Mathlib.Tactic.SplitIfs

/-!
# What is ranked

A name is suggested for a query only if it qualifies on its own: it is a name, it is not the query,
and its similarity exceeds both the threshold and zero. The shortcut by the lengths never changes
that (`score?_eq_some_iff`), and marking the names that come up leaves of each its first mention
(`map_qualifying`). No two candidates have one place, so sorting by score, place and name is a
stable sort by the scores (`mergeSort_order`), of which the best are kept
(`rank_eq_take_mergeSort`).
-/

namespace DidYouMean

namespace Score

@[simp] theorem value_isNaN (s : Score) : s.value.isNaN = false := by
  have hone : Binary64.one ≤ Binary64.infinite := by decide
  rw [Binary64.isNaN, decide_eq_false_iff_not]
  exact Nat.not_lt.2 (s.le_one.trans hone)

theorem value_le_value (s t : Score) : s.value.le t.value = decide (s ≤ t) := by
  rw [Binary64.le, value_isNaN, value_isNaN, Bool.not_false, Bool.true_and, Bool.true_and]
  exact decide_eq_decide.2 Int.ofNat_le

theorem bestFirst_trans (r s t : Score) (hrs : decide (s ≤ r) = true)
    (hst : decide (t ≤ s) = true) : decide (t ≤ r) = true := by
  rw [decide_eq_true_eq] at *
  exact Nat.le_trans hst hrs

theorem bestFirst_total (s t : Score) : (decide (t ≤ s) || decide (s ≤ t)) = true := by
  rw [Bool.or_eq_true, decide_eq_true_eq, decide_eq_true_eq]
  exact Nat.le_total _ _

theorem bestFirst_antisymm {s t : Score} (hst : decide (t ≤ s) = true)
    (hts : decide (s ≤ t) = true) : s = t := by
  rw [decide_eq_true_eq] at *
  obtain ⟨m, _, _⟩ := s
  obtain ⟨n, _, _⟩ := t
  rw [Score.mk.injEq]
  exact Nat.le_antisymm hts hst

end Score

theorem Suggestion.pairwise_mergeSort (suggestions : List Suggestion) :
    (suggestions.mergeSort fun s t => t.score ≤ s.score).Pairwise
      fun s t => decide (t.score ≤ s.score) = true :=
  List.pairwise_mergeSort (fun r s t => Score.bestFirst_trans r.score s.score t.score)
    (fun s t => Score.bestFirst_total s.score t.score) suggestions

namespace Ranking

/-- A name that may be suggested for the query. -/
structure Qualifies (options : RankingOptions) (query name : Text) : Prop where
  nonempty : name ≠ []
  ne_query : name ≠ query
  above_threshold : options.minScore.lt (similarity query name) = true
  above_zero : Binary64.zero.lt (similarity query name) = true

/-- A name that ranking lists, whatever the threshold is. -/
structure Eligible (options : RankingOptions) (query name : Text) : Prop where
  nonempty : name ≠ []
  ne_query : name ≠ query
  scored : (score? options query name).isSome = true

variable {options : RankingOptions} {query : Text}

theorem zero_lt_similarity {name : Text} :
    Binary64.zero.lt (similarity query name) = true ↔ 0 < (similarity query name).magnitude := by
  have hzero : Binary64.zero.isNaN = false := by decide
  simp only [Binary64.lt, hzero, similarity_isNaN]
  simp [Binary64.place, Binary64.zero]

theorem ofBinary64?_similarity {name : Text} {s : Score} :
    Score.ofBinary64? (similarity query name) = some s ↔
      Binary64.zero.lt (similarity query name) = true ∧ s.value = similarity query name := by
  rw [zero_lt_similarity]
  have hneg := similarity_negative query name
  have hone := similarity_le_one query name
  simp only [Score.ofBinary64?, Score.value]
  generalize similarity query name = x at *
  obtain ⟨negative, magnitude⟩ := x
  obtain ⟨m, hm, hm'⟩ := s
  simp only at hneg hone
  simp only [hneg, hone, true_and, and_true, Option.dite_none_right_eq_some, Option.some.injEq,
    Score.mk.injEq, exists_prop, Binary64.mk.injEq, and_congr_right_iff]
  exact fun _ => eq_comm

/-- A name has a score exactly if its similarity exceeds the threshold and zero. -/
theorem score?_eq_some_iff (hmin : options.minScore.isNaN = false) {name : Text} {s : Score} :
    score? options query name = some s ↔
      options.minScore.lt (similarity query name) = true
        ∧ Binary64.zero.lt (similarity query name) = true ∧ s.value = similarity query name := by
  have hbound := similarity_le_bound query name
  have hlt := Binary64.lt_eq_not_le hmin (similarity_isNaN query name)
  simp only [score?]
  by_cases hle : (similarity query name).le options.minScore = true
  · simp [hlt, hle]
  · have hcut : (similarityBound query.length name.length).le options.minScore = false := by
      simp only [Binary64.le, similarity_isNaN, similarityBound_isNaN, hmin, Bool.not_false,
        Bool.true_and, decide_eq_true_eq, decide_eq_false_iff_not] at hle ⊢
      omega
    simp [hlt, hle, hcut, ofBinary64?_similarity]

theorem eligible_iff (hmin : options.minScore.isNaN = false) {name : Text} :
    Eligible options query name ↔ Qualifies options query name := by
  constructor
  · rintro ⟨hne, hquery, hscored⟩
    obtain ⟨s, hs⟩ := Option.isSome_iff_exists.1 hscored
    obtain ⟨hmin', hzero, -⟩ := (score?_eq_some_iff hmin).1 hs
    exact ⟨hne, hquery, hmin', hzero⟩
  · rintro ⟨hne, hquery, hmin', hzero⟩
    refine ⟨hne, hquery, Option.isSome_iff_exists.2 ⟨⟨_, zero_lt_similarity.1 hzero,
      similarity_le_one _ _⟩, (score?_eq_some_iff hmin).2 ⟨hmin', hzero, ?_⟩⟩⟩
    simp only [Score.value, ← similarity_negative query name]

theorem score?_empty_query (name : Text) : score? options [] name = none := by
  simp only [score?]
  split_ifs
  · rfl
  · rfl
  · simp [similarity, Score.ofBinary64?, Binary64.zero]

/-- A candidate as a suggestion, if it is eligible. -/
def suggest? (options : RankingOptions) (query : Text) (c : Candidate) : Option Suggestion :=
  if c.name = [] ∨ c.name = query then none
  else (score? options query c.name).map (⟨c, ·⟩)

theorem suggest?_eq_some_iff {c : Candidate} {s : Suggestion} :
    suggest? options query c = some s ↔
      s.toCandidate = c ∧ Eligible options query s.name
        ∧ score? options query s.name = some s.score := by
  obtain ⟨d, score⟩ := s
  simp only [suggest?]
  split_ifs with hskip
  · simp only [false_iff]
    rintro ⟨rfl, he, -⟩
    exact hskip.elim he.nonempty he.ne_query
  · rw [not_or] at hskip
    simp only [Option.map_eq_some_iff, Suggestion.mk.injEq]
    constructor
    · rintro ⟨score', hscore, rfl, rfl⟩
      exact ⟨rfl, ⟨hskip.1, hskip.2, by rw [hscore]; rfl⟩, hscore⟩
    · rintro ⟨rfl, -, hscore⟩
      exact ⟨score, hscore, rfl, rfl⟩

theorem isSome_suggest?_iff {c : Candidate} :
    (suggest? options query c).isSome = true ↔ Eligible options query c.name := by
  rw [Option.isSome_iff_exists]
  simp only [suggest?_eq_some_iff]
  constructor
  · rintro ⟨s, rfl, he, -⟩
    exact he
  · intro he
    obtain ⟨score, hscore⟩ := Option.isSome_iff_exists.1 he.scored
    exact ⟨⟨c, score⟩, rfl, he, hscore⟩

/-- The candidates that are the first to mention their names. -/
def firstMentions : List Candidate → List Candidate
  | [] => []
  | c :: cs => c :: (firstMentions cs).filter fun d => d.name ≠ c.name

theorem firstMentions_sublist : ∀ cs : List Candidate, (firstMentions cs).Sublist cs
  | [] => List.Sublist.slnil
  | _ :: cs => (List.filter_sublist.trans (firstMentions_sublist cs)).cons_cons _

theorem exists_mem_firstMentions {c : Candidate} : ∀ {cs : List Candidate}, c ∈ cs →
    ∃ d ∈ firstMentions cs, d.name = c.name
  | d :: cs, h => by
    by_cases hname : d.name = c.name
    · exact ⟨d, List.mem_cons_self, hname⟩
    · have hcs : c ∈ cs := by
        rcases List.mem_cons.1 h with rfl | h
        · exact absurd rfl hname
        · exact h
      obtain ⟨e, he, hename⟩ := exists_mem_firstMentions hcs
      refine ⟨e, List.mem_cons_of_mem _ (List.mem_filter.2 ⟨he, ?_⟩), hename⟩
      rw [decide_eq_true_eq, hename]
      exact Ne.symm hname

theorem pairwise_name_firstMentions : ∀ cs : List Candidate,
    (firstMentions cs).Pairwise fun c d => c.name ≠ d.name
  | [] => List.Pairwise.nil
  | c :: cs => by
    refine List.pairwise_cons.2 ⟨fun d hd => ?_, (pairwise_name_firstMentions cs).filter _⟩
    have hne := (List.mem_filter.1 hd).2
    rw [decide_eq_true_eq] at hne
    exact Ne.symm hne

/-- Going through the candidates and marking the names that come up gives each first mention that
is not marked already its chance. -/
theorem map_qualifying : ∀ (cs : List Candidate) (place : Nat) (seen : List Text),
    (qualifying options query place seen cs).map (·.suggestion)
      = (firstMentions cs).filterMap fun c =>
          if c.name ∈ seen then none else suggest? options query c
  | [], _, _ => rfl
  | c :: cs, place, seen => by
    simp only [qualifying, firstMentions, List.filterMap_cons, List.filterMap_filter]
    by_cases hseen : c.name ∈ seen
    · rw [if_pos (.inr (.inr hseen)), if_pos hseen, map_qualifying cs]
      refine List.filterMap_congr fun d _ => ?_
      by_cases hd : d.name = c.name
      · simp [hd, hseen]
      · simp [hd]
    · rw [if_neg hseen]
      by_cases hskip : c.name = [] ∨ c.name = query
      · -- Such a name is not marked, but none of its other mentions is suggested either.
        have hnone : ∀ d : Candidate, d.name = c.name → suggest? options query d = none := by
          intro d hd
          rw [suggest?, if_pos (by rwa [hd])]
        rw [if_pos (by tauto), hnone c rfl, map_qualifying cs]
        refine List.filterMap_congr fun d _ => ?_
        by_cases hd : d.name = c.name
        · simp [hd, hseen, hnone d hd]
        · simp [hd]
      · rw [if_neg (by tauto)]
        have hrest := map_qualifying cs (place + 1) (c.name :: seen)
        have hmarked : ∀ d : Candidate,
            (if d.name ∈ c.name :: seen then none else suggest? options query d)
              = if decide (d.name ≠ c.name) = true then
                  if d.name ∈ seen then none else suggest? options query d
                else none := by
          intro d
          by_cases hd : d.name = c.name
          · simp [hd]
          · simp [hd]
        simp only [hmarked] at hrest
        rw [← hrest, suggest?, if_neg hskip]
        rcases score? options query c.name with _ | score <;> rfl

theorem le_place_of_mem_qualifying {r : Placed} : ∀ (cs : List Candidate) {place : Nat}
    {seen : List Text}, r ∈ qualifying options query place seen cs → place ≤ r.place
  | [], _, _, h => by simp [qualifying] at h
  | c :: cs, place, seen, h => by
    have hrest : ∀ {seen : List Text}, r ∈ qualifying options query (place + 1) seen cs →
        place ≤ r.place := fun h => (Nat.le_succ _).trans (le_place_of_mem_qualifying cs h)
    simp only [qualifying] at h
    split_ifs at h
    · exact hrest h
    · split at h
      · rcases List.mem_cons.1 h with rfl | h
        · exact le_rfl
        · exact hrest h
      · exact hrest h

theorem pairwise_place_qualifying : ∀ (cs : List Candidate) (place : Nat) (seen : List Text),
    (qualifying options query place seen cs).Pairwise fun a b => a.place < b.place
  | [], _, _ => List.Pairwise.nil
  | c :: cs, place, seen => by
    simp only [qualifying]
    split_ifs
    · exact pairwise_place_qualifying cs _ _
    · split
      · exact List.pairwise_cons.2 ⟨fun r hr => le_place_of_mem_qualifying cs hr,
          pairwise_place_qualifying cs _ _⟩
      · exact pairwise_place_qualifying cs _ _

/-- Whether a suggestion scores no less than another. -/
def scoresNoLess (a b : Placed) : Bool := b.suggestion.score ≤ a.suggestion.score

theorem scoresNoLess_iff {a b : Placed} :
    scoresNoLess a b = true ↔
      b.suggestion.score.magnitude ≤ a.suggestion.score.magnitude := by
  simp only [scoresNoLess, decide_eq_true_eq]
  rfl

theorem scoresNoLess_trans (a b c : Placed) (hab : scoresNoLess a b = true)
    (hbc : scoresNoLess b c = true) : scoresNoLess a c = true :=
  Score.bestFirst_trans _ _ _ hab hbc

theorem scoresNoLess_total (a b : Placed) : (scoresNoLess a b || scoresNoLess b a) = true :=
  Score.bestFirst_total _ _

theorem order_isLE_iff {a b : Placed} :
    (order a b).isLE = true ↔
      b.suggestion.score.magnitude < a.suggestion.score.magnitude
        ∨ b.suggestion.score.magnitude = a.suggestion.score.magnitude
          ∧ (a.place < b.place
            ∨ a.place = b.place
              ∧ (compare a.suggestion.name b.suggestion.name).isLE = true) := by
  simp only [order, compareLex, compareOn, Ordering.isLE_then_iff_or, Nat.compare_eq_lt,
    Nat.compare_eq_eq]

instance : Std.TransCmp order :=
  inferInstanceAs (Std.TransCmp (compareLex
    (fun a b : Placed => compareOn (·.suggestion.score.magnitude) b a)
    (compareLex (compareOn (·.place)) (compareOn (·.suggestion.name)))))

theorem order_total (a b : Placed) : ((order a b).isLE || (order b a).isLE) = true := by
  have hswap : order b a = (order a b).swap := Std.OrientedCmp.eq_swap
  rw [hswap]
  cases order a b <;> rfl

/-- Where the places go up, a stable sort by the scores leaves nothing to the other keys. -/
theorem pairwise_order_mergeSort : ∀ {l : List Placed},
    (l.Pairwise fun a b => a.place < b.place) →
      (l.mergeSort scoresNoLess).Pairwise fun a b => (order a b).isLE = true
  | [], _ => by simp
  | a :: l, h => by
    obtain ⟨hplace, hl⟩ := List.pairwise_cons.1 h
    have ih := pairwise_order_mergeSort hl
    have hsorted := List.pairwise_mergeSort scoresNoLess_trans scoresNoLess_total (a :: l)
    obtain ⟨before, after, hsort, hrest, hbefore⟩ :=
      List.mergeSort_cons scoresNoLess_trans scoresNoLess_total a l
    have hmem : ∀ b ∈ after, a.place < b.place := by
      intro b hb
      have hb' : b ∈ l.mergeSort scoresNoLess := hrest ▸ List.mem_append_right _ hb
      exact hplace b (List.mem_mergeSort.1 hb')
    rw [hrest, List.pairwise_append] at ih
    rw [hsort, List.pairwise_append, List.pairwise_cons] at hsorted ⊢
    obtain ⟨hbefore', hafter', hcross⟩ := ih
    refine ⟨hbefore', ⟨fun b hb => ?_, hafter'⟩, fun b hb d hd => ?_⟩
    · have hle := scoresNoLess_iff.1 (hsorted.2.1.1 b hb)
      have hlt := hmem b hb
      rw [order_isLE_iff]
      omega
    · rcases List.mem_cons.1 hd with rfl | hd
      · have hlt := hbefore b hb
        rw [Bool.not_eq_true', Bool.eq_false_iff, Ne, scoresNoLess_iff] at hlt
        rw [order_isLE_iff]
        omega
      · exact hcross b hb d hd

/-- No two places are the same, so the other keys decide what a stable sort would leave as it is. -/
theorem mergeSort_order {l : List Placed} (h : l.Pairwise fun a b => a.place < b.place) :
    l.mergeSort (fun a b => (order a b).isLE) = l.mergeSort scoresNoLess := by
  have hdistinct : (l.map (·.place)).Nodup := List.pairwise_map.2 (h.imp Nat.ne_of_lt)
  refine List.Perm.eq_of_pairwise (fun a b ha hb hab hba => ?_)
    (List.pairwise_mergeSort (fun _ _ _ => Std.TransCmp.isLE_trans) order_total l)
    (pairwise_order_mergeSort h) ((List.mergeSort_perm _ _).trans (List.mergeSort_perm _ _).symm)
  rw [order_isLE_iff] at hab hba
  exact List.inj_on_of_nodup_map hdistinct (List.mem_mergeSort.1 ha) (List.mem_mergeSort.1 hb)
    (by omega)

end Ranking

section Rank

variable {options : RankingOptions} {query : Text}

/-- Ranking sorts the first mentions that are eligible by their scores and cuts the rest off. -/
theorem rank_eq_take_mergeSort (hquery : query ≠ []) (hmax : options.maxSuggestions ≠ 0)
    (domain : List Candidate) :
    rank options query domain
      = (((Ranking.firstMentions domain).filterMap (Ranking.suggest? options query)).mergeSort
          fun s t => t.score ≤ s.score).take options.maxSuggestions := by
  have hmap : (Ranking.qualifying options query 0 [] domain).map (·.suggestion) = _ :=
    Ranking.map_qualifying domain 0 []
  simp only [List.not_mem_nil, if_false] at hmap
  have hsort := List.map_mergeSort (r := Ranking.scoresNoLess) (s := fun s t => t.score ≤ s.score)
    (f := Ranking.Placed.suggestion) (l := Ranking.qualifying options query 0 [] domain)
    fun _ _ _ _ => rfl
  rw [rank, if_neg (by simp [hquery, hmax]), List.map_take,
    Ranking.mergeSort_order (Ranking.pairwise_place_qualifying domain 0 []), hsort, hmap]

theorem mem_rank {domain : List Candidate} {s : Suggestion} (h : s ∈ rank options query domain) :
    s.toCandidate ∈ domain ∧ Ranking.Eligible options query s.name
      ∧ Ranking.score? options query s.name = some s.score := by
  by_cases hnone : query = [] ∨ options.maxSuggestions = 0
  · simp [rank, hnone] at h
  · rw [not_or] at hnone
    rw [rank_eq_take_mergeSort hnone.1 hnone.2] at h
    obtain ⟨c, hc, hs⟩ := List.mem_filterMap.1 (List.mem_mergeSort.1 (List.mem_of_mem_take h))
    obtain ⟨rfl, he⟩ := Ranking.suggest?_eq_some_iff.1 hs
    exact ⟨(Ranking.firstMentions_sublist domain).subset hc, he⟩

/-- There are suggestions exactly if some are wanted and some candidate is eligible. -/
theorem rank_ne_nil_iff {domain : List Candidate} :
    rank options query domain ≠ [] ↔
      0 < options.maxSuggestions ∧ ∃ c ∈ domain, Ranking.Eligible options query c.name := by
  constructor
  · intro h
    obtain ⟨s, hs⟩ := List.exists_mem_of_ne_nil _ h
    have hmax : options.maxSuggestions ≠ 0 := by
      intro h0
      exact h (by simp [rank, h0])
    obtain ⟨hd, he, -⟩ := mem_rank hs
    exact ⟨Nat.pos_of_ne_zero hmax, _, hd, he⟩
  · rintro ⟨hmax, c, hc, he⟩
    have hquery : query ≠ [] := by
      rintro rfl
      have hscored := he.scored
      simp [Ranking.score?_empty_query] at hscored
    obtain ⟨d, hd, hname⟩ := Ranking.exists_mem_firstMentions hc
    rw [← hname, ← Ranking.isSome_suggest?_iff, Option.isSome_iff_exists] at he
    obtain ⟨s, hs⟩ := he
    rw [rank_eq_take_mergeSort hquery hmax.ne', ← List.length_pos_iff, List.length_take]
    exact Nat.lt_min.2 ⟨hmax,
      List.length_pos_of_mem (List.mem_mergeSort.2 (List.mem_filterMap.2 ⟨d, hd, hs⟩))⟩

theorem mem_rankNames {names : List Text} {s : Suggestion} (h : s ∈ rankNames options query names) :
    s.name ∈ names ∧ Ranking.Eligible options query s.name := by
  obtain ⟨hd, he, -⟩ := mem_rank h
  obtain ⟨name, hname, hc⟩ := List.mem_map.1 hd
  rw [← hc] at he ⊢
  exact ⟨hname, he⟩

theorem rankNames_ne_nil_iff {names : List Text} :
    rankNames options query names ≠ [] ↔
      0 < options.maxSuggestions ∧ ∃ name ∈ names, Ranking.Eligible options query name := by
  rw [rankNames, rank_ne_nil_iff]
  simp [Candidate.named]

end Rank

end DidYouMean
