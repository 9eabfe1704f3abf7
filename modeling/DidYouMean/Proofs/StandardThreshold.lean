import DidYouMean.Proofs.Ranking

/-!
# The standard threshold

The similarity exceeds three tenths where the share that has to be edited is rounded to at most
seven tenths: one less that double is already above the threshold, and one less the next is not
(`complement_cutShare`). A share of seven tenths exactly is therefore enough, though the similarity
is three tenths then and no more. From the rounding nothing else comes in, as no other share of
fewer than `2 ^ 53` characters is as near to seven tenths as the middle of these two doubles
(`ofRatio_le_cutShare_iff`).
-/

namespace DidYouMean

namespace Ranking

/-- The magnitude of the double nearest to seven tenths. -/
def cutShare : Nat := (Binary64.ofRatio 7 10).magnitude

/-- The middle between `cutShare` and the next double is above seven tenths by one part in
`10 * 2 ^ 53`. -/
theorem cutShare_midpoint : 10 * (Binary64.unitsOf cutShare + Binary64.unitsOf (cutShare + 1))
    = (7 * Nat.pow 2 53 + 1) * Nat.pow 2 1022 := by decide +kernel

theorem magnitudeOf_midpoint : Binary64.magnitudeOf ((7 * Nat.pow 2 53 + 1) * Binary64.unitsPerOne)
    (10 * Nat.pow 2 53) = cutShare := by decide +kernel

theorem unitsPerOne_eq : 2 * Binary64.unitsPerOne = Nat.pow 2 53 * Nat.pow 2 1022 := by
  decide +kernel

/-- The comparison with the middle, in units, freed of the units. -/
theorem le_of_units {part whole units middle q e : Nat}
    (hunits : 2 * units = q * Nat.pow 2 e) (hmiddle : 10 * middle = (7 * q + 1) * Nat.pow 2 e)
    (h : 2 * (part * units) ≤ middle * whole) :
    10 * part * q ≤ (7 * q + 1) * whole := by
  have hp : 0 < Nat.pow 2 e := Nat.pow_pos Nat.two_pos
  generalize Nat.pow 2 e = p at *
  refine Nat.le_of_mul_le_mul_right (c := p) ?_ hp
  calc 10 * part * q * p = 10 * (2 * (part * units)) := by
        rw [Nat.mul_assoc, ← hunits]
        ring
    _ ≤ 10 * (middle * whole) := Nat.mul_le_mul_left 10 h
    _ = (7 * q + 1) * whole * p := by
        rw [← Nat.mul_assoc, hmiddle, Nat.mul_right_comm]

/-- A share is rounded to seven tenths at most exactly if it is at most seven tenths, or above them
by so little that only a whole of `2 ^ 53` parts could tell. -/
theorem ofRatio_le_cutShare_iff {part whole : Nat} (hw : 0 < whole) :
    (Binary64.ofRatio part whole).magnitude ≤ cutShare ↔
      10 * part ≤ 7 * whole + whole / Nat.pow 2 53 := by
  have hdiv : 10 * part ≤ 7 * whole + whole / Nat.pow 2 53 ↔
      10 * part * Nat.pow 2 53 ≤ (7 * Nat.pow 2 53 + 1) * whole := by
    rw [show Nat.pow 2 53 = 9007199254740992 from rfl]
    omega
  rw [hdiv]
  constructor
  · intro h
    have hfinite : cutShare < Binary64.infinite := by decide +kernel
    have hnear := Binary64.two_mul_le_unitsOf (part * Binary64.unitsPerOne) hw
      (Nat.lt_of_le_of_lt h hfinite)
    have hnext : (Binary64.ofRatio part whole).magnitude + 1 ≤ cutShare + 1 := by omega
    have hmono := Nat.mul_le_mul_right whole
      (Nat.add_le_add (Binary64.unitsOf_mono h) (Binary64.unitsOf_mono hnext))
    exact le_of_units unitsPerOne_eq cutShare_midpoint (hnear.trans hmono)
  · intro h
    rw [← magnitudeOf_midpoint]
    refine Binary64.magnitudeOf_mono hw (by decide) ?_
    have := Nat.mul_le_mul_right Binary64.unitsPerOne h
    linarith

/-- With a share of seven tenths the similarity is still rounded to more than three tenths, with the
next greater one it is not. -/
theorem complement_cutShare :
    RankingOptions.standard.minScore.magnitude
        < Binary64.magnitudeOf (Binary64.unitsPerOne - Binary64.unitsOf cutShare) 1
      ∧ Binary64.magnitudeOf (Binary64.unitsPerOne - Binary64.unitsOf (cutShare + 1)) 1
        ≤ RankingOptions.standard.minScore.magnitude := by
  decide +kernel

theorem standard_lt_complementOfShare_iff (part whole : Nat) :
    RankingOptions.standard.minScore.lt (complementOfShare part whole) = true ↔
      (Binary64.ofRatio part whole).magnitude ≤ cutShare := by
  have hlt : RankingOptions.standard.minScore.lt (complementOfShare part whole) = true ↔
      RankingOptions.standard.minScore.magnitude < (complementOfShare part whole).magnitude :=
    Binary64.lt_iff_of_le_infinite (Binary64.magnitudeOf_le_infinite _ _)
      (Binary64.magnitudeOf_le_infinite _ _)
  obtain ⟨habove, hbelow⟩ := complement_cutShare
  rw [hlt]
  simp only [complementOfShare]
  constructor
  · intro h
    by_contra hcut
    have hnext : cutShare + 1 ≤ (Binary64.ofRatio part whole).magnitude := by omega
    have := magnitudeOf_complement_anti hnext
    omega
  · intro h
    have := magnitudeOf_complement_anti h
    omega

theorem length_pos_of_query {query : Text} (hquery : query ≠ []) (name : Text) :
    0 < max query.length name.length :=
  Nat.lt_of_lt_of_le (List.length_pos_iff.2 hquery) (Nat.le_max_left _ _)

/-- With the standard threshold every name is eligible for which no more than seven tenths of the
longer text have to be edited. -/
theorem eligible_standard_iff {count : Nat} {query name : Text} (hquery : query ≠ [])
    (hname : name ≠ []) (hne : name ≠ query) :
    Eligible ⟨count, RankingOptions.standard.minScore⟩ query name ↔
      10 * editDistance query name
        ≤ 7 * max query.length name.length + max query.length name.length / Nat.pow 2 53 := by
  have hnumber : RankingOptions.standard.minScore.isNaN = false := by decide +kernel
  have hstandard : (RankingOptions.mk count RankingOptions.standard.minScore).minScore.isNaN
      = false := hnumber
  have hzero : Binary64.zero.le RankingOptions.standard.minScore = true := by decide +kernel
  have hlength := length_pos_of_query hquery name
  have hsimilarity : similarity query name
      = complementOfShare (editDistance query name) (max query.length name.length) := by
    simp [similarity, hquery, hname]
  rw [eligible_iff hstandard, ← ofRatio_le_cutShare_iff hlength,
    ← standard_lt_complementOfShare_iff, ← hsimilarity]
  constructor
  · intro h
    exact h.above_threshold
  · intro h
    exact ⟨hname, hne, h, Binary64.lt_of_le_of_lt hzero h⟩

end Ranking

theorem mem_names_rank_singleton {options : RankingOptions} {query : Text} {c : Candidate} :
    c.name ∈ Suggestion.names (rank options query [c]) ↔
      0 < options.maxSuggestions ∧ Ranking.Eligible options query c.name := by
  have hnames : c.name ∈ Suggestion.names (rank options query [c]) ↔
      rank options query [c] ≠ [] := by
    constructor
    · intro h hnil
      simp [hnil, Suggestion.names] at h
    · intro h
      obtain ⟨s, hs⟩ := List.exists_mem_of_ne_nil _ h
      have hc := (mem_rank hs).1
      rw [List.mem_singleton] at hc
      exact List.mem_map.2 ⟨s, hs, by rw [hc]⟩
  rw [hnames, rank_ne_nil_iff]
  simp

/-- With the standard threshold a name is suggested exactly if three tenths of the longer text or
more are left of it. A score of three tenths is rounded up, and rounding takes part in nothing else
below `2 ^ 53` characters. -/
theorem standard_suggests_iff {count : Nat} (hcount : 0 < count) {query : Text}
    (hquery : query ≠ []) {c : Candidate} (hname : c.name ≠ []) (hne : c.name ≠ query) :
    c.name ∈ Suggestion.names (rank ⟨count, RankingOptions.standard.minScore⟩ query [c]) ↔
      3 * max query.length c.name.length
        ≤ 10 * (max query.length c.name.length - editDistance query c.name)
          + max query.length c.name.length / Nat.pow 2 53 := by
  have hlength := Ranking.length_pos_of_query hquery c.name
  rw [mem_names_rank_singleton, Ranking.eligible_standard_iff hquery hname hne,
    show Nat.pow 2 53 = 9007199254740992 from rfl]
  simp only [hcount, true_and]
  generalize max query.length c.name.length = longest at *
  omega

theorem standard_suggests_useReducer :
    (0 < 5 ∧ "useContext".toList ≠ [] ∧ "useReducer".toList ≠ []
        ∧ "useReducer".toList ≠ "useContext".toList)
      ∧ editDistance "useContext".toList "useReducer".toList = 7
      ∧ "useReducer".toList ∈ Suggestion.names (rank ⟨5, RankingOptions.standard.minScore⟩
          "useContext".toList [.named "useReducer".toList]) := by
  refine ⟨by decide, by decide +kernel, ?_⟩
  exact (standard_suggests_iff (Nat.succ_pos 4) (c := .named "useReducer".toList) (by decide)
    (by decide) (by decide)).2 (by decide +kernel)

theorem standard_cut_not_strict :
    ¬ ∀ (count : Nat) (query : Text) (c : Candidate), 0 < count → query ≠ [] → c.name ≠ [] →
      c.name ≠ query →
        (c.name ∈ Suggestion.names (rank ⟨count, RankingOptions.standard.minScore⟩ query [c]) ↔
          3 * max query.length c.name.length
            < 10 * (max query.length c.name.length - editDistance query c.name)) := by
  intro h
  have hlisted : "useReducer".toList ∈ Suggestion.names (rank
      ⟨5, RankingOptions.standard.minScore⟩ "useContext".toList
        [.named "useReducer".toList]) := by
    refine mem_names_rank_singleton.2 ⟨Nat.succ_pos 4, ?_⟩
    exact (Ranking.eligible_standard_iff (by decide) (by decide) (by decide)).2 (by decide +kernel)
  have hstrict := h 5 "useContext".toList (.named "useReducer".toList) (Nat.succ_pos 4)
    (by decide) (by decide) (by decide)
  exact absurd (hstrict.1 hlisted) (by decide +kernel)

end DidYouMean
