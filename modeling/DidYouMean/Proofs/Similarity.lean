import DidYouMean.Proofs.EditTable
import DidYouMean.Proofs.Rounding
import DidYouMean.Score

/-!
# The bound on a similarity

No two texts are more alike than their lengths allow (`similarity_le_bound`). The distance is no
less than the lengths differ, and the share that is left after rounding only gets smaller as the
distance grows.
-/

namespace DidYouMean

theorem magnitudeOf_complement_anti {share share' : Nat} (h : share ≤ share') :
    Binary64.magnitudeOf (Binary64.unitsPerOne - Binary64.unitsOf share') 1
      ≤ Binary64.magnitudeOf (Binary64.unitsPerOne - Binary64.unitsOf share) 1 :=
  Binary64.magnitudeOf_mono Nat.one_pos Nat.one_pos
    (Nat.mul_le_mul_right _ (Nat.sub_le_sub_left (Binary64.unitsOf_mono h) _))

theorem complementOfShare_anti {part part' whole : Nat} (hw : 0 < whole) (h : part ≤ part') :
    (complementOfShare part' whole).magnitude ≤ (complementOfShare part whole).magnitude := by
  have hshare : (Binary64.ofRatio part whole).magnitude
      ≤ (Binary64.ofRatio part' whole).magnitude := by
    refine Binary64.magnitudeOf_mono hw hw (Nat.mul_le_mul_right _ (Nat.mul_le_mul_right _ h))
  exact magnitudeOf_complement_anti hshare

theorem complementOfShare_le_one (part whole : Nat) :
    (complementOfShare part whole).magnitude ≤ Binary64.one := by
  rw [← Binary64.magnitudeOf_unitsPerOne]
  exact Binary64.magnitudeOf_mono Nat.one_pos Nat.one_pos
    (Nat.mul_le_mul_right _ (Nat.sub_le _ _))

@[simp] theorem similarity_negative (a b : Text) : (similarity a b).negative = false := by
  simp only [similarity]
  split_ifs <;> rfl

theorem similarity_le_one (a b : Text) : (similarity a b).magnitude ≤ Binary64.one := by
  simp only [similarity]
  split_ifs
  · exact Nat.zero_le _
  · exact complementOfShare_le_one _ _

@[simp] theorem similarity_isNaN (a b : Text) : (similarity a b).isNaN = false := by
  have := similarity_le_one a b
  have : Binary64.one ≤ Binary64.infinite := by decide
  simp only [Binary64.isNaN, decide_eq_false_iff_not]
  omega

@[simp] theorem similarityBound_isNaN (m n : Nat) : (similarityBound m n).isNaN = false := by
  have hle : (similarityBound m n).magnitude ≤ Binary64.infinite := by
    simp only [similarityBound]
    split_ifs
    · exact Nat.zero_le _
    · exact Binary64.magnitudeOf_le_infinite _ _
  simpa [Binary64.isNaN] using hle

theorem similarity_le_bound (a b : Text) :
    (similarity a b).place ≤ (similarityBound a.length b.length).place := by
  obtain ⟨h₁, h₂⟩ := length_le_editDistance_add a b
  simp only [similarity, similarityBound]
  by_cases hempty : a = [] ∨ b = []
  · rw [if_pos hempty]
    split_ifs
    · exact le_rfl
    · exact Int.natCast_nonneg _
  · have hw : 0 < max a.length b.length := by
      rw [not_or] at hempty
      have := List.length_pos_iff.2 hempty.1
      omega
    rw [if_neg hempty, if_neg hw.ne']
    exact Int.ofNat_le.2 (complementOfShare_anti hw (by omega))

end DidYouMean
