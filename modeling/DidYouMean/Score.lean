import DidYouMean.Binary64
import DidYouMean.EditDistance

/-!
# Similarity scores

The similarity of two texts is one less the share of the longer one that has to be edited, in
doubles. A score is a similarity that a suggestion may carry: above zero and at most one.
-/

namespace DidYouMean

/-- One less the share `part / whole`, each operation rounded. If both counts were made doubles
before they are divided, the share would be the same up to `2 ^ 53`, where every count is one. -/
def complementOfShare (part whole : Nat) : Binary64 :=
  let share := (Binary64.ofRatio part whole).magnitude
  ⟨false, Binary64.magnitudeOf (Binary64.unitsPerOne - Binary64.unitsOf share) 1⟩

/-- How alike two texts are, from zero to one; an empty text is like nothing. -/
def similarity (a b : Text) : Binary64 :=
  if a = [] ∨ b = [] then .zero
  else complementOfShare (editDistance a b) (max a.length b.length)

/-- The most alike two texts of these lengths can be: the distance is at least the difference of
the lengths. -/
def similarityBound (m n : Nat) : Binary64 :=
  if max m n = 0 then .zero else complementOfShare (max m n - min m n) (max m n)

/-- A similarity above zero and at most one, by its magnitude. -/
structure Score where
  magnitude : Nat
  pos : 0 < magnitude
  le_one : magnitude ≤ Binary64.one
  deriving DecidableEq, Repr

namespace Score

/-- The score of texts that do not differ. -/
def exact : Score := ⟨Binary64.one, by decide, Nat.le_refl _⟩

/-- The double a score is. -/
def value (s : Score) : Binary64 := ⟨false, s.magnitude⟩

/-- The score a double is, if it is above zero and at most one. -/
def ofBinary64? (x : Binary64) : Option Score :=
  if h : x.negative = false ∧ 0 < x.magnitude ∧ x.magnitude ≤ Binary64.one then
    some ⟨x.magnitude, h.2.1, h.2.2⟩
  else none

instance : LE Score := ⟨fun s t => s.magnitude ≤ t.magnitude⟩

instance (s t : Score) : Decidable (s ≤ t) :=
  inferInstanceAs (Decidable (s.magnitude ≤ t.magnitude))

end Score

end DidYouMean
