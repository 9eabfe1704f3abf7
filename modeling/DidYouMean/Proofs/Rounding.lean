import DidYouMean.Binary64
import Mathlib.Tactic.Linarith
import Mathlib.Tactic.Ring

/-!
# Rounding keeps order

A quotient that is no greater than another is not rounded to a greater double
(`magnitudeOf_mono`). Inside one binade that is so because rounding to a whole number keeps order,
and between two binades because every quotient of the lower one is rounded to at most the power of
two between them. A double also stands for no fewer units than a smaller one (`unitsOf_mono`), and
a quotient is rounded up past the middle of two neighbours (`two_mul_le_unitsOf`).
What compares with a NaN does not hold, so the comparisons chain without a word about it.
-/

namespace DidYouMean

namespace Binary64

theorem roundHalfEven_le_add (num : Nat) {den : Nat} (h : 0 < den) :
    2 * roundHalfEven num den * den ≤ 2 * num + den
      ∧ 2 * num ≤ 2 * roundHalfEven num den * den + den := by
  have hdiv : num = num / den * den + num % den := (Nat.div_add_mod' num den).symm
  have hlt : num % den < den := Nat.mod_lt _ h
  simp only [roundHalfEven]
  generalize num / den = q at *
  generalize num % den = r at *
  split_ifs with h₁ h₂
  · constructor <;> linarith
  · constructor <;> linarith
  · rcases Nat.mod_two_eq_zero_or_one q with hq | hq <;> rw [hq] <;> constructor <;> linarith

/-- A quotient halfway between two whole numbers is rounded to the even one. -/
theorem even_of_tie (num : Nat) {den : Nat} (h : 0 < den)
    (htie : 2 * roundHalfEven num den * den = 2 * num + den
      ∨ 2 * num = 2 * roundHalfEven num den * den + den) :
    roundHalfEven num den % 2 = 0 := by
  have hdiv : num = num / den * den + num % den := (Nat.div_add_mod' num den).symm
  have hlt : num % den < den := Nat.mod_lt _ h
  simp only [roundHalfEven] at htie ⊢
  generalize num / den = q at *
  generalize num % den = r at *
  split_ifs at htie ⊢ with h₁ h₂
  · rcases htie with htie | htie <;> exfalso <;> linarith
  · rcases htie with htie | htie <;> exfalso <;> linarith
  · omega

theorem roundHalfEven_mono {n₁ d₁ n₂ d₂ : Nat} (h₁ : 0 < d₁) (h₂ : 0 < d₂)
    (h : n₁ * d₂ ≤ n₂ * d₁) : roundHalfEven n₁ d₁ ≤ roundHalfEven n₂ d₂ := by
  obtain ⟨hu, -⟩ := roundHalfEven_le_add n₁ h₁
  obtain ⟨-, hl⟩ := roundHalfEven_le_add n₂ h₂
  have ht₁ := even_of_tie n₁ h₁
  have ht₂ := even_of_tie n₂ h₂
  generalize roundHalfEven n₁ d₁ = a at *
  generalize roundHalfEven n₂ d₂ = b at *
  by_contra hba
  have hd : 0 < d₁ * d₂ := Nat.mul_pos h₁ h₂
  have hu' := Nat.mul_le_mul_right d₂ hu
  have hl' := Nat.mul_le_mul_right d₁ hl
  have hab : (b + 1) * (d₁ * d₂) ≤ a * (d₁ * d₂) := Nat.mul_le_mul_right _ (by omega)
  -- Both quotients must lie on the one half between `b` and `a`, which has one even neighbour.
  have ha : a = b + 1 := by
    have : a * (d₁ * d₂) ≤ (b + 1) * (d₁ * d₂) := by linarith
    have := Nat.le_of_mul_le_mul_right this hd
    omega
  subst ha
  have e₁ : 2 * (b + 1) * d₁ = 2 * n₁ + d₁ :=
    le_antisymm hu (Nat.le_of_mul_le_mul_right (by linarith) h₂)
  have e₂ : 2 * n₂ = 2 * b * d₂ + d₂ :=
    le_antisymm hl (Nat.le_of_mul_le_mul_right (by linarith) h₁)
  have := ht₁ (.inl e₁)
  have := ht₂ (.inr e₂)
  omega

@[simp] theorem roundHalfEven_one (k : Nat) : roundHalfEven k 1 = k := by
  simp [roundHalfEven, Nat.mod_one]

theorem le_roundHalfEven {k num den : Nat} (hd : 0 < den) (h : k * den ≤ num) :
    k ≤ roundHalfEven num den := by
  have hle : k * den ≤ num * 1 := by linarith
  have := roundHalfEven_mono Nat.one_pos hd hle
  rwa [roundHalfEven_one] at this

theorem roundHalfEven_le {k num den : Nat} (hd : 0 < den) (h : num ≤ k * den) :
    roundHalfEven num den ≤ k := by
  have hle : num * 1 ≤ k * den := by linarith
  have := roundHalfEven_mono hd Nat.one_pos hle
  rwa [roundHalfEven_one] at this

theorem pow_shift (s : Nat) : Nat.pow 2 (52 + s) = binade * Nat.pow 2 s :=
  Nat.pow_add 2 52 s

/-- What is left of a quotient when the binary places too many are gone fits 53 bits. -/
theorem roundHalfEven_shift_le (num : Nat) {den : Nat} (hd : 0 < den) :
    roundHalfEven num (den * Nat.pow 2 ((num / den).log2 - 52)) ≤ 2 * binade := by
  set s := (num / den).log2 - 52 with hs
  have hp : 0 < Nat.pow 2 s := Nat.pow_pos Nat.two_pos
  refine roundHalfEven_le (Nat.mul_pos hd hp) ?_
  have hlog : num / den < Nat.pow 2 (52 + (s + 1)) :=
    Nat.lt_of_lt_of_le Nat.lt_log2_self (Nat.pow_le_pow_right Nat.two_pos (by omega))
  rw [pow_shift, show Nat.pow 2 (s + 1) = Nat.pow 2 s * 2 from rfl] at hlog
  have := (Nat.div_lt_iff_lt_mul hd).1 hlog
  linarith

/-- Where places have to go, what is left has all of its 53 bits. -/
theorem le_roundHalfEven_shift (num : Nat) {den : Nat} (hd : 0 < den)
    (hs : 0 < (num / den).log2 - 52) :
    binade ≤ roundHalfEven num (den * Nat.pow 2 ((num / den).log2 - 52)) := by
  have hlog : Nat.pow 2 (num / den).log2 ≤ num / den := by
    refine Nat.log2_self_le fun h0 => ?_
    rw [h0] at hs
    exact absurd hs (by decide)
  rw [show (num / den).log2 = 52 + ((num / den).log2 - 52) by omega, pow_shift] at hlog
  generalize (num / den).log2 - 52 = s at *
  have hp : 0 < Nat.pow 2 s := Nat.pow_pos Nat.two_pos
  refine le_roundHalfEven (Nat.mul_pos hd hp) ?_
  have := (Nat.le_div_iff_mul_le hd).1 hlog
  linarith

theorem log2_le_log2 {m n : Nat} (h : m ≤ n) : m.log2 ≤ n.log2 := by
  rcases Nat.eq_zero_or_pos m with rfl | hm
  · exact Nat.zero_le _
  · exact (Nat.le_log2 (by omega)).2 ((Nat.log2_self_le (by omega)).trans h)

theorem magnitudeOf_mono {n₁ d₁ n₂ d₂ : Nat} (h₁ : 0 < d₁) (h₂ : 0 < d₂)
    (h : n₁ * d₂ ≤ n₂ * d₁) : magnitudeOf n₁ d₁ ≤ magnitudeOf n₂ d₂ := by
  have hq : n₁ / d₁ ≤ n₂ / d₂ := by
    refine (Nat.le_div_iff_mul_le h₂).2 (Nat.le_of_mul_le_mul_right (c := d₁) ?_ h₁)
    have := Nat.mul_le_mul_right d₂ (Nat.div_mul_le_self n₁ d₁)
    linarith
  have hlog : (n₁ / d₁).log2 - 52 ≤ (n₂ / d₂).log2 - 52 :=
    Nat.sub_le_sub_right (log2_le_log2 hq) 52
  have hup := roundHalfEven_shift_le n₁ h₁
  have hlow := le_roundHalfEven_shift n₂ h₂
  simp only [magnitudeOf]
  generalize (n₁ / d₁).log2 - 52 = s₁ at *
  generalize (n₂ / d₂).log2 - 52 = s₂ at *
  refine min_le_min le_rfl ?_
  rcases Nat.eq_or_lt_of_le hlog with rfl | hlt
  · have hp : 0 < Nat.pow 2 s₁ := Nat.pow_pos Nat.two_pos
    refine Nat.add_le_add_left
      (roundHalfEven_mono (Nat.mul_pos h₁ hp) (Nat.mul_pos h₂ hp) ?_) _
    have := Nat.mul_le_mul_right (Nat.pow 2 s₁) h
    linarith
  · have := hlow (by omega)
    have : (s₁ + 1) * binade ≤ s₂ * binade := Nat.mul_le_mul_right _ hlt
    linarith

theorem unitsOf_mono {m n : Nat} (h : m ≤ n) : unitsOf m ≤ unitsOf n := by
  have hB : 0 < binade := Nat.pow_pos Nat.two_pos
  have hm := Nat.div_add_mod' m binade
  have hn := Nat.div_add_mod' n binade
  have hlt := Nat.mod_lt m hB
  have he : m / binade ≤ n / binade := Nat.div_le_div_right h
  simp only [unitsOf]
  generalize m / binade = e at *
  generalize n / binade = f at *
  rcases Nat.eq_or_lt_of_le he with rfl | hef
  · split_ifs
    · exact h
    · exact Nat.mul_le_mul_right _ (by omega)
  · have hp : 0 < Nat.pow 2 (f - 1) := Nat.pow_pos Nat.two_pos
    have hf : binade * Nat.pow 2 (f - 1) ≤ (binade + n % binade) * Nat.pow 2 (f - 1) :=
      Nat.mul_le_mul_right _ (Nat.le_add_right _ _)
    rw [if_neg (show f ≠ 0 by omega)]
    split_ifs with h0
    · subst h0
      have := Nat.le_mul_of_pos_right binade hp
      linarith
    · have hpow : Nat.pow 2 (e - 1) * 2 ≤ Nat.pow 2 (f - 1) :=
        Nat.pow_le_pow_right Nat.two_pos (show (e - 1).succ ≤ f - 1 by omega)
      have h₁ := Nat.mul_le_mul_right (Nat.pow 2 (e - 1)) hlt.le
      have h₂ := Nat.mul_le_mul_left binade hpow
      linarith

/-- With `s` in the exponent and all of 53 bits in `r`, a magnitude stands for no fewer units than
`r` shifted by `s`. -/
theorem shifted_le_unitsOf {r s : Nat} (h : s = 0 ∨ binade ≤ r) :
    r * Nat.pow 2 s ≤ unitsOf (s * binade + r) := by
  have hB : 0 < binade := Nat.pow_pos Nat.two_pos
  have hr : r / binade * binade + r % binade = r := Nat.div_add_mod' r binade
  have hdiv : (s * binade + r) / binade = s + r / binade := by
    rw [Nat.add_comm, Nat.add_mul_div_right _ _ hB, Nat.add_comm]
  have hmod : (s * binade + r) % binade = r % binade := by
    rw [Nat.add_comm, Nat.add_mul_mod_self_right]
  unfold unitsOf
  simp only [hdiv, hmod]
  rcases Nat.eq_zero_or_pos (r / binade) with ha | ha
  · have hs : s = 0 := by
      rcases h with h | h
      · exact h
      · exact absurd (Nat.div_pos h hB) (by omega)
    simp [hs, ha]
  · obtain ⟨a, ha⟩ := Nat.exists_eq_succ_of_ne_zero ha.ne'
    have hpow : a < Nat.pow 2 a := Nat.lt_two_pow_self
    rw [ha] at hr ⊢
    rw [if_neg (by omega), show s + a.succ - 1 = a + s by omega,
      show Nat.pow 2 (a + s) = Nat.pow 2 a * Nat.pow 2 s from Nat.pow_add 2 a s, ← Nat.mul_assoc]
    refine Nat.mul_le_mul_right _ ?_
    generalize r % binade = b at *
    have h₁ := Nat.mul_le_mul_left binade hpow
    have h₂ := Nat.mul_le_mul_left b (Nat.one_le_of_lt hpow)
    simp only [Nat.succ_eq_add_one] at *
    linarith

/-- A quotient is no further above the double it is rounded to than half the way to the next. -/
theorem two_mul_le_unitsOf (num : Nat) {den : Nat} (hd : 0 < den)
    (hfinite : magnitudeOf num den < infinite) :
    2 * num ≤ (unitsOf (magnitudeOf num den) + unitsOf (magnitudeOf num den + 1)) * den := by
  have hkept := le_roundHalfEven_shift num hd
  unfold magnitudeOf at hfinite ⊢
  simp only [min_lt_iff, lt_irrefl, false_or] at hfinite
  simp only [min_eq_right hfinite.le]
  generalize (num / den).log2 - 52 = s at *
  have hp : 0 < Nat.pow 2 s := Nat.pow_pos Nat.two_pos
  have hnear := (roundHalfEven_le_add num (Nat.mul_pos hd hp)).2
  generalize roundHalfEven num (den * Nat.pow 2 s) = r at *
  have hfull : s = 0 ∨ binade ≤ r := (Nat.eq_zero_or_pos s).imp_right hkept
  have hfull' : s = 0 ∨ binade ≤ r + 1 := hfull.imp_right Nat.le_succ_of_le
  have h₁ := Nat.mul_le_mul_right den (shifted_le_unitsOf hfull)
  have h₂ := Nat.mul_le_mul_right den (shifted_le_unitsOf hfull')
  rw [Nat.add_assoc]
  linarith

theorem magnitudeOf_le_infinite (num den : Nat) : magnitudeOf num den ≤ infinite :=
  min_le_left _ _

@[simp] theorem magnitudeOf_unitsPerOne : magnitudeOf unitsPerOne 1 = one := by decide +kernel

/-- Doubles that are numbers and not negative compare as their magnitudes do. -/
theorem lt_iff_of_le_infinite {m n : Nat} (hm : m ≤ infinite) (hn : n ≤ infinite) :
    (Binary64.mk false m).lt ⟨false, n⟩ = true ↔ m < n := by
  simp [lt, isNaN, place, Nat.not_lt.2 hm, Nat.not_lt.2 hn]

/-- Of two numbers one is at most the other, and if it is not, it is more. -/
theorem lt_eq_not_le {x y : Binary64} (hx : x.isNaN = false) (hy : y.isNaN = false) :
    x.lt y = !y.le x := by
  simp only [lt, le, hx, hy, Bool.not_false, Bool.true_and]
  rw [← decide_not, decide_eq_decide]
  exact Int.not_le.symm

theorem lt_of_le_of_lt {x y z : Binary64} (hxy : x.le y = true) (hyz : y.lt z = true) :
    x.lt z = true := by
  simp only [le, lt, Bool.and_eq_true, decide_eq_true_eq] at *
  exact ⟨⟨hxy.1.1, hyz.1.2⟩, Int.lt_of_le_of_lt hxy.2 hyz.2⟩

theorem lt_of_lt_of_le {x y z : Binary64} (hxy : x.lt y = true) (hyz : y.le z = true) :
    x.lt z = true := by
  simp only [le, lt, Bool.and_eq_true, decide_eq_true_eq] at *
  exact ⟨⟨hxy.1.1, hyz.1.2⟩, Int.lt_of_lt_of_le hxy.2 hyz.2⟩

theorem isNaN_of_le {x y : Binary64} (h : x.le y = true) :
    x.isNaN = false ∧ y.isNaN = false := by
  simp only [le, Bool.and_eq_true, Bool.not_eq_true'] at h
  exact h.1

end Binary64

end DidYouMean
