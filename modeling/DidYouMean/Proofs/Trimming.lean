import DidYouMean.Text
import Mathlib.Data.List.Infix
import Mathlib.Data.List.TakeWhile
import Mathlib.Tactic.SplitIfs

/-!
# Trimming and cutting

What is taken from an end of a text is all that the rest of it lacks, so a text is known from what
is left. A text that begins and ends with a character that is no blank keeps everything when it is
trimmed, also with blanks around it. A cut is made where the needle is complete for the first time,
which is told from what stands before it (`cutAt?_append`).
-/

namespace DidYouMean

namespace Text

theorem stripStart?_eq_some_iff {rest : Text} : ∀ {start t : Text},
    stripStart? start t = some rest ↔ t = start ++ rest
  | [], t => by simp [stripStart?]
  | c :: start, [] => by simp [stripStart?]
  | c :: start, d :: t => by
    have ih := @stripStart?_eq_some_iff rest start t
    simp only [stripStart?, List.cons_append, List.cons.injEq]
    split_ifs with hcd
    · rw [ih, eq_comm (a := d), and_iff_right hcd]
    · simp [Ne.symm hcd]

@[simp] theorem stripStart?_append (start t : Text) : stripStart? start (start ++ t) = some t :=
  stripStart?_eq_some_iff.2 rfl

theorem stripEnd?_eq_some_iff {before ending t : Text} :
    stripEnd? ending t = some before ↔ t = before ++ ending := by
  rw [stripEnd?, Option.map_eq_some_iff]
  constructor
  · rintro ⟨rest, hrest, rfl⟩
    rw [← List.reverse_inj, stripStart?_eq_some_iff.1 hrest, List.reverse_append,
      List.reverse_reverse]
  · rintro rfl
    exact ⟨before.reverse, by rw [List.reverse_append, stripStart?_append],
      List.reverse_reverse before⟩

theorem isBlank_or_head?_trimStart {c : Char} {t : Text} (h : c ∈ t.head?) :
    isBlank c = true ∨ (trimStart t).head? = some c := by
  obtain ⟨rest, rfl⟩ := List.head?_eq_some_iff.1 h
  refine (Bool.eq_false_or_eq_true (isBlank c)).imp_right fun hblank => ?_
  rw [trimStart, List.dropWhile_cons_of_neg (by simp [hblank]), List.head?_cons]

theorem trim_subset (t : Text) : trim t ⊆ t := by
  intro c h
  rw [trim, dropEndWhile, List.mem_reverse] at h
  have hstart := List.mem_reverse.1 (List.dropWhile_subset _ h)
  exact List.dropWhile_subset _ hstart

theorem trim_ne_nil {c : Char} {t : Text} (h : isBlank c = false) : trim (c :: t) ≠ [] := by
  rw [trim, trimStart, List.dropWhile_cons_of_neg (by simp [h]), dropEndWhile, Ne,
    List.reverse_eq_nil_iff, List.dropWhile_eq_nil_iff]
  intro hall
  have := hall c (by simp)
  simp [h] at this

/-- A text that begins and ends with a character that is no blank. -/
structure Tight (t : Text) : Prop where
  head : ∃ c, t.head? = some c ∧ isBlank c = false
  last : ∃ c, t.getLast? = some c ∧ isBlank c = false

theorem dropWhile_isBlank_of_head {t : Text} (h : ∃ c, t.head? = some c ∧ isBlank c = false) :
    t.dropWhile isBlank = t := by
  obtain ⟨c, hc, hblank⟩ := h
  obtain ⟨rest, rfl⟩ := List.head?_eq_some_iff.1 hc
  exact List.dropWhile_cons_of_neg (by simp [hblank])

theorem Tight.trim_eq {t : Text} (h : Tight t) : trim t = t := by
  have hlast : ∃ c, t.reverse.head? = some c ∧ isBlank c = false := by
    rw [List.head?_reverse]
    exact h.last
  rw [trim, trimStart, dropWhile_isBlank_of_head h.head, dropEndWhile,
    dropWhile_isBlank_of_head hlast, List.reverse_reverse]

theorem Tight.ne_nil {t : Text} (h : Tight t) : t ≠ [] := by
  obtain ⟨c, hc, -⟩ := h.head
  rintro rfl
  simp at hc

theorem Tight.append {s t : Text} (hs : Tight s) (between : Text) (ht : Tight t) :
    Tight (s ++ between ++ t) := by
  obtain ⟨c, hc, hcblank⟩ := hs.head
  obtain ⟨d, hd, hdblank⟩ := ht.last
  refine ⟨⟨c, ?_, hcblank⟩, ⟨d, ?_, hdblank⟩⟩
  · rw [List.append_assoc, List.head?_append, hc, Option.some_or]
  · rw [List.getLast?_append, hd, Option.some_or]

theorem Tight.join (sep : Text) : ∀ {pieces : List Text}, pieces ≠ [] →
    (∀ piece ∈ pieces, Tight piece) → Tight (Text.join sep pieces)
  | [piece], _, h => h piece List.mem_cons_self
  | piece :: piece' :: pieces, _, h => by
    have ih := Tight.join sep (List.cons_ne_nil piece' pieces)
      fun p hp => h p (List.mem_cons_of_mem _ hp)
    exact (h piece List.mem_cons_self).append sep ih

theorem trim_cons {c : Char} (hc : isBlank c = true) (t : Text) : trim (c :: t) = trim t := by
  rw [trim, trimStart, List.dropWhile_cons_of_pos hc, trim, trimStart]

theorem trim_concat {c : Char} (hc : isBlank c = true) (t : Text) : trim (t ++ [c]) = trim t := by
  rw [trim, trim, trimStart, trimStart, List.dropWhile_append]
  split_ifs with hempty
  · rw [List.isEmpty_iff.1 hempty, List.dropWhile_cons_of_pos hc]
    rfl
  · rw [dropEndWhile, dropEndWhile, List.reverse_append, List.reverse_singleton,
      List.singleton_append, List.dropWhile_cons_of_pos hc]

theorem trim_eq_nil_iff : ∀ {t : Text}, trim t = [] ↔ t.all isBlank = true
  | [] => by simp [trim, trimStart, dropEndWhile]
  | c :: t => by
    by_cases hc : isBlank c = true
    · rw [trim_cons hc, trim_eq_nil_iff, List.all_cons, hc, Bool.true_and]
    · rw [Bool.not_eq_true] at hc
      simp [trim_ne_nil hc, hc]

theorem trim_append_left : ∀ {lead : Text}, (∀ c ∈ lead, isBlank c = true) →
    ∀ t, trim (lead ++ t) = trim t
  | [], _, t => rfl
  | c :: lead, h, t => by
    rw [List.cons_append, trim_cons (h c (by simp)),
      trim_append_left (fun d hd => h d (by simp [hd]))]

theorem trim_append_right : ∀ {trail : Text}, (∀ c ∈ trail, isBlank c = true) →
    ∀ t, trim (t ++ trail) = trim t
  | [], _, t => by rw [List.append_nil]
  | c :: trail, h, t => by
    rw [List.append_cons, trim_append_right (fun d hd => h d (by simp [hd])),
      trim_concat (h c (by simp))]

theorem iff_dropWhile {P : Text → Prop}
    (hcons : ∀ c t, isBlank c = true → (P (c :: t) ↔ P t)) :
    ∀ t, P t ↔ P (t.dropWhile isBlank)
  | [] => Iff.rfl
  | c :: t => by
    by_cases hc : isBlank c = true
    · rw [hcons c t hc, List.dropWhile_cons_of_pos hc, iff_dropWhile hcons t]
    · rw [List.dropWhile_cons_of_neg hc]

/-- What a blank at either end makes no difference to, trimming makes no difference to. -/
theorem iff_trim {P : Text → Prop} (hcons : ∀ c t, isBlank c = true → (P (c :: t) ↔ P t))
    (hconcat : ∀ c t, isBlank c = true → (P (t ++ [c]) ↔ P t)) (t : Text) : P t ↔ P (trim t) := by
  have hlast := iff_dropWhile (P := fun r => P r.reverse) (fun c r hc => by
    rw [List.reverse_cons, hconcat c _ hc]) (trimStart t).reverse
  rw [List.reverse_reverse] at hlast
  rw [iff_dropWhile hcons t]
  exact hlast

/-! ## Cutting -/

section Cutting

variable {needle : Text}

theorem contains_iff : ∀ {t : Text},
    contains needle t = true ↔ needle.IsInfix t
  | [] => by
    rw [contains, cutAt?, List.infix_nil]
    split_ifs with h <;> simp [h]
  | c :: t => by
    rw [List.infix_cons_iff, ← contains_iff, contains, cutAt?]
    rcases hstrip : stripStart? needle (c :: t) with _ | rest
    · have hnot : ¬ needle.IsPrefix (c :: t) := by
        rintro ⟨rest, hrest⟩
        rw [← hrest, stripStart?_append] at hstrip
        cases hstrip
      simp [hnot, contains]
    · have hbegins : needle.IsPrefix (c :: t) := ⟨rest, (stripStart?_eq_some_iff.1 hstrip).symm⟩
      simp [hbegins]

theorem cutAt?_eq_none_iff {t : Text} : cutAt? needle t = none ↔ ¬ needle.IsInfix t := by
  rw [← contains_iff, contains, Bool.not_eq_true, Option.isSome_eq_false_iff,
    Option.isNone_iff_eq_none]

theorem eq_of_cutAt? {before rest : Text} : ∀ {t : Text},
    cutAt? needle t = some (before, rest) → t = before ++ (needle ++ rest)
  | [], h => by
    rw [cutAt?] at h
    split_ifs at h with hneedle
    obtain ⟨rfl, rfl⟩ := Prod.mk.inj (Option.some.inj h)
    rw [hneedle]
    rfl
  | c :: t, h => by
    rw [cutAt?] at h
    split at h
    · rename_i hstrip
      obtain ⟨rfl, rfl⟩ := Prod.mk.inj (Option.some.inj h)
      rw [List.nil_append]
      exact stripStart?_eq_some_iff.1 hstrip
    · obtain ⟨⟨before', rest'⟩, hcut, hpair⟩ := Option.map_eq_some_iff.1 h
      obtain ⟨rfl, rfl⟩ := Prod.mk.inj hpair
      rw [eq_of_cutAt? hcut, List.cons_append]

/-- A text is cut at the first needle in it. -/
theorem isPrefix_of_cutAt? {before rest before' rest' t : Text}
    (h : cutAt? needle t = some (before, rest)) (ht : t = before' ++ (needle ++ rest')) :
    before <+: before' := by
  induction t generalizing before before' with
  | nil =>
    rw [cutAt?] at h
    split_ifs at h
    obtain ⟨rfl, -⟩ := Prod.mk.inj (Option.some.inj h)
    exact List.nil_prefix
  | cons c t ih =>
    rw [cutAt?] at h
    split at h
    · obtain ⟨rfl, -⟩ := Prod.mk.inj (Option.some.inj h)
      exact List.nil_prefix
    · rename_i hstrip
      obtain ⟨⟨front, rest⟩, hcut, hpair⟩ := Option.map_eq_some_iff.1 h
      obtain ⟨rfl, rfl⟩ := Prod.mk.inj hpair
      rcases before' with _ | ⟨d, front'⟩
      · rw [ht, List.nil_append, stripStart?_append] at hstrip
        simp at hstrip
      · obtain ⟨rfl, htail⟩ := List.cons.inj ht
        exact (List.prefix_cons_inj c).2 (ih hcut htail)

/-- A text is cut at a needle if none is complete before the last character of this one. -/
theorem cutAt?_append (rest : Text) : ∀ {before : Text},
    ¬ needle.IsInfix (before ++ needle.dropLast) →
      cutAt? needle (before ++ (needle ++ rest)) = some (before, rest)
  | [], h => by
    obtain ⟨c, t, hc⟩ : ∃ c t, needle = c :: t := by
      rcases needle with _ | ⟨c, t⟩
      · exact absurd List.nil_infix h
      · exact ⟨c, t, rfl⟩
    have hstrip := stripStart?_append needle rest
    rw [hc, List.cons_append] at hstrip
    simp only [List.nil_append, hc, List.cons_append, cutAt?, hstrip]
  | c :: before, h => by
    have hrest : ¬ needle.IsInfix (before ++ needle.dropLast) :=
      fun hinfix => h (List.infix_cons hinfix)
    rw [List.cons_append, cutAt?]
    rcases hstrip : stripStart? needle (c :: (before ++ (needle ++ rest))) with _ | behind
    · simp only [cutAt?_append rest hrest, Option.map_some]
    · -- A needle that stood here would be complete before the last character of the one behind.
      have hearly : needle <+: c :: before ++ (needle ++ rest) :=
        ⟨behind, (stripStart?_eq_some_iff.1 hstrip).symm⟩
      have hcut : c :: before ++ needle.dropLast <+: c :: before ++ (needle ++ rest) :=
        (List.prefix_append_right_inj _).2 ((List.dropLast_prefix _).trans (List.prefix_append _ _))
      have hlength : needle.length ≤ (c :: before ++ needle.dropLast).length := by
        simp only [List.length_append, List.length_cons, List.length_dropLast]
        omega
      exact absurd (List.prefix_of_prefix_length_le hearly hcut hlength).isInfix h

end Cutting

end Text

end DidYouMean
