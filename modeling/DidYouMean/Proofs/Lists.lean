import DidYouMean.Text
import Mathlib.Data.List.Basic
import Mathlib.Data.List.Forall2
import Mathlib.Tactic.SplitIfs

/-!
# Lists

Filtering leaves what nothing comes of without effect, and a look-up only sees the entries of its
own key. Taking repetitions out of a list leaves each element once, part by part where the parts of
the list have nothing in common. A stable sort commutes with filtering (`filter_mergeSort`), so
what is dropped beforehand might as well be dropped afterwards. A function that need not give
anything maps a list if it gives something for each element (`mapM_eq_some_iff`).
-/

namespace DidYouMean

section

variable {α β : Type}

theorem filterMap_filter_of_none {keep : α → Bool} {f : α → Option β} {l : List α}
    (h : ∀ a ∈ l, keep a = false → f a = none) : (l.filter keep).filterMap f = l.filterMap f := by
  rw [List.filterMap_filter]
  refine List.filterMap_congr fun a ha => ?_
  split_ifs with hkeep
  · rfl
  · exact (h a ha (by simpa using hkeep)).symm

theorem flatMap_filter_of_nil {keep : α → Bool} {f : α → List β} : ∀ {l : List α},
    (∀ a ∈ l, keep a = false → f a = []) → (l.filter keep).flatMap f = l.flatMap f
  | [], _ => rfl
  | a :: l, h => by
    have ih := flatMap_filter_of_nil fun b hb => h b (List.mem_cons_of_mem _ hb)
    rw [List.filter_cons, List.flatMap_cons, ← ih]
    split_ifs with hkeep
    · rw [List.flatMap_cons]
    · rw [h a List.mem_cons_self (by simpa using hkeep), List.nil_append]

theorem mapM_eq_some_iff {f : α → Option β} : ∀ {as : List α} {bs : List β},
    as.mapM f = some bs ↔ List.Forall₂ (fun a b => f a = some b) as bs
  | [], bs => by
    rw [List.mapM_nil, List.forall₂_nil_left_iff, Option.pure_def, Option.some.injEq]
    exact eq_comm
  | a :: as, bs => by
    simp only [List.mapM_cons, Option.bind_eq_bind, Option.bind_eq_some_iff, Option.pure_def,
      Option.some.injEq, mapM_eq_some_iff, List.forall₂_cons_left_iff]
    constructor
    · rintro ⟨b, hb, bs, hbs, rfl⟩
      exact ⟨b, bs, hb, hbs, rfl⟩
    · rintro ⟨b, bs, hb, hbs, rfl⟩
      exact ⟨b, hb, bs, hbs, rfl⟩

theorem exists_mapM {f : α → Option β} : ∀ {as : List α},
    (∀ a ∈ as, ∃ b, f a = some b) → ∃ bs, as.mapM f = some bs
  | [], _ => ⟨[], rfl⟩
  | a :: as, h => by
    obtain ⟨b, hb⟩ := h a List.mem_cons_self
    obtain ⟨bs, hbs⟩ := exists_mapM fun a' ha' => h a' (List.mem_cons_of_mem _ ha')
    exact ⟨b :: bs, by rw [List.mapM_cons, hb, hbs]; rfl⟩

theorem getLast?_filter_eq_some_iff {keep : α → Bool} {l : List α} {a : α} :
    (l.filter keep).getLast? = some a ↔ keep a = true
      ∧ ∃ before after, l = before ++ a :: after ∧ ∀ b ∈ after, keep b = false := by
  rw [List.getLast?_filter, List.find?_eq_some_iff_append]
  refine and_congr_right fun _ => ⟨?_, ?_⟩
  · rintro ⟨before, after, hl, hbefore⟩
    refine ⟨after.reverse, before.reverse, ?_, by simpa using hbefore⟩
    rw [← List.reverse_reverse l, hl]
    simp
  · rintro ⟨before, after, rfl, hafter⟩
    exact ⟨after.reverse, before.reverse, by simp, by simpa using hafter⟩

/-- Of a list that is sorted so that nothing kept comes behind something dropped, filtering leaves
a beginning. -/
theorem filter_isPrefix {r : α → α → Prop} {keep : α → Bool}
    (hkeep : ∀ a b, r a b → keep b = true → keep a = true) : ∀ {l : List α}, l.Pairwise r →
      l.filter keep <+: l
  | [], _ => List.prefix_refl []
  | a :: l, h => by
    obtain ⟨ha, hl⟩ := List.pairwise_cons.1 h
    rw [List.filter_cons]
    split_ifs with hhead
    · exact (List.prefix_cons_inj a).2 (filter_isPrefix hkeep hl)
    · rw [List.filter_eq_nil_iff.2 fun b hb hb' => hhead (hkeep a b (ha b hb) hb')]
      exact List.nil_prefix

section StableSort

variable {le : α → α → Bool}

/-- A stable sort puts the head of a list in front of the first element it is not after. -/
theorem mergeSort_cons_eq (trans : ∀ a b c, le a b = true → le b c = true → le a c = true)
    (total : ∀ a b, (le a b || le b a) = true) (a : α) (l : List α) :
    (a :: l).mergeSort le
      = (l.mergeSort le).filter (fun b => !le a b) ++ a :: (l.mergeSort le).filter (le a ·) := by
  obtain ⟨before, after, hsort, hrest, hbefore⟩ := List.mergeSort_cons trans total a l
  have hsorted := List.pairwise_mergeSort trans total (a :: l)
  rw [hsort, List.pairwise_append, List.pairwise_cons] at hsorted
  have hafter : ∀ b ∈ after, le a b = true := hsorted.2.1.1
  have hbefore' : ∀ b ∈ before, ¬ le a b = true := fun b hb => by simpa using hbefore b hb
  rw [hsort, hrest, List.filter_append, List.filter_append, List.filter_eq_self.2 hbefore,
    List.filter_eq_nil_iff.2 hbefore', List.filter_eq_self.2 hafter,
    List.filter_eq_nil_iff.2 fun b hb => by simp [hafter b hb], List.append_nil, List.nil_append]

/-- What a stable sort does to some elements does not depend on the others. -/
theorem filter_mergeSort (trans : ∀ a b c, le a b = true → le b c = true → le a c = true)
    (total : ∀ a b, (le a b || le b a) = true) (keep : α → Bool) : ∀ l : List α,
    (l.mergeSort le).filter keep = (l.filter keep).mergeSort le
  | [] => by simp
  | a :: l => by
    have ih := filter_mergeSort trans total keep l
    -- Where the head goes is decided by `le` alone, so it does not matter which filter comes first.
    by_cases ha : keep a = true
    · have hcomm : ∀ p : α → Bool, ((l.mergeSort le).filter p).filter keep
          = ((l.filter keep).mergeSort le).filter p := by
        intro p
        simp only [← ih, List.filter_filter, Bool.and_comm]
      rw [mergeSort_cons_eq trans total, List.filter_append, List.filter_cons_of_pos ha,
        List.filter_cons_of_pos ha, mergeSort_cons_eq trans total, hcomm, hcomm]
    · obtain ⟨before, after, hsort, hrest, -⟩ := List.mergeSort_cons trans total a l
      rw [List.filter_cons_of_neg ha, ← ih, hsort, hrest, List.filter_append, List.filter_append,
        List.filter_cons_of_neg ha]

end StableSort

variable [BEq α] [LawfulBEq α]

theorem lookup_filter_key (keep : α → Bool) (key : α) : ∀ entries : List (α × β),
    (entries.filter fun entry => keep entry.1).lookup key
      = if keep key then entries.lookup key else none
  | [] => by simp
  | (k, value) :: entries => by
    have ih := lookup_filter_key keep key entries
    rw [List.filter_cons, List.lookup_cons]
    by_cases hkey : key = k
    · subst hkey
      rw [beq_self_eq_true]
      split_ifs with hkeep
      · rw [List.lookup_cons, beq_self_eq_true]
      · rw [ih, if_neg hkeep]
    · rw [beq_eq_false_iff_ne.2 hkey, ← ih]
      split_ifs
      · rw [List.lookup_cons, beq_eq_false_iff_ne.2 hkey]
      · rfl

theorem mem_of_lookup {key : α} {value : β} {entries : List (α × β)}
    (h : entries.lookup key = some value) : (key, value) ∈ entries := by
  obtain ⟨before, after, rfl, -⟩ := List.lookup_eq_some_iff.1 h
  exact List.mem_append_right _ List.mem_cons_self

theorem exists_lookup {key : α} {entries : List (α × β)} (h : key ∈ entries.map Prod.fst) :
    ∃ value, entries.lookup key = some value := by
  obtain ⟨entry, hentry, rfl⟩ := List.mem_map.1 h
  have hsome : (entries.lookup entry.1).isSome = true :=
    List.lookup_isSome_iff.2 ⟨entry, hentry, beq_self_eq_true _⟩
  exact Option.isSome_iff_exists.1 hsome

theorem nodup_eraseDups : ∀ l : List α, l.eraseDups.Nodup
  | [] => by simp
  | a :: l => by
    rw [List.eraseDups_cons, List.nodup_cons, List.mem_eraseDups, List.mem_filter]
    exact ⟨by simp, nodup_eraseDups _⟩
termination_by l => l.length
decreasing_by exact Nat.lt_succ_of_le (List.length_filter_le _ _)

theorem eraseDups_of_nodup : ∀ {l : List α}, l.Nodup → l.eraseDups = l
  | [], _ => rfl
  | a :: l, h => by
    obtain ⟨ha, hl⟩ := List.nodup_cons.1 h
    have hothers : l.filter (fun b => !b == a) = l := by
      rw [List.filter_eq_self]
      intro b hb
      simpa using ne_of_mem_of_not_mem hb ha
    rw [List.eraseDups_cons, hothers, eraseDups_of_nodup hl]

theorem eraseDups_concat (l : List α) (a : α) :
    (l ++ [a]).eraseDups = if a ∈ l then l.eraseDups else l.eraseDups ++ [a] := by
  rw [List.eraseDups_append, List.removeAll, List.filter_cons, List.filter_nil]
  split_ifs with hnew hmem hmem
  · simp [hmem] at hnew
  · rfl
  · rw [List.eraseDups_nil, List.append_nil]
  · simp [hmem] at hnew

theorem eraseDups_flatMap {f : β → List α} : ∀ {l : List β},
    l.Pairwise (fun b b' => ∀ a ∈ f b, a ∉ f b') →
      (l.flatMap f).eraseDups = l.flatMap fun b => (f b).eraseDups
  | [], _ => rfl
  | b :: l, h => by
    obtain ⟨hb, hl⟩ := List.pairwise_cons.1 h
    have hothers : (l.flatMap f).removeAll (f b) = l.flatMap f := by
      rw [List.removeAll, List.filter_eq_self]
      intro a ha
      obtain ⟨b', hb', ha⟩ := List.mem_flatMap.1 ha
      simpa using fun hmem => hb b' hb' a hmem ha
    rw [List.flatMap_cons, List.flatMap_cons, List.eraseDups_append, hothers, eraseDups_flatMap hl]

end

namespace Text

variable {a b c : Text}

theorem notAfter_iff : notAfter a b = true ↔ ¬ b < a := by
  rw [notAfter, Bool.not_eq_true', decide_eq_false_iff_not]

theorem notAfter_trans (hab : notAfter a b = true) (hbc : notAfter b c = true) :
    notAfter a c = true := by
  rw [notAfter_iff, List.not_lt] at *
  exact List.le_trans hab hbc

theorem notAfter_total (a b : Text) : notAfter a b = true ∨ notAfter b a = true := by
  simp only [notAfter_iff, List.not_lt]
  exact List.le_total a b

theorem pairwise_sort (ts : List Text) : (sort ts).Pairwise fun a b => notAfter a b = true := by
  refine List.pairwise_mergeSort (fun a b c => ?_) (fun a b => ?_) ts
  · exact notAfter_trans
  · rw [Bool.or_eq_true]
    exact notAfter_total a b

theorem sort_perm (ts : List Text) : (sort ts).Perm ts := List.mergeSort_perm ts _

theorem sort_congr {ts us : List Text} (h : ts.Perm us) : sort ts = sort us := by
  refine List.Perm.eq_of_pairwise (fun a b _ _ hab hba => ?_) (pairwise_sort ts) (pairwise_sort us)
    ((sort_perm ts).trans (h.trans (sort_perm us).symm))
  rw [notAfter_iff, List.not_lt] at hab hba
  exact List.le_antisymm hab hba

theorem sort_eq_of_perm {ts us : List Text} (h : ts.Perm us)
    (hsorted : us.Pairwise fun a b => notAfter a b = true) : sort ts = us :=
  (sort_congr h).trans (List.mergeSort_of_pairwise hsorted)

/-- Texts of which none is repeated are sorted strictly. -/
theorem pairwise_lt_sort {ts : List Text} (h : ts.Nodup) : (sort ts).Pairwise (· < ·) := by
  have hne : (sort ts).Pairwise (· ≠ ·) := (sort_perm ts).nodup_iff.2 h
  refine ((pairwise_sort ts).and hne).imp fun {a b} hab => ?_
  have hle := hab.1
  rw [notAfter_iff, List.not_lt] at hle
  exact (List.le_iff_lt_or_eq.1 hle).resolve_right hab.2

theorem sort_filter (keep : Text → Bool) (ts : List Text) :
    (sort ts).filter keep = sort (ts.filter keep) := by
  refine filter_mergeSort (fun a b c => ?_) (fun a b => ?_) keep ts
  · exact notAfter_trans
  · rw [Bool.or_eq_true]
    exact notAfter_total a b

end Text

end DidYouMean
