import DidYouMean.Proofs.Extensions
import Mathlib.Data.List.Induction
import Mathlib.Data.List.Nodup
import Mathlib.Data.Nat.Find
import Mathlib.Logic.Function.Iterate

/-!
# The directories above

Walking upwards comes to the directories that `dirname` leads to and to no others
(`mem_ancestors_iff`), and the first one that passes a test is the one that the fewest steps lead
to (`find?_ancestors_eq_some_iff`). It does not matter that the walk stops at a fixed point, since
from there more steps lead nowhere else. Below an absolute directory in normal form every path in
normal form has that directory above it (`Collapsed.mem_ancestors`).
-/

namespace DidYouMean

namespace Path

variable {p d : Text}

/-- To say something of every path it is enough to say it of each from the one above. -/
@[elab_as_elim]
theorem upward_induction {motive : Text → Prop} (p : Text)
    (up : ∀ p, (dirname p ≠ p → motive (dirname p)) → motive p) : motive p :=
  ancestors.induct motive up p

@[simp] theorem self_mem_ancestors (p : Text) : p ∈ ancestors p := by
  rw [ancestors]
  exact List.mem_cons_self

theorem mem_ancestors : d ∈ ancestors p ↔ d = p ∨ dirname p ≠ p ∧ d ∈ ancestors (dirname p) := by
  rw [ancestors, List.mem_cons]
  split_ifs with htop <;> simp [htop]

/-- What holds of a path and passes on to the directory above holds all the way up. -/
theorem ancestors_induction {motive : Text → Prop} (h : d ∈ ancestors p)
    (start : motive p) (up : ∀ e, motive e → motive (dirname e)) : motive d := by
  induction p using upward_induction with
  | up p ih =>
    rcases mem_ancestors.1 h with rfl | ⟨htop, h⟩
    · exact start
    · exact ih htop h (up p start)

theorem dirname_mem_ancestors (h : d ∈ ancestors p) : dirname d ∈ ancestors p := by
  induction p using upward_induction with
  | up p ih =>
    rw [mem_ancestors] at h ⊢
    rcases h with rfl | ⟨htop, h⟩
    · by_cases htop : dirname d = d
      · exact .inl htop
      · exact .inr ⟨htop, self_mem_ancestors _⟩
    · exact .inr ⟨htop, ih htop h⟩

theorem ancestors_subset (h : d ∈ ancestors p) : ancestors d ⊆ ancestors p := by
  intro e he
  exact ancestors_induction (motive := (· ∈ ancestors p)) he h fun _ => dirname_mem_ancestors

theorem climb_le_of_mem_ancestors (h : d ∈ ancestors p) : climb d ≤ climb p := by
  refine ancestors_induction (motive := fun e => climb e ≤ climb p) h le_rfl fun e he => ?_
  by_cases htop : dirname e = e
  · rwa [htop]
  · exact (climb_dirname_lt htop).le.trans he

/-- The walk upwards does not come back to where it was. -/
theorem not_mem_ancestors_dirname (h : dirname p ≠ p) : p ∉ ancestors (dirname p) := by
  intro hp
  have hle := climb_le_of_mem_ancestors hp
  have hlt := climb_dirname_lt h
  omega

theorem nodup_ancestors (p : Text) : (ancestors p).Nodup := by
  induction p using upward_induction with
  | up p ih =>
    rw [ancestors]
    split_ifs with htop
    · exact List.nodup_singleton p
    · exact List.nodup_cons.2 ⟨not_mem_ancestors_dirname htop, ih htop⟩

theorem mem_ancestors_iff : d ∈ ancestors p ↔ ∃ k, dirname^[k] p = d := by
  constructor
  · intro h
    refine ancestors_induction (motive := fun e => ∃ k, dirname^[k] p = e) h ⟨0, rfl⟩ ?_
    rintro e ⟨k, rfl⟩
    exact ⟨k + 1, Function.iterate_succ_apply' _ _ _⟩
  · rintro ⟨k, rfl⟩
    induction k with
    | zero => exact self_mem_ancestors p
    | succ k ih =>
      rw [Function.iterate_succ_apply']
      exact dirname_mem_ancestors ih

theorem any_ancestors_iff {test : Text → Bool} :
    (ancestors p).any test = true ↔ ∃ k, test (dirname^[k] p) = true := by
  simp only [List.any_eq_true, mem_ancestors_iff, exists_exists_eq_and]

theorem ancestors_of_ne (h : dirname p ≠ p) : ancestors p = p :: ancestors (dirname p) := by
  rw [ancestors, dif_neg h]

theorem dirname_eq_self_iff : dirname p = p ↔ p = ['/'] ∨ p = ['.'] := by
  constructor
  · intro h
    rcases dirname_cases p with hd | hd | hd
    · exact .inr (h.symm.trans hd)
    · exact .inl (h.symm.trans hd)
    · exact absurd (congrArg List.length h) hd.ne
  · rintro (rfl | rfl) <;> rfl

theorem climb_le (p : Text) : climb p ≤ p.length + 1 := by
  unfold climb
  split_ifs <;> omega

/-- The walk looks at what each number of steps leads to, up to a fixed point. -/
theorem exists_top (p : Text) : ∃ k ≤ climb p, dirname (dirname^[k] p) = dirname^[k] p
    ∧ ancestors p = (List.range (k + 1)).map (dirname^[·] p) := by
  induction p using upward_induction with
  | up p ih =>
    by_cases htop : dirname p = p
    · exact ⟨0, Nat.zero_le _, htop, by rw [ancestors, dif_pos htop]; rfl⟩
    · obtain ⟨k, hk, hfixed, hwalk⟩ := ih htop
      refine ⟨k + 1, hk.trans_lt (climb_dirname_lt htop), hfixed, ?_⟩
      rw [ancestors_of_ne htop, hwalk, List.range_succ_eq_map (n := k + 1), List.map_cons,
        List.map_map]
      rfl

/-- A walk upwards ends with what the fewest steps lead to that passes the test. -/
theorem find?_ancestors {test : Text → Bool} : ∀ {k : Nat} {p : Text},
    test (dirname^[k] p) = true → (∀ j < k, test (dirname^[j] p) = false) →
      (ancestors p).find? test = some (dirname^[k] p)
  | 0, p, h, _ => by
    rw [Function.iterate_zero_apply] at h ⊢
    rw [ancestors, List.find?_cons_of_pos h]
  | k + 1, p, h, hbefore => by
    have hp : test p = false := hbefore 0 k.succ_pos
    -- From a fixed point the steps lead nowhere else, so the test would pass at once.
    have htop : dirname p ≠ p := by
      intro htop
      rw [Function.iterate_fixed htop, hp] at h
      exact Bool.false_ne_true h
    rw [ancestors_of_ne htop, List.find?_cons_of_neg (by simp [hp]), Function.iterate_succ_apply]
    exact find?_ancestors h fun j hj => hbefore (j + 1) (Nat.succ_lt_succ hj)

theorem find?_ancestors_eq_some_iff {test : Text → Bool} :
    (ancestors p).find? test = some d ↔
      ∃ k, dirname^[k] p = d ∧ test d = true ∧ ∀ j < k, test (dirname^[j] p) = false := by
  constructor
  · intro h
    have hpasses : ∃ k, test (dirname^[k] p) = true := by
      obtain ⟨k, hk⟩ := mem_ancestors_iff.1 (List.mem_of_find?_eq_some h)
      exact ⟨k, by rw [hk, List.find?_some h]⟩
    have hbefore : ∀ j < Nat.find hpasses, test (dirname^[j] p) = false := fun j hj => by
      simpa using Nat.find_min hpasses hj
    rw [find?_ancestors (Nat.find_spec hpasses) hbefore, Option.some.injEq] at h
    exact ⟨Nat.find hpasses, h, h ▸ Nat.find_spec hpasses, hbefore⟩
  · rintro ⟨k, rfl, h, hbefore⟩
    exact find?_ancestors h hbefore

theorem find?_ancestors_eq_none_iff {test : Text → Bool} :
    (ancestors p).find? test = none ↔ ∀ k, test (dirname^[k] p) = false := by
  simp only [List.find?_eq_none, mem_ancestors_iff, Bool.not_eq_true, forall_exists_index,
    forall_apply_eq_imp_iff]

/-- The path is the directory or lies below it. -/
def AtOrBelow (directory p : Text) : Prop := ∃ rest, p = join directory rest

theorem AtOrBelow.refl (p : Text) : AtOrBelow p p := ⟨[], by simp [join]⟩

theorem lead_append {way : Text} (hway : way ≠ []) (base : Text) :
    lead (base ++ way) = base ++ lead way := by
  simp only [lead, List.append_eq_nil_iff, hway, and_false, false_or,
    List.getLast?_append_of_ne_nil _ hway]
  split_ifs
  · rfl
  · exact List.append_assoc _ _ _

theorem join_assoc (base way rest : Text) :
    join (join base way) rest = join base (join way rest) := by
  by_cases hrest : rest = []
  · simp [join, hrest]
  · by_cases hway : way = []
    · simp [join, hway, hrest]
    · have hjoined : join way rest ≠ [] := by simp [join_eq_lead hrest, hrest]
      rw [join_eq_lead hrest, join_eq_lead hway, join_eq_lead hjoined, join_eq_lead hrest,
        lead_append hway, List.append_assoc]

theorem AtOrBelow.trans {e : Text} (hd : AtOrBelow d e) (he : AtOrBelow e p) : AtOrBelow d p := by
  obtain ⟨way, rfl⟩ := hd
  obtain ⟨rest, rfl⟩ := he
  exact ⟨join way rest, join_assoc d way rest⟩

/-- The walk from an absolute path takes away one segment after the other. -/
theorem ancestors_rooted {segments : List Text} (h : ∀ s ∈ segments, Plain s) :
    ancestors (rooted segments) = segments.inits.reverse.map rooted := by
  induction segments using List.reverseRecOn with
  | nil =>
    have htop : dirname (rooted []) = rooted [] := rfl
    rw [ancestors, dif_pos htop]
    rfl
  | append_singleton segments name ih =>
    have hname := h name (by simp)
    have hsegments : ∀ s ∈ segments, Plain s := fun s hs => h s (List.mem_append_left _ hs)
    have hup : dirname (rooted (segments ++ [name])) = rooted segments :=
      dirname_rooted_concat hname.nonempty hname.no_slash
    have hne : dirname (rooted (segments ++ [name])) ≠ rooted (segments ++ [name]) := by
      intro heq
      have hsame := congrArg collapsedSegments (hup.symm.trans heq)
      rw [collapsedSegments_rooted hsegments, collapsedSegments_rooted h] at hsame
      simp at hsame
    rw [ancestors_of_ne hne, hup, ih hsegments]
    simp [List.inits_append]

theorem rooted_mem_ancestors {segments below : List Text}
    (h : ∀ s ∈ segments ++ below, Plain s) :
    rooted segments ∈ ancestors (rooted (segments ++ below)) := by
  rw [ancestors_rooted h]
  refine List.mem_map_of_mem ?_
  simp

/-- The segments of a path that are not empty. -/
def names (p : Text) : List Text := (Text.splitOn '/' p).filter (· != [])

@[simp] theorem names_nil : names [] = [] := rfl

theorem names_rooted {segments : List Text} (h : ∀ s ∈ segments, Plain s) :
    names (rooted segments) = segments := by
  by_cases hne : segments = []
  · rw [hne]
    rfl
  · rw [names, splitOn_rooted hne fun s hs => (h s hs).no_slash,
      List.filter_cons_of_neg (by simp), List.filter_eq_self]
    intro s hs
    simpa using (h s hs).nonempty

@[simp] theorem names_append_slash (p q : Text) : names (p ++ '/' :: q) = names p ++ names q := by
  rw [names, Text.splitOn_append_sep, List.filter_append, names, names]

@[simp] theorem names_join (base segment : Text) :
    names (join base segment) = names base ++ names segment := by
  rw [join]
  split_ifs with hsegment hbase hlast
  · rw [hsegment, names_nil, List.append_nil]
  · rw [hbase, names_nil, List.nil_append]
  · -- The separator the base ends with is the one between the two.
    obtain ⟨init, rfl⟩ := List.getLast?_eq_some_iff.1 hlast
    rw [List.append_assoc, List.singleton_append, names_append_slash, names_append_slash,
      names_nil, List.append_nil]
  · exact names_append_slash base segment

/-- A directory is above every path in normal form that lies below it. -/
theorem Collapsed.mem_ancestors (hd : Collapsed d) (hp : Collapsed p) (h : AtOrBelow d p) :
    d ∈ ancestors p := by
  obtain ⟨segments, hplain, rfl⟩ := exists_rooted hd.absolute hd.fixed
  obtain ⟨segments', hplain', rfl⟩ := exists_rooted hp.absolute hp.fixed
  obtain ⟨rest, hrest⟩ := h
  -- What is joined to the directory may be written in any way; only its names count.
  have hsegments : segments' = segments ++ names rest := by
    rw [← names_rooted hplain', hrest, names_join, names_rooted hplain]
  rw [hsegments] at hplain' ⊢
  exact rooted_mem_ancestors hplain'

/-- The directories above a path in normal form are those in normal form that it lies below. -/
theorem Collapsed.mem_ancestors_iff (hp : Collapsed p) :
    d ∈ ancestors p ↔ Collapsed d ∧ AtOrBelow d p := by
  constructor
  · intro h
    refine ancestors_induction (motive := fun e => Collapsed e ∧ AtOrBelow e p) h
      ⟨hp, .refl p⟩ fun e he => ⟨he.1.dirname, ?_⟩
    by_cases htop : Path.dirname e = e
    · rw [htop]
      exact he.2
    · exact .trans ⟨fileName e, (he.1.join_dirname_fileName htop).symm⟩ he.2
  · rintro ⟨hd, hbelow⟩
    exact hd.mem_ancestors hp hbelow

end Path

end DidYouMean
