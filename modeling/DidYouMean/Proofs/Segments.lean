import DidYouMean.Path
import Mathlib.Data.List.Basic
import Mathlib.Tactic.SplitIfs

/-!
# Paths as segments

Cutting at the separator undoes joining (`splitOn_join`), so an absolute path in normal form is as
good as its list of segments. Each of these is plain: no empty one, no `.` and no `..` is left.
Collapsing keeps a stack of such segments, with a run of `..` below them if the path is relative
(`settled_collapseStep`), gives back the path of those on the stack, and leaves an absolute path of
plain segments alone (`collapse_rooted`). The directory and the file name of a path of segments are
all but the last one and the last one, and joining puts them together again (`join_rooted`).
-/

namespace DidYouMean

namespace Text

@[simp] theorem splitOn_ne_nil (sep : Char) : ∀ t : Text, splitOn sep t ≠ []
  | [] => by simp [splitOn]
  | c :: t => by
    simp only [splitOn]
    split_ifs
    · simp
    · split <;> simp

@[simp] theorem splitOn_append_sep (sep : Char) (t : Text) : ∀ s : Text,
    splitOn sep (s ++ sep :: t) = splitOn sep s ++ splitOn sep t
  | [] => by simp [splitOn]
  | c :: s => by
    have ih := splitOn_append_sep sep t s
    simp only [List.cons_append, splitOn, ih]
    split_ifs
    · rfl
    · rcases hs : splitOn sep s with _ | ⟨piece, pieces⟩
      · exact absurd hs (splitOn_ne_nil sep s)
      · rfl

theorem splitOn_of_not_mem {sep : Char} : ∀ {t : Text}, sep ∉ t → splitOn sep t = [t]
  | [], _ => rfl
  | c :: t, h => by
    rw [List.mem_cons, not_or] at h
    simp only [splitOn, if_neg (Ne.symm h.1), splitOn_of_not_mem h.2]

theorem not_mem_of_mem_splitOn {sep : Char} {piece : Text} : ∀ {t : Text},
    piece ∈ splitOn sep t → sep ∉ piece
  | [], h => by
    rw [splitOn, List.mem_singleton] at h
    simp [h]
  | c :: t, h => by
    have ih : ∀ piece ∈ splitOn sep t, sep ∉ piece := fun _ => not_mem_of_mem_splitOn
    simp only [splitOn] at h
    split_ifs at h with hc
    · rcases List.mem_cons.1 h with rfl | h
      · exact List.not_mem_nil
      · exact ih _ h
    · rcases ht : splitOn sep t with _ | ⟨first, pieces⟩
      · exact absurd ht (splitOn_ne_nil sep t)
      · rw [ht] at h ih
        rcases List.mem_cons.1 h with rfl | h
        · rw [List.mem_cons, not_or]
          exact ⟨Ne.symm hc, ih _ List.mem_cons_self⟩
        · exact ih _ (List.mem_cons_of_mem _ h)

@[simp] theorem join_cons_cons (sep piece piece' : Text) (pieces : List Text) :
    join sep (piece :: piece' :: pieces) = piece ++ sep ++ join sep (piece' :: pieces) := rfl

theorem splitOn_join {sep : Char} : ∀ {pieces : List Text}, pieces ≠ [] →
    (∀ piece ∈ pieces, sep ∉ piece) → splitOn sep (join [sep] pieces) = pieces
  | [piece], _, h => by
    rw [join]
    exact splitOn_of_not_mem (h piece List.mem_cons_self)
  | piece :: piece' :: pieces, _, h => by
    have ih := splitOn_join (List.cons_ne_nil piece' pieces)
      fun p hp => h p (List.mem_cons_of_mem _ hp)
    rw [join_cons_cons, List.append_assoc, List.singleton_append, splitOn_append_sep, ih,
      splitOn_of_not_mem (h piece List.mem_cons_self), List.singleton_append]

theorem join_concat (sep last : Text) : ∀ {pieces : List Text}, pieces ≠ [] →
    join sep (pieces ++ [last]) = join sep pieces ++ sep ++ last
  | [piece], _ => by simp [join]
  | piece :: piece' :: pieces, _ => by
    have ih := join_concat sep last (List.cons_ne_nil piece' pieces)
    simp only [List.cons_append, join_cons_cons] at ih ⊢
    rw [ih]
    simp only [List.append_assoc]

end Text

namespace Path

/-- A segment that collapsing keeps as it is. -/
structure Plain (s : Text) : Prop where
  nonempty : s ≠ []
  ne_dot : s ≠ ['.']
  ne_dots : s ≠ ['.', '.']
  no_slash : '/' ∉ s

theorem Plain.of_head?_ne {s : Text} (hne : s ≠ []) (hdot : s.head? ≠ some '.')
    (hslash : '/' ∉ s) : Plain s := by
  refine ⟨hne, ?_, ?_, hslash⟩
  · rintro rfl
    exact hdot rfl
  · rintro rfl
    exact hdot rfl

/-- The absolute path of some segments. -/
def rooted (segments : List Text) : Text := '/' :: Text.join ['/'] segments

theorem collapseStep_plain {absolute : Bool} {kept : List Text} {s : Text} (h : Plain s) :
    collapseStep absolute kept s = s :: kept := by
  simp [collapseStep, h.nonempty, h.ne_dot, h.ne_dots]

theorem foldl_collapseStep_plain {absolute : Bool} : ∀ {segments kept : List Text},
    (∀ s ∈ segments, Plain s) →
      segments.foldl (collapseStep absolute) kept = segments.reverse ++ kept
  | [], _, _ => rfl
  | s :: segments, kept, h => by
    rw [List.foldl_cons, collapseStep_plain (h s List.mem_cons_self),
      foldl_collapseStep_plain fun p hp => h p (List.mem_cons_of_mem _ hp)]
    simp

/-- A segment that collapsing leaves: a plain one, or a `..` where there is nothing to take back. -/
def Kept (absolute : Bool) (s : Text) : Prop := Plain s ∨ s = ['.', '.'] ∧ absolute = false

section Stack

variable {absolute : Bool} {kept : List Text} {s p : Text}

theorem mem_collapseStep (h : p ∈ collapseStep absolute kept s) : p ∈ kept ∨ p = s := by
  simp only [collapseStep] at h
  split at h
  · exact .inl h
  · split at h
    · split at h
      · split_ifs at h
        · exact .inl (List.mem_cons_of_mem _ h)
        · exact .inl h
        · exact (List.mem_cons.1 h).symm
      · split_ifs at h
        · exact .inl h
        · exact .inr (List.mem_singleton.1 h)
    · exact (List.mem_cons.1 h).symm

/-- What collapsing has on its stack: names above the `..` that lead out of where it started. -/
inductive Settled (absolute : Bool) : List Text → Prop where
  | climbs (k : Nat) : (absolute = true → k = 0) → Settled absolute (List.replicate k ['.', '.'])
  | name {s : Text} {kept : List Text} : Plain s → Settled absolute kept →
      Settled absolute (s :: kept)

theorem collapseStep_skip (h : s = [] ∨ s = ['.']) : collapseStep absolute kept s = kept := by
  simp only [collapseStep, if_pos h]

theorem collapseStep_climb {k : Nat} :
    collapseStep false (List.replicate k ['.', '.']) ['.', '.']
      = List.replicate (k + 1) ['.', '.'] := by
  rcases k with _ | k <;> simp [collapseStep, List.replicate_succ]

theorem settled_collapseStep (h : Settled absolute kept) (hs : '/' ∉ s) :
    Settled absolute (collapseStep absolute kept s) := by
  by_cases hskip : s = [] ∨ s = ['.']
  · rwa [collapseStep_skip hskip]
  · rw [not_or] at hskip
    by_cases hdots : s = ['.', '.']
    · -- A `..` takes back the name on top. Without one it joins the run, or is lost at the root.
      subst hdots
      rcases h with ⟨k, hk⟩ | ⟨hplain, hkept⟩
      · rcases absolute with _ | _
        · rw [collapseStep_climb]
          exact .climbs (k + 1) (by simp)
        · rw [hk rfl]
          exact .climbs 0 (by simp)
      · simpa [collapseStep, hplain.ne_dots] using hkept
    · have hplain : Plain s := ⟨hskip.1, hskip.2, hdots, hs⟩
      rw [collapseStep_plain hplain]
      exact .name hplain h

theorem settled_foldl : ∀ {segments kept : List Text}, Settled absolute kept →
    (∀ s ∈ segments, '/' ∉ s) → Settled absolute (segments.foldl (collapseStep absolute) kept)
  | [], _, h, _ => h
  | s :: segments, kept, h, hs => by
    rw [List.foldl_cons]
    exact settled_foldl (settled_collapseStep h (hs s List.mem_cons_self))
      fun p hp => hs p (List.mem_cons_of_mem _ hp)

/-- The stack that collapsing a path ends with. -/
theorem settled_splitOn (absolute : Bool) (p : Text) :
    Settled absolute ((Text.splitOn '/' p).foldl (collapseStep absolute) []) :=
  settled_foldl (.climbs 0 (by simp)) fun _ => Text.not_mem_of_mem_splitOn

theorem Settled.kept_of_mem (h : Settled absolute kept) : ∀ s ∈ kept, Kept absolute s := by
  induction h with
  | climbs k hk =>
    intro s hs
    rw [List.mem_replicate] at hs
    exact .inr ⟨hs.2, eq_false_of_ne_true fun habs => hs.1 (hk habs)⟩
  | name hplain _ ih =>
    intro s hs
    rcases List.mem_cons.1 hs with rfl | hs
    · exact .inl hplain
    · exact ih s hs

end Stack

theorem kept_collapsedSegments (p : Text) : ∀ s ∈ collapsedSegments p, Kept (isAbsolute p) s := by
  intro s hs
  rw [collapsedSegments, List.mem_reverse] at hs
  exact (settled_splitOn (isAbsolute p) p).kept_of_mem s hs

theorem plain_collapsedSegments {p : Text} (h : isAbsolute p = true) :
    ∀ s ∈ collapsedSegments p, Plain s := by
  intro s hs
  rcases kept_collapsedSegments p s hs with hplain | ⟨-, hrel⟩
  · exact hplain
  · rw [h] at hrel
    simp at hrel

theorem Kept.nonempty {absolute : Bool} {s : Text} (h : Kept absolute s) : s ≠ [] := by
  rcases h with h | ⟨rfl, -⟩
  · exact h.nonempty
  · simp

theorem Kept.ne_dot {absolute : Bool} {s : Text} (h : Kept absolute s) : s ≠ ['.'] := by
  rcases h with h | ⟨rfl, -⟩
  · exact h.ne_dot
  · simp

theorem Kept.no_slash {absolute : Bool} {s : Text} (h : Kept absolute s) : '/' ∉ s := by
  rcases h with h | ⟨rfl, -⟩
  · exact h.no_slash
  · simp

theorem isAbsolute_join_segments {segments : List Text} (h : ∀ s ∈ segments, s ≠ [] ∧ '/' ∉ s) :
    isAbsolute (Text.join ['/'] segments) = false := by
  rcases segments with _ | ⟨s, segments⟩
  · rfl
  · obtain ⟨hne, hslash⟩ := h s List.mem_cons_self
    obtain ⟨c, rest, rfl⟩ := List.exists_cons_of_ne_nil hne
    have hc : c ≠ '/' := fun hc => hslash (by simp [hc])
    rcases segments with _ | ⟨s', segments⟩ <;> simp [Text.join, isAbsolute, hc]

@[simp] theorem isAbsolute_collapse (p : Text) : isAbsolute (collapse p) = isAbsolute p := by
  have hsegments := kept_collapsedSegments p
  simp only [collapse]
  split_ifs with habs hempty
  · rw [habs]
    rfl
  · rw [Bool.not_eq_true] at habs
    rw [habs]
    rfl
  · rw [Bool.not_eq_true] at habs
    rw [habs, isAbsolute_join_segments fun s hs => ⟨(hsegments s hs).nonempty,
      (hsegments s hs).no_slash⟩]

theorem collapse_of_absolute {p : Text} (h : isAbsolute p = true) :
    collapse p = rooted (collapsedSegments p) := by
  simp [collapse, h, rooted]

@[simp] theorem isAbsolute_rooted (segments : List Text) : isAbsolute (rooted segments) = true := by
  simp [isAbsolute, rooted]

theorem splitOn_rooted {segments : List Text} (hne : segments ≠ [])
    (h : ∀ s ∈ segments, '/' ∉ s) : Text.splitOn '/' (rooted segments) = [] :: segments := by
  rw [rooted, Text.splitOn, if_pos rfl, Text.splitOn_join hne h]

theorem collapsedSegments_rooted {segments : List Text} (h : ∀ s ∈ segments, Plain s) :
    collapsedSegments (rooted segments) = segments := by
  by_cases hne : segments = []
  · subst hne
    rfl
  · rw [collapsedSegments, splitOn_rooted hne fun s hs => (h s hs).no_slash, List.foldl_cons,
      show ∀ absolute, collapseStep absolute [] [] = [] by simp [collapseStep],
      foldl_collapseStep_plain h]
    simp

theorem collapse_rooted {segments : List Text} (h : ∀ s ∈ segments, Plain s) :
    collapse (rooted segments) = rooted segments := by
  rw [collapse_of_absolute (isAbsolute_rooted _), collapsedSegments_rooted h]

/-- An absolute path in normal form is the path of its segments. -/
theorem exists_rooted {p : Text} (habs : isAbsolute p = true) (hp : collapse p = p) :
    ∃ segments, (∀ s ∈ segments, Plain s) ∧ p = rooted segments :=
  ⟨_, plain_collapsedSegments habs, by rw [← collapse_of_absolute habs, hp]⟩

/-- What stands before the first name on the way down from a root. -/
def lead (root : Text) : Text :=
  if root = [] ∨ root.getLast? = some '/' then root else root ++ ['/']

theorem join_eq_lead {root name : Text} (hname : name ≠ []) :
    join root name = lead root ++ name := by
  unfold join lead
  by_cases hempty : root = []
  · simp [hname, hempty]
  · by_cases hlast : root.getLast? = some '/' <;> simp [hname, hempty, hlast]

theorem rooted_concat (segments : List Text) (name : Text) :
    rooted (segments ++ [name])
      = (if segments = [] then [] else rooted segments) ++ '/' :: name := by
  split_ifs with hne
  · rw [hne]
    rfl
  · simp [rooted, Text.join_concat _ _ hne]

theorem join_rooted {segments : List Text} {name : Text}
    (h : ∀ s ∈ segments, s ≠ [] ∧ '/' ∉ s) (hne : name ≠ []) :
    join (rooted segments) name = rooted (segments ++ [name]) := by
  rw [rooted_concat]
  rcases List.eq_nil_or_concat' segments with rfl | ⟨init, last, rfl⟩
  · simp [join, rooted, Text.join, hne]
  · obtain ⟨hlast, hslash⟩ := h last (by simp)
    have hend : (rooted (init ++ [last])).getLast? ≠ some '/' := by
      obtain ⟨front, c, rfl⟩ := List.eq_nil_or_concat' last |>.resolve_left hlast
      have hc : c ≠ '/' := fun hc => hslash (by simp [hc])
      rw [rooted_concat, ← List.cons_append, ← List.append_assoc, List.getLast?_concat]
      simpa using hc
    rw [join, if_neg hne, if_neg (by simp [rooted]), if_neg hend, if_neg (by simp)]

theorem bne_slash_of_mem {name : Text} (h : '/' ∉ name) : ∀ c ∈ name, (c != '/') = true := by
  intro c hc
  rw [bne_iff_ne]
  exact ne_of_mem_of_not_mem hc h

theorem bne_slash_of_mem_reverse {name : Text} (h : '/' ∉ name) :
    ∀ c ∈ name.reverse, (c != '/') = true :=
  bne_slash_of_mem (by rwa [List.mem_reverse])

@[simp] theorem fileName_append_slash {above name : Text} (h : '/' ∉ name) :
    fileName (above ++ '/' :: name) = name := by
  have htake : (name.reverse ++ '/' :: above.reverse).takeWhile (· != '/') = name.reverse := by
    rw [List.takeWhile_append_of_pos (bne_slash_of_mem_reverse h)]
    simp
  simp [fileName, Text.takeEndWhile, htake]

@[simp] theorem fileName_rooted_concat {segments : List Text} {name : Text} (h : '/' ∉ name) :
    fileName (rooted (segments ++ [name])) = name := by
  rw [rooted_concat, fileName_append_slash h]

@[simp] theorem dirname_append_slash {above name : Text} (hne : name ≠ []) (h : '/' ∉ name) :
    dirname (above ++ '/' :: name) = if above = [] then ['/'] else above := by
  have hrev : (name.reverse ++ '/' :: above.reverse).dropWhile (· != '/')
      = '/' :: above.reverse := by
    rw [List.dropWhile_append_of_pos (bne_slash_of_mem_reverse h)]
    simp
  have htrim : Text.dropEndWhile (· == '/') (above ++ '/' :: name) = above ++ '/' :: name := by
    obtain ⟨init, last, rfl⟩ := List.eq_nil_or_concat name |>.resolve_left hne
    have hlast : last ≠ '/' := fun hc => h (by simp [hc])
    simp [Text.dropEndWhile, hlast]
  simp only [dirname, htrim, ite_self, List.reverse_append, List.reverse_cons, List.append_assoc,
    List.singleton_append, hrev]
  rcases above with _ | ⟨c, above⟩
  · rfl
  · rcases hc : (c :: above).reverse with _ | ⟨d, ds⟩
    · simp at hc
    · simp [← hc]

@[simp] theorem dirname_rooted_concat {segments : List Text} {name : Text} (hne : name ≠ [])
    (h : '/' ∉ name) : dirname (rooted (segments ++ [name])) = rooted segments := by
  rw [rooted_concat, dirname_append_slash hne h]
  by_cases hne : segments = []
  · rw [if_pos hne, if_pos rfl, hne]
    rfl
  · rw [if_neg hne, if_neg (by simp [rooted])]

/-- What stands in an absolute directory is absolute. -/
theorem isAbsolute_of_dirname {p : Text} (h : isAbsolute (dirname p) = true) :
    isAbsolute p = true := by
  have hprefix : ∃ t, (if p.length > 1 then Text.dropEndWhile (· == '/') p else p) ++ t = p := by
    split_ifs
    · refine ⟨Text.takeEndWhile (· == '/') p, ?_⟩
      rw [Text.dropEndWhile, Text.takeEndWhile, ← List.reverse_append,
        List.takeWhile_append_dropWhile, List.reverse_reverse]
    · exact ⟨[], List.append_nil p⟩
  obtain ⟨t, ht⟩ := hprefix
  simp only [dirname] at h
  generalize (if p.length > 1 then Text.dropEndWhile (· == '/') p else p) = trimmed at *
  have hrev : trimmed.reverse.takeWhile (· != '/') ++ trimmed.reverse.dropWhile (· != '/')
      = trimmed.reverse := List.takeWhile_append_dropWhile
  split at h
  · simp [isAbsolute] at h
  · rename_i c hdrop
    have hc : c = '/' := by
      have hhead := List.head?_dropWhile_not (· != '/') trimmed.reverse
      simpa [hdrop] using hhead
    rw [hdrop, hc] at hrev
    rw [← ht, ← List.reverse_reverse trimmed, ← hrev]
    simp [isAbsolute]
  · rename_i c above hne hdrop
    rw [hdrop] at hrev
    obtain ⟨d, rest, hd⟩ := List.exists_cons_of_ne_nil (l := above.reverse) (by simpa using hne)
    rw [hd] at h
    rw [← ht, ← List.reverse_reverse trimmed, ← hrev]
    simp only [List.reverse_append, List.reverse_cons, hd]
    simpa [isAbsolute] using h

@[simp] theorem dirname_ne_nil (p : Text) : dirname p ≠ [] := by
  simp only [dirname]
  split
  · simp
  · simp
  · rename_i hne _
    simpa using hne

end Path

end DidYouMean
