import DidYouMean.Proofs.Segments
import DidYouMean.Proofs.Trimming
import DidYouMean.Specifier
import Mathlib.Data.List.TakeWhile
import Mathlib.Tactic.Tauto

/-!
# Rendering and resolving

The way from a directory to a path, written as a specifier, resolves to that path
(`resolve_toSpecifier`). Read behind the directory's segments, the `..` of the way take back those
the two do not share (`foldl_collapseStep_dots`), which leaves the shared ones
(`take_sharedSteps`), and what follows puts the rest of the path back. The three forms a specifier
takes differ only in segments that collapsing skips (`foldl_splitOn_toSpecifier`).
-/

namespace DidYouMean

namespace Text

theorem mem_join {sep : Text} {c : Char} : ∀ {pieces : List Text}, c ∈ join sep pieces →
    c ∈ sep ∨ ∃ piece ∈ pieces, c ∈ piece
  | [], h => by simp [join] at h
  | [piece], h => .inr ⟨piece, List.mem_cons_self, h⟩
  | piece :: piece' :: pieces, h => by
    rw [join_cons_cons, List.mem_append, List.mem_append] at h
    rcases h with (h | h) | h
    · exact .inr ⟨piece, List.mem_cons_self, h⟩
    · exact .inl h
    · rcases mem_join h with h | ⟨p, hp, h⟩
      · exact .inl h
      · exact .inr ⟨p, List.mem_cons_of_mem _ hp, h⟩

theorem join_eq_nil_iff (sep : Text) : ∀ {pieces : List Text}, (∀ piece ∈ pieces, piece ≠ []) →
    (join sep pieces = [] ↔ pieces = [])
  | [], _ => by simp [join]
  | [piece], h => by simpa [join] using h piece List.mem_cons_self
  | piece :: piece' :: pieces, h => by
    simp [h piece List.mem_cons_self]

theorem mem_of_mem_splitOn {sep c : Char} {piece : Text} : ∀ {t : Text}, piece ∈ splitOn sep t →
    c ∈ piece → c ∈ t
  | [], h, hc => by
    rw [splitOn, List.mem_singleton] at h
    simp [h] at hc
  | d :: t, h, hc => by
    simp only [splitOn] at h
    split_ifs at h
    · rcases List.mem_cons.1 h with rfl | h
      · simp at hc
      · exact List.mem_cons_of_mem _ (mem_of_mem_splitOn h hc)
    · rcases ht : splitOn sep t with _ | ⟨first, pieces⟩
      · exact absurd ht (splitOn_ne_nil sep t)
      · have ih : ∀ piece ∈ splitOn sep t, c ∈ piece → c ∈ t :=
          fun _ h hc => mem_of_mem_splitOn h hc
        rw [ht] at h ih
        rcases List.mem_cons.1 h with rfl | h
        · rcases List.mem_cons.1 hc with rfl | hc
          · exact List.mem_cons_self
          · exact List.mem_cons_of_mem _ (ih _ List.mem_cons_self hc)
        · exact List.mem_cons_of_mem _ (ih _ (List.mem_cons_of_mem _ h) hc)

end Text

namespace Path

theorem normalize_eq_self {p : Text} (h : '\\' ∉ p) : normalize p = p := by
  have hid : ∀ c ∈ p, (if c = '\\' then '/' else c) = id c := by
    intro c hc
    rw [if_neg (ne_of_mem_of_not_mem hc h), id]
  rw [normalize, List.map_congr_left hid, List.map_id]

theorem not_mem_normalize (p : Text) : '\\' ∉ normalize p := by
  intro h
  obtain ⟨c, -, hc⟩ := List.mem_map.1 h
  split_ifs at hc with hslash
  · simp at hc
  · exact hslash hc

@[simp] theorem resolve_normalize (file specifier : Text) :
    resolve (normalize file) specifier = resolve file specifier := by
  rw [resolve, resolve, normalize_eq_self (not_mem_normalize file)]

theorem mem_dirname {p : Text} {c : Char} (h : c ∈ dirname p) : c ∈ p ∨ c = '.' ∨ c = '/' := by
  simp only [dirname] at h
  generalize htrim : (if p.length > 1 then Text.dropEndWhile (· == '/') p else p) = trimmed at h
  have hsub : ∀ d ∈ trimmed, d ∈ p := by
    intro d hd
    rw [← htrim] at hd
    split_ifs at hd
    · rw [Text.dropEndWhile, List.mem_reverse] at hd
      exact List.mem_reverse.1 ((List.dropWhile_sublist _).subset hd)
    · exact hd
  have hdrop := (List.dropWhile_sublist (· != '/') (l := trimmed.reverse)).subset
  split at h
  · exact .inr (.inl (List.mem_singleton.1 h))
  · exact .inr (.inr (List.mem_singleton.1 h))
  · rename_i d above heq
    rw [heq] at hdrop
    rw [List.mem_reverse] at h
    exact .inl (hsub c (List.mem_reverse.1 (hdrop (List.mem_cons_of_mem _ h))))

@[simp] theorem normalize_dirname_normalize (p : Text) :
    normalize (dirname (normalize p)) = dirname (normalize p) := by
  refine normalize_eq_self fun h => ?_
  rcases mem_dirname h with h | h | h
  · exact not_mem_normalize p h
  · simp at h
  · simp at h

theorem mem_foldl_collapseStep {absolute : Bool} {s : Text} : ∀ {segments kept : List Text},
    s ∈ segments.foldl (collapseStep absolute) kept → s ∈ kept ∨ s ∈ segments
  | [], _, h => .inl h
  | t :: segments, kept, h => by
    rw [List.foldl_cons] at h
    rcases mem_foldl_collapseStep h with h | h
    · rcases mem_collapseStep h with h | rfl
      · exact .inl h
      · exact .inr List.mem_cons_self
    · exact .inr (List.mem_cons_of_mem _ h)

theorem not_mem_collapsedSegments {p s : Text} {c : Char} (hc : c ∉ p)
    (hs : s ∈ collapsedSegments p) : c ∉ s := by
  rw [collapsedSegments, List.mem_reverse] at hs
  rcases mem_foldl_collapseStep hs with hs | hs
  · simp at hs
  · exact fun h => hc (Text.mem_of_mem_splitOn hs h)

theorem steps_eq_collapsedSegments (p : Text) : steps p = collapsedSegments (normalize p) := by
  have hkept := kept_collapsedSegments (normalize p)
  have hall : (collapsedSegments (normalize p)).filter (fun s => s != [] && s != ['.'])
      = collapsedSegments (normalize p) := by
    rw [List.filter_eq_self]
    intro s hs
    simp [(hkept s hs).nonempty, (hkept s hs).ne_dot]
  rw [steps, collapse]
  by_cases hne : collapsedSegments (normalize p) = []
  · rw [hne]
    split_ifs <;> rfl
  · have hsplit := Text.splitOn_join hne fun s hs => (hkept s hs).no_slash
    have hjoin := (Text.join_eq_nil_iff ['/'] fun s hs => (hkept s hs).nonempty).not.2 hne
    split_ifs
    · rw [Text.splitOn, if_pos rfl, hsplit, List.filter_cons_of_neg (by simp), hall]
    · rw [hsplit, hall]

theorem sharedSteps_le : ∀ (source goal : List Text), sharedSteps source goal ≤ source.length
  | [], _ => by simp [sharedSteps]
  | _ :: _, [] => by simp [sharedSteps]
  | s :: source, t :: goal => by
    have ih := sharedSteps_le source goal
    simp only [sharedSteps, List.length_cons]
    split_ifs <;> omega

theorem take_sharedSteps : ∀ (source goal : List Text),
    source.take (sharedSteps source goal) = goal.take (sharedSteps source goal)
  | [], _ => by simp [sharedSteps]
  | _ :: _, [] => by simp [sharedSteps]
  | s :: source, t :: goal => by
    have ih := take_sharedSteps source goal
    simp only [sharedSteps]
    split_ifs with hst
    · rw [List.take_succ_cons, List.take_succ_cons, ih, hst]
    · simp

theorem foldl_collapseStep_dots {absolute : Bool} : ∀ {k : Nat} {kept : List Text},
    (∀ s ∈ kept, Plain s) → k ≤ kept.length →
      (List.replicate k ['.', '.']).foldl (collapseStep absolute) kept = kept.drop k
  | 0, _, _, _ => rfl
  | k + 1, last :: kept, h, hk => by
    have hlast := (h last List.mem_cons_self).ne_dots
    rw [List.replicate_succ, List.foldl_cons, List.drop_succ_cons]
    rw [show collapseStep absolute (last :: kept) ['.', '.'] = kept by simp [collapseStep, hlast]]
    exact foldl_collapseStep_dots (fun s hs => h s (List.mem_cons_of_mem _ hs))
      (by simpa using hk)

/-- A joined path is read as the base and then the segment. -/
theorem foldl_splitOn_join {absolute : Bool} {base segment : Text} (hbase : base ≠ [])
    (hsegment : segment ≠ []) (kept : List Text) :
    (Text.splitOn '/' (join base segment)).foldl (collapseStep absolute) kept
      = (Text.splitOn '/' segment).foldl (collapseStep absolute)
          ((Text.splitOn '/' base).foldl (collapseStep absolute) kept) := by
  rw [join, if_neg hsegment, if_neg hbase]
  split_ifs with hlast
  · obtain ⟨init, rfl⟩ := List.getLast?_eq_some_iff.1 hlast
    rw [List.append_assoc, List.singleton_append, Text.splitOn_append_sep,
      Text.splitOn_append_sep, List.foldl_append, List.foldl_append]
    simp [Text.splitOn, collapseStep]
  · rw [Text.splitOn_append_sep, List.foldl_append]

theorem isAbsolute_join {base : Text} (segment : Text) (hbase : base ≠ []) :
    isAbsolute (join base segment) = isAbsolute base := by
  obtain ⟨c, rest, rfl⟩ := List.exists_cons_of_ne_nil hbase
  rw [join, if_neg hbase]
  split_ifs <;> simp [isAbsolute]

/-- A way as a specifier differs from the way by segments that collapsing skips. -/
theorem foldl_splitOn_toSpecifier {absolute : Bool} {fromDir target : Text}
    {segments : List Text} (hway : relative fromDir target = Text.join ['/'] segments)
    (h : ∀ s ∈ segments, s ≠ [] ∧ '/' ∉ s) (kept : List Text) :
    (Text.splitOn '/' (toSpecifier fromDir target)).foldl (collapseStep absolute) kept
      = segments.foldl (collapseStep absolute) kept := by
  have hnil := Text.join_eq_nil_iff ['/'] fun s hs => (h s hs).1
  have hsplit : segments ≠ [] → Text.splitOn '/' (Text.join ['/'] segments) = segments :=
    fun hne => Text.splitOn_join hne fun s hs => (h s hs).2
  simp only [toSpecifier, hway]
  split_ifs with hup hhere
  · rw [hsplit]
    intro hne
    rw [hnil.2 hne] at hup
    simp at hup
  · rw [hnil.1 hhere]
    simp [Text.splitOn, collapseStep]
  · rw [show '.' :: '/' :: Text.join ['/'] segments = ['.'] ++ '/' :: Text.join ['/'] segments
      from rfl, Text.splitOn_append_sep, hsplit fun hne => hhere (hnil.2 hne), List.foldl_append]
    simp [Text.splitOn, collapseStep]

theorem toSpecifier_cons (fromDir target : Text) :
    ∃ rest, toSpecifier fromDir target = '.' :: rest := by
  simp only [toSpecifier]
  split_ifs with hup
  · rcases hup with hup | hup
    · exact ⟨['.'], hup⟩
    · obtain ⟨rest, hrest⟩ := List.isPrefixOf_iff_prefix.1 hup
      exact ⟨_, hrest.symm⟩
  · exact ⟨_, rfl⟩
  · exact ⟨_, rfl⟩

theorem mem_toSpecifier {fromDir target : Text} {c : Char} (h : c ∈ toSpecifier fromDir target) :
    c = '.' ∨ c = '/' ∨ c ∈ relative fromDir target := by
  simp only [toSpecifier] at h
  split_ifs at h
  · exact .inr (.inr h)
  · exact .inl (List.mem_singleton.1 h)
  · simpa using h

@[simp] theorem toSpecifier_ne_nil (fromDir target : Text) : toSpecifier fromDir target ≠ [] := by
  obtain ⟨rest, h⟩ := toSpecifier_cons fromDir target
  simp [h]

@[simp] theorem isAbsolute_toSpecifier (fromDir target : Text) :
    isAbsolute (toSpecifier fromDir target) = false := by
  obtain ⟨rest, h⟩ := toSpecifier_cons fromDir target
  simp [h, isAbsolute]

/-- The segments of the way from a directory to a path. -/
def waySegments (source goal : List Text) : List Text :=
  List.replicate (source.length - sharedSteps source goal) ['.', '.']
    ++ goal.drop (sharedSteps source goal)

theorem relative_eq_join (fromDir target : Text) :
    relative fromDir target = Text.join ['/'] (waySegments (steps fromDir) (steps target)) := rfl

theorem mem_waySegments {source goal : List Text} {s : Text} (h : s ∈ waySegments source goal) :
    s = ['.', '.'] ∨ s ∈ goal := by
  rcases List.mem_append.1 h with h | h
  · exact .inl (List.eq_of_mem_replicate h)
  · exact .inr (List.mem_of_mem_drop h)

theorem waySegments_pieces (source : List Text) {goal : List Text}
    (h : ∀ s ∈ goal, s ≠ [] ∧ '/' ∉ s) :
    ∀ s ∈ waySegments source goal, s ≠ [] ∧ '/' ∉ s := by
  intro s hs
  rcases mem_waySegments hs with rfl | hs
  · simp
  · exact h s hs

/-- Read behind the segments of the directory, the way leads to the segments of the path. -/
theorem foldl_waySegments {absolute : Bool} {source goal : List Text}
    (hsource : ∀ s ∈ source, Plain s) (hgoal : ∀ s ∈ goal, Plain s) :
    (waySegments source goal).foldl (collapseStep absolute) source.reverse = goal.reverse := by
  have hle := sharedSteps_le source goal
  have hshared := take_sharedSteps source goal
  simp only [waySegments]
  generalize sharedSteps source goal = shared at *
  rw [List.foldl_append, foldl_collapseStep_dots (fun s hs => hsource s (List.mem_reverse.1 hs))
    (by rw [List.length_reverse]; omega),
    foldl_collapseStep_plain fun s hs => hgoal s (List.mem_of_mem_drop hs)]
  rw [List.drop_reverse, show source.length - (source.length - shared) = shared by omega, hshared,
    ← List.reverse_append, List.take_append_drop]

theorem normalize_toSpecifier (fromDir target : Text) :
    normalize (toSpecifier fromDir target) = toSpecifier fromDir target := by
  refine normalize_eq_self fun h => ?_
  rcases mem_toSpecifier h with h | h | h
  · simp at h
  · simp at h
  · rw [relative_eq_join] at h
    rcases Text.mem_join h with h | ⟨s, hs, h⟩
    · simp at h
    · rcases mem_waySegments hs with rfl | hs
      · simp at h
      · rw [steps_eq_collapsedSegments] at hs
        exact not_mem_collapsedSegments (not_mem_normalize target) hs h

theorem collapsedSegments_join_toSpecifier {fromDir target : Text}
    (hnorm : normalize fromDir = fromDir) (hfrom : isAbsolute fromDir = true)
    (htarget : isAbsolute (normalize target) = true) :
    collapsedSegments (join fromDir (toSpecifier fromDir target))
      = collapsedSegments (normalize target) := by
  have hne : fromDir ≠ [] := by
    rintro rfl
    simp [isAbsolute] at hfrom
  have hsource := plain_collapsedSegments hfrom
  have hgoal := plain_collapsedSegments htarget
  have hbase : (Text.splitOn '/' fromDir).foldl (collapseStep true) []
      = (collapsedSegments fromDir).reverse := by
    rw [collapsedSegments, List.reverse_reverse, hfrom]
  have hway : relative fromDir target = Text.join ['/']
      (waySegments (collapsedSegments fromDir) (collapsedSegments (normalize target))) := by
    rw [relative_eq_join, steps_eq_collapsedSegments, steps_eq_collapsedSegments, hnorm]
  have hpieces := waySegments_pieces (collapsedSegments fromDir)
    fun s hs => ⟨(hgoal s hs).nonempty, (hgoal s hs).no_slash⟩
  rw [collapsedSegments, isAbsolute_join _ hne, hfrom,
    foldl_splitOn_join hne (toSpecifier_ne_nil _ _), hbase,
    foldl_splitOn_toSpecifier hway hpieces, foldl_waySegments hsource hgoal, List.reverse_reverse]

/-- The way from a file's directory to a path resolves to the path in normal form. -/
theorem resolve_toSpecifier {containingFile target : Text}
    (hfrom : isAbsolute (dirname (normalize containingFile)) = true)
    (htarget : isAbsolute (normalize target) = true) :
    resolve containingFile (toSpecifier (dirname (normalize containingFile)) target)
      = collapse (normalize target) := by
  have hne : dirname (normalize containingFile) ≠ [] := by
    intro h0
    simp [h0, isAbsolute] at hfrom
  simp only [resolve, normalize_toSpecifier, isAbsolute_toSpecifier, Bool.false_eq_true,
    if_false]
  rw [collapse_of_absolute (by rw [isAbsolute_join _ hne, hfrom]), collapse_of_absolute htarget,
    collapsedSegments_join_toSpecifier (normalize_dirname_normalize _) hfrom htarget]

end Path

namespace Specifier

theorem classify_eq_relative_iff {s : Text} :
    classify s = some .relative ↔ isRelative s = true := by
  simp only [classify]
  constructor
  · intro h
    split_ifs at h with h₁ h₂ <;> first | exact h₂ | simp at h
  · intro h
    have hblank : Text.trim s ≠ [] := by
      rcases s with _ | ⟨c, rest⟩
      · simp [isRelative] at h
      · refine Text.trim_ne_nil ?_
        have hc : c = '.' ∨ c = '/' := by
          simp only [isRelative, List.cons_beq_cons, List.head?_cons, Option.some_beq_some,
            Bool.or_eq_true, Bool.and_eq_true, beq_iff_eq, List.isPrefixOf_iff_prefix,
            List.cons_prefix_cons] at h
          tauto
        rcases hc with rfl | rfl <;> rfl
    rw [if_neg hblank, if_pos h]

theorem isRelative_toSpecifier (fromDir target : Text) :
    isRelative (Path.toSpecifier fromDir target) = true := by
  simp only [Path.toSpecifier]
  split_ifs with hup
  · rcases hup with hup | hup <;> simp [isRelative, hup]
  · rfl
  · simp [isRelative]

end Specifier

end DidYouMean
