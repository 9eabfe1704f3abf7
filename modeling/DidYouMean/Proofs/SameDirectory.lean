import DidYouMean.Proofs.Extensions
import Mathlib.Data.List.Infix

/-!
# Specifiers for the files of one directory

A path with a plain file name has the segments of its directory and then the name
(`collapsedSegments_of_fileName`), and without its extension a file stays in its directory
(`stripExtension_stays`). The way to such a path ends with the name (`fileName_toSpecifier`), unless
it only leads upwards, out of a directory of that name or one below it (`toSpecifier_of_prefix`).
Either way the name can be read off, so different names in one directory make different specifiers
(`toSpecifier_inj`).
-/

namespace DidYouMean

namespace Text

theorem join_inj {sep : Char} {pieces pieces' : List Text}
    (h : ∀ piece ∈ pieces, piece ≠ [] ∧ sep ∉ piece)
    (h' : ∀ piece ∈ pieces', piece ≠ [] ∧ sep ∉ piece)
    (heq : join [sep] pieces = join [sep] pieces') : pieces = pieces' := by
  have hnil := join_eq_nil_iff [sep] fun piece hp => (h piece hp).1
  have hnil' := join_eq_nil_iff [sep] fun piece hp => (h' piece hp).1
  by_cases hne : pieces = []
  · rw [hne, eq_comm, ← hnil', ← heq, hnil]
    exact hne
  · have hne' : pieces' ≠ [] := by rwa [Ne, ← hnil', ← heq, hnil]
    rw [← splitOn_join hne fun piece hp => (h piece hp).2, heq,
      splitOn_join hne' fun piece hp => (h' piece hp).2]

end Text

namespace Path

theorem fileName_of_not_mem {p : Text} (h : '/' ∉ p) : fileName p = p := by
  rw [fileName, Text.takeEndWhile, List.takeWhile_eq_self_iff.2 (bne_slash_of_mem_reverse h),
    List.reverse_reverse]

theorem not_mem_fileName (p : Text) : '/' ∉ fileName p := by
  intro h
  rw [fileName, Text.takeEndWhile, List.mem_reverse] at h
  simpa using List.mem_takeWhile_imp h

theorem dirname_of_not_mem {p : Text} (h : '/' ∉ p) : dirname p = ['.'] := by
  have htrim : Text.dropEndWhile (· == '/') p = p := by
    rcases List.eq_nil_or_concat' p with rfl | ⟨init, last, rfl⟩
    · rfl
    · have hlast : last ≠ '/' := by
        rintro rfl
        exact h (by simp)
      simp [Text.dropEndWhile, hlast]
  have hdrop : p.reverse.dropWhile (· != '/') = [] :=
    List.dropWhile_eq_nil_iff.2 (bne_slash_of_mem_reverse h)
  simp only [dirname, htrim, ite_self, hdrop]

/-- A path is a lone name, or a name below something. -/
theorem exists_above (p : Text) :
    '/' ∉ p ∨ ∃ above name, p = above ++ '/' :: name ∧ '/' ∉ name := by
  by_cases h : '/' ∈ p
  · obtain ⟨name, above, hp, hname⟩ := List.eq_append_cons_of_mem (List.mem_reverse.2 h)
    refine .inr ⟨above.reverse, name.reverse, ?_, by rwa [List.mem_reverse]⟩
    rw [← List.reverse_reverse p, hp]
    simp
  · exact .inl h

theorem collapsedSegments_of_fileName {p : Text} (h : Plain (fileName p)) :
    collapsedSegments p = collapsedSegments (dirname p) ++ [fileName p] := by
  rcases exists_above p with hlone | ⟨above, name, rfl, hname⟩
  · rw [fileName_of_not_mem hlone] at h ⊢
    rw [dirname_of_not_mem hlone, collapsedSegments, Text.splitOn_of_not_mem hlone,
      List.foldl_cons, collapseStep_plain h]
    rfl
  · rw [fileName_append_slash hname] at h ⊢
    rw [dirname_append_slash h.nonempty hname, collapsedSegments, Text.splitOn_append_sep,
      Text.splitOn_of_not_mem hname, List.foldl_append, List.foldl_cons, collapseStep_plain h,
      List.foldl_nil, List.reverse_cons, collapsedSegments]
    -- Above a path at the root there is nothing, where the directory of such a path is `/`.
    rcases above with _ | ⟨c, above⟩ <;> rfl

theorem steps_of_fileName {p : Text} (hp : normalize p = p) (h : Plain (fileName p)) :
    steps p = collapsedSegments (dirname p) ++ [fileName p] := by
  rw [steps_eq_collapsedSegments, hp, collapsedSegments_of_fileName h]

/-- A file that is not hidden stays in its directory, and not hidden, without its extension. -/
theorem stripExtension_stays {extensions : List Text} {file : Text}
    (hext : ∀ ext ∈ extensions, ext.head? = some '.' ∧ '/' ∉ ext)
    (hhidden : (fileName file).head? ≠ some '.') :
    dirname (stripExtension extensions file) = dirname file
      ∧ (fileName (stripExtension extensions file)).head? ≠ some '.' := by
  rcases hsome : extension? extensions file with _ | ext
  · rw [stripExtension_of_none hsome]
    exact ⟨rfl, hhidden⟩
  · obtain ⟨hmem, stem, rfl⟩ := extension?_suffix hsome
    obtain ⟨hdot, hslash⟩ := hext ext hmem
    rw [stripExtension_append hsome]
    rcases exists_above (stem ++ ext) with hlone | ⟨above, name, hfile, hname⟩
    · have hstem : '/' ∉ stem := fun h => hlone (List.mem_append_left _ h)
      rw [fileName_of_not_mem hlone] at hhidden
      rw [dirname_of_not_mem hlone, dirname_of_not_mem hstem, fileName_of_not_mem hstem]
      exact ⟨rfl, (stem_of_not_hidden hdot hhidden).2⟩
    · obtain ⟨rest, rfl, rfl⟩ := exists_stem hslash hfile.symm
      have hrest : '/' ∉ rest := fun h => hname (List.mem_append_left _ h)
      rw [hfile, fileName_append_slash hname] at hhidden
      obtain ⟨hne, hhead⟩ := stem_of_not_hidden hdot hhidden
      rw [hfile, dirname_append_slash (List.append_ne_nil_of_left_ne_nil hne _) hname,
        dirname_append_slash hne hrest, fileName_append_slash hrest]
      exact ⟨rfl, hhead⟩

theorem waySegments_concat (source above : List Text) (name : Text) :
    (∃ way, waySegments source (above ++ [name]) = way ++ [name])
      ∨ above ++ [name] <+: source
        ∧ ∀ s ∈ waySegments source (above ++ [name]), s = ['.', '.'] := by
  have hshared := take_sharedSteps source (above ++ [name])
  simp only [waySegments]
  generalize sharedSteps source (above ++ [name]) = shared at *
  -- The name is left out of the way only if it is shared too.
  by_cases hle : shared ≤ above.length
  · rw [List.drop_append_of_le_length hle, ← List.append_assoc]
    exact .inl ⟨_, rfl⟩
  · have hlen : (above ++ [name]).length ≤ shared := by
      rw [List.length_append, List.length_singleton]
      omega
    rw [List.take_of_length_le hlen] at hshared
    rw [List.drop_of_length_le hlen, List.append_nil, ← hshared]
    exact .inr ⟨List.take_prefix _ _, fun s => List.eq_of_mem_replicate⟩

theorem waySegments_concat_inj {source above : List Text} {name name' : Text} (h : Plain name)
    (h' : Plain name')
    (heq : waySegments source (above ++ [name]) = waySegments source (above ++ [name'])) :
    name = name' := by
  rcases waySegments_concat source above name with ⟨way, hway⟩ | ⟨hbegins, hdots⟩
  · rcases waySegments_concat source above name' with ⟨way', hway'⟩ | ⟨-, hdots'⟩
    · rw [hway, hway'] at heq
      exact List.singleton_inj.1 (List.append_inj' heq rfl).2
    · exact absurd (hdots' name (by simp [← heq, hway])) h.ne_dots
  · rcases waySegments_concat source above name' with ⟨way', hway'⟩ | ⟨hbegins', -⟩
    · exact absurd (hdots name' (by simp [heq, hway'])) h'.ne_dots
    · have hlen : (above ++ [name]).length = (above ++ [name']).length := by simp
      have hsame : above ++ [name] = above ++ [name'] :=
        (List.prefix_of_prefix_length_le hbegins hbegins' hlen.le).eq_of_length hlen
      exact List.singleton_inj.1 (List.append_cancel_left hsame)

theorem relative_eq_of_toSpecifier_eq {fromDir target target' : Text}
    (h : toSpecifier fromDir target = toSpecifier fromDir target') :
    relative fromDir target = relative fromDir target' := by
  have hup : ∀ {way : Text}, way = ['.', '.'] ∨ ['.', '.', '/'].isPrefixOf way = true →
      ∃ rest, way = '.' :: '.' :: rest := by
    rintro way (rfl | hway)
    · exact ⟨[], rfl⟩
    · obtain ⟨rest, rfl⟩ := List.isPrefixOf_iff_prefix.1 hway
      exact ⟨_, rfl⟩
  simp only [toSpecifier] at h
  generalize relative fromDir target = way at *
  generalize relative fromDir target' = way' at *
  split_ifs at h with hway hway' hempty' hempty hway' hempty' hway' hempty'
  · exact h
  · obtain ⟨rest, rfl⟩ := hup hway
    simp at h
  · obtain ⟨rest, rfl⟩ := hup hway
    simp at h
  · obtain ⟨rest, rfl⟩ := hup hway'
    simp at h
  · rw [hempty, hempty']
  · simp at h
  · obtain ⟨rest, rfl⟩ := hup hway'
    simp at h
  · simp at h
  · simpa using h

/-- In one directory different names make different specifiers. -/
theorem toSpecifier_inj {fromDir p q : Text} (hp : normalize p = p) (hq : normalize q = q)
    (hdir : dirname p = dirname q) (hpname : Plain (fileName p)) (hqname : Plain (fileName q))
    (h : toSpecifier fromDir p = toSpecifier fromDir q) : fileName p = fileName q := by
  have hpieces : ∀ r, ∀ s ∈ waySegments (steps fromDir) (steps r), s ≠ [] ∧ '/' ∉ s := by
    intro r
    refine waySegments_pieces _ fun s hs => ?_
    rw [steps_eq_collapsedSegments] at hs
    have hkept := kept_collapsedSegments _ s hs
    exact ⟨hkept.nonempty, hkept.no_slash⟩
  have hway := relative_eq_of_toSpecifier_eq h
  rw [relative_eq_join, relative_eq_join] at hway
  have hsegments := Text.join_inj (hpieces p) (hpieces q) hway
  rw [steps_of_fileName hp hpname, steps_of_fileName hq hqname, hdir] at hsegments
  exact waySegments_concat_inj hpname hqname hsegments

/-- The specifier that leads a number of levels up. -/
def upwards (levels : Nat) : Text :=
  if levels = 0 then ['.'] else Text.join ['/'] (List.replicate levels ['.', '.'])

theorem sharedSteps_of_prefix : ∀ {source goal : List Text}, goal <+: source →
    sharedSteps source goal = goal.length
  | [], [], _ => rfl
  | _ :: _, [], _ => rfl
  | s :: source, t :: goal, h => by
    rw [List.cons_prefix_cons] at h
    rw [sharedSteps, if_pos h.1.symm, sharedSteps_of_prefix h.2, List.length_cons]

/-- The way to a directory one is in, or below, only leads upwards. -/
theorem toSpecifier_of_prefix {fromDir target : Text} (h : steps target <+: steps fromDir) :
    toSpecifier fromDir target = upwards ((steps fromDir).length - (steps target).length) := by
  have hway : relative fromDir target = Text.join ['/']
      (List.replicate ((steps fromDir).length - (steps target).length) ['.', '.']) := by
    rw [relative_eq_join, waySegments, sharedSteps_of_prefix h, List.drop_length, List.append_nil]
  rw [toSpecifier, hway, upwards]
  rcases (steps fromDir).length - (steps target).length with _ | _ | levels
  · rfl
  · rfl
  · rw [if_pos, if_neg (Nat.succ_ne_zero _)]
    exact .inr (by simp [List.replicate_succ])

/-- A rendered path ends with its name, unless it only leads upwards. -/
theorem fileName_toSpecifier {fromDir target : Text} (hnorm : normalize target = target)
    (hname : Plain (fileName target)) :
    fileName (toSpecifier fromDir target) = fileName target
      ∨ steps target <+: steps fromDir := by
  have hsteps := steps_of_fileName hnorm hname
  rw [hsteps]
  rcases waySegments_concat (steps fromDir) (collapsedSegments (dirname target)) (fileName target)
    with ⟨way, hway⟩ | ⟨habove, -⟩
  · refine .inl ?_
    have hrelative : relative fromDir target = Text.join ['/'] (way ++ [fileName target]) := by
      rw [relative_eq_join, hsteps, hway]
    have hlast : ∀ above, fileName (above ++ '/' :: fileName target) = fileName target :=
      fun above => fileName_append_slash hname.no_slash
    simp only [toSpecifier, hrelative]
    by_cases hne : way = []
    · have hslash : ¬ ['.', '.', '/'].isPrefixOf (fileName target) = true := by
        intro hup
        obtain ⟨rest, hrest⟩ := List.isPrefixOf_iff_prefix.1 hup
        exact hname.no_slash (by simp [← hrest])
      rw [hne, List.nil_append, Text.join, if_neg (by simp [hname.ne_dots, hslash]),
        if_neg hname.nonempty]
      exact hlast ['.']
    · rw [Text.join_concat _ _ hne, List.append_assoc, List.singleton_append]
      split_ifs with hup hnil
      · exact hlast _
      · simp at hnil
      · rw [← List.cons_append, ← List.cons_append]
        exact hlast _
  · exact .inr habove

end Path

end DidYouMean
