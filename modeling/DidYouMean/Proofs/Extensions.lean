import DidYouMean.ModuleIndex
import DidYouMean.Proofs.Rendering
import Mathlib.Data.List.Basic

/-!
# Leaving out and putting back extensions

An extension is the end of the last segment of a path (`exists_stem`), so what is left of an
absolute path in normal form without it is one again, provided the file is not hidden
(`Collapsed.stripExtension`). Looking up a path puts the extensions behind what is left of it, so
a file is found by its stem unless the stem itself has an extension (`extension?_of_unfound`).
-/

namespace DidYouMean

namespace Path

/-- An absolute path in normal form. -/
structure Collapsed (p : Text) : Prop where
  absolute : isAbsolute p = true
  fixed : collapse p = p

instance (p : Text) : Decidable (Collapsed p) :=
  decidable_of_iff (isAbsolute p = true ∧ collapse p = p)
    ⟨fun ⟨habs, hp⟩ => ⟨habs, hp⟩, fun ⟨habs, hp⟩ => ⟨habs, hp⟩⟩

theorem extension?_suffix {extensions : List Text} {p ext : Text}
    (h : extension? extensions p = some ext) : ext ∈ extensions ∧ ∃ stem, p = stem ++ ext := by
  rw [extension?] at h
  have hends := List.find?_some h
  obtain ⟨stem, hstem⟩ := List.isSuffixOf_iff_suffix.1 hends
  exact ⟨List.mem_of_find?_eq_some h, stem, hstem.symm⟩

theorem stripExtension_append {extensions : List Text} {stem ext : Text}
    (h : extension? extensions (stem ++ ext) = some ext) :
    stripExtension extensions (stem ++ ext) = stem := by
  simp [stripExtension, h]

theorem stripExtension_of_none {extensions : List Text} {p : Text}
    (h : extension? extensions p = none) : stripExtension extensions p = p := by
  simp only [stripExtension, h]

theorem stripExtension_isPrefix (extensions : List Text) (p : Text) :
    stripExtension extensions p <+: p := by
  simp only [stripExtension]
  split
  · exact List.take_prefix _ _
  · exact List.prefix_refl p

/-- An extension has no separator in it, so it is the end of the last segment. -/
theorem exists_stem {above name stem ext : Text} (hslash : '/' ∉ ext)
    (h : above ++ '/' :: name = stem ++ ext) :
    (∃ rest, name = rest ++ ext ∧ stem = above ++ '/' :: rest) := by
  rcases List.append_eq_append_iff.1 h with ⟨mid, rfl, hmid⟩ | ⟨mid, rfl, hmid⟩
  · rcases mid with _ | ⟨c, rest⟩
    · rw [List.nil_append] at hmid
      exact absurd (by simp [← hmid]) hslash
    · rw [List.cons_append, List.cons.injEq] at hmid
      obtain ⟨rfl, rfl⟩ := hmid
      exact ⟨rest, rfl, rfl⟩
  · exact absurd (by simp [hmid]) hslash

theorem stem_of_not_hidden {stem ext : Text} (hdot : ext.head? = some '.')
    (hhidden : (stem ++ ext).head? ≠ some '.') : stem ≠ [] ∧ stem.head? ≠ some '.' := by
  rcases stem with _ | ⟨c, stem⟩
  · rw [List.nil_append] at hhidden
    exact absurd hdot hhidden
  · exact ⟨List.cons_ne_nil _ _, by simpa using hhidden⟩

/-- Without its extension a file that is not hidden is still in normal form. -/
theorem Collapsed.stripExtension {extensions : List Text} {file : Text} (hfile : Collapsed file)
    (hext : ∀ ext ∈ extensions, ext.head? = some '.' ∧ '/' ∉ ext)
    (hhidden : (fileName file).head? ≠ some '.') : Collapsed (stripExtension extensions file) := by
  rcases hsome : extension? extensions file with _ | ext
  · rwa [stripExtension_of_none hsome]
  · obtain ⟨hmem, stem, hstem⟩ := extension?_suffix hsome
    obtain ⟨hdot, hslash⟩ := hext ext hmem
    obtain ⟨segments, hplain, hrooted⟩ := exists_rooted hfile.absolute hfile.fixed
    rw [hstem] at hsome
    rw [hstem, stripExtension_append hsome]
    rcases List.eq_nil_or_concat' segments with rfl | ⟨init, name, rfl⟩
    · rw [hstem, rooted, Text.join] at hrooted
      rcases stem with _ | ⟨c, stem⟩
      · rw [List.nil_append] at hrooted
        exact absurd (by simp [hrooted]) hslash
      · simp only [List.cons_append, List.cons.injEq, List.append_eq_nil_iff] at hrooted
        simp [hrooted.2.2] at hdot
    · have hname := hplain name (by simp)
      rw [hrooted, fileName_rooted_concat hname.no_slash] at hhidden
      rw [hstem, rooted_concat] at hrooted
      obtain ⟨rest, hrest, hstem'⟩ := exists_stem hslash hrooted.symm
      have hplain' : Plain rest := by
        rw [hrest] at hhidden hname
        obtain ⟨hne, hhead⟩ := stem_of_not_hidden hdot hhidden
        exact .of_head?_ne hne hhead fun h => hname.no_slash (List.mem_append_left _ h)
      rw [hstem', ← rooted_concat]
      refine ⟨isAbsolute_rooted _, collapse_rooted ?_⟩
      intro s hs
      rcases List.mem_append.1 hs with hs | hs
      · exact hplain s (List.mem_append_left _ hs)
      · rwa [List.mem_singleton.1 hs]

/-- The directory of a path in normal form is in normal form too. -/
theorem Collapsed.dirname {p : Text} (h : Collapsed p) : Collapsed (dirname p) := by
  obtain ⟨segments, hplain, rfl⟩ := exists_rooted h.absolute h.fixed
  rcases List.eq_nil_or_concat' segments with rfl | ⟨init, name, rfl⟩
  · exact h
  · have hname := hplain name (by simp)
    rw [dirname_rooted_concat hname.nonempty hname.no_slash]
    exact ⟨isAbsolute_rooted _, collapse_rooted fun s hs => hplain s (List.mem_append_left _ hs)⟩

theorem Collapsed.dirname_absolute {p : Text} (h : Collapsed p) :
    isAbsolute (Path.dirname p) = true := h.dirname.absolute

/-- Below the root a path is its file name in its directory. -/
theorem Collapsed.join_dirname_fileName {p : Text} (h : Collapsed p) (htop : Path.dirname p ≠ p) :
    join (Path.dirname p) (fileName p) = p := by
  obtain ⟨segments, hplain, rfl⟩ := exists_rooted h.absolute h.fixed
  rcases List.eq_nil_or_concat' segments with rfl | ⟨init, name, rfl⟩
  · exact absurd rfl htop
  · have hname := hplain name (by simp)
    have hinit : ∀ s ∈ init, s ≠ [] ∧ '/' ∉ s := by
      intro s hs
      have hs := hplain s (List.mem_append_left _ hs)
      exact ⟨hs.nonempty, hs.no_slash⟩
    rw [dirname_rooted_concat hname.nonempty hname.no_slash, fileName_rooted_concat hname.no_slash,
      join_rooted hinit hname.nonempty]

end Path

namespace ModuleIndex

variable {index : ModuleIndex} {p file : Text}

theorem resolveLocal?_eq_none_iff :
    index.resolveLocal? p = none ↔ ∀ q ∈ probes index.extensions p, q ∉ index.localFiles := by
  simp only [resolveLocal?, probe?, hasLocalFile, List.find?_eq_none, List.contains_iff_mem]

theorem mem_localFiles_of_resolveLocal? (h : index.resolveLocal? p = some file) :
    file ∈ index.localFiles := by
  rw [resolveLocal?, probe?] at h
  have hthere := List.find?_some h
  rwa [hasLocalFile, List.contains_iff_mem] at hthere

theorem resolveLocal?_of_mem (h : p ∈ index.localFiles) : index.resolveLocal? p = some p := by
  rw [resolveLocal?, probe?, probes, List.find?_cons_of_pos]
  rwa [hasLocalFile, List.contains_iff_mem]

/-- A file is not found by its stem only if the stem ends in an extension too. -/
theorem extension?_of_unfound (h : file ∈ index.localFiles)
    (hnone : index.resolveLocal? (Path.stripExtension index.extensions file) = none) :
    (Path.extension? index.extensions (Path.stripExtension index.extensions file)).isSome
      ∧ ∃ ext ∈ index.extensions,
          Path.stripExtension index.extensions file ++ ext ∈ index.localFiles := by
  rw [resolveLocal?_eq_none_iff, probes] at hnone
  rcases hsome : Path.extension? index.extensions file with _ | ext
  · rw [Path.stripExtension_of_none hsome] at hnone
    exact absurd h (hnone file List.mem_cons_self)
  · obtain ⟨hmem, stem, rfl⟩ := Path.extension?_suffix hsome
    rw [Path.stripExtension_append hsome] at hnone ⊢
    refine ⟨?_, ext, hmem, h⟩
    rw [Option.isSome_iff_ne_none]
    intro hstem
    rw [Path.stripExtension_of_none hstem] at hnone
    have hprobe := List.mem_append_left (index.extensions.map fun ext =>
      Path.join stem ("index".toList ++ ext)) (List.mem_map_of_mem (f := (stem ++ ·)) hmem)
    exact hnone _ (List.mem_cons_of_mem _ hprobe) h

end ModuleIndex

end DidYouMean
