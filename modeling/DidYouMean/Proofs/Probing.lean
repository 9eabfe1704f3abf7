import DidYouMean.Proofs.Extensions

/-!
# What probing misses

A path is to stand for itself, for a file that has one of the extensions behind it, and for the
index file of the directory it names. Probing takes an extension that the path ends with for that
of the request and drops it before it puts any other there, and it looks for the index file below
what is left too. So whatever completes a path without an extension is probed
(`probes_of_extension?_none`), and what completes one with an extension is missed exactly if
nothing completes what is left of it (`unfound_completion_iff`).
-/

namespace DidYouMean

namespace ModuleIndex

/-- A stem with one of the extensions behind it, and the index files inside it. -/
def completions (extensions : List Text) (stem : Text) : List Text :=
  extensions.map (stem ++ ·) ++ extensions.map fun ext => Path.join stem ("index".toList ++ ext)

variable {extensions : List Text} {there : Text → Bool} {path : Text}

theorem probes_eq_cons : probes extensions path
    = path :: completions extensions (Path.stripExtension extensions path) := rfl

/-- Whatever completes a path that ends in no extension is probed. -/
theorem probes_of_extension?_none (h : Path.extension? extensions path = none) :
    probes extensions path = path :: completions extensions path := by
  rw [probes_eq_cons, Path.stripExtension_of_none h]

theorem isSome_probe?_iff :
    (probe? extensions there path).isSome = true ↔
      ∃ q ∈ probes extensions path, there q = true := by
  rw [probe?, List.find?_isSome]

theorem probe?_eq_none_iff :
    probe? extensions there path = none ↔
      ∀ q ∈ probes extensions path, there q = false := by
  simp only [probe?, List.find?_eq_none, Bool.not_eq_true]

end ModuleIndex

/-- A path that is there, or completed by something that is, is not found exactly if it ends in an
extension, is not there itself, and nothing completes what is left of it without the extension. -/
theorem unfound_completion_iff (extensions : List Text) (there : Text → Bool) (path : Text) :
    (∃ q ∈ path :: ModuleIndex.completions extensions path, there q = true)
        ∧ ModuleIndex.probe? extensions there path = none ↔
      there path = false
        ∧ (∃ q ∈ ModuleIndex.completions extensions path, there q = true)
        ∧ ∃ stem ext, Path.extension? extensions path = some ext ∧ path = stem ++ ext
          ∧ ∀ q ∈ ModuleIndex.completions extensions stem, there q = false := by
  rw [ModuleIndex.probe?_eq_none_iff]
  constructor
  · rintro ⟨⟨q, hq, hthere⟩, hnone⟩
    -- Without an extension the completions of the path are themselves probed, and one is there.
    rcases hsome : Path.extension? extensions path with _ | ext
    · rw [ModuleIndex.probes_of_extension?_none hsome] at hnone
      exact absurd hthere (by simp [hnone q hq])
    · obtain ⟨-, stem, rfl⟩ := Path.extension?_suffix hsome
      rw [ModuleIndex.probes_eq_cons, Path.stripExtension_append hsome,
        List.forall_mem_cons] at hnone
      refine ⟨hnone.1, ?_, stem, ext, rfl, rfl, hnone.2⟩
      rcases List.mem_cons.1 hq with rfl | hq
      · exact absurd hthere (by simp [hnone.1])
      · exact ⟨q, hq, hthere⟩
  · rintro ⟨hpath, ⟨q, hq, hthere⟩, stem, ext, hsome, rfl, hstem⟩
    refine ⟨⟨q, List.mem_cons_of_mem _ hq, hthere⟩, ?_⟩
    rw [ModuleIndex.probes_eq_cons, Path.stripExtension_append hsome, List.forall_mem_cons]
    exact ⟨hpath, hstem⟩

/-- Neither a file with one more extension is always found nor an index file in a directory whose
name ends in one. -/
theorem completion_not_always_found :
    (¬ ∀ (extensions : List Text) (there : Text → Bool) (path ext : Text), ext ∈ extensions →
        there (path ++ ext) = true →
          (ModuleIndex.probe? extensions there path).isSome = true)
      ∧ ¬ ∀ (extensions : List Text) (there : Text → Bool) (path ext : Text), ext ∈ extensions →
        there (Path.join path ("index".toList ++ ext)) = true →
          (ModuleIndex.probe? extensions there path).isSome = true := by
  constructor
  · intro h
    exact absurd (h [".ts".toList, ".css".toList] (· == "/app/theme.css.ts".toList)
      "/app/theme.css".toList ".ts".toList (by decide) (by decide)) (by decide)
  · intro h
    exact absurd (h [".ts".toList, ".js".toList] (· == "/app/chart.js/index.ts".toList)
      "/app/chart.js".toList ".ts".toList (by decide) (by decide)) (by decide)

end DidYouMean
