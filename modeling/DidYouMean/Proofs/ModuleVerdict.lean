import DidYouMean.Check.ModulePath
import DidYouMean.FileTree.Memory
import DidYouMean.Proofs.Lists
import DidYouMean.Proofs.NameVerdict

/-!
# When a module specifier is reported

A specifier is reported exactly if it is a path or a package, neither the index nor the resolver
knows it, and there is a candidate that qualifies (`moduleVerdict_iff`). For a path the candidates
are compared by their last segment, and of those that share it only the first is listed; that loses
no report, because the candidates that are dropped would have been compared by the same text
(`localSuggestions_ne_nil_iff`).
-/

namespace DidYouMean

namespace ModuleCheck

theorem mem_of_mem_firstByKey {pair : Text × Text} : ∀ {seen : List Text}
    (pairs : List (Text × Text)), pair ∈ firstByKey seen pairs → pair ∈ pairs
  | _, [], h => by simp [firstByKey] at h
  | seen, (key, value) :: rest, h => by
    simp only [firstByKey] at h
    split_ifs at h
    · exact List.mem_cons_of_mem _ (mem_of_mem_firstByKey rest h)
    · rcases List.mem_cons.1 h with rfl | h
      · exact List.mem_cons_self
      · exact List.mem_cons_of_mem _ (mem_of_mem_firstByKey rest h)

theorem exists_mem_firstByKey {key : Text} : ∀ {seen : List Text} (pairs : List (Text × Text)),
    key ∉ seen → key ∈ pairs.map Prod.fst → key ∈ (firstByKey seen pairs).map Prod.fst
  | seen, (k, value) :: rest, hseen, hmem => by
    simp only [firstByKey, List.contains_iff_mem]
    by_cases hk : key = k
    · subst hk
      simp [hseen]
    · have hrest : key ∈ rest.map Prod.fst := by
        rw [List.map_cons, List.mem_cons] at hmem
        exact hmem.resolve_left hk
      split_ifs
      · exact exists_mem_firstByKey rest hseen hrest
      · rw [List.map_cons, List.mem_cons]
        refine .inr (exists_mem_firstByKey rest ?_ hrest)
        rw [List.mem_cons, not_or]
        exact ⟨hk, hseen⟩

/-- A local file that may be suggested for a specifier leading to `target`. -/
structure Offers (index : ModuleIndex) (target containingFile file : Text) : Prop where
  mem_filesIn : file ∈ index.filesIn (Path.dirname target)
  ne_containing : file ≠ containingFile
  not_hidden : (Path.fileName file).head? ≠ some '.'
  not_test : Path.isTestFile (Path.fileName file) = false

/-- The path that stands for a file: with its extension only if the specifier has one. -/
def suggestedPath (extensions : List Text) (specifier file : Text) : Text :=
  if (Path.extension? extensions specifier).isSome then file
  else Path.stripExtension extensions file

variable {index : ModuleIndex} {options : RankingOptions} {specifier target containingFile : Text}

theorem mem_offered {file : Text} :
    file ∈ (index.filesIn (Path.dirname target)).filter (fun file =>
        file != containingFile && Admissible.asLocalFile file) ↔
      Offers index target containingFile file := by
  simp only [List.mem_filter, Admissible.asLocalFile, Bool.and_eq_true, bne_iff_ne,
    Bool.not_eq_true']
  exact ⟨fun ⟨h₁, h₂, h₃, h₄⟩ => ⟨h₁, h₂, h₃, h₄⟩, fun ⟨h₁, h₂, h₃, h₄⟩ => ⟨h₁, h₂, h₃, h₄⟩⟩

theorem mem_localCandidates {key rendered : Text}
    (h : (key, rendered) ∈ localCandidates index specifier target containingFile) :
    ∃ file, Offers index target containingFile file
      ∧ key = Path.fileName (suggestedPath index.extensions specifier file)
      ∧ rendered = Path.toSpecifier (Path.dirname containingFile)
          (suggestedPath index.extensions specifier file) := by
  obtain ⟨file, hfile, heq⟩ := List.mem_map.1 (mem_of_mem_firstByKey _ h)
  cases heq
  exact ⟨file, mem_offered.1 hfile, rfl, rfl⟩

theorem offers_of_lookup {key rendered : Text}
    (h : (localCandidates index specifier target containingFile).lookup key = some rendered) :
    ∃ file, Offers index target containingFile file
      ∧ key = Path.fileName (suggestedPath index.extensions specifier file)
      ∧ rendered = Path.toSpecifier (Path.dirname containingFile)
          (suggestedPath index.extensions specifier file) :=
  mem_localCandidates (mem_of_lookup h)

theorem mem_keys_localCandidates {key : Text} :
    key ∈ (localCandidates index specifier target containingFile).map Prod.fst ↔
      ∃ file, Offers index target containingFile file
        ∧ key = Path.fileName (suggestedPath index.extensions specifier file) := by
  constructor
  · intro h
    obtain ⟨⟨k, rendered⟩, hmem, rfl⟩ := List.mem_map.1 h
    obtain ⟨file, hfile, hkey, -⟩ := mem_localCandidates hmem
    exact ⟨file, hfile, hkey⟩
  · rintro ⟨file, hfile, rfl⟩
    refine exists_mem_firstByKey _ List.not_mem_nil ?_
    rw [List.map_map]
    exact List.mem_map.2 ⟨file, mem_offered.2 hfile, rfl⟩

/-- What is suggested for a path is rendered from a file that may be suggested, by a text that
is eligible. -/
theorem mem_localSuggestions {s : Suggestion}
    (h : s ∈ localSuggestions index options specifier target containingFile) :
    ∃ file, Offers index target containingFile file
      ∧ s.name = Path.toSpecifier (Path.dirname containingFile)
          (suggestedPath index.extensions specifier file)
      ∧ Ranking.Eligible options (Path.fileName specifier)
          (Path.fileName (suggestedPath index.extensions specifier file)) := by
  obtain ⟨r, hr, hs⟩ := List.mem_filterMap.1 h
  obtain ⟨rendered, hlookup, rfl⟩ := Option.map_eq_some_iff.1 hs
  obtain ⟨file, hfile, hkey, hrendered⟩ := offers_of_lookup hlookup
  refine ⟨file, hfile, hrendered, ?_⟩
  rw [← hkey]
  exact (mem_rankNames hr).2

theorem localSuggestions_ne_nil_iff :
    localSuggestions index options specifier target containingFile ≠ [] ↔
      0 < options.maxSuggestions ∧ ∃ file, Offers index target containingFile file
        ∧ Ranking.Eligible options (Path.fileName specifier)
            (Path.fileName (suggestedPath index.extensions specifier file)) := by
  have hranked : localSuggestions index options specifier target containingFile ≠ [] ↔
      rankNames options (Path.fileName specifier)
        ((localCandidates index specifier target containingFile).map Prod.fst) ≠ [] := by
    refine not_congr ⟨fun h => List.eq_nil_iff_forall_not_mem.2 fun r hr => ?_, fun h => ?_⟩
    · obtain ⟨rendered, hlookup⟩ := exists_lookup (mem_rankNames hr).1
      rw [localSuggestions, List.filterMap_eq_nil_iff] at h
      simpa [hlookup] using h r hr
    · simp only [localSuggestions, h, List.filterMap_nil]
  rw [hranked, rankNames_ne_nil_iff]
  refine and_congr_right fun _ => ⟨?_, ?_⟩
  · rintro ⟨key, hkey, he⟩
    obtain ⟨file, hfile, rfl⟩ := mem_keys_localCandidates.1 hkey
    exact ⟨file, hfile, he⟩
  · rintro ⟨file, hfile, he⟩
    exact ⟨_, mem_keys_localCandidates.2 ⟨file, hfile, rfl⟩, he⟩

theorem checkRelative_invalid_iff {tree : FileTree} :
    (checkRelative index options tree specifier containingFile).isValid = false ↔
      index.resolveLocal? (Path.resolve containingFile specifier) = none
        ∧ index.canResolve tree specifier containingFile = false
        ∧ 0 < options.maxSuggestions
        ∧ ∃ file, Offers index (Path.resolve containingFile specifier) containingFile file
            ∧ Ranking.Eligible options (Path.fileName specifier)
                (Path.fileName (suggestedPath index.extensions specifier file)) := by
  rw [← localSuggestions_ne_nil_iff]
  simp only [checkRelative, Bool.or_eq_true]
  split_ifs with hknown
  · simp only [Verdict.isValid, Bool.true_eq_false, false_iff]
    rintro ⟨hlocal, hresolver, -⟩
    rw [hlocal, hresolver] at hknown
    simp at hknown
  · rw [Verdict.isValid_ofSuggestions]
    rw [not_or, Option.not_isSome_iff_eq_none, Bool.not_eq_true] at hknown
    simp only [hknown.1, hknown.2, true_and]

theorem checkPackage_invalid_iff {tree : FileTree} :
    (checkPackage index options tree specifier containingFile).isValid = false ↔
      Specifier.packageName specifier ∉ index.packageNames
        ∧ index.canResolve tree specifier containingFile = false
        ∧ 0 < options.maxSuggestions
        ∧ ∃ package ∈ index.packageNames, package ≠ Specifier.packageName specifier
            ∧ Ranking.Eligible options (Specifier.packageName specifier) package := by
  simp only [checkPackage, ModuleIndex.hasPackage, Bool.or_eq_true, List.contains_iff_mem]
  split_ifs with hknown
  · simp only [Verdict.isValid, Bool.true_eq_false, false_iff]
    rintro ⟨hpackage, hresolver, -⟩
    rw [hresolver] at hknown
    simp [hpackage] at hknown
  · rw [Verdict.isValid_ofSuggestions, packageSuggestions, rankNames_ne_nil_iff]
    rw [not_or, Bool.not_eq_true] at hknown
    simp only [hknown.1, hknown.2, not_false_eq_true, true_and, List.mem_filter,
      Admissible.asPackage, Bool.and_eq_true, bne_iff_ne]
    refine and_congr_right fun _ => ⟨?_, ?_⟩
    · rintro ⟨package, ⟨hmem, -, hne⟩, he⟩
      exact ⟨package, hmem, hne, he⟩
    · rintro ⟨package, hmem, hne, he⟩
      exact ⟨package, ⟨hmem, he.nonempty, hne⟩, he⟩

theorem canResolve_eq_false {tree : FileTree} :
    index.canResolve tree specifier containingFile = false ↔
      ∀ resolve, index.resolver = some resolve → resolve tree specifier containingFile = false := by
  simp only [ModuleIndex.canResolve]
  rcases index.resolver with _ | resolve <;> simp

end ModuleCheck

/-- A specifier is reported exactly if it is a path or a package, neither the index nor the resolver
knows it, suggestions are wanted, and some candidate for it qualifies. -/
theorem moduleVerdict_iff (index : ModuleIndex) (options : RankingOptions)
    (hmin : options.minScore.isNaN = false) (tree : FileTree) (specifier file : Text) :
    (ModuleCheck.check index options tree specifier file).isValid = false ↔
      (∀ resolve, index.resolver = some resolve →
          resolve tree specifier (Path.normalize file) = false)
        ∧ 0 < options.maxSuggestions
        ∧ (Specifier.classify specifier = some .relative
            ∧ index.resolveLocal? (Path.resolve (Path.normalize file) specifier) = none
            ∧ (∃ candidate, ModuleCheck.Offers index
                  (Path.resolve (Path.normalize file) specifier) (Path.normalize file) candidate
                ∧ Ranking.Qualifies options (Path.fileName specifier) (Path.fileName
                    (ModuleCheck.suggestedPath index.extensions specifier candidate)))
          ∨ Specifier.classify specifier = some .package
            ∧ Specifier.packageName specifier ∉ index.packageNames
            ∧ ∃ package ∈ index.packageNames, package ≠ Specifier.packageName specifier
                ∧ Ranking.Qualifies options (Specifier.packageName specifier) package) := by
  rw [← ModuleCheck.canResolve_eq_false]
  simp only [← Ranking.eligible_iff hmin]
  simp only [ModuleCheck.check]
  rcases hkind : Specifier.classify specifier with _ | kind
  · simp [Verdict.isValid]
  · cases kind
    case relative =>
      rw [ModuleCheck.checkRelative_invalid_iff]
      simp only [Option.some.injEq, reduceCtorEq, false_and, or_false, true_and]
      tauto
    case package =>
      rw [ModuleCheck.checkPackage_invalid_iff]
      simp only [Option.some.injEq, reduceCtorEq, false_and, false_or, true_and]
      tauto
    all_goals simp [Verdict.isValid]

/-- An index of a unit whose resolver knows nothing. -/
def settingsIndex : ModuleIndex :=
  { ModuleIndex.ofParts ["/app/main.ts".toList, "/app/Settings.tsx".toList] [] .standard with
    resolver := some fun _ _ _ => false }

theorem moduleVerdict_misspelled_path :
    RankingOptions.standard.minScore.isNaN = false
      ∧ (ModuleCheck.check settingsIndex .standard MemoryTree.empty.toFileTree "./Setings".toList
          "/app/main.ts".toList).isValid = false := by
  have hmin : RankingOptions.standard.minScore.isNaN = false := by decide +kernel
  refine ⟨hmin, (moduleVerdict_iff _ _ hmin _ _ _).2 ⟨?_, by decide, .inl ⟨rfl, by decide, ?_⟩⟩⟩
  · rintro resolve hresolve
    cases hresolve
    rfl
  · refine ⟨"/app/Settings.tsx".toList, ⟨by decide, by decide, by decide, by decide⟩, ?_⟩
    exact ⟨by decide, by decide, by decide +kernel, by decide +kernel⟩

end DidYouMean
