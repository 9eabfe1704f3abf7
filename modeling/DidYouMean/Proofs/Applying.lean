import DidYouMean.Proofs.Extensions
import DidYouMean.Proofs.FileTables
import DidYouMean.Proofs.ModuleVerdict

/-!
# Applying a suggestion

A suggested specifier resolves to the path it was rendered from (`Offers.resolve_toSpecifier`). If
that path is the file itself, it is found there. If the file's extension was left out, looking up
may go astray in two ways: when the stem ends in an extension too, that one is taken for the
request's own and replaced (`applied_invalid_iff`), and when another file shares the stem, that one
may come first, even if it is the file the specifier is written in (`applied_self_iff`). With the
extension left in nothing of this happens: what is rendered for a file of the index is valid
(`rendered_specifier_found`).
-/

namespace DidYouMean

namespace Path

theorem isAbsolute_resolve {file specifier : Text} (h : isAbsolute (normalize specifier) = false) :
    isAbsolute (resolve file specifier) = isAbsolute (dirname (normalize file)) := by
  simp only [resolve, h, Bool.false_eq_true, if_false]
  rw [isAbsolute_collapse, isAbsolute_join _ (dirname_ne_nil _)]

end Path

namespace ModuleCheck

variable {index : ModuleIndex} {options : RankingOptions} {tree : FileTree}
  {specifier target file containingFile other : Text} {s : Suggestion}

theorem suggestedPath_of_none {extensions : List Text}
    (h : Path.extension? extensions specifier = none) :
    suggestedPath extensions specifier file = Path.stripExtension extensions file := by
  simp only [suggestedPath, h, Option.isSome_none, Bool.false_eq_true, if_false]

theorem suggestedPath_of_some {extensions : List Text} {ext : Text}
    (h : Path.extension? extensions specifier = some ext) :
    suggestedPath extensions specifier file = file := by
  simp only [suggestedPath, h, Option.isSome_some, if_true]

theorem suggestedPath_isPrefix (extensions : List Text) (specifier file : Text) :
    suggestedPath extensions specifier file <+: file := by
  simp only [suggestedPath]
  split_ifs
  · exact List.prefix_refl file
  · exact Path.stripExtension_isPrefix extensions file

theorem Offers.mem_localFiles (h : Offers index target file other) : other ∈ index.localFiles :=
  (ModuleIndex.mem_filesIn.1 h.mem_filesIn).1

theorem Offers.dirname_eq (h : Offers index target file other) :
    Path.dirname other = Path.dirname target :=
  (ModuleIndex.mem_filesIn.1 h.mem_filesIn).2

theorem Offers.isAbsolute_target (hlocal : ∀ file ∈ index.localFiles, Path.Collapsed file)
    (h : Offers index target file other) : Path.isAbsolute target = true := by
  refine Path.isAbsolute_of_dirname ?_
  rw [← h.dirname_eq]
  exact (hlocal other h.mem_localFiles).dirname_absolute

theorem Offers.isAbsolute_suggestedPath {query : Text}
    (hlocal : ∀ file ∈ index.localFiles, Path.Collapsed file) (h : Offers index target file other)
    (he : Ranking.Eligible options query
      (Path.fileName (suggestedPath index.extensions specifier other))) :
    Path.isAbsolute (suggestedPath index.extensions specifier other) = true := by
  have habs := (hlocal other h.mem_localFiles).absolute
  obtain ⟨rest, hrest⟩ := suggestedPath_isPrefix index.extensions specifier other
  have hne := he.nonempty
  rcases hpath : suggestedPath index.extensions specifier other with _ | ⟨c, path⟩
  · rw [hpath] at hne
    exact absurd rfl hne
  · rw [hpath, List.cons_append] at hrest
    rw [← hrest] at habs
    exact habs

theorem Offers.normalize_suggestedPath (hbuilt : index.Built) (specifier : Text)
    (h : Offers index target file other) :
    Path.normalize (suggestedPath index.extensions specifier other)
      = suggestedPath index.extensions specifier other := by
  refine Path.normalize_eq_self fun hmem => ?_
  have hother := (suggestedPath_isPrefix index.extensions specifier other).subset hmem
  rw [← hbuilt.normalize_localFile h.mem_localFiles] at hother
  exact Path.not_mem_normalize other hother

/-- A suggestion resolves to the path that was rendered. -/
theorem Offers.resolve_toSpecifier {query : Text} (hbuilt : index.Built)
    (hlocal : ∀ file ∈ index.localFiles, Path.Collapsed file)
    (h : Offers index target containingFile other)
    (he : Ranking.Eligible options query
      (Path.fileName (suggestedPath index.extensions specifier other)))
    (hfrom : Path.isAbsolute (Path.dirname (Path.normalize file)) = true) :
    Path.resolve file (Path.toSpecifier (Path.dirname (Path.normalize file))
        (suggestedPath index.extensions specifier other))
      = Path.collapse (suggestedPath index.extensions specifier other) := by
  have hnorm := h.normalize_suggestedPath hbuilt specifier
  have habs := h.isAbsolute_suggestedPath hlocal he
  rw [Path.resolve_toSpecifier hfrom (by rwa [hnorm]), hnorm]

/-- If the path of a suggestion is not found, it is a stem that ends in an extension. -/
theorem Offers.extension?_of_unfound
    (hext : ∀ ext ∈ index.extensions, ext.head? = some '.' ∧ '/' ∉ ext)
    (hlocal : ∀ file ∈ index.localFiles, Path.Collapsed file) (h : Offers index target file other)
    (hnone : index.resolveLocal?
      (Path.collapse (suggestedPath index.extensions specifier other)) = none) :
    Path.extension? index.extensions specifier = none
      ∧ (Path.extension? index.extensions
          (Path.collapse (suggestedPath index.extensions specifier other))).isSome
      ∧ ∃ ext ∈ index.extensions,
          Path.collapse (suggestedPath index.extensions specifier other) ++ ext
            ∈ index.localFiles := by
  have hcollapsed := hlocal other h.mem_localFiles
  rcases hsome : Path.extension? index.extensions specifier with _ | ext
  · rw [suggestedPath_of_none hsome, (hcollapsed.stripExtension hext h.not_hidden).fixed] at hnone ⊢
    exact ⟨rfl, ModuleIndex.extension?_of_unfound h.mem_localFiles hnone⟩
  · rw [suggestedPath_of_some hsome, hcollapsed.fixed,
      ModuleIndex.resolveLocal?_of_mem h.mem_localFiles] at hnone
    simp at hnone

theorem check_relative (hkind : Specifier.classify specifier = some .relative) :
    check index options tree specifier file
      = checkRelative index options tree specifier (Path.normalize file) := by
  simp only [check, hkind]

/-- What is suggested for a path is rendered from a file that is offered there. -/
theorem exists_offered (hkind : Specifier.classify specifier = some .relative)
    (hs : s ∈ (check index options tree specifier file).suggestions) :
    0 < options.maxSuggestions ∧ ∃ other,
      Offers index (Path.resolve file specifier) (Path.normalize file) other
        ∧ s.name = Path.toSpecifier (Path.dirname (Path.normalize file))
            (suggestedPath index.extensions specifier other)
        ∧ Ranking.Eligible options (Path.fileName specifier)
            (Path.fileName (suggestedPath index.extensions specifier other)) := by
  rw [check_relative hkind] at hs
  simp only [checkRelative, Path.resolve_normalize] at hs
  split_ifs at hs
  · simp [Verdict.suggestions] at hs
  · rw [Verdict.suggestions_ofSuggestions] at hs
    exact ⟨(localSuggestions_ne_nil_iff.1 (List.ne_nil_of_mem hs)).1, mem_localSuggestions hs⟩

end ModuleCheck

/-- A suggestion that is applied is reported again exactly if the extension was left out, what
remains ends in another, the file with both is there and yet not found, and some file is like it. -/
theorem applied_invalid_iff (index : ModuleIndex) (hbuilt : index.Built)
    (hresolver : index.resolver = none)
    (hext : ∀ ext ∈ index.extensions, ext.head? = some '.' ∧ '/' ∉ ext)
    (hlocal : ∀ file ∈ index.localFiles, Path.Collapsed file) (options : RankingOptions)
    (tree : FileTree) (specifier file : Text)
    (hkind : Specifier.classify specifier = some .relative) (s : Suggestion)
    (hs : s ∈ (ModuleCheck.check index options tree specifier file).suggestions) :
    (ModuleCheck.check index options tree s.name file).isValid = false ↔
      Path.extension? index.extensions specifier = none
        ∧ (Path.extension? index.extensions (Path.resolve file s.name)).isSome
        ∧ (∃ ext ∈ index.extensions, Path.resolve file s.name ++ ext ∈ index.localFiles)
        ∧ index.resolveLocal? (Path.resolve file s.name) = none
        ∧ ∃ candidate, ModuleCheck.Offers index (Path.resolve file s.name)
              (Path.normalize file) candidate
            ∧ Ranking.Eligible options (Path.fileName s.name) (Path.fileName
                (ModuleCheck.suggestedPath index.extensions s.name candidate)) := by
  obtain ⟨hmax, other, hother, hname, he⟩ := ModuleCheck.exists_offered hkind hs
  have hkind' : Specifier.classify s.name = some .relative := by
    rw [hname]
    exact Specifier.classify_eq_relative_iff.2 (Specifier.isRelative_toSpecifier _ _)
  rw [ModuleCheck.check_relative hkind', ModuleCheck.checkRelative_invalid_iff,
    Path.resolve_normalize]
  constructor
  · rintro ⟨hnone, -, -, candidate, hcandidate, he'⟩
    have hfrom : Path.isAbsolute (Path.dirname (Path.normalize file)) = true := by
      have hrelative : Path.isAbsolute (Path.normalize s.name) = false := by
        rw [hname, Path.normalize_toSpecifier]
        exact Path.isAbsolute_toSpecifier _ _
      rw [← Path.isAbsolute_resolve hrelative]
      exact hcandidate.isAbsolute_target hlocal
    have htarget : Path.resolve file s.name
        = Path.collapse (ModuleCheck.suggestedPath index.extensions specifier other) := by
      rw [hname]
      exact hother.resolve_toSpecifier hbuilt hlocal he hfrom
    rw [htarget] at hnone hcandidate ⊢
    obtain ⟨hleft, hstem, hthere⟩ := hother.extension?_of_unfound hext hlocal hnone
    exact ⟨hleft, hstem, hthere, hnone, candidate, hcandidate, he'⟩
  · rintro ⟨-, -, -, hnone, candidate, hcandidate, he'⟩
    refine ⟨hnone, ?_, hmax, candidate, hcandidate, he'⟩
    rw [ModuleIndex.canResolve, hresolver]
    rfl

/-- An index with a file whose stem ends in an extension. -/
def themeIndex : ModuleIndex := .ofParts ["/app/theme.css.ts".toList] [] .standard

/-- What is suggested there for `./theme.cs`. -/
def themeSuggestion : Suggestion :=
  ⟨.named "./theme.css".toList, (similarity "theme.cs".toList "theme.css".toList).magnitude,
    by decide +kernel, by decide +kernel⟩

theorem mem_suggestions_theme :
    themeSuggestion ∈ (ModuleCheck.check themeIndex .standard MemoryTree.empty.toFileTree
      "./theme.cs".toList "/app/main.ts".toList).suggestions := by
  decide +kernel

theorem applied_theme_invalid :
    (ModuleCheck.check themeIndex .standard MemoryTree.empty.toFileTree themeSuggestion.name
        "/app/main.ts".toList).isValid = false := by
  refine (applied_invalid_iff themeIndex (.ofParts _ _ _) rfl (by decide) (by decide) .standard
    _ _ _ rfl _ mem_suggestions_theme).2
    ⟨by decide, by decide, ⟨".ts".toList, by decide, by decide⟩, by decide, ?_⟩
  refine ⟨"/app/theme.css.ts".toList, ⟨by decide, by decide, by decide, by decide⟩, ?_⟩
  exact ⟨by decide, by decide, by decide +kernel⟩

theorem applied_not_always_valid :
    ¬ ∀ (index : ModuleIndex) (options : RankingOptions) (tree : FileTree) (specifier file : Text)
        (s : Suggestion), index.Built → index.resolver = none →
      (∀ ext ∈ index.extensions, ext.head? = some '.' ∧ '/' ∉ ext) →
      (∀ file ∈ index.localFiles, Path.Collapsed file) → Path.Collapsed file →
      Specifier.classify specifier = some .relative →
      s ∈ (ModuleCheck.check index options tree specifier file).suggestions →
      (ModuleCheck.check index options tree s.name file).isValid = true := by
  intro h
  have hvalid := h themeIndex .standard _ _ "/app/main.ts".toList _ (.ofParts _ _ _) rfl
    (by decide) (by decide) (by decide) rfl mem_suggestions_theme
  have hinvalid : (ModuleCheck.check themeIndex .standard MemoryTree.empty.toFileTree
      themeSuggestion.name "/app/main.ts".toList).isValid = false := by decide +kernel
  exact absurd (hvalid.symm.trans hinvalid) (by decide)

/-- A suggestion leads back to the file it is made in exactly if it is the stem of another file
under which that file is found. -/
theorem applied_self_iff (index : ModuleIndex) (hbuilt : index.Built)
    (hlocal : ∀ file ∈ index.localFiles, Path.Collapsed file) (options : RankingOptions)
    (tree : FileTree) (specifier file : Text) (hfile : Path.Collapsed file)
    (hkind : Specifier.classify specifier = some .relative) (s : Suggestion)
    (hs : s ∈ (ModuleCheck.check index options tree specifier file).suggestions) :
    index.resolveLocal? (Path.resolve file s.name) = some file ↔
      Path.extension? index.extensions specifier = none
        ∧ ∃ other, ModuleCheck.Offers index (Path.resolve file specifier) file other
            ∧ Ranking.Eligible options (Path.fileName specifier)
                (Path.fileName (Path.stripExtension index.extensions other))
            ∧ s.name = Path.toSpecifier (Path.dirname file)
                (Path.stripExtension index.extensions other)
            ∧ index.resolveLocal? (Path.collapse (Path.stripExtension index.extensions other))
                = some file := by
  constructor
  · intro hself
    have hnorm := hbuilt.normalize_localFile (ModuleIndex.mem_localFiles_of_resolveLocal? hself)
    obtain ⟨-, other, hother, hname, he⟩ := ModuleCheck.exists_offered hkind hs
    have htarget := hother.resolve_toSpecifier hbuilt hlocal he
      (by rw [hnorm]; exact hfile.dirname_absolute)
    rw [hname, htarget] at hself
    rw [hnorm] at hother hname
    rcases hsome : Path.extension? index.extensions specifier with _ | ext
    · rw [ModuleCheck.suggestedPath_of_none hsome] at hself he hname
      exact ⟨rfl, other, hother, he, hname, hself⟩
    · rw [ModuleCheck.suggestedPath_of_some hsome, (hlocal other hother.mem_localFiles).fixed,
        ModuleIndex.resolveLocal?_of_mem hother.mem_localFiles] at hself
      exact absurd (Option.some.inj hself) hother.ne_containing
  · rintro ⟨hsome, other, hother, he, hname, hself⟩
    have hnorm := hbuilt.normalize_localFile (ModuleIndex.mem_localFiles_of_resolveLocal? hself)
    rw [← ModuleCheck.suggestedPath_of_none hsome] at hself he hname
    have htarget := hother.resolve_toSpecifier hbuilt hlocal he
      (by rw [hnorm]; exact hfile.dirname_absolute)
    rw [hnorm] at htarget
    rw [hname, htarget, hself]

/-- An index with two files of one stem. -/
def twinIndex : ModuleIndex :=
  .ofParts ["/app/foo.ts".toList, "/app/foo.css".toList] [] .standard

/-- What is suggested there for `./fooo`. -/
def twinSuggestion : Suggestion :=
  ⟨.named "./foo".toList, (similarity "fooo".toList "foo".toList).magnitude, by decide +kernel,
    by decide +kernel⟩

theorem mem_suggestions_twin :
    twinSuggestion ∈ (ModuleCheck.check twinIndex .standard MemoryTree.empty.toFileTree
      "./fooo".toList "/app/foo.ts".toList).suggestions := by
  decide +kernel

theorem applied_twin_self :
    twinIndex.resolveLocal? (Path.resolve "/app/foo.ts".toList twinSuggestion.name)
      = some "/app/foo.ts".toList := by
  refine (applied_self_iff twinIndex (.ofParts _ _ _) (by decide) .standard _ _ _ (by decide) rfl
    _ mem_suggestions_twin).2 ⟨by decide, "/app/foo.css".toList, ?_, ?_, by decide, by decide⟩
  · exact ⟨by decide, by decide, by decide, by decide⟩
  · exact ⟨by decide, by decide, by decide +kernel⟩

theorem applied_not_always_other :
    ¬ ∀ (index : ModuleIndex) (options : RankingOptions) (tree : FileTree) (specifier file : Text)
        (s : Suggestion), index.Built → (∀ file ∈ index.localFiles, Path.Collapsed file) →
      Path.Collapsed file → Specifier.classify specifier = some .relative →
      s ∈ (ModuleCheck.check index options tree specifier file).suggestions →
      index.resolveLocal? (Path.resolve file s.name) ≠ some file := by
  intro h
  exact h twinIndex .standard _ _ "/app/foo.ts".toList _ (.ofParts _ _ _) (by decide) (by decide)
    rfl mem_suggestions_twin (by decide)

/-! ## Importing any file -/

/-- A path as a specifier written in a file. -/
def Path.specifierIn (containingFile target : Text) : Text :=
  toSpecifier (dirname (normalize containingFile)) target

/-- What is rendered for an absolute path, whichever separators it is spelled with, is relative
and resolves to the path in normal form. If the path is a file of an index, it is valid there. -/
theorem rendered_specifier_found (containingFile target : Text)
    (hfrom : Path.isAbsolute (Path.dirname (Path.normalize containingFile)) = true)
    (htarget : Path.isAbsolute (Path.normalize target) = true) :
    Specifier.classify (Path.specifierIn containingFile target) = some .relative
      ∧ Path.resolve containingFile (Path.specifierIn containingFile target)
        = Path.collapse (Path.normalize target)
      ∧ ∀ (index : ModuleIndex), index.Built → target ∈ index.localFiles →
          Path.Collapsed target → ∀ (options : RankingOptions) (tree : FileTree),
            ModuleCheck.check index options tree (Path.specifierIn containingFile target)
              containingFile = .valid := by
  have hkind : Specifier.classify (Path.specifierIn containingFile target) = some .relative :=
    Specifier.classify_eq_relative_iff.2 (Specifier.isRelative_toSpecifier _ _)
  have hresolve : Path.resolve containingFile (Path.specifierIn containingFile target)
      = Path.collapse (Path.normalize target) := Path.resolve_toSpecifier hfrom htarget
  refine ⟨hkind, hresolve, fun index hbuilt hmem hcollapsed options tree => ?_⟩
  have hthere : index.resolveLocal? (Path.resolve containingFile
      (Path.specifierIn containingFile target)) = some target := by
    rw [hresolve, hbuilt.normalize_localFile hmem, hcollapsed.fixed]
    exact ModuleIndex.resolveLocal?_of_mem hmem
  rw [ModuleCheck.check_relative hkind]
  simp only [ModuleCheck.checkRelative, Path.resolve_normalize, hthere, Option.isSome_some,
    Bool.true_or, if_true]

theorem dotted_directory_found :
    Path.specifierIn "\\app\\src\\main.ts".toList "/app/..lib/util.ts".toList
        = "../..lib/util.ts".toList
      ∧ ModuleCheck.check (.ofParts ["/app/..lib/util.ts".toList] [] .standard) .standard
          MemoryTree.empty.toFileTree "../..lib/util.ts".toList "\\app\\src\\main.ts".toList
        = .valid := by
  have hfound := (rendered_specifier_found "\\app\\src\\main.ts".toList
    "/app/..lib/util.ts".toList (by decide) (by decide)).2.2
  exact ⟨by decide, hfound _ (.ofParts _ _ _) (by decide) (by decide) _ _⟩

end DidYouMean
