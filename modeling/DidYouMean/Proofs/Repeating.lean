import DidYouMean.Proofs.Discovery
import DidYouMean.Proofs.Listing

/-!
# Suggestions that repeat the query

A verdict repeats its query if one of the suggestions is the very text that was written. A name is
looked for among the names it is compared with, so that cannot happen there. A specifier is compared
by its package or by its last segment only, and there it can (`repeats_iff`): when packages are
listed under names with a path inside, and when a path leads straight up to a directory that has the
name of a file beside it. Any other suggested path ends with the name that was compared, which is
never the name in the query (`fileName_toSpecifier`).
-/

namespace DidYouMean

theorem ModuleIndex.Built.packageName_ne_nil {index : ModuleIndex} (h : index.Built) :
    ∀ {package : Text}, package ∈ index.packageNames → package ≠ [] := by
  induction h with
  | ofParts files packages options =>
    exact fun hpackage => ModuleIndex.ne_nil_of_mem_knownNames hpackage
  | build tree options unit =>
    exact fun hpackage => ModuleIndex.ne_nil_of_mem_knownNames hpackage
  | withResolver resolver _ ih => exact ih

/-- One of the suggestions is the text that was written. -/
def Verdict.Repeats (v : Verdict) : Prop := ∃ s ∈ v.suggestions, v.query? = some s.name

@[simp] theorem Verdict.repeats_ofSuggestions {context : Context} {suggestions : List Suggestion} :
    (ofSuggestions context suggestions).Repeats ↔
      context.query ∈ Suggestion.names suggestions := by
  rw [Repeats, suggestions_ofSuggestions, Suggestion.names, List.mem_map]
  refine exists_congr fun s => and_congr_right fun hs => ?_
  rw [ofSuggestions, if_neg (List.ne_nil_of_mem hs), query?, Option.some.injEq, eq_comm]

@[simp] theorem Verdict.not_repeats_valid : ¬ Repeats .valid := by
  rintro ⟨s, hs, -⟩
  simp [suggestions] at hs

theorem NameQuery.not_repeats {τ : Type} (oracle : TypeOracle τ) (options : RankingOptions)
    (q : NameQuery τ) : ¬ (q.check oracle options).Repeats := by
  by_cases hlists : ∃ names, q.Lists oracle names
  · obtain ⟨names, hnames⟩ := hlists
    obtain ⟨context, hquery, hcheck⟩ := check_among options hnames
    rw [hcheck]
    rintro ⟨s, hs, hrepeats⟩
    have hlisted := (SymbolCheck.mem_suggestions_checkAmong hs).1
    rw [SymbolCheck.checkAmong] at hs hrepeats
    split_ifs at hs hrepeats with hthere
    · simp [Verdict.suggestions] at hs
    · rw [Verdict.suggestions_ofSuggestions] at hs
      rw [Verdict.ofSuggestions, if_neg (List.ne_nil_of_mem hs), Verdict.query?, hquery,
        Option.some.injEq] at hrepeats
      rw [List.contains_iff_mem, hrepeats] at hthere
      exact hthere hlisted
  · rw [check_of_not_lists (not_exists.1 hlists)]
    exact Verdict.not_repeats_valid

namespace ModuleCheck

variable {index : ModuleIndex} {options : RankingOptions} {tree : FileTree}
  {specifier target file containingFile other : Text}

/-- The package of a specifier is not known, but the whole of the specifier is listed as a package
and is among the best matches for its own beginning. -/
structure RepeatsPackage (index : ModuleIndex) (options : RankingOptions) (specifier : Text) :
    Prop where
  kind : Specifier.classify specifier = some .package
  unknown : Specifier.packageName specifier ∉ index.packageNames
  listed : specifier ∈ index.packageNames
  ranked : specifier ∈ Suggestion.names
    (rankNames options (Specifier.packageName specifier) index.packageNames)

/-- The specifier leads straight up to a directory the file is in. It is not found as a module, and
the name that stands there for the file `other` is among the best matches for its last segment. -/
structure RepeatsPath (index : ModuleIndex) (options : RankingOptions)
    (specifier containingFile other : Text) : Prop where
  kind : Specifier.classify specifier = some .relative
  unfound : index.resolveLocal? (Path.resolve containingFile specifier) = none
  offered : Offers index (Path.resolve containingFile specifier) containingFile other
  above : Path.steps (suggestedPath index.extensions specifier other)
    <+: Path.steps (Path.dirname containingFile)
  upwards : specifier = Path.upwards ((Path.steps (Path.dirname containingFile)).length
    - (Path.steps (suggestedPath index.extensions specifier other)).length)
  ranked : Path.fileName (suggestedPath index.extensions specifier other) ∈ Suggestion.names
    (rankNames options (Path.fileName specifier)
      ((localCandidates index specifier (Path.resolve containingFile specifier)
        containingFile).map Prod.fst))

theorem mem_names_packageSuggestions (hbuilt : index.Built)
    (hunknown : Specifier.packageName specifier ∉ index.packageNames) :
    specifier ∈ Suggestion.names
        (packageSuggestions index options (Specifier.packageName specifier)) ↔
      specifier ∈ index.packageNames
        ∧ specifier ∈ Suggestion.names
          (rankNames options (Specifier.packageName specifier) index.packageNames) := by
  have hall : index.packageNames.filter (Admissible.asPackage (Specifier.packageName specifier))
      = index.packageNames := by
    rw [List.filter_eq_self]
    intro package hpackage
    rw [Admissible.asPackage, Bool.and_eq_true, bne_iff_ne, bne_iff_ne]
    exact ⟨hbuilt.packageName_ne_nil hpackage, ne_of_mem_of_not_mem hpackage hunknown⟩
  rw [packageSuggestions, hall, iff_and_self]
  intro hranked
  obtain ⟨s, hs, hname⟩ := List.mem_map.1 hranked
  rw [← hname]
  exact (mem_rankNames hs).1

/-- Names in one directory are rendered as one specifier if they are the same. -/
theorem Offers.toSpecifier_eq (hbuilt : index.Built)
    (hext : ∀ ext ∈ index.extensions, ext.head? = some '.' ∧ '/' ∉ ext) (fromDir : Text)
    {other' : Text}
    (h : Offers index target containingFile other)
    (h' : Offers index target containingFile other')
    (hname : Path.Plain (Path.fileName (suggestedPath index.extensions specifier other)))
    (heq : Path.fileName (suggestedPath index.extensions specifier other)
      = Path.fileName (suggestedPath index.extensions specifier other')) :
    Path.toSpecifier fromDir (suggestedPath index.extensions specifier other)
      = Path.toSpecifier fromDir (suggestedPath index.extensions specifier other') := by
  have hsteps : Path.steps (suggestedPath index.extensions specifier other)
      = Path.steps (suggestedPath index.extensions specifier other') := by
    rw [Path.steps_of_fileName (h.normalize_suggestedPath hbuilt specifier) hname,
      Path.steps_of_fileName (h'.normalize_suggestedPath hbuilt specifier) (heq ▸ hname),
      (h.suggestedPath_stays hext specifier).1, (h'.suggestedPath_stays hext specifier).1, heq]
  have hway : Path.relative fromDir (suggestedPath index.extensions specifier other)
      = Path.relative fromDir (suggestedPath index.extensions specifier other') := by
    rw [Path.relative_eq_join, Path.relative_eq_join, hsteps]
  rw [Path.toSpecifier, Path.toSpecifier, hway]

theorem mem_names_localSuggestions (hbuilt : index.Built)
    (hext : ∀ ext ∈ index.extensions, ext.head? = some '.' ∧ '/' ∉ ext)
    (hkind : Specifier.classify specifier = some .relative)
    (hunfound : index.resolveLocal? (Path.resolve containingFile specifier) = none) :
    specifier ∈ Suggestion.names (localSuggestions index options specifier
        (Path.resolve containingFile specifier) containingFile) ↔
      ∃ other, RepeatsPath index options specifier containingFile other := by
  rw [Suggestion.names, List.mem_map]
  constructor
  · rintro ⟨s, hs, hname⟩
    obtain ⟨r, hr, hs⟩ := List.mem_filterMap.1 hs
    obtain ⟨rendered, hlookup, rfl⟩ := Option.map_eq_some_iff.1 hs
    obtain ⟨other, hother, hkey, hrendered⟩ := offers_of_lookup hlookup
    have he := (mem_rankNames hr).2
    rw [hkey] at he
    have hspecifier : Path.toSpecifier (Path.dirname containingFile)
        (suggestedPath index.extensions specifier other) = specifier := hrendered.symm.trans hname
    -- If the path ended with the name it is ranked by, the specifier would, and was not ranked
    -- then.
    have habove := (Path.fileName_toSpecifier (hother.normalize_suggestedPath hbuilt specifier)
      (hother.plain_fileName hext he.nonempty)).resolve_left fun hlast => he.ne_query (by
        rw [← hlast, hspecifier])
    refine ⟨other, hkind, hunfound, hother, habove, ?_, ?_⟩
    · rw [← Path.toSpecifier_of_prefix habove, hspecifier]
    · rw [← hkey]
      exact List.mem_map_of_mem hr
  · rintro ⟨other, h⟩
    obtain ⟨r, hr, hkey⟩ := List.mem_map.1 h.ranked
    have hlisted := mem_rankNames hr
    obtain ⟨rendered, hlookup⟩ := exists_lookup hlisted.1
    obtain ⟨other', hother', hkey', hrendered⟩ := offers_of_lookup hlookup
    refine ⟨⟨Candidate.named rendered, r.score⟩, List.mem_filterMap.2 ⟨r, hr, ?_⟩, ?_⟩
    · rw [hlookup, Option.map_some]
    · have he := hlisted.2
      rw [hkey] at he
      have hsame := h.offered.toSpecifier_eq hbuilt hext (Path.dirname containingFile)
        hother' (h.offered.plain_fileName hext he.nonempty)
        (hkey.symm.trans hkey')
      rw [Candidate.named, hrendered, ← hsame, Path.toSpecifier_of_prefix h.above]
      exact h.upwards.symm

theorem checkPackage_repeats_iff (hbuilt : index.Built)
    (hkind : Specifier.classify specifier = some .package) :
    (checkPackage index options tree specifier containingFile).Repeats ↔
      index.canResolve tree specifier containingFile = false
        ∧ RepeatsPackage index options specifier := by
  simp only [checkPackage, ModuleIndex.hasPackage, Bool.or_eq_true, List.contains_iff_mem]
  split_ifs with hknown
  · simp only [Verdict.not_repeats_valid, false_iff]
    rintro ⟨hresolver, h⟩
    rw [hresolver] at hknown
    exact h.unknown (hknown.resolve_right (by simp))
  · rw [not_or, Bool.not_eq_true] at hknown
    rw [Verdict.repeats_ofSuggestions, Context.query, mem_names_packageSuggestions hbuilt hknown.1]
    constructor
    · rintro ⟨hlisted, hranked⟩
      exact ⟨hknown.2, hkind, hknown.1, hlisted, hranked⟩
    · rintro ⟨-, h⟩
      exact ⟨h.listed, h.ranked⟩

theorem checkRelative_repeats_iff (hbuilt : index.Built)
    (hext : ∀ ext ∈ index.extensions, ext.head? = some '.' ∧ '/' ∉ ext)
    (hkind : Specifier.classify specifier = some .relative) :
    (checkRelative index options tree specifier containingFile).Repeats ↔
      index.canResolve tree specifier containingFile = false
        ∧ ∃ other, RepeatsPath index options specifier containingFile other := by
  simp only [checkRelative, Bool.or_eq_true]
  split_ifs with hknown
  · simp only [Verdict.not_repeats_valid, false_iff]
    rintro ⟨hresolver, other, h⟩
    rw [hresolver, h.unfound] at hknown
    simp at hknown
  · rw [not_or, Option.not_isSome_iff_eq_none, Bool.not_eq_true] at hknown
    rw [Verdict.repeats_ofSuggestions, Context.query,
      mem_names_localSuggestions hbuilt hext hkind hknown.1]
    simp only [hknown.2, true_and]

end ModuleCheck

/-- No check of a name suggests the name itself. A check of a specifier does exactly if its resolver
does not know it and it is a package specifier that is listed as a whole, or a path that leads
straight up to what stands for a file. -/
theorem repeats_iff (options : RankingOptions) :
    (∀ (τ : Type) (oracle : TypeOracle τ) (q : NameQuery τ), ¬ (q.check oracle options).Repeats)
    ∧ ∀ index : ModuleIndex, index.Built → ∀ (tree : FileTree) (specifier file : Text),
        (Specifier.classify specifier = some .relative →
          ∀ ext ∈ index.extensions, ext.head? = some '.' ∧ '/' ∉ ext) →
        ((ModuleCheck.check index options tree specifier file).Repeats ↔
          index.canResolve tree specifier (Path.normalize file) = false
            ∧ (ModuleCheck.RepeatsPackage index options specifier
              ∨ ∃ other, ModuleCheck.RepeatsPath index options specifier (Path.normalize file)
                  other)) := by
  refine ⟨fun τ oracle q => NameQuery.not_repeats oracle options q,
    fun index hbuilt tree specifier file hext => ?_⟩
  have hpackage : ModuleCheck.RepeatsPackage index options specifier →
      Specifier.classify specifier = some .package := fun h => h.kind
  have hrelative : (∃ other, ModuleCheck.RepeatsPath index options specifier
      (Path.normalize file) other) → Specifier.classify specifier = some .relative :=
    fun ⟨_, h⟩ => h.kind
  rw [ModuleCheck.check]
  rcases hkind : Specifier.classify specifier with _ | _ | _
  case some.relative =>
    rw [ModuleCheck.checkRelative_repeats_iff hbuilt (hext hkind) hkind]
    rw [hkind] at hpackage
    tauto
  case some.package =>
    rw [ModuleCheck.checkPackage_repeats_iff hbuilt hkind]
    rw [hkind] at hrelative
    tauto
  all_goals
    rw [hkind] at hpackage hrelative
    simp only [Verdict.not_repeats_valid, false_iff]
    tauto

/-- An index that knows part of a package but not the package. -/
def partIndex : ModuleIndex := .ofParts [] ["lodash/fp".toList] .standard

/-- What is suggested there for that very part. -/
def partSuggestion : Suggestion :=
  ⟨.named "lodash/fp".toList, (similarity "lodash".toList "lodash/fp".toList).magnitude,
    by decide +kernel, by decide +kernel⟩

theorem check_part :
    ModuleCheck.check partIndex .standard MemoryTree.empty.toFileTree "lodash/fp".toList
        "/app/main.ts".toList
      = .invalid (.moduleSpecifier "lodash/fp".toList .package) [partSuggestion] := by
  decide +kernel

/-- An index with a file whose stem ends in an extension and might be a directory as well. -/
def stemIndex : ModuleIndex := .ofParts ["/app/v..js.ts".toList] [] .standard

theorem part_and_parent_repeated :
    (ModuleCheck.check partIndex .standard MemoryTree.empty.toFileTree "lodash/fp".toList
        "/app/main.ts".toList).Repeats
      ∧ (ModuleCheck.check stemIndex .standard MemoryTree.empty.toFileTree "..".toList
        "/app/v..js/old/main.ts".toList).Repeats := by
  constructor
  · refine ((repeats_iff .standard).2 partIndex (.ofParts _ _ _) _ _ _ (by decide)).2 ⟨rfl, .inl ?_⟩
    exact ⟨by decide, by decide, by decide, by decide +kernel⟩
  · refine ((repeats_iff .standard).2 stemIndex (.ofParts _ _ _) _ _ _ (by decide)).2
      ⟨rfl, .inr ⟨"/app/v..js.ts".toList, ?_⟩⟩
    exact ⟨by decide, by decide, ⟨by decide, by decide, by decide, by decide⟩, by decide, by decide,
      by decide +kernel⟩

theorem query_not_always_new :
    ¬ ∀ (index : ModuleIndex) (options : RankingOptions) (tree : FileTree) (specifier file : Text)
        (context : Context) (suggestions : List Suggestion), index.Built →
      ModuleCheck.check index options tree specifier file = .invalid context suggestions →
      ∀ s ∈ suggestions, s.name ≠ context.query := by
  intro h
  exact h partIndex .standard _ _ _ _ _ (.ofParts _ _ _) check_part partSuggestion
    (List.mem_singleton_self _) rfl

end DidYouMean
