import DidYouMean.Proofs.PackageNames
import DidYouMean.Proofs.Trimming

/-!
# What the package of a specifier decides

The kind of a specifier is settled before its first slash (`classify_lead`). Core modules are the
only place where a text behind a slash is looked at, and there the part before the slash is a core
module too. A scheme ends at the first colon wherever that is, but with a slash before the colon it
is none. So the path inside a package plays no part, and without a resolver, which is asked about
the whole specifier, two specifiers of one package get one verdict (`package_decides_verdict`).
-/

namespace DidYouMean

namespace Specifier

variable {s : Text}

/-! ## Packages -/

theorem packageName_of_head?_ne (h : s.head? ≠ some '@') : packageName s = lead s := by
  rw [packageName, split_of_head?_ne h, cutSlash_fst]

/-- A package begins as its specifiers do. -/
theorem lead_packageName (s : Text) : lead (packageName s) = lead s := by
  by_cases hscope : s.head? = some '@'
  · obtain ⟨tail, rfl⟩ := List.head?_eq_some_iff.1 hscope
    rcases lead_cases tail with h | ⟨behind, h⟩
    · rw [h, packageName, split, cutSlash_of_not_mem (not_mem_lead tail)]
    · have hscope' : '/' ∉ '@' :: lead tail := by simp [not_mem_lead]
      rw [h, packageName, split, cutSlash_append (not_mem_lead tail), ← List.cons_append,
        lead_append_slash hscope', lead_append_slash hscope']
  · rw [packageName_of_head?_ne hscope, lead_lead]

theorem trim_lead_ne_nil (h : Text.trim (packageName s) ≠ []) : Text.trim (lead s) ≠ [] := by
  by_cases hscope : s.head? = some '@'
  · obtain ⟨tail, rfl⟩ := List.head?_eq_some_iff.1 hscope
    rw [lead, List.takeWhile_cons_of_pos (by decide)]
    exact Text.trim_ne_nil (by decide)
  · rwa [← packageName_of_head?_ne hscope]

/-! ## Kinds -/

theorem isRelative_lead (h : lead s ≠ []) : isRelative (lead s) = isRelative s := by
  rw [Bool.eq_iff_iff, isRelative_iff, isRelative_iff, head?_lead h, lead_lead]

theorem stripStart?_lead {start : Text} (h : '/' ∉ start) (s : Text) :
    Text.stripStart? start (lead s) = (Text.stripStart? start s).map lead := by
  rcases hs : Text.stripStart? start s with _ | rest
  · rw [Option.map_none, Option.eq_none_iff_forall_ne_some]
    intro rest hrest
    obtain ⟨behind, hbehind⟩ := lead_isPrefix s
    rw [Text.stripStart?_eq_some_iff.1 hrest, List.append_assoc] at hbehind
    rw [← hbehind, Text.stripStart?_append] at hs
    cases hs
  · rw [Text.stripStart?_eq_some_iff.1 hs, lead_append h, Text.stripStart?_append, Option.map_some]

theorem lead_mem_coreModules (h : s ∈ coreModules) : lead s ∈ coreModules := by
  have hslash : ∀ name ∈ coreModules, '/' ∈ name → lead name ∈ coreModules := by decide +kernel
  by_cases hmem : '/' ∈ s
  · exact hslash s h hmem
  · rwa [lead_of_not_mem hmem]

theorem isBuiltin_iff : isBuiltin s = true ↔
    lead ((Text.stripStart? "node:".toList s).getD s) ∈ coreModules := by
  simp only [isBuiltin, Bool.and_eq_true, Bool.or_eq_true, List.contains_iff_mem, bne_iff_ne]
  generalize (Text.stripStart? "node:".toList s).getD s = name
  constructor
  · rintro ⟨-, hname | hpackage⟩
    · exact lead_mem_coreModules hname
    · rw [← lead_packageName]
      exact lead_mem_coreModules hpackage
  · intro hlead
    -- No core module has a scope, so the package of a path inside one is what it begins with.
    have hfirst : ∀ m ∈ coreModules, m ≠ [] ∧ m.head? ≠ some '@' := by decide +kernel
    obtain ⟨hne, hscope⟩ := hfirst _ hlead
    rw [head?_lead hne] at hscope
    refine ⟨?_, .inr (by rwa [packageName_of_head?_ne hscope])⟩
    rintro rfl
    exact hne rfl

theorem isBuiltin_lead (s : Text) : isBuiltin (lead s) = isBuiltin s := by
  rw [Bool.eq_iff_iff, isBuiltin_iff, isBuiltin_iff, stripStart?_lead (by decide),
    Option.getD_map, lead_lead]

theorem hasScheme_iff : hasScheme s = true ↔ ∃ scheme behind, s = scheme ++ ':' :: behind
    ∧ 2 ≤ scheme.length ∧ scheme.head?.any Char.isAlpha = true
    ∧ ∀ c ∈ scheme, isSchemeChar c = true := by
  have htake : ∀ {scheme : Text}, ':' ∉ scheme → ∀ behind,
      (scheme ++ ':' :: behind).takeWhile (· != ':') = scheme := by
    intro scheme hscheme behind
    rw [List.takeWhile_append_of_pos fun c hc => bne_iff_ne.2 (ne_of_mem_of_not_mem hc hscheme),
      List.takeWhile_cons_of_neg (by simp), List.append_nil]
  simp only [hasScheme, Bool.and_eq_true, List.any_eq_true, beq_iff_eq, exists_eq_right,
    decide_eq_true_eq, List.all_eq_true]
  constructor
  · rintro ⟨⟨⟨hcolon, hlength⟩, hfirst⟩, hchars⟩
    obtain ⟨scheme, behind, rfl, hscheme⟩ := List.eq_append_cons_of_mem hcolon
    rw [htake hscheme] at hlength hfirst hchars
    exact ⟨scheme, behind, rfl, hlength, hfirst, hchars⟩
  · rintro ⟨scheme, behind, rfl, hlength, hfirst, hchars⟩
    have hscheme : ':' ∉ scheme := fun hcolon => absurd (hchars ':' hcolon) (by decide)
    rw [htake hscheme]
    exact ⟨⟨⟨by simp, hlength⟩, hfirst⟩, hchars⟩

theorem hasScheme_lead (s : Text) : hasScheme (lead s) = hasScheme s := by
  rw [Bool.eq_iff_iff, hasScheme_iff, hasScheme_iff]
  constructor
  · rintro ⟨scheme, behind, hlead, h⟩
    obtain ⟨rest, hrest⟩ := lead_isPrefix s
    exact ⟨scheme, behind ++ rest, by rw [← hrest, hlead]; simp, h⟩
  · rintro ⟨scheme, behind, rfl, h⟩
    -- No slash may stand in a scheme, so the first one comes behind the colon.
    have hslash : '/' ∉ scheme ++ [':'] := by
      simp only [List.mem_append, List.mem_singleton, not_or]
      exact ⟨fun hmem => absurd (h.2.2 '/' hmem) (by decide), by decide⟩
    refine ⟨scheme, lead behind, ?_, h⟩
    rw [List.append_cons, lead_append hslash, ← List.append_cons]

/-- The kind of a specifier is that of the part before the first slash. -/
theorem classify_lead (h : Text.trim (lead s) ≠ []) : classify (lead s) = classify s := by
  have hne : lead s ≠ [] := by
    intro hnil
    rw [hnil] at h
    exact h rfl
  have htrim : Text.trim s ≠ [] := by
    rw [Ne, Text.trim_eq_nil_iff, List.all_eq_true] at h ⊢
    exact fun hall => h fun c hc => hall c ((lead_isPrefix s).subset hc)
  rw [classify, classify, if_neg h, if_neg htrim, isRelative_lead hne, isBuiltin_lead,
    hasScheme_lead, head?_lead hne]

/-- Specifiers of one package are of one kind. -/
theorem classify_of_packageName {a b : Text} (hpackage : packageName a = packageName b)
    (hblank : Text.trim (packageName a) ≠ []) : classify a = classify b := by
  have hlead : lead a = lead b := by rw [← lead_packageName a, hpackage, lead_packageName]
  have hnonblank := trim_lead_ne_nil hblank
  rw [← classify_lead hnonblank, hlead, classify_lead (hlead ▸ hnonblank)]

end Specifier

namespace ModuleCheck

variable {index : ModuleIndex} {options : RankingOptions} {tree : FileTree} {specifier file : Text}

/-- Without a resolver the package of a specifier is looked up, and what is suggested for it is
reported with the specifier. -/
theorem check_package (hkind : Specifier.classify specifier = some .package)
    (hresolver : index.resolver = none) :
    check index options tree specifier file =
      if Specifier.packageName specifier ∈ index.packageNames then .valid
      else .ofSuggestions (.moduleSpecifier specifier .package)
        (packageSuggestions index options (Specifier.packageName specifier)) := by
  simp only [check, hkind, checkPackage, ModuleIndex.canResolve, hresolver, Option.any_none,
    Bool.or_false, ModuleIndex.hasPackage, List.contains_iff_mem]

end ModuleCheck

/-- Two specifiers of one package are of one kind, and if that is the package kind, they get one
verdict from every index without a resolver, wherever they are written: both are valid, or both are
reported with the same suggestions. -/
theorem package_decides_verdict (a b : Text)
    (hpackage : Specifier.packageName a = Specifier.packageName b)
    (hblank : Text.trim (Specifier.packageName a) ≠ []) :
    Specifier.classify a = Specifier.classify b
      ∧ (Specifier.classify a = some .package →
        ∀ (index : ModuleIndex) (options : RankingOptions) (tree tree' : FileTree)
          (file file' : Text), index.resolver = none →
          ModuleCheck.check index options tree a file = .valid
              ∧ ModuleCheck.check index options tree' b file' = .valid
            ∨ ∃ suggestions,
              ModuleCheck.check index options tree a file
                  = .invalid (.moduleSpecifier a .package) suggestions
                ∧ ModuleCheck.check index options tree' b file'
                  = .invalid (.moduleSpecifier b .package) suggestions) := by
  have hkinds := Specifier.classify_of_packageName hpackage hblank
  refine ⟨hkinds, fun hkind index options tree tree' file file' hresolver => ?_⟩
  rw [ModuleCheck.check_package hkind hresolver,
    ModuleCheck.check_package (hkinds ▸ hkind) hresolver, hpackage]
  split_ifs with hknown
  · exact .inl ⟨rfl, rfl⟩
  · simp only [Verdict.ofSuggestions]
    split_ifs with hnone
    · exact .inl ⟨rfl, rfl⟩
    · exact .inr ⟨_, rfl, rfl⟩

theorem scope_alike :
    let a := "@efect/platform/Http".toList
    let b := "@efect/platform/node:fs".toList
    Specifier.packageName a = Specifier.packageName b
      ∧ Text.trim (Specifier.packageName a) ≠ []
      ∧ Specifier.classify a = Specifier.classify b
      ∧ scopeIndex.resolver = none
      ∧ ∃ suggestions,
        ModuleCheck.check scopeIndex .standard MemoryTree.empty.toFileTree a "/app/main.ts".toList
            = .invalid (.moduleSpecifier a .package) suggestions
          ∧ ModuleCheck.check scopeIndex .standard MemoryTree.empty.toFileTree b "/b.ts".toList
            = .invalid (.moduleSpecifier b .package) suggestions := by
  intro a b
  have hpackage : Specifier.packageName a = Specifier.packageName b := by decide
  have hblank : Text.trim (Specifier.packageName a) ≠ [] := by decide
  have hkind : Specifier.classify a = some .package := by decide +kernel
  have hinvalid : ModuleCheck.check scopeIndex .standard MemoryTree.empty.toFileTree a
      "/app/main.ts".toList ≠ .valid := by decide +kernel
  obtain ⟨hkinds, hverdicts⟩ := package_decides_verdict a b hpackage hblank
  refine ⟨hpackage, hblank, hkinds, rfl, ?_⟩
  exact (hverdicts hkind scopeIndex .standard _ _ _ _ rfl).resolve_left fun h => hinvalid h.1

end DidYouMean
