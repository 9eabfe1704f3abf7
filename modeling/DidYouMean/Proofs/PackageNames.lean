import DidYouMean.Proofs.ModuleVerdict
import DidYouMean.Proofs.Rendering

/-!
# Names that specifiers can give

A specifier is read as a package and a path inside it, and as long as a name has no slash of its
own, or only that of its scope, it is read back from the specifiers that begin with it
(`PackageName.split`). Such a specifier need not be of the package kind, for core modules, schemes
and `#` come first, but what is of another kind and no path is let pass unseen. So a package that
is suggested under such a name can be imported, and so can everything inside it
(`suggested_package_known`).
-/

namespace DidYouMean

namespace Specifier

section Slash

variable {s name : Text}

@[simp] theorem cutSlash_of_not_mem (h : '/' ∉ name) : cutSlash name = (name, none) := by
  have hdrop : name.dropWhile (· != '/') = [] :=
    List.dropWhile_eq_nil_iff.2 (Path.bne_slash_of_mem h)
  simp only [cutSlash, hdrop]

@[simp] theorem cutSlash_append (h : '/' ∉ name) (path : Text) :
    cutSlash (name ++ '/' :: path) = (name, some path) := by
  have hkeep := Path.bne_slash_of_mem h
  have hdrop : (name ++ '/' :: path).dropWhile (· != '/') = '/' :: path := by
    rw [List.dropWhile_append_of_pos hkeep]
    simp
  have htake : (name ++ '/' :: path).takeWhile (· != '/') = name := by
    rw [List.takeWhile_append_of_pos hkeep]
    simp
  simp only [cutSlash, hdrop, htake]

/-- What stands before the first slash. -/
def lead (s : Text) : Text := s.takeWhile (· != '/')

theorem lead_append {before : Text} (h : '/' ∉ before) (s : Text) :
    lead (before ++ s) = before ++ lead s :=
  List.takeWhile_append_of_pos (Path.bne_slash_of_mem h)

@[simp] theorem lead_of_not_mem (h : '/' ∉ s) : lead s = s :=
  List.takeWhile_eq_self_iff.2 (Path.bne_slash_of_mem h)

theorem not_mem_lead (s : Text) : '/' ∉ lead s := by
  intro h
  simpa using List.mem_takeWhile_imp h

theorem lead_isPrefix (s : Text) : lead s <+: s := List.takeWhile_prefix _

@[simp] theorem lead_lead (s : Text) : lead (lead s) = lead s := lead_of_not_mem (not_mem_lead s)

@[simp] theorem lead_append_slash {before : Text} (h : '/' ∉ before) (behind : Text) :
    lead (before ++ '/' :: behind) = before := by
  rw [lead_append h, lead, List.takeWhile_cons_of_neg (by simp), List.append_nil]

/-- A specifier ends before the first slash or goes on with it. -/
theorem lead_cases (s : Text) : s = lead s ∨ ∃ behind, s = lead s ++ '/' :: behind := by
  by_cases h : '/' ∈ s
  · obtain ⟨before, behind, rfl, hbefore⟩ := List.eq_append_cons_of_mem h
    exact .inr ⟨behind, by rw [lead_append_slash hbefore]⟩
  · exact .inl (lead_of_not_mem h).symm

theorem cutSlash_fst (s : Text) : (cutSlash s).1 = lead s := by
  rcases lead_cases s with h | ⟨behind, h⟩
  · rw [h, cutSlash_of_not_mem (not_mem_lead s), lead_lead]
  · rw [h, cutSlash_append (not_mem_lead s), lead_append_slash (not_mem_lead s)]

theorem head?_lead (h : lead s ≠ []) : (lead s).head? = s.head? := by
  obtain ⟨c, rest, hc⟩ := List.exists_cons_of_ne_nil h
  rcases lead_cases s with hs | ⟨behind, hs⟩
  · rw [← hs]
  · rw [hs, lead_append_slash (not_mem_lead s), hc]
    rfl

/-- A path begins with the root, `.` or `..`. -/
theorem isRelative_iff :
    isRelative s = true ↔ s.head? = some '/' ∨ lead s = ['.'] ∨ lead s = ['.', '.'] := by
  constructor
  · simp only [isRelative, Bool.or_eq_true, beq_iff_eq, List.isPrefixOf_iff_prefix]
    rintro ((((rfl | rfl) | ⟨rest, rfl⟩) | ⟨rest, rfl⟩) | hroot)
    · exact .inr (.inl rfl)
    · exact .inr (.inr rfl)
    · exact .inr (.inl rfl)
    · exact .inr (.inr rfl)
    · exact .inl hroot
  · rintro (hroot | hdots)
    · simp [isRelative, hroot]
    · rcases lead_cases s with hs | ⟨behind, hs⟩ <;> rcases hdots with h | h <;> rw [hs, h] <;> rfl

end Slash

/-- A name that the next slash ends: one without a slash, or one with the slash of its scope. -/
inductive WholeName : Text → Prop where
  | single {name : Text} : '/' ∉ name → name.head? ≠ some '@' → WholeName name
  | inScope {scope name : Text} : '/' ∉ scope → '/' ∉ name →
      WholeName ('@' :: scope ++ '/' :: name)

/-- A name that a specifier can give: one without a slash that is no path, or one in a scope. -/
inductive PackageName : Text → Prop where
  | single {name : Text} : '/' ∉ name → name.head? ≠ some '@' → name ≠ ['.'] →
      name ≠ ['.', '.'] → PackageName name
  | inScope {scope name : Text} : '/' ∉ scope → '/' ∉ name →
      PackageName ('@' :: scope ++ '/' :: name)

variable {name path : Text}

theorem split_of_head?_ne {s : Text} (h : s.head? ≠ some '@') : split s = cutSlash s := by
  rw [split]
  rintro tail rfl
  exact h rfl

/-- What is put behind a slash does not change what a text begins with. -/
theorem head?_append_slash {c : Char} (hc : c ≠ '/') (name path : Text) :
    (name ++ '/' :: path).head? = some c ↔ name.head? = some c := by
  rcases name with _ | ⟨d, rest⟩
  · simp [Ne.symm hc]
  · simp

/-- A name is read back, alone and with a path behind it. -/
theorem WholeName.split (h : WholeName name) :
    split name = (name, none) ∧ ∀ path, split (name ++ '/' :: path) = (name, some path) := by
  cases h with
  | single hslash hscope =>
    refine ⟨by rw [split_of_head?_ne hscope, cutSlash_of_not_mem hslash], fun path => ?_⟩
    have hscope' : (name ++ '/' :: path).head? ≠ some '@' :=
      (head?_append_slash (by decide) name path).not.2 hscope
    rw [split_of_head?_ne hscope', cutSlash_append hslash]
  | inScope hscope hname =>
    refine ⟨?_, fun path => ?_⟩
    · simp [Specifier.split, hscope, hname]
    · simp [Specifier.split, hscope, hname]

theorem PackageName.wholeName (h : PackageName name) : WholeName name := by
  cases h with
  | single hslash hscope _ _ => exact .single hslash hscope
  | inScope hscope hname => exact .inScope hscope hname

theorem PackageName.split (h : PackageName name) :
    split name = (name, none) ∧ ∀ path, split (name ++ '/' :: path) = (name, some path) :=
  h.wholeName.split

/-- A specifier that begins with a name is no path. -/
theorem PackageName.not_isRelative (h : PackageName name) (hne : name ≠ []) :
    isRelative name = false ∧ ∀ path, isRelative (name ++ '/' :: path) = false := by
  cases h with
  | inScope _ _ => exact ⟨rfl, fun _ => rfl⟩
  | single hslash _ hdot hdots =>
    obtain ⟨c, rest, rfl⟩ := List.exists_cons_of_ne_nil hne
    have hc : c ≠ '/' := fun hc => hslash (by simp [hc])
    have hfirst : ∀ s, s.head? = some c → lead s = c :: rest → isRelative s = false := by
      intro s hhead hlead
      rw [Bool.eq_false_iff, Ne, isRelative_iff, hhead, Option.some.injEq, hlead]
      rintro (h | h | h)
      · exact hc h
      · exact hdot h
      · exact hdots h
    exact ⟨hfirst _ rfl (lead_of_not_mem hslash),
      fun path => hfirst _ rfl (lead_append_slash hslash path)⟩

end Specifier

namespace ModuleCheck

variable {index : ModuleIndex} {options : RankingOptions} {tree : FileTree}
  {specifier file : Text} {s : Suggestion}

theorem mem_packageSuggestions {package : Text}
    (h : s ∈ packageSuggestions index options package) :
    s.name ∈ index.packageNames ∧ s.name ≠ [] ∧ s.name ≠ package := by
  obtain ⟨hmem, hne, hquery⟩ := mem_rankNames h
  exact ⟨(List.mem_filter.1 hmem).1, hne, hquery⟩

/-- What is suggested for a package is another one that is known. -/
theorem mem_suggestions_package (hkind : Specifier.classify specifier = some .package)
    (hs : s ∈ (check index options tree specifier file).suggestions) :
    s.name ∈ index.packageNames ∧ s.name ≠ [] ∧ s.name ≠ Specifier.packageName specifier := by
  simp only [check, hkind, checkPackage] at hs
  split_ifs at hs
  · simp [Verdict.suggestions] at hs
  · rw [Verdict.suggestions_ofSuggestions] at hs
    exact mem_packageSuggestions hs

/-- What is no path and begins with a known package is let pass. -/
theorem check_of_known (hrelative : Specifier.isRelative specifier = false)
    (hknown : Specifier.packageName specifier ∈ index.packageNames) :
    check index options tree specifier file = .valid := by
  have hkind : Specifier.classify specifier ≠ some .relative := by
    rw [Ne, Specifier.classify_eq_relative_iff, hrelative]
    simp
  -- Core modules, schemes and `#` are recognised before packages, and none of them is looked up.
  rcases hclass : Specifier.classify specifier with _ | kind
  · simp only [check, hclass]
  · cases kind
    case relative => exact absurd hclass hkind
    case package =>
      have hthere : index.hasPackage (Specifier.packageName specifier) = true := by
        rwa [ModuleIndex.hasPackage, List.contains_iff_mem]
      simp only [check, hclass, checkPackage, hthere, Bool.true_or, if_true]
    all_goals simp only [check, hclass]

end ModuleCheck

/-- What is suggested for a package is another package that is known. If its name is one that a
specifier can give, the name and whatever stands inside that package are valid everywhere. -/
theorem suggested_package_known (index : ModuleIndex) (options : RankingOptions) (tree : FileTree)
    (specifier file : Text) (hkind : Specifier.classify specifier = some .package)
    (s : Suggestion) (hs : s ∈ (ModuleCheck.check index options tree specifier file).suggestions) :
    s.name ∈ index.packageNames
      ∧ s.name ≠ Specifier.packageName specifier
      ∧ (Specifier.PackageName s.name → ∀ (tree' : FileTree) (file' : Text),
          ModuleCheck.check index options tree' s.name file' = .valid
            ∧ ∀ path, ModuleCheck.check index options tree' (s.name ++ '/' :: path) file'
              = .valid) := by
  obtain ⟨hknown, hne, hother⟩ := ModuleCheck.mem_suggestions_package hkind hs
  refine ⟨hknown, hother, fun hname tree' file' => ?_⟩
  obtain ⟨halone, hpath⟩ := hname.split
  obtain ⟨hrelative, hrelative'⟩ := hname.not_isRelative hne
  refine ⟨ModuleCheck.check_of_known hrelative ?_,
    fun path => ModuleCheck.check_of_known (hrelative' path) ?_⟩
  · rwa [Specifier.packageName, halone]
  · rwa [Specifier.packageName, hpath]

/-- An index with a package in a scope. -/
def scopeIndex : ModuleIndex := .ofParts [] ["@effect/platform".toList] .standard

/-- What is suggested there for a part of that package. -/
def scopeSuggestion : Suggestion :=
  ⟨.named "@effect/platform".toList,
    (similarity "@efect/platform".toList "@effect/platform".toList).magnitude, by decide +kernel,
    by decide +kernel⟩

theorem misspelled_scope_known :
    scopeSuggestion ∈ (ModuleCheck.check scopeIndex .standard MemoryTree.empty.toFileTree
        "@efect/platform/Http".toList "/app/main.ts".toList).suggestions
      ∧ Specifier.PackageName scopeSuggestion.name
      ∧ ModuleCheck.check scopeIndex .standard MemoryTree.empty.toFileTree
          "@effect/platform/Http".toList "/app/main.ts".toList = .valid := by
  have hs : scopeSuggestion ∈ (ModuleCheck.check scopeIndex .standard MemoryTree.empty.toFileTree
      "@efect/platform/Http".toList "/app/main.ts".toList).suggestions := by decide +kernel
  have hname : Specifier.PackageName scopeSuggestion.name :=
    @Specifier.PackageName.inScope "effect".toList "platform".toList (by decide) (by decide)
  obtain ⟨-, -, hvalid⟩ := suggested_package_known scopeIndex .standard _ _ _ rfl _ hs
  exact ⟨hs, hname, (hvalid hname _ _).2 "Http".toList⟩

end DidYouMean
