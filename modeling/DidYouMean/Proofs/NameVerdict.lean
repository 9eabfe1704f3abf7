import DidYouMean.Check.Symbols
import DidYouMean.Proofs.Ranking

/-!
# When a name is reported

The five checks of names ask different questions of the oracle and differ in what they may suggest,
and otherwise are one check among the names that are listed. A name is reported exactly if every
look-up succeeds, the name is not listed, and some listed name may be suggested and qualifies; what
is suggested is listed and may be suggested there (`nameVerdict_iff`). Whatever look-up fails, the
verdict is valid (`check_of_not_lists`).
-/

namespace DidYouMean

/-- What may be asked about a name. -/
inductive NameQuery (τ : Type) where
  | member (type : τ) (name : Text)
  | objectKey (type : Option τ) (name : Text)
  | imported (site : ImportSite) (typeOnly : Bool)
  | exported (site : ImportSite)
  | missing (containingFile name : Text)

namespace NameQuery

variable {τ : Type}

/-- The name that is asked about. -/
def name : NameQuery τ → Text
  | member _ name | objectKey _ name | missing _ name => name
  | imported site _ | exported site => site.name

/-- Whether a listed name may be suggested in place of the one asked about. -/
def admits (q : NameQuery τ) (listed : Text) : Bool :=
  match q with
  | member .. | objectKey .. => Admissible.asMember q.name listed
  | imported .. => Admissible.asImport q.name listed
  | exported _ => Admissible.asExport q.name listed
  | missing .. => Admissible.asName q.name listed

/-- The verdict. -/
def check (oracle : TypeOracle τ) (options : RankingOptions) : NameQuery τ → Verdict
  | member type name => SymbolCheck.checkMember oracle options type name
  | objectKey type name => SymbolCheck.checkObjectKey oracle options type name
  | imported site typeOnly => SymbolCheck.checkImport oracle options site typeOnly
  | exported site => SymbolCheck.checkExport oracle options site
  | missing containingFile name => SymbolCheck.checkName oracle options containingFile name

/-- What the oracle says of the signature of an export of the site's module. -/
def siteSignature (oracle : TypeOracle τ) (site : ImportSite) (name : Text) :
    Except OracleError (Option Text) :=
  match oracle.resolveModule site.specifier site.containingFile with
  | .ok (some path) => oracle.exportSignature path name
  | _ => .ok none

/-- What the oracle says of the signature of a name that might be suggested. -/
def signature (oracle : TypeOracle τ) : NameQuery τ → Text → Except OracleError (Option Text)
  | member type _ => oracle.propertySignature type
  | objectKey (some type) _ => oracle.propertySignature type
  | objectKey none _ => fun _ => .ok none
  | imported site _ | exported site => siteSignature oracle site
  | missing containingFile _ => oracle.nameSignature containingFile

/-- The module of the site is found, and these are its exports. -/
def SiteLists (oracle : TypeOracle τ) (site : ImportSite) (names : List Text) : Prop :=
  ∃ path, oracle.resolveModule site.specifier site.containingFile = .ok (some path)
    ∧ oracle.moduleExports path site.containingFile = .ok names

/-- Every look-up that the query needs succeeds, and these are the names they give. -/
def Lists (oracle : TypeOracle τ) : NameQuery τ → List Text → Prop
  | member type _, names => oracle.properties type = .ok names
  | objectKey type _, names => ∃ t, type = some t ∧ oracle.properties t = .ok names
  | imported site typeOnly, names => typeOnly = false ∧ SiteLists oracle site names
  | exported site, names => SiteLists oracle site names
  | missing containingFile _, names => oracle.namesInScope containingFile = .ok names

end NameQuery

@[simp] theorem Verdict.isValid_ofSuggestions (context : Context) (suggestions : List Suggestion) :
    (Verdict.ofSuggestions context suggestions).isValid = false ↔ suggestions ≠ [] := by
  simp only [Verdict.ofSuggestions]
  split_ifs with h <;> simp [Verdict.isValid, h]

@[simp] theorem Verdict.suggestions_ofSuggestions (context : Context)
    (suggestions : List Suggestion) :
    (Verdict.ofSuggestions context suggestions).suggestions = suggestions := by
  simp only [Verdict.ofSuggestions]
  split_ifs with h <;> simp [Verdict.suggestions, h]

namespace SymbolCheck

section Among

variable {options : RankingOptions} {admissible : Text → Text → Bool}
  {signature : Text → Except OracleError (Option Text)} {context : Context} {name : Text}
  {names : List Text}

theorem checkAmong_invalid_iff :
    (checkAmong options admissible signature context name names).isValid = false ↔
      name ∉ names ∧ 0 < options.maxSuggestions
        ∧ ∃ n ∈ names, admissible name n = true ∧ Ranking.Eligible options name n := by
  simp only [checkAmong, List.contains_iff_mem]
  split_ifs with hlisted
  · simp [Verdict.isValid, hlisted]
  · rw [Verdict.isValid_ofSuggestions, Suggestion.attachSignatures, Ne, List.map_eq_nil_iff,
      ← Ne, rankNames_ne_nil_iff]
    simp only [hlisted, not_false_eq_true, true_and, List.mem_filter, List.mem_eraseDups,
      and_assoc]

theorem mem_suggestions_checkAmong {s : Suggestion}
    (h : s ∈ (checkAmong options admissible signature context name names).suggestions) :
    s.name ∈ names ∧ admissible name s.name = true := by
  simp only [checkAmong] at h
  split_ifs at h
  · simp [Verdict.suggestions] at h
  · rw [Verdict.suggestions_ofSuggestions, Suggestion.attachSignatures] at h
    obtain ⟨r, hr, rfl⟩ := List.mem_map.1 h
    have hmem := (mem_rankNames hr).1
    rwa [List.mem_filter, List.mem_eraseDups] at hmem

end Among

end SymbolCheck

namespace NameQuery

variable {τ : Type} {oracle : TypeOracle τ} {q : NameQuery τ}

theorem checkModuleMember_of_siteLists {options : RankingOptions} {site : ImportSite}
    {names : List Text} (h : SiteLists oracle site names) (admissible : Text → Text → Bool)
    (context : Option Text → Context) :
    ∃ typeName, SymbolCheck.checkModuleMember oracle options admissible context site
      = SymbolCheck.checkAmong options admissible (siteSignature oracle site) (context typeName)
          site.name names := by
  obtain ⟨path, hpath, hnames⟩ := h
  have hsignature : siteSignature oracle site = oracle.exportSignature path := by
    funext name
    simp only [siteSignature, hpath]
  simp only [SymbolCheck.checkModuleMember, hpath, hnames, hsignature]
  exact ⟨_, rfl⟩

theorem checkModuleMember_of_not_siteLists {options : RankingOptions} {site : ImportSite}
    (h : ∀ names, ¬ SiteLists oracle site names) (admissible : Text → Text → Bool)
    (context : Option Text → Context) :
    SymbolCheck.checkModuleMember oracle options admissible context site = .valid := by
  simp only [SymbolCheck.checkModuleMember]
  split
  · rename_i path hpath
    split
    · rename_i names hnames
      exact absurd ⟨path, hpath, hnames⟩ (h names)
    · rfl
  · rfl

/-- Where the names are listed, the query is a check among them, reported under the name that is
asked about and with the signatures the oracle has. -/
theorem check_among (options : RankingOptions) {names : List Text} (h : q.Lists oracle names) :
    ∃ context, context.query = q.name ∧ q.check oracle options
      = SymbolCheck.checkAmong options (fun _ n => q.admits n) (q.signature oracle) context q.name
          names := by
  cases q with
  | member type name =>
    simp only [Lists] at h
    simp only [check, SymbolCheck.checkMember, h]
    exact ⟨_, rfl, rfl⟩
  | objectKey type name =>
    obtain ⟨t, rfl, h⟩ := h
    simp only [check, SymbolCheck.checkObjectKey, SymbolCheck.checkMember, h]
    exact ⟨_, rfl, rfl⟩
  | imported site typeOnly =>
    obtain ⟨rfl, h⟩ := h
    simp only [check, SymbolCheck.checkImport, Bool.false_eq_true, if_false]
    obtain ⟨typeName, hcheck⟩ := checkModuleMember_of_siteLists h Admissible.asImport
      (.imported site.name site.specifier)
    exact ⟨_, rfl, hcheck⟩
  | exported site =>
    simp only [check, SymbolCheck.checkExport]
    obtain ⟨typeName, hcheck⟩ := checkModuleMember_of_siteLists h Admissible.asExport
      (.exported site.name site.specifier)
    exact ⟨_, rfl, hcheck⟩
  | missing containingFile name =>
    simp only [Lists] at h
    simp only [check, SymbolCheck.checkName, h]
    exact ⟨_, rfl, rfl⟩

theorem check_of_lists (options : RankingOptions) {names : List Text} (h : q.Lists oracle names) :
    ∃ signature context, q.check oracle options
      = SymbolCheck.checkAmong options (fun _ n => q.admits n) signature context q.name names := by
  obtain ⟨context, -, hcheck⟩ := check_among options h
  exact ⟨_, context, hcheck⟩

/-- Where a look-up fails, nothing is reported. -/
theorem check_of_not_lists {options : RankingOptions} (h : ∀ names, ¬ q.Lists oracle names) :
    q.check oracle options = .valid := by
  have hmember : ∀ type name, (∀ names, oracle.properties type ≠ .ok names) →
      SymbolCheck.checkMember oracle options type name = .valid := by
    intro type name h
    simp only [SymbolCheck.checkMember]
    split
    · rename_i names hnames
      exact absurd hnames (h names)
    · rfl
  cases q with
  | member type name => exact hmember type name h
  | objectKey type name =>
    rcases type with _ | type
    · rfl
    · exact hmember type name fun names hnames => h names ⟨type, rfl, hnames⟩
  | imported site typeOnly =>
    cases typeOnly
    · exact checkModuleMember_of_not_siteLists (fun names hnames => h names ⟨rfl, hnames⟩) _ _
    · rfl
  | exported site => exact checkModuleMember_of_not_siteLists h _ _
  | missing containingFile name =>
    simp only [check, SymbolCheck.checkName]
    split
    · rename_i names hnames
      exact absurd hnames (h names)
    · rfl

/-- The names that the look-ups give are determined. -/
theorem lists_unique {names names' : List Text} (h : q.Lists oracle names)
    (h' : q.Lists oracle names') : names = names' := by
  have hsite : ∀ site, SiteLists oracle site names → SiteLists oracle site names' →
      names = names' := by
    rintro site ⟨path, hpath, hnames⟩ ⟨path', hpath', hnames'⟩
    rw [hpath] at hpath'
    cases hpath'
    rw [hnames] at hnames'
    cases hnames'
    rfl
  cases q with
  | member type name => exact Except.ok.inj (h.symm.trans h')
  | objectKey type name =>
    obtain ⟨t, rfl, h⟩ := h
    obtain ⟨t', ht', h'⟩ := h'
    cases ht'
    exact Except.ok.inj (h.symm.trans h')
  | imported site typeOnly => exact hsite site h.2 h'.2
  | exported site => exact hsite site h h'
  | missing containingFile name => exact Except.ok.inj (h.symm.trans h')

end NameQuery

/-- A name is reported exactly if every look-up succeeds and does not list it, and some listed name
may be suggested and qualifies; every suggestion is listed and may be suggested. -/
theorem nameVerdict_iff {τ : Type} (oracle : TypeOracle τ) (options : RankingOptions)
    (hmin : options.minScore.isNaN = false) (q : NameQuery τ) :
    ((q.check oracle options).isValid = false ↔
        ∃ names, q.Lists oracle names ∧ q.name ∉ names ∧ 0 < options.maxSuggestions
          ∧ ∃ n ∈ names, q.admits n = true ∧ Ranking.Qualifies options q.name n)
      ∧ ∀ s ∈ (q.check oracle options).suggestions,
          ∃ names, q.Lists oracle names ∧ s.name ∈ names ∧ q.admits s.name = true := by
  by_cases hlists : ∃ names, q.Lists oracle names
  · obtain ⟨names, hnames⟩ := hlists
    obtain ⟨signature, context, hcheck⟩ := NameQuery.check_of_lists options hnames
    rw [hcheck, SymbolCheck.checkAmong_invalid_iff]
    simp only [Ranking.eligible_iff hmin]
    refine ⟨⟨fun h => ⟨names, hnames, h⟩, ?_⟩, fun s hs => ⟨names, hnames, ?_⟩⟩
    · rintro ⟨names', hnames', h⟩
      rwa [NameQuery.lists_unique hnames hnames']
    · exact SymbolCheck.mem_suggestions_checkAmong hs
  · have hnone : ∀ names, ¬ q.Lists oracle names := fun names h => hlists ⟨names, h⟩
    rw [NameQuery.check_of_not_lists hnone]
    refine ⟨⟨fun h => by simp [Verdict.isValid] at h, ?_⟩, fun s hs => ?_⟩
    · rintro ⟨names, hnames, -⟩
      exact absurd hnames (hnone names)
    · simp [Verdict.suggestions] at hs

/-- An oracle with one module, whose private export is the best match. -/
def hooksOracle : TypeOracle Unit :=
  .ofNames (fun _ => .error .unavailable) (fun _ _ => .ok (some "/app/hooks.ts".toList))
    fun _ _ => .ok ["_useStae".toList, "default".toList, "useState".toList]

theorem nameVerdict_misspelled_import :
    RankingOptions.standard.minScore.isNaN = false
      ∧ ((NameQuery.imported ⟨"./hooks".toList, "/app/main.ts".toList, "useStae".toList⟩
          false).check hooksOracle .standard).isValid = false := by
  have hmin : RankingOptions.standard.minScore.isNaN = false := by decide +kernel
  refine ⟨hmin, (nameVerdict_iff hooksOracle .standard hmin _).1.2 ?_⟩
  refine ⟨_, ⟨rfl, _, rfl, rfl⟩, by decide, by decide, "useState".toList, by decide, by decide, ?_⟩
  exact ⟨by decide, by decide, by decide +kernel, by decide +kernel⟩

end DidYouMean
