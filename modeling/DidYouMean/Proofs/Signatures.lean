import DidYouMean.Proofs.Listing

/-!
# Signatures and the verdict

A signature is asked for only once its name is suggested. So the verdict, the query and the names
and scores that are listed depend on the names an oracle lists and on nothing else it says
(`checkAmong_congr`), and what is shown as a signature is the oracle's own answer for that name, or
nothing (`signature_of_mem_checkAmong`).
-/

namespace DidYouMean

/-- Two oracles that list the same names, whatever they say of types and signatures. -/
structure TypeOracle.SameNames {τ : Type} (oracle oracle' : TypeOracle τ) : Prop where
  properties : ∀ type, oracle.properties type = oracle'.properties type
  resolveModule : ∀ specifier containingFile,
    oracle.resolveModule specifier containingFile = oracle'.resolveModule specifier containingFile
  moduleExports : ∀ modulePath containingFile,
    oracle.moduleExports modulePath containingFile = oracle'.moduleExports modulePath containingFile
  namesInScope : ∀ containingFile,
    oracle.namesInScope containingFile = oracle'.namesInScope containingFile

/-- What a verdict says when signatures and the names of types are left aside: the text that was
written, if it is reported, and the names and scores in place of it. -/
def Verdict.gist (v : Verdict) : Option Text × List (Text × Score) :=
  (v.query?, v.suggestions.map fun s => (s.name, s.score))

namespace SymbolCheck

variable {options : RankingOptions} {admissible : Text → Text → Bool}
  {signature signature' : Text → Except OracleError (Option Text)} {context context' : Context}
  {name : Text} {names : List Text}

theorem signature?_eq_some_iff {answer : Except OracleError (Option Text)} {text : Text} :
    signature? answer = some text ↔ answer = .ok (some text) ∧ text ≠ [] := by
  unfold signature?
  split
  · rename_i t
    split_ifs with hempty
    · simp only [false_iff, Except.ok.injEq, Option.some.injEq]
      rintro ⟨rfl, hne⟩
      exact hne hempty
    · simp only [Except.ok.injEq, Option.some.injEq]
      refine ⟨?_, fun h => h.1⟩
      rintro rfl
      exact ⟨rfl, hempty⟩
  · rename_i hanswer
    simp only [reduceCtorEq, false_iff]
    rintro ⟨rfl, -⟩
    exact hanswer _ rfl

theorem gist_ofSuggestions (context : Context) (suggestions : List Suggestion) :
    (Verdict.ofSuggestions context suggestions).gist
      = (if suggestions = [] then none else some context.query,
          suggestions.map fun s => (s.name, s.score)) := by
  rw [Verdict.gist, Verdict.suggestions_ofSuggestions, Verdict.ofSuggestions]
  split_ifs <;> rfl

/-- Neither the signatures nor the rest of the context change what a check among names says. -/
theorem checkAmong_congr (hquery : context.query = context'.query) :
    (checkAmong options admissible signature context name names).gist
      = (checkAmong options admissible signature' context' name names).gist := by
  rw [checkAmong, checkAmong]
  split_ifs
  · rfl
  · simp only [gist_ofSuggestions, Suggestion.attachSignatures, List.map_eq_nil_iff, List.map_map,
      hquery]
    rfl

theorem signature_of_mem_checkAmong {s : Suggestion}
    (h : s ∈ (checkAmong options admissible signature context name names).suggestions) :
    s.signature = signature? (signature s.name) := by
  rw [checkAmong] at h
  split_ifs at h
  · simp [Verdict.suggestions] at h
  · rw [Verdict.suggestions_ofSuggestions, Suggestion.attachSignatures] at h
    obtain ⟨r, hr, rfl⟩ := List.mem_map.1 h
    obtain ⟨n, -, hcandidate⟩ := List.mem_map.1 (mem_rank hr).1
    -- What is ranked has no signature yet, so there is none to fall back on.
    have hnone : r.signature = none := by rw [← hcandidate, Candidate.named]
    rw [hnone, Option.or_none]

end SymbolCheck

namespace NameQuery

variable {τ : Type} {oracle oracle' : TypeOracle τ} {q : NameQuery τ} {names : List Text}

theorem Lists.of_sameNames (hsame : oracle.SameNames oracle') (h : q.Lists oracle names) :
    q.Lists oracle' names := by
  have hsite : ∀ site, SiteLists oracle site names → SiteLists oracle' site names := by
    rintro site ⟨path, hpath, hnames⟩
    exact ⟨path, (hsame.resolveModule _ _).symm.trans hpath,
      (hsame.moduleExports _ _).symm.trans hnames⟩
  cases q with
  | member type name => exact (hsame.properties type).symm.trans h
  | objectKey type name =>
    obtain ⟨t, rfl, h⟩ := h
    exact ⟨t, rfl, (hsame.properties t).symm.trans h⟩
  | imported site typeOnly => exact ⟨h.1, hsite site h.2⟩
  | exported site => exact hsite site h
  | missing containingFile name => exact (hsame.namesInScope containingFile).symm.trans h

theorem gist_check_congr (hsame : oracle.SameNames oracle') (options : RankingOptions) :
    (q.check oracle options).gist = (q.check oracle' options).gist := by
  have hback : oracle'.SameNames oracle :=
    ⟨fun type => (hsame.properties type).symm, fun s f => (hsame.resolveModule s f).symm,
      fun p f => (hsame.moduleExports p f).symm, fun f => (hsame.namesInScope f).symm⟩
  by_cases hlists : ∃ names, q.Lists oracle names
  · obtain ⟨names, hnames⟩ := hlists
    obtain ⟨context, hquery, hcheck⟩ := check_among options hnames
    obtain ⟨context', hquery', hcheck'⟩ := check_among options (hnames.of_sameNames hsame)
    rw [hcheck, hcheck']
    exact SymbolCheck.checkAmong_congr (hquery.trans hquery'.symm)
  · have hlists' : ∀ names, ¬ q.Lists oracle' names :=
      fun names h => hlists ⟨names, h.of_sameNames hback⟩
    rw [check_of_not_lists (not_exists.1 hlists), check_of_not_lists hlists']

theorem signature_of_mem_check {options : RankingOptions} {s : Suggestion}
    (h : s ∈ (q.check oracle options).suggestions) :
    s.signature = SymbolCheck.signature? (q.signature oracle s.name) := by
  by_cases hlists : ∃ names, q.Lists oracle names
  · obtain ⟨names, hnames⟩ := hlists
    obtain ⟨context, -, hcheck⟩ := check_among options hnames
    rw [hcheck] at h
    exact SymbolCheck.signature_of_mem_checkAmong h
  · rw [check_of_not_lists (not_exists.1 hlists)] at h
    simp [Verdict.suggestions] at h

end NameQuery

/-- Oracles that list the same names give the same verdict on every name, with the same query and
the same names and scores in the same order. The signature of a suggestion is what the oracle says
of that name, if it says anything, and else there is none. -/
theorem verdict_ignores_signatures {τ : Type} (oracle oracle' : TypeOracle τ)
    (hsame : oracle.SameNames oracle') (options : RankingOptions) (q : NameQuery τ) :
    (q.check oracle options).isValid = (q.check oracle' options).isValid
      ∧ (q.check oracle options).query? = (q.check oracle' options).query?
      ∧ (q.check oracle options).suggestions.map (fun s => (s.name, s.score))
          = (q.check oracle' options).suggestions.map (fun s => (s.name, s.score))
      ∧ ∀ s ∈ (q.check oracle options).suggestions, ∀ text,
          s.signature = some text ↔ q.signature oracle s.name = .ok (some text) ∧ text ≠ [] := by
  have hgist := NameQuery.gist_check_congr (q := q) hsame options
  rw [Verdict.gist, Verdict.gist, Prod.mk.injEq] at hgist
  have hvalid : ∀ v : Verdict, v.isValid = v.query?.isNone := fun v => by cases v <;> rfl
  refine ⟨by rw [hvalid, hvalid, hgist.1], hgist.1, hgist.2, fun s hs text => ?_⟩
  rw [NameQuery.signature_of_mem_check hs, SymbolCheck.signature?_eq_some_iff]

/-- The oracle of one module that also has the signature of one export, and fails on the others. -/
def signedHooksOracle : TypeOracle Unit :=
  { hooksOracle with
    moduleTypeName := fun _ => some "Hooks".toList
    exportSignature := fun _ name =>
      if name = "useState".toList then .ok (some "() => State".toList) else .error .unavailable }

/-- An import of that module with two letters exchanged. -/
def misspelledHook : NameQuery Unit :=
  .imported ⟨"./hooks".toList, "/app/main.ts".toList, "useStae".toList⟩ false

theorem signed_hooks_reported :
    signedHooksOracle.SameNames hooksOracle
      ∧ (misspelledHook.check signedHooksOracle .standard).isValid = false
      ∧ (misspelledHook.check signedHooksOracle .standard).query? = some "useStae".toList
      ∧ ∀ s ∈ (misspelledHook.check signedHooksOracle .standard).suggestions,
          s.name = "useState".toList → s.signature = some "() => State".toList := by
  have hsame : signedHooksOracle.SameNames hooksOracle :=
    ⟨fun _ => rfl, fun _ _ => rfl, fun _ _ => rfl, fun _ => rfl⟩
  have hinvalid : (misspelledHook.check hooksOracle .standard).isValid = false := by
    decide +kernel
  have hquery : (misspelledHook.check hooksOracle .standard).query?
      = some "useStae".toList := by decide +kernel
  obtain ⟨hvalid', hquery', -, hsignature⟩ :=
    verdict_ignores_signatures signedHooksOracle hooksOracle hsame .standard misspelledHook
  refine ⟨hsame, hvalid'.trans hinvalid, hquery'.trans hquery, fun s hs hname => ?_⟩
  refine (hsignature s hs _).2 ⟨?_, by simp⟩
  rw [hname]
  rfl

end DidYouMean
