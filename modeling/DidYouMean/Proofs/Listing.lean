import DidYouMean.Proofs.Applying
import DidYouMean.Proofs.SameDirectory

/-!
# What every list of suggestions has

Ranking lists no more than are wanted, best first, each above the threshold and under a name of its
own (`listed_rank`). Handing the list on keeps all that as long as scores stay and names stay apart
(`Listed.filterMap`). Signatures change neither, and the specifiers of files in one directory are
as different as the texts they are ranked by (`Offers.fileName_eq`), so whatever check reports
something, its list has all that (`suggestions_listed`).
-/

namespace DidYouMean

namespace Score

theorem zero_lt_value (s : Score) : Binary64.zero.lt s.value = true := by
  have hzero : Binary64.zero.isNaN = false := by decide
  rw [Binary64.lt, hzero, value_isNaN, Bool.not_false, Bool.true_and, Bool.true_and,
    decide_eq_true_eq]
  exact Int.ofNat_lt.2 s.pos

theorem value_le_exact (s : Score) : s.value.le exact.value = true := by
  rw [value_le_value, decide_eq_true_eq]
  exact s.le_one

end Score

/-- A list of suggestions as it is reported. -/
structure Listed (options : RankingOptions) (suggestions : List Suggestion) : Prop where
  length_le : suggestions.length ≤ options.maxSuggestions
  sorted : suggestions.Pairwise fun s t => t.score.value.le s.score.value = true
  above_zero : ∀ s ∈ suggestions, Binary64.zero.lt s.score.value = true
  at_most_one : ∀ s ∈ suggestions, s.score.value.le Score.exact.value = true
  above_threshold : ∀ s ∈ suggestions, options.minScore.lt s.score.value = true
  distinct : (Suggestion.names suggestions).Nodup

variable {options : RankingOptions} {query : Text}

theorem pairwise_score_mergeSort (suggestions : List Suggestion) :
    (suggestions.mergeSort fun s t => t.score ≤ s.score).Pairwise
      fun s t => t.score.value.le s.score.value = true := by
  simp only [Score.value_le_value]
  exact Suggestion.pairwise_mergeSort suggestions

theorem pairwise_name_suggest? (domain : List Candidate) :
    ((Ranking.firstMentions domain).filterMap (Ranking.suggest? options query)).Pairwise
      fun s t => s.name ≠ t.name := by
  refine (Ranking.pairwise_name_firstMentions domain).filterMap _ ?_
  intro c d hne s hs t ht
  rw [(Ranking.suggest?_eq_some_iff.1 hs).1, (Ranking.suggest?_eq_some_iff.1 ht).1]
  exact hne

theorem listed_rank (hmin : options.minScore.isNaN = false) (query : Text)
    (domain : List Candidate) : Listed options (rank options query domain) := by
  by_cases hnone : query = [] ∨ options.maxSuggestions = 0
  · rw [rank, if_pos hnone]
    exact ⟨Nat.zero_le _, .nil, by simp, by simp, by simp, List.nodup_nil⟩
  · rw [not_or] at hnone
    have hrank := rank_eq_take_mergeSort hnone.1 hnone.2 domain
    refine ⟨?_, ?_, fun s _ => s.score.zero_lt_value, fun s _ => s.score.value_le_exact,
      fun s hs => ?_, ?_⟩
    · rw [hrank]
      exact List.length_take_le _ _
    · rw [hrank]
      exact (pairwise_score_mergeSort _).sublist (List.take_sublist _ _)
    · obtain ⟨-, -, hscore⟩ := mem_rank hs
      obtain ⟨habove, -, hvalue⟩ := (Ranking.score?_eq_some_iff hmin).1 hscore
      rwa [hvalue]
    · rw [hrank]
      refine List.Nodup.sublist ((List.take_sublist _ _).map _) ?_
      rw [((List.mergeSort_perm _ _).map _).nodup_iff]
      exact List.pairwise_map.2 (pairwise_name_suggest? domain)

/-- A list that is handed on is listed still, if scores stay and names stay apart. -/
theorem Listed.filterMap {suggestions : List Suggestion} (h : Listed options suggestions)
    {f : Suggestion → Option Suggestion}
    (hscore : ∀ r ∈ suggestions, ∀ s, f r = some s → s.score = r.score)
    (hname : ∀ r ∈ suggestions, ∀ s, f r = some s → ∀ r' ∈ suggestions, ∀ s', f r' = some s' →
      s.name = s'.name → r.name = r'.name) : Listed options (suggestions.filterMap f) := by
  refine ⟨(List.length_filterMap_le _ _).trans h.length_le, ?_,
    fun s _ => s.score.zero_lt_value, fun s _ => s.score.value_le_exact, fun s hs => ?_, ?_⟩
  · rw [List.pairwise_filterMap]
    refine h.sorted.imp_of_mem fun hr hr' hle s hs s' hs' => ?_
    rwa [hscore _ hr s hs, hscore _ hr' s' hs']
  · obtain ⟨r, hr, hrs⟩ := List.mem_filterMap.1 hs
    rw [hscore r hr s hrs]
    exact h.above_threshold r hr
  · rw [Suggestion.names, List.Nodup, List.pairwise_map, List.pairwise_filterMap]
    refine (List.pairwise_map.1 h.distinct).imp_of_mem fun hr hr' hne s hs s' hs' heq => ?_
    exact hne (hname _ hr s hs _ hr' s' hs' heq)

theorem Listed.attachSignatures {suggestions : List Suggestion} (h : Listed options suggestions)
    (lookup : Suggestion → Option Text) :
    Listed options (Suggestion.attachSignatures lookup suggestions) := by
  rw [Suggestion.attachSignatures, ← List.filterMap_eq_map]
  refine h.filterMap (fun r _ s hs => ?_) (fun r _ s hs r' _ s' hs' heq => ?_)
  · cases hs
    rfl
  · cases hs
    cases hs'
    exact heq

theorem Verdict.eq_of_ofSuggestions {context context' : Context}
    {suggestions reported : List Suggestion}
    (h : ofSuggestions context suggestions = invalid context' reported) :
    suggestions ≠ [] ∧ reported = suggestions := by
  rw [ofSuggestions] at h
  split_ifs at h with hempty
  cases h
  exact ⟨hempty, rfl⟩

namespace NameQuery

theorem listed_check {τ : Type} {oracle : TypeOracle τ} {q : NameQuery τ} {context : Context}
    {suggestions : List Suggestion} (hmin : options.minScore.isNaN = false)
    (h : q.check oracle options = .invalid context suggestions) :
    suggestions ≠ [] ∧ Listed options suggestions := by
  by_cases hlists : ∃ names, q.Lists oracle names
  · obtain ⟨names, hnames⟩ := hlists
    obtain ⟨signature, context', hcheck⟩ := check_of_lists options hnames
    rw [hcheck, SymbolCheck.checkAmong] at h
    split_ifs at h
    obtain ⟨hne, rfl⟩ := Verdict.eq_of_ofSuggestions h
    exact ⟨hne, (listed_rank hmin _ _).attachSignatures _⟩
  · rw [check_of_not_lists (not_exists.1 hlists)] at h
    cases h

end NameQuery

namespace ModuleCheck

variable {index : ModuleIndex} {specifier target containingFile file file' query : Text}

theorem Offers.suggestedPath_stays
    (hext : ∀ ext ∈ index.extensions, ext.head? = some '.' ∧ '/' ∉ ext) (specifier : Text)
    (h : Offers index target containingFile file) :
    Path.dirname (suggestedPath index.extensions specifier file) = Path.dirname target
      ∧ (Path.fileName (suggestedPath index.extensions specifier file)).head? ≠ some '.' := by
  rw [← h.dirname_eq, suggestedPath]
  split_ifs
  · exact ⟨rfl, h.not_hidden⟩
  · exact Path.stripExtension_stays hext h.not_hidden

theorem Offers.plain_fileName (hext : ∀ ext ∈ index.extensions, ext.head? = some '.' ∧ '/' ∉ ext)
    (h : Offers index target containingFile file)
    (hne : Path.fileName (suggestedPath index.extensions specifier file) ≠ []) :
    Path.Plain (Path.fileName (suggestedPath index.extensions specifier file)) :=
  .of_head?_ne hne (h.suggestedPath_stays hext specifier).2 (Path.not_mem_fileName _)

/-- Files that are offered as one specifier are ranked by one text. -/
theorem Offers.fileName_eq (hbuilt : index.Built)
    (hext : ∀ ext ∈ index.extensions, ext.head? = some '.' ∧ '/' ∉ ext) {fromDir : Text}
    (h : Offers index target containingFile file) (h' : Offers index target containingFile file')
    (hne : Path.fileName (suggestedPath index.extensions specifier file) ≠ [])
    (hne' : Path.fileName (suggestedPath index.extensions specifier file') ≠ [])
    (heq : Path.toSpecifier fromDir (suggestedPath index.extensions specifier file)
      = Path.toSpecifier fromDir (suggestedPath index.extensions specifier file')) :
    Path.fileName (suggestedPath index.extensions specifier file)
      = Path.fileName (suggestedPath index.extensions specifier file') := by
  have hdir := (h.suggestedPath_stays hext specifier).1
  have hdir' := (h'.suggestedPath_stays hext specifier).1
  exact Path.toSpecifier_inj (h.normalize_suggestedPath hbuilt specifier)
    (h'.normalize_suggestedPath hbuilt specifier) (hdir.trans hdir'.symm)
    (h.plain_fileName hext hne) (h'.plain_fileName hext hne') heq

theorem listed_localSuggestions (hmin : options.minScore.isNaN = false) (hbuilt : index.Built)
    (hext : ∀ ext ∈ index.extensions, ext.head? = some '.' ∧ '/' ∉ ext) :
    Listed options (localSuggestions index options specifier target containingFile) := by
  refine (listed_rank hmin _ _).filterMap (fun r _ s hs => ?_)
    (fun r hr s hs r' hr' s' hs' heq => ?_)
  · obtain ⟨rendered, -, rfl⟩ := Option.map_eq_some_iff.1 hs
    rfl
  · obtain ⟨rendered, hlookup, rfl⟩ := Option.map_eq_some_iff.1 hs
    obtain ⟨rendered', hlookup', rfl⟩ := Option.map_eq_some_iff.1 hs'
    obtain ⟨file, hfile, hkey, hrendered⟩ := offers_of_lookup hlookup
    obtain ⟨file', hfile', hkey', hrendered'⟩ := offers_of_lookup hlookup'
    -- Both are looked up by what they were ranked by, so that is what has to be the same.
    have hsame : rendered = rendered' := heq
    have hne := (mem_rankNames hr).2.nonempty
    have hne' := (mem_rankNames hr').2.nonempty
    rw [hkey] at hne ⊢
    rw [hkey'] at hne' ⊢
    rw [hrendered, hrendered'] at hsame
    exact hfile.fileName_eq hbuilt hext hfile' hne hne' hsame

theorem listed_check {tree : FileTree} {context : Context} {suggestions : List Suggestion}
    (hmin : options.minScore.isNaN = false) (hbuilt : index.Built)
    (hext : Specifier.classify specifier = some .relative →
      ∀ ext ∈ index.extensions, ext.head? = some '.' ∧ '/' ∉ ext)
    (h : check index options tree specifier file = .invalid context suggestions) :
    suggestions ≠ [] ∧ Listed options suggestions := by
  simp only [check] at h
  split at h
  · rename_i hkind
    simp only [checkRelative] at h
    split_ifs at h
    obtain ⟨hne, rfl⟩ := Verdict.eq_of_ofSuggestions h
    exact ⟨hne, listed_localSuggestions hmin hbuilt (hext hkind)⟩
  · simp only [checkPackage] at h
    split_ifs at h
    obtain ⟨hne, rfl⟩ := Verdict.eq_of_ofSuggestions h
    exact ⟨hne, listed_rank hmin _ _⟩
  · cases h

end ModuleCheck

/-- Whatever check reports something, it lists suggestions, no more than are wanted, best first,
with scores above zero and the threshold and at most one, and no name twice. -/
theorem suggestions_listed (options : RankingOptions) (hmin : options.minScore.isNaN = false) :
    (∀ (τ : Type) (oracle : TypeOracle τ) (q : NameQuery τ) (context : Context)
        (suggestions : List Suggestion),
      q.check oracle options = .invalid context suggestions →
        suggestions ≠ [] ∧ Listed options suggestions)
    ∧ ∀ index : ModuleIndex, index.Built →
        ∀ (tree : FileTree) (specifier file : Text) (context : Context)
          (suggestions : List Suggestion),
        (Specifier.classify specifier = some .relative →
          ∀ ext ∈ index.extensions, ext.head? = some '.' ∧ '/' ∉ ext) →
        ModuleCheck.check index options tree specifier file = .invalid context suggestions →
          suggestions ≠ [] ∧ Listed options suggestions := by
  constructor
  · intro τ oracle q context suggestions h
    exact NameQuery.listed_check hmin h
  · intro index hbuilt tree specifier file context suggestions hext h
    exact ModuleCheck.listed_check hmin hbuilt hext h

/-- An index with two files of one stem and one that is nearly it. -/
def stemsIndex : ModuleIndex :=
  .ofParts ["/app/Settings.ts".toList, "/app/Settings.tsx".toList, "/app/Setting.ts".toList] []
    .standard

theorem listed_misspelled_stem :
    RankingOptions.standard.minScore.isNaN = false
      ∧ ∃ context suggestions,
          ModuleCheck.check stemsIndex .standard MemoryTree.empty.toFileTree "./Setings".toList
              "/app/main.ts".toList = .invalid context suggestions
            ∧ suggestions ≠ [] ∧ Listed .standard suggestions := by
  have hmin : RankingOptions.standard.minScore.isNaN = false := by decide +kernel
  have hinvalid : (ModuleCheck.check stemsIndex .standard MemoryTree.empty.toFileTree
      "./Setings".toList "/app/main.ts".toList).isValid = false := by
    rw [ModuleCheck.check_relative rfl, ModuleCheck.checkRelative_invalid_iff]
    refine ⟨by decide, rfl, by decide, "/app/Settings.ts".toList, ?_, ?_⟩
    · exact ⟨by decide, by decide, by decide, by decide⟩
    · exact ⟨by decide, by decide, by decide +kernel⟩
  refine ⟨hmin, ?_⟩
  rcases hcheck : ModuleCheck.check stemsIndex .standard MemoryTree.empty.toFileTree
      "./Setings".toList "/app/main.ts".toList with _ | ⟨context, suggestions⟩
  · rw [hcheck] at hinvalid
    cases hinvalid
  · exact ⟨context, suggestions, rfl, (suggestions_listed .standard hmin).2 stemsIndex
      (.ofParts _ _ _) _ _ _ context suggestions (fun _ => by decide) hcheck⟩

end DidYouMean
