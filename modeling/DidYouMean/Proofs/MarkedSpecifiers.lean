import DidYouMean.Proofs.Listing

/-!
# Suggestions that name their files

A suggested path that ends with the name of its file begins with `./` or `../` too: the three other
forms a rendered path can take, `.`, `..` and what only leads further up, end with no name
(`marked_toSpecifier`). They come up where the name a file is suggested by is that of a directory
the specifier is written in or below, for then the way to it only leads up
(`suggestion_names_file_iff`).
-/

namespace DidYouMean

namespace Path

/-- A specifier that is marked as a path. -/
def Marked (specifier : Text) : Prop :=
  ['.', '/'] <+: specifier ∨ ['.', '.', '/'] <+: specifier

instance (specifier : Text) : Decidable (Marked specifier) :=
  inferInstanceAs (Decidable (_ ∨ _))

/-- What is rendered is marked as a path if it ends with a name. -/
theorem marked_toSpecifier {fromDir target : Text}
    (h : Plain (fileName (toSpecifier fromDir target))) : Marked (toSpecifier fromDir target) := by
  simp only [toSpecifier] at h ⊢
  split_ifs at h ⊢ with hup hhere
  · rcases hup with hup | hup
    · rw [hup] at h
      exact absurd rfl h.ne_dots
    · exact .inr (List.isPrefixOf_iff_prefix.1 hup)
  · exact absurd rfl h.ne_dot
  · exact .inl (List.prefix_append ['.', '/'] _)

/-- The way up is marked as a path only from two levels on, and then it ends with `..`. -/
theorem marked_upwards_iff {levels : Nat} : Marked (upwards levels) ↔ 2 ≤ levels := by
  rcases levels with _ | _ | levels
  · decide
  · decide
  · rw [upwards, if_neg (Nat.succ_ne_zero _)]
    refine iff_of_true (.inr ?_) (by omega)
    exact ⟨_, rfl⟩

theorem fileName_upwards {levels : Nat} (h : 2 ≤ levels) :
    fileName (upwards levels) = ['.', '.'] := by
  obtain ⟨above, rfl⟩ := Nat.exists_eq_add_of_le' h
  have hne : List.replicate (above + 1) ['.', '.'] ≠ [] := by simp
  rw [upwards, if_neg (Nat.succ_ne_zero _), List.replicate_succ', Text.join_concat _ _ hne,
    List.append_assoc, List.singleton_append]
  exact fileName_append_slash (by decide)

end Path

/-- A local file in the directory bears the name, with its extension or without. -/
def ModuleIndex.HasFileNamed (index : ModuleIndex) (directory name : Text) : Prop :=
  ∃ file ∈ index.filesIn directory, Path.fileName file = name
    ∨ Path.fileName (Path.stripExtension index.extensions file) = name

/-- The specifier is marked as a path and ends with the name of a local file in the directory. -/
structure ModuleIndex.NamesFile (index : ModuleIndex) (directory specifier : Text) : Prop where
  marked : Path.Marked specifier
  named : index.HasFileNamed directory (Path.fileName specifier)

namespace ModuleCheck

variable {index : ModuleIndex} {target containingFile specifier file : Text}

theorem Offers.hasFileNamed (h : Offers index target containingFile file) (specifier : Text) :
    index.HasFileNamed (Path.dirname target)
      (Path.fileName (suggestedPath index.extensions specifier file)) := by
  refine ⟨file, h.mem_filesIn, ?_⟩
  rw [suggestedPath]
  split_ifs
  · exact .inl rfl
  · exact .inr rfl

end ModuleCheck

/-- A suggestion for a path names a file in the directory the path leads to, unless what it stands
for is the directory it is written in or one above that. From two levels up it may end with the
name of a file even so, but only of one that is called `..` itself. -/
theorem suggestion_names_file_iff (index : ModuleIndex) (hbuilt : index.Built)
    (hext : ∀ ext ∈ index.extensions, ext.head? = some '.' ∧ '/' ∉ ext)
    (options : RankingOptions) (tree : FileTree) (specifier file : Text)
    (hkind : Specifier.classify specifier = some .relative) (s : Suggestion)
    (hs : s ∈ (ModuleCheck.check index options tree specifier file).suggestions) :
    ∃ other path, ModuleCheck.Offers index (Path.resolve file specifier) (Path.normalize file) other
      ∧ path = ModuleCheck.suggestedPath index.extensions specifier other
      ∧ s.name = Path.toSpecifier (Path.dirname (Path.normalize file)) path
      ∧ (index.NamesFile (Path.dirname (Path.resolve file specifier)) s.name ↔
          ¬ Path.steps path <+: Path.steps (Path.dirname (Path.normalize file))
            ∨ (Path.steps path).length + 2
                ≤ (Path.steps (Path.dirname (Path.normalize file))).length
              ∧ index.HasFileNamed (Path.dirname (Path.resolve file specifier)) ['.', '.']) := by
  obtain ⟨-, other, hother, hname, he⟩ := ModuleCheck.exists_offered hkind hs
  refine ⟨other, _, hother, rfl, hname, ?_⟩
  have hplain := hother.plain_fileName hext he.nonempty
  rw [hname]
  -- A way that only leads up is a number of levels; any other ends with what the path ends with.
  by_cases habove : Path.steps (ModuleCheck.suggestedPath index.extensions specifier other)
      <+: Path.steps (Path.dirname (Path.normalize file))
  · rw [Path.toSpecifier_of_prefix habove]
    constructor
    · rintro ⟨hmarked, hfile⟩
      have hlevels := Path.marked_upwards_iff.1 hmarked
      rw [Path.fileName_upwards hlevels] at hfile
      exact .inr ⟨by omega, hfile⟩
    · rintro (h | ⟨hlevels, hfile⟩)
      · exact absurd habove h
      · refine ⟨Path.marked_upwards_iff.2 (by omega), ?_⟩
        rwa [Path.fileName_upwards (by omega)]
  · have hends := (Path.fileName_toSpecifier (hother.normalize_suggestedPath hbuilt specifier)
      hplain).resolve_right habove
    refine iff_of_true ⟨Path.marked_toSpecifier ?_, ?_⟩ (.inl habove)
    · rwa [hends]
    · rw [hends]
      exact hother.hasFileNamed specifier

/-- An index with a file that is called like the directory beside it. -/
def folderIndex : ModuleIndex := .ofParts ["/app/foo.ts".toList] [] .standard

/-- What is suggested in that directory for the file. -/
def folderSuggestion : Suggestion :=
  ⟨.named ".".toList, (similarity "fo".toList "foo".toList).magnitude, by decide +kernel,
    by decide +kernel⟩

theorem mem_suggestions_folder :
    folderSuggestion ∈ (ModuleCheck.check folderIndex .standard MemoryTree.empty.toFileTree
      "../fo".toList "/app/foo/main.ts".toList).suggestions := by
  decide +kernel

theorem folder_not_named :
    ¬ folderIndex.NamesFile (Path.dirname (Path.resolve "/app/foo/main.ts".toList "../fo".toList))
      folderSuggestion.name := by
  obtain ⟨other, path, hother, rfl, -, hiff⟩ := suggestion_names_file_iff folderIndex
    (.ofParts _ _ _) (by decide) .standard _ _ _ rfl _ mem_suggestions_folder
  have hfile : other = "/app/foo.ts".toList := List.mem_singleton.1 hother.mem_localFiles
  subst hfile
  intro h
  rcases hiff.1 h with habove | ⟨hlevels, -⟩
  · exact habove (by decide)
  · exact absurd hlevels (by decide)

theorem suggestion_not_always_marked :
    ¬ ∀ (index : ModuleIndex) (options : RankingOptions) (tree : FileTree) (specifier file : Text)
        (s : Suggestion), index.Built →
      (∀ ext ∈ index.extensions, ext.head? = some '.' ∧ '/' ∉ ext) →
      Path.isAbsolute file = true → Specifier.classify specifier = some .relative →
      s ∈ (ModuleCheck.check index options tree specifier file).suggestions →
      index.NamesFile (Path.dirname (Path.resolve file specifier)) s.name := by
  intro h
  have hmarked := (h folderIndex .standard _ _ "/app/foo/main.ts".toList _ (.ofParts _ _ _)
    (by decide) (by decide) rfl mem_suggestions_folder).marked
  exact absurd hmarked (by decide)

end DidYouMean
