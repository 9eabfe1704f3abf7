import DidYouMean.Proofs.Discovery
import DidYouMean.Proofs.PackageNames
import DidYouMean.Proofs.Trimming
import Mathlib.Tactic.Tauto

/-!
# Types packages

The name of a types package has two underscores where the name of its package has the slash behind
the scope. A name is read back as long as these are the first two in a row, and what is read off a
types package without a scope of its own leads back to it (`typesPackage_faithful`).

A types package that is listed makes its target known. That is done once for each listed name and
not for the targets, so the target of a target can stay unknown (`unknown_target_iff`).
-/

namespace DidYouMean

namespace Specifier

variable {scope name rest package target : Text}

theorem typesPackage_inScope (h : '/' ∉ scope) (name : Text) :
    typesPackage ('@' :: scope ++ '/' :: name) = typesScope ++ (scope ++ '_' :: '_' :: name) := by
  simp [typesPackage, h]

theorem typesPackage_unscoped (h : ¬ (package.head? = some '@' ∧ '/' ∈ package)) :
    typesPackage package = typesScope ++ package := by
  unfold typesPackage
  split
  · rename_i tail
    have hslash : '/' ∉ tail := fun hmem => h ⟨rfl, List.mem_cons_of_mem _ hmem⟩
    rw [cutSlash_of_not_mem hslash]
  · rfl

/-- The package that a types package stands for, by the rest of its name behind the scope. -/
inductive StandsFor : Text → Text → Prop where
  | inScope {rest scope name : Text} : Text.cutAt? ['_', '_'] rest = some (scope, name) →
      scope ≠ [] → name ≠ [] → StandsFor rest ('@' :: scope ++ '/' :: name)
  | unscoped {rest : Text} : rest ≠ [] →
      (∀ scope name, Text.cutAt? ['_', '_'] rest = some (scope, name) → scope = [] ∨ name = []) →
      StandsFor rest rest

theorem typesTarget?_eq_some_iff : typesTarget? package = some target ↔
    ∃ rest, package = typesScope ++ rest ∧ StandsFor rest target := by
  simp only [typesTarget?, Option.bind_eq_bind, Option.bind_eq_some_iff,
    Text.stripStart?_eq_some_iff]
  refine exists_congr fun rest => and_congr_right fun _ => ?_
  constructor
  · intro h
    split_ifs at h with hrest
    split at h
    · rename_i scope name hcut
      split_ifs at h with hparts
      · cases h
        exact .inScope hcut hparts.1 hparts.2
      · cases h
        refine .unscoped hrest fun scope' name' hcut' => ?_
        rw [hcut] at hcut'
        obtain ⟨rfl, rfl⟩ := Prod.mk.inj (Option.some.inj hcut')
        tauto
    · rename_i hcut
      cases h
      exact .unscoped hrest fun scope name hcut' => by simp [hcut] at hcut'
  · rintro (⟨hcut, hscope, hname⟩ | ⟨hrest, hparts⟩)
    · have hrest : rest ≠ [] := by
        rintro rfl
        cases hcut
      rw [if_neg hrest, hcut]
      exact if_pos ⟨hscope, hname⟩
    · rw [if_neg hrest]
      split
      · rename_i scope name hcut
        exact if_neg fun hboth => (hparts _ _ hcut).elim hboth.1 hboth.2
      · rfl

/-- A name that can be read back from that of its types package. -/
inductive Typable : Text → Prop where
  | unscoped {package : Text} : package ≠ [] → ¬ ['_', '_'] <:+: package →
      ¬ (package.head? = some '@' ∧ '/' ∈ package) → Typable package
  | inScope {scope name : Text} : scope ≠ [] → name ≠ [] → '/' ∉ scope → ¬ ['_', '_'] <:+: scope →
      scope.getLast? ≠ some '_' → Typable ('@' :: scope ++ '/' :: name)

theorem cutAt?_underscores (hscope : ¬ ['_', '_'] <:+: scope) (hlast : scope.getLast? ≠ some '_')
    (name : Text) : Text.cutAt? ['_', '_'] (scope ++ '_' :: '_' :: name) = some (scope, name) := by
  refine Text.cutAt?_append name fun hinfix => ?_
  rcases List.infix_concat_iff.1 hinfix with hend | hinside
  · have hone : ['_'] <:+ scope := (List.suffix_append_inj_of_length_eq rfl).1 hend |>.1
    exact hlast (List.singleton_suffix_iff_getLast?_eq_some.1 hone)
  · exact hscope hinside

theorem Typable.typesTarget? (h : Typable package) :
    typesTarget? (typesPackage package) = some package := by
  rw [typesTarget?_eq_some_iff]
  cases h with
  | unscoped hne hunderscores hscope =>
    refine ⟨package, typesPackage_unscoped hscope, .unscoped hne fun scope name hcut => ?_⟩
    rw [Text.cutAt?_eq_none_iff.2 hunderscores] at hcut
    cases hcut
  | inScope hscope hname hslash hunderscores hlast =>
    refine ⟨_, typesPackage_inScope hslash _, .inScope ?_ hscope hname⟩
    exact cutAt?_underscores hunderscores hlast _

theorem typesPackage_of_standsFor (hslash : '/' ∉ rest) (hscope : rest.head? ≠ some '@')
    (h : StandsFor rest target) : typesPackage target = typesScope ++ rest := by
  cases h with
  | @inScope scope name hcut _ _ =>
    obtain rfl := Text.eq_of_cutAt? hcut
    have hslash' : '/' ∉ scope := fun hmem => hslash (List.mem_append_left _ hmem)
    rw [typesPackage_inScope hslash']
    rfl
  | unscoped _ _ => exact typesPackage_unscoped fun hboth => hscope hboth.1

/-- A types package that stands for a types package has the scope twice in its name, or the name of
the scope as that of a scope. -/
theorem twice_typed (h : typesTarget? package = some name) (h' : typesTarget? name = some target) :
    typesScope ++ "types".toList <+: package ∨ typesScope ++ typesScope <+: package := by
  obtain ⟨rest, rfl, hstands⟩ := typesTarget?_eq_some_iff.1 h
  obtain ⟨rest', hname, -⟩ := typesTarget?_eq_some_iff.1 h'
  rw [List.prefix_append_right_inj, List.prefix_append_right_inj]
  cases hstands with
  | @inScope scope name' hcut _ _ =>
    obtain rfl := Text.eq_of_cutAt? hcut
    have hscope : scope ++ '/' :: name' = "types".toList ++ '/' :: rest' := (List.cons.inj hname).2
    refine .inl (List.IsPrefix.trans ?_ (List.prefix_append scope _))
    rcases List.append_eq_append_iff.1 hscope with ⟨rest'', htypes, hrest⟩ | ⟨more, hmore, -⟩
    · rcases rest'' with _ | ⟨c, rest''⟩
      · rw [htypes, List.append_nil]
      · obtain rfl := (List.cons.inj hrest).1
        have hslash : '/' ∈ "types".toList := htypes ▸ by simp
        exact absurd hslash (by decide)
    · exact ⟨more, hmore.symm⟩
  | unscoped _ _ => exact .inr ⟨rest', hname.symm⟩

end Specifier

/-- A name that is typable is read back from its types package, and what is read off a types package
without a scope or a path in the rest of its name has it as its types package. -/
theorem typesPackage_faithful :
    (∀ package, Specifier.Typable package →
        Specifier.typesTarget? (Specifier.typesPackage package) = some package)
      ∧ ∀ rest target : Text, rest ≠ [] → '/' ∉ rest → rest.head? ≠ some '@' →
        Specifier.typesTarget? (Specifier.typesScope ++ rest) = some target →
          Specifier.typesPackage target = Specifier.typesScope ++ rest := by
  refine ⟨fun package h => h.typesTarget?, fun rest target _ hslash hscope htarget => ?_⟩
  obtain ⟨rest', heq, hstands⟩ := Specifier.typesTarget?_eq_some_iff.1 htarget
  obtain rfl := List.append_cancel_left heq
  exact Specifier.typesPackage_of_standsFor hslash hscope hstands

theorem babelCore_faithful :
    Specifier.Typable "@babel/_core__x".toList
      ∧ Specifier.typesTarget? (Specifier.typesPackage "@babel/_core__x".toList)
        = some "@babel/_core__x".toList
      ∧ Specifier.typesTarget? "@types/babel___core__x".toList = some "@babel/_core__x".toList
      ∧ Specifier.typesPackage "@babel/_core__x".toList = "@types/babel___core__x".toList := by
  have htypable : Specifier.Typable "@babel/_core__x".toList :=
    @Specifier.Typable.inScope "babel".toList "_core__x".toList (by decide) (by decide) (by decide)
      (by decide) (by decide)
  have htarget : Specifier.typesTarget? "@types/babel___core__x".toList
      = some "@babel/_core__x".toList := by decide
  obtain ⟨hback, hforth⟩ := typesPackage_faithful
  exact ⟨htypable, hback _ htypable, htarget,
    hforth "babel___core__x".toList _ (by decide) (by decide) (by decide) htarget⟩

namespace ModuleIndex

/-- The packages an index is made from: those it is given, or those its unit mentions. -/
inductive MadeFrom : ModuleIndex → (Text → Prop) → Prop where
  | ofParts (files packages : List Text) (options : IndexOptions) :
      MadeFrom (ofParts files packages options) (· ∈ packages)
  | build (tree : FileTree) (options : IndexOptions) (unit : CompilationUnit) :
      MadeFrom (build tree options unit) (Mentions tree options unit)

/-- A name is known that is listed or is the target of a listed one. -/
theorem MadeFrom.mem_packageNames_iff {index : ModuleIndex} {Listed : Text → Prop}
    (h : index.MadeFrom Listed) {name : Text} (hne : name ≠ []) : name ∈ index.packageNames ↔
      Listed name ∨ ∃ package, Listed package ∧ Specifier.typesTarget? package = some name := by
  have hmem : name ∈ index.packageNames ↔ ∃ package, Listed package ∧ package ≠ []
      ∧ (name = package ∨ Specifier.typesTarget? package = some name) := by
    cases h with
    | ofParts files packages options => exact mem_knownNames
    | build tree options unit =>
      rw [mem_packageNames_build]
      exact exists_congr fun package => by tauto
  rw [hmem]
  constructor
  · rintro ⟨package, hlisted, -, rfl | htarget⟩
    · exact .inl hlisted
    · exact .inr ⟨package, hlisted, htarget⟩
  · rintro (hlisted | ⟨package, hlisted, htarget⟩)
    · exact ⟨name, hlisted, hne, .inl rfl⟩
    · refine ⟨package, hlisted, ?_, .inr htarget⟩
      rintro rfl
      cases htarget

end ModuleIndex

/-- The target of a known name is unknown exactly if the name is itself known only as a target, of a
types package of a types package, and the target is neither listed nor the target of a listed
name. -/
theorem unknown_target_iff {index : ModuleIndex} {Listed : Text → Prop}
    (hmade : index.MadeFrom Listed) {name target : Text}
    (htarget : Specifier.typesTarget? name = some target) :
    (name ∈ index.packageNames ∧ target ∉ index.packageNames) ↔
      (∃ package, Listed package ∧ Specifier.typesTarget? package = some name
          ∧ (Specifier.typesScope ++ "types".toList <+: package
            ∨ Specifier.typesScope ++ Specifier.typesScope <+: package))
        ∧ ¬ Listed name ∧ ¬ Listed target
        ∧ ∀ package, Listed package → Specifier.typesTarget? package ≠ some target := by
  have hname : name ≠ [] := by
    rintro rfl
    cases htarget
  rw [hmade.mem_packageNames_iff hname,
    hmade.mem_packageNames_iff (Specifier.typesTarget?_ne_nil htarget), not_or, not_exists]
  simp only [not_and]
  constructor
  · rintro ⟨hknown, hlisted, hothers⟩
    have hname : ¬ Listed name := fun hlisted' => hothers name hlisted' htarget
    obtain ⟨package, hpackage, htyped⟩ := hknown.resolve_left hname
    exact ⟨⟨package, hpackage, htyped, Specifier.twice_typed htyped htarget⟩, hname, hlisted,
      hothers⟩
  · rintro ⟨⟨package, hpackage, htyped, -⟩, -, hlisted, hothers⟩
    exact ⟨.inr ⟨package, hpackage, htyped⟩, hlisted, hothers⟩

/-- An index that is given the types package of a types package. -/
def typesOfTypes : ModuleIndex := .ofParts [] ["@types/types__react".toList] .standard

theorem typesOfTypes_made : typesOfTypes.MadeFrom (· ∈ ["@types/types__react".toList]) :=
  .ofParts [] ["@types/types__react".toList] .standard

theorem react_unknown :
    Specifier.typesTarget? "@types/react".toList = some "react".toList
      ∧ "@types/react".toList ∈ typesOfTypes.packageNames
      ∧ "react".toList ∉ typesOfTypes.packageNames := by
  have htarget : Specifier.typesTarget? "@types/react".toList = some "react".toList := by decide
  refine ⟨htarget, (unknown_target_iff typesOfTypes_made htarget).2 ⟨?_, by decide, by decide, ?_⟩⟩
  · exact ⟨"@types/types__react".toList, by decide, by decide, .inl (by decide)⟩
  · decide

theorem target_not_always_known :
    ¬ ∀ (index : ModuleIndex) (Listed : Text → Prop), index.MadeFrom Listed →
      ∀ name target : Text, name ∈ index.packageNames →
        Specifier.typesTarget? name = some target → target ∈ index.packageNames := by
  intro h
  have hknown := h _ _ typesOfTypes_made "@types/react".toList "react".toList (by decide)
    (by decide)
  revert hknown
  decide

end DidYouMean
