import DidYouMean.Proofs.ByteOffsets
import DidYouMean.Proofs.PackageNames
import DidYouMean.Proofs.Trimming

/-!
# The parts of a specifier

A specifier is a whole name, a whole name with a path behind a slash, or a scope without a name
(`specifier_cases`). Splitting takes it apart at the slash behind the name and loses nothing. The
place of that slash can also be found by byte offsets, counted in what is left of the specifier
behind its `@` and behind its scope. Every one of them is the place of a character of the specifier
or its end, so such a split never fails and gives the same two parts (`splitAtBytes?_eq`).
-/

namespace DidYouMean

namespace Specifier

variable {s name scope path : Text}

/-- The slashes that a package name may have: that of its scope, if it is in one. -/
def scopeSlashes (s : Text) : Nat := if s.head? = some '@' then 1 else 0

/-- A specifier is a scope alone, a whole name, or a whole name with a path. -/
theorem specifier_cases (s : Text) : (∃ scope, '/' ∉ scope ∧ s = '@' :: scope)
    ∨ WholeName s ∨ ∃ name path, WholeName name ∧ s = name ++ '/' :: path := by
  by_cases hscope : s.head? = some '@'
  · obtain ⟨tail, rfl⟩ := List.head?_eq_some_iff.1 hscope
    rcases lead_cases tail with htail | ⟨behind, htail⟩
    · exact .inl ⟨tail, htail ▸ not_mem_lead tail, rfl⟩
    · rw [htail]
      rcases lead_cases behind with hbehind | ⟨path, hbehind⟩ <;> rw [hbehind]
      · exact .inr (.inl (.inScope (not_mem_lead tail) (not_mem_lead behind)))
      · refine .inr (.inr ⟨_, path, .inScope (not_mem_lead tail) (not_mem_lead behind), ?_⟩)
        simp
  · rcases lead_cases s with hs | ⟨path, hs⟩
    · exact .inr (.inl (.single (hs ▸ not_mem_lead s) hscope))
    · refine .inr (.inr ⟨lead s, path, .single (not_mem_lead s) ?_, hs⟩)
      rw [hs] at hscope
      exact (head?_append_slash (by decide) _ path).not.1 hscope

theorem split_scope (h : '/' ∉ scope) : split ('@' :: scope) = ('@' :: scope, none) := by
  simp [split, h]

@[simp] theorem scopeSlashes_append (name path : Text) :
    scopeSlashes (name ++ '/' :: path) = scopeSlashes name := by
  simp only [scopeSlashes, head?_append_slash (c := '@') (by decide) name path]

/-- A whole name has all the slashes it may have. -/
theorem WholeName.count_slash (h : WholeName name) : name.count '/' = scopeSlashes name := by
  cases h with
  | single hslash hscope => rw [scopeSlashes, if_neg hscope, List.count_eq_zero.2 hslash]
  | inScope hscope hname =>
    simp [scopeSlashes, List.count_eq_zero.2 hscope, List.count_eq_zero.2 hname]

/-- The two parts, with a slash between them if there is a path, are the specifier again. -/
theorem join_split (s : Text) : (split s).1 ++ (split s).2.elim [] ('/' :: ·) = s := by
  rcases specifier_cases s with ⟨scope, hscope, rfl⟩ | hs | ⟨name, path, hname, rfl⟩
  · rw [split_scope hscope, Option.elim_none, List.append_nil]
  · rw [hs.split.1, Option.elim_none, List.append_nil]
  · rw [hname.split.2, Option.elim_some]

theorem count_slash_packageName_le (s : Text) : (packageName s).count '/' ≤ scopeSlashes s := by
  rcases specifier_cases s with ⟨scope, hscope, rfl⟩ | hs | ⟨name, path, hname, rfl⟩
  · rw [packageName, split_scope hscope]
    simp [List.count_eq_zero.2 hscope]
  · rw [packageName, hs.split.1, hs.count_slash]
  · rw [packageName, hname.split.2, hname.count_slash, scopeSlashes_append]

theorem isSome_path_iff (s : Text) :
    (split s).2.isSome = true ↔ scopeSlashes s < s.count '/' := by
  rcases specifier_cases s with ⟨scope, hscope, rfl⟩ | hs | ⟨name, path, hname, rfl⟩
  · rw [split_scope hscope]
    simp [scopeSlashes, List.count_eq_zero.2 hscope]
  · rw [hs.split.1, hs.count_slash]
    simp
  · rw [hname.split.2, scopeSlashes_append, List.count_append, hname.count_slash]
    simp

theorem packageName_packageName (s : Text) : packageName (packageName s) = packageName s := by
  rcases specifier_cases s with ⟨scope, hscope, rfl⟩ | hs | ⟨name, path, hname, rfl⟩
  · simp only [packageName, split_scope hscope]
  · simp only [packageName, hs.split.1]
  · simp only [packageName, hname.split.1, hname.split.2]

/-! ## Splitting by byte offsets -/

/-- The byte offset of the first slash. -/
def slashAt? (t : Text) : Option Nat :=
  (Text.cutAt? ['/'] t).map fun (before, _) => Text.byteLength before

/-- The byte offset of the slash behind the name, if a path follows. The one of the scope is counted
behind the `@`, and the one of the name behind the slash of the scope. There is no answer if the
specifier cannot be cut at the latter. -/
def nameEnd? (s : Text) : Option (Option Nat) :=
  match Text.stripStart? ['@'] s with
  | none => some (slashAt? s)
  | some tail =>
    match slashAt? tail with
    | none => some none
    | some scopeEnd => do
      let afterScope := scopeEnd + 2
      let (_, behind) ← Text.cutAtByte? afterScope s
      return (slashAt? behind).map (afterScope + ·)

/-- A specifier split at byte offsets, if it can be cut at them. -/
def splitAtBytes? (s : Text) : Option (Text × Option Text) := do
  match ← nameEnd? s with
  | none => return (s, none)
  | some nameEnd =>
    let (name, _) ← Text.cutAtByte? nameEnd s
    let (_, path) ← Text.cutAtByte? (nameEnd + 1) s
    return (name, some path)

theorem slashAt?_of_not_mem (h : '/' ∉ s) : slashAt? s = none := by
  rw [slashAt?, Text.cutAt?_eq_none_iff.2, Option.map_none]
  rwa [List.singleton_infix_iff]

theorem slashAt?_append (h : '/' ∉ name) (path : Text) :
    slashAt? (name ++ '/' :: path) = some (Text.byteLength name) := by
  have hfirst : ¬ ['/'].IsInfix (name ++ ['/'].dropLast) := by
    rwa [List.dropLast_singleton, List.append_nil, List.singleton_infix_iff]
  have hcut := Text.cutAt?_append path hfirst
  rw [List.singleton_append] at hcut
  rw [slashAt?, hcut, Option.map_some]

theorem nameEnd?_of_head?_ne (h : s.head? ≠ some '@') : nameEnd? s = some (slashAt? s) := by
  have hstrip : Text.stripStart? ['@'] s = none := by
    rw [Option.eq_none_iff_forall_ne_some]
    intro tail htail
    rw [Text.stripStart?_eq_some_iff.1 htail] at h
    exact h rfl
  rw [nameEnd?, hstrip]

theorem nameEnd?_scope (h : '/' ∉ scope) : nameEnd? ('@' :: scope) = some none := by
  have hstrip := Text.stripStart?_append ['@'] scope
  rw [List.singleton_append] at hstrip
  simp only [nameEnd?, hstrip, slashAt?_of_not_mem h]

theorem byteLength_concat_slash (t : Text) :
    Text.byteLength (t ++ ['/']) = Text.byteLength t + 1 := by
  rw [Text.byteLength_append]
  rfl

theorem byteLength_at_cons (t : Text) : Text.byteLength ('@' :: t) = Text.byteLength t + 1 := by
  rw [Text.byteLength_cons, Nat.add_comm]
  rfl

/-- Behind the slash of a scope the name is looked for, two bytes after what the scope takes. -/
theorem nameEnd?_inScope (h : '/' ∉ scope) (behind : Text) :
    nameEnd? ('@' :: (scope ++ '/' :: behind))
      = some ((slashAt? behind).map (Text.byteLength scope + 2 + ·)) := by
  have hstrip := Text.stripStart?_append ['@'] (scope ++ '/' :: behind)
  have hcut := Text.cutAtByte?_append ('@' :: (scope ++ ['/'])) behind
  rw [List.singleton_append] at hstrip
  rw [byteLength_at_cons, byteLength_concat_slash, List.cons_append, List.append_assoc,
    List.singleton_append] at hcut
  simp only [nameEnd?, hstrip, slashAt?_append h, hcut, Option.bind_eq_bind, Option.bind_some,
    Option.pure_def]

theorem WholeName.nameEnd? (h : WholeName name) : nameEnd? name = some none
    ∧ ∀ path, nameEnd? (name ++ '/' :: path) = some (some (Text.byteLength name)) := by
  cases h with
  | single hslash hscope =>
    refine ⟨by rw [nameEnd?_of_head?_ne hscope, slashAt?_of_not_mem hslash], fun path => ?_⟩
    rw [nameEnd?_of_head?_ne ((head?_append_slash (by decide) name path).not.2 hscope),
      slashAt?_append hslash]
  | @inScope scope name hscope hname =>
    simp only [List.cons_append, List.append_assoc, nameEnd?_inScope hscope]
    refine ⟨by rw [slashAt?_of_not_mem hname, Option.map_none], fun path => ?_⟩
    have hlength := byteLength_concat_slash scope
    rw [Text.byteLength_append] at hlength
    rw [slashAt?_append hname, Option.map_some, byteLength_at_cons, Text.byteLength_append,
      Text.byteLength_cons '/' name]
    congr 2
    omega

/-- Splitting by byte offsets never fails, and it splits a specifier as splitting does. -/
theorem splitAtBytes?_eq (s : Text) : splitAtBytes? s = some (split s) := by
  rcases specifier_cases s with ⟨scope, hscope, rfl⟩ | hs | ⟨name, path, hname, rfl⟩
  · simp only [splitAtBytes?, nameEnd?_scope hscope, split_scope hscope, Option.bind_eq_bind,
      Option.bind_some, Option.pure_def]
  · simp only [splitAtBytes?, hs.nameEnd?.1, hs.split.1, Option.bind_eq_bind, Option.bind_some,
      Option.pure_def]
  · have hcut := Text.cutAtByte?_append name ('/' :: path)
    have hcut' := Text.cutAtByte?_append (name ++ ['/']) path
    rw [byteLength_concat_slash, List.append_assoc, List.singleton_append] at hcut'
    simp only [splitAtBytes?, hname.nameEnd?.2, hname.split.2, hcut, hcut', Option.bind_eq_bind,
      Option.bind_some, Option.pure_def]

end Specifier

open Specifier

/-- A specifier is its package name, alone or with a path behind a slash. The name has no slash but
that of its scope, there is a path if the specifier has more slashes than that, and the name is its
own package name. Splitting at byte offsets finds the same parts, and never fails. -/
theorem split_lossless (s : Text) :
    (∀ name, split s = (name, none) → name = s)
      ∧ (∀ name path, split s = (name, some path) → name ++ '/' :: path = s)
      ∧ (split s).1.count '/' ≤ scopeSlashes s
      ∧ ((split s).2.isSome = true ↔ scopeSlashes s < s.count '/')
      ∧ packageName (packageName s) = packageName s
      ∧ splitAtBytes? s = some (split s) := by
  have hjoin := join_split s
  refine ⟨fun name h => ?_, fun name path h => ?_, count_slash_packageName_le s, isSome_path_iff s,
    packageName_packageName s, splitAtBytes?_eq s⟩ <;> rw [h] at hjoin
  · rwa [Option.elim_none, List.append_nil] at hjoin
  · exact hjoin

/-- A specifier in whose scope and name characters take more than one byte. -/
theorem wideScope_split :
    split "@é/ü/x/y".toList = ("@é/ü".toList, some "x/y".toList)
      ∧ "@é/ü".toList ++ '/' :: "x/y".toList = "@é/ü/x/y".toList
      ∧ splitAtBytes? "@é/ü/x/y".toList = some ("@é/ü".toList, some "x/y".toList) := by
  have hsplit : split "@é/ü/x/y".toList = ("@é/ü".toList, some "x/y".toList) := by decide
  obtain ⟨-, hjoin, -, -, -, hbytes⟩ := split_lossless "@é/ü/x/y".toList
  exact ⟨hsplit, hjoin _ _ hsplit, hbytes.trans (congrArg some hsplit)⟩

end DidYouMean
