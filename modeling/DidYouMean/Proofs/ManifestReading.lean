import DidYouMean.Manifest
import DidYouMean.Proofs.DocumentFields
import DidYouMean.Proofs.JsonReading
import DidYouMean.Proofs.Lists

/-!
# Reading manifests

A text is a manifest if it is a JSON text of a document with the six fields, and then each field has
what its value is good for, or is empty (`manifest_parse_iff`). A document is less than an object
and more: what cannot be kept in a field, or a field that is there twice, spoils the whole manifest,
and a list of values is a document too (`object_not_always_manifest`).
-/

namespace DidYouMean

namespace Manifest

/-- A field has what its value is read as, or nothing if there is no value of use. -/
def Lenient {α : Type} (v : Json) (name : Text) (Reads : Json → α → Prop) (empty a : α) : Prop :=
  (∃ w, Json.Gives fieldNames v name w ∧ Reads w a)
    ∨ (∀ w b, Json.Gives fieldNames v name w → ¬ Reads w b) ∧ a = empty

/-- A name is a string with something in it. -/
inductive ReadsName : Json → Option Text → Prop where
  | string {t : Text} : t ≠ [] → ReadsName (.string (some t)) (some t)

/-- Packages are the keys of an object, each of them once. -/
inductive ReadsKeys : Json → List Text → Prop where
  | object {members : List (Option Text × Json)} :
      ReadsKeys (.object members) (members.filterMap (·.1)).eraseDups

/-- Patterns are the strings of a list that is the value itself or the last one it has for the key
`packages`. -/
inductive ReadsPatterns : Json → List Text → Prop where
  | array {items : List Json} : ReadsPatterns (.array items) (items.filterMap nonemptyString?)
  | object {before after : List (Option Text × Json)} {items : List Json} :
      (∀ member ∈ after, member.1 ≠ some "packages".toList) →
      ReadsPatterns (.object (before ++ (some "packages".toList, .array items) :: after))
        (items.filterMap nonemptyString?)

/-- The fields of the manifest that a document is. -/
structure ReadFrom (v : Json) (m : Manifest) : Prop where
  name : Lenient v "name".toList ReadsName none m.name
  dependencies : Lenient v "dependencies".toList ReadsKeys [] m.dependencies
  devDependencies : Lenient v "devDependencies".toList ReadsKeys [] m.devDependencies
  peerDependencies : Lenient v "peerDependencies".toList ReadsKeys [] m.peerDependencies
  optionalDependencies : Lenient v "optionalDependencies".toList ReadsKeys [] m.optionalDependencies
  workspaces : Lenient v "workspaces".toList ReadsPatterns [] m.workspaces

section Lenient

variable {α : Type} {v : Json} {name : Text} {Reads : Json → α → Prop} {empty a : α}
  {found : Option Json} {read : Json → α}

theorem lenient_iff (hfound : Json.Finds fieldNames v name found)
    (hreads : ∀ w b, Reads w b → read w = b) (hempty : ∀ w, (∀ b, ¬ Reads w b) → read w = empty) :
    Lenient v name Reads empty a ↔ a = (found.map read).getD empty := by
  simp only [Lenient, hfound _]
  rcases found with _ | w
  · simp
  · simp only [Option.some.injEq, exists_eq_left', Option.map_some, Option.getD_some]
    constructor
    · rintro (ha | ⟨hnone, rfl⟩)
      · exact (hreads w a ha).symm
      · exact (hempty w fun b hb => hnone w b rfl hb).symm
    · rintro rfl
      by_cases hread : ∃ b, Reads w b
      · obtain ⟨b, hb⟩ := hread
        rw [hreads w b hb]
        exact .inl hb
      · have hnone := not_exists.1 hread
        exact .inr ⟨fun w' b hw => hw ▸ hnone b, hempty w hnone⟩

end Lenient

theorem nonemptyString?_eq_some_iff {v : Json} {t : Text} :
    nonemptyString? v = some t ↔ v = .string (some t) ∧ t ≠ [] := by
  unfold nonemptyString?
  split
  · rename_i t'
    split_ifs with hempty
    · simp only [false_iff, not_and, not_not, Json.string.injEq, Option.some.injEq]
      exact fun ht => ht ▸ hempty
    · simp only [Option.some.injEq, Json.string.injEq]
      exact ⟨fun ht => ⟨ht, ht ▸ hempty⟩, And.left⟩
  · rename_i hother
    simp only [reduceCtorEq, false_iff, not_and]
    exact fun hv => absurd hv (hother t)

theorem lenient_name_iff {v : Json} {name : Text} {found : Option Json} {a : Option Text}
    (hfound : Json.Finds fieldNames v name found) :
    Lenient v name ReadsName none a ↔ a = found.bind nonemptyString? := by
  have hreads : ∀ w b, ReadsName w b → nonemptyString? w = b := by
    rintro _ _ ⟨ht⟩
    exact if_neg ht
  have hempty : ∀ w, (∀ b, ¬ ReadsName w b) → nonemptyString? w = none := by
    intro w hnone
    rw [Option.eq_none_iff_forall_ne_some]
    intro t ht
    obtain ⟨rfl, hne⟩ := nonemptyString?_eq_some_iff.1 ht
    exact hnone _ (.string hne)
  rw [lenient_iff hfound hreads hempty]
  cases found <;> rfl

theorem lenient_keys_iff {v : Json} {name : Text} {found : Option Json} {a : List Text}
    (hfound : Json.Finds fieldNames v name found) :
    Lenient v name ReadsKeys [] a ↔ a = (found.map keys).getD [] := by
  refine lenient_iff hfound ?_ ?_
  · rintro _ _ ⟨⟩
    rfl
  · intro w hnone
    cases w with
    | object members => exact absurd .object (hnone _)
    | _ => rfl

theorem patterns_object {members : List (Option Text × Json)} :
    (∃ a, ReadsPatterns (.object members) a) ∨ patterns (.object members) = [] := by
  rw [patterns]
  split
  · rename_i key items hlast
    obtain ⟨hkey, before, after, rfl, hafter⟩ := getLast?_filter_eq_some_iff.1 hlast
    obtain rfl := beq_iff_eq.1 hkey
    exact .inl ⟨_, .object fun member hmem => beq_eq_false_iff_ne.1 (hafter member hmem)⟩
  · exact .inr rfl

theorem patterns_of_reads {v : Json} {a : List Text} (h : ReadsPatterns v a) : patterns v = a := by
  cases h with
  | array => rfl
  | @object before after items hafter =>
    have hlast : ((before ++ (some "packages".toList, Json.array items) :: after).filter
        (·.1 == some "packages".toList)).getLast? = some (some "packages".toList, .array items) :=
      getLast?_filter_eq_some_iff.2 ⟨beq_self_eq_true _, before, after, rfl, fun member hmem =>
        beq_eq_false_iff_ne.2 (hafter member hmem)⟩
    rw [patterns, hlast]

theorem lenient_patterns_iff {v : Json} {name : Text} {found : Option Json} {a : List Text}
    (hfound : Json.Finds fieldNames v name found) :
    Lenient v name ReadsPatterns [] a ↔ a = (found.map patterns).getD [] := by
  refine lenient_iff hfound (fun w b => patterns_of_reads) fun w hnone => ?_
  cases w with
  | array items => exact absurd .array (hnone _)
  | object members => exact patterns_object.resolve_left (not_exists.2 hnone)
  | _ => rfl

/-- Every document is a manifest, and there is only one that can be read from it. -/
theorem exists_ofJson? {v : Json} (h : Json.IsDocument fieldNames v) :
    ∃ m, ofJson? v = some m ∧ ∀ m', ReadFrom v m' ↔ m = m' := by
  obtain ⟨found, hfields⟩ := Json.exists_fields? h
  have hfound := ((Json.fields?_eq_some_iff (by decide)).1 hfields).2
  rw [fieldNames] at hfound
  simp only [List.forall₂_cons_left_iff, List.forall₂_nil_left_iff] at hfound
  obtain ⟨name, _, hname, ⟨dependencies, _, hdependencies, ⟨dev, _, hdev, ⟨peer, _, hpeer,
    ⟨optional, _, hoptional, ⟨workspaces, _, hworkspaces, rfl, rfl⟩, rfl⟩, rfl⟩, rfl⟩, rfl⟩,
    rfl⟩ := hfound
  refine ⟨_, by rw [ofJson?, hfields], fun m' => ⟨?_, ?_⟩⟩
  · rintro ⟨h₁, h₂, h₃, h₄, h₅, h₆⟩
    rw [← (lenient_name_iff hname).1 h₁, ← (lenient_keys_iff hdependencies).1 h₂,
      ← (lenient_keys_iff hdev).1 h₃, ← (lenient_keys_iff hpeer).1 h₄,
      ← (lenient_keys_iff hoptional).1 h₅, ← (lenient_patterns_iff hworkspaces).1 h₆]
  · rintro rfl
    exact ⟨(lenient_name_iff hname).2 rfl, (lenient_keys_iff hdependencies).2 rfl,
      (lenient_keys_iff hdev).2 rfl, (lenient_keys_iff hpeer).2 rfl,
      (lenient_keys_iff hoptional).2 rfl, (lenient_patterns_iff hworkspaces).2 rfl⟩

theorem ofJson?_eq_none_iff {v : Json} : ofJson? v = none ↔ ¬ Json.IsDocument fieldNames v := by
  constructor
  · intro hnone hdocument
    obtain ⟨m, hm, -⟩ := exists_ofJson? hdocument
    rw [hnone] at hm
    cases hm
  · intro hdocument
    have hfields : v.fields? fieldNames = none := by
      rw [Option.eq_none_iff_forall_ne_some]
      exact fun found hfound => hdocument ((Json.fields?_eq_some_iff (by decide)).1 hfound).1
    rw [ofJson?, hfields]

theorem ofJson?_eq_some_iff {v : Json} {m : Manifest} :
    ofJson? v = some m ↔ Json.IsDocument fieldNames v ∧ ReadFrom v m := by
  by_cases hdocument : Json.IsDocument fieldNames v
  · obtain ⟨m', hm', hread⟩ := exists_ofJson? hdocument
    rw [hm', hread, Option.some.injEq, and_iff_right hdocument]
  · simp [ofJson?_eq_none_iff.2 hdocument, hdocument]

end Manifest

/-- A text is read as a manifest exactly if it is a JSON text of a document with the fields, and
each field has what its value is good for or is empty. Any other text is malformed. -/
theorem manifest_parse_iff (path content : Text) :
    (∀ m, Manifest.parse path content = .ok m ↔ ∃ v, Json.IsText v content
      ∧ Json.IsDocument Manifest.fieldNames v ∧ Manifest.ReadFrom v m)
      ∧ (Manifest.parse path content = .error (.malformed path) ↔
        ∀ v, Json.IsText v content → ¬ Json.IsDocument Manifest.fieldNames v) := by
  have hread : ∀ m, (Json.parse? content).bind Manifest.ofJson? = some m ↔
      ∃ v, Json.IsText v content ∧ Json.IsDocument Manifest.fieldNames v
        ∧ Manifest.ReadFrom v m := by
    simp only [Option.bind_eq_some_iff, Json.parse?_eq_some_iff, Manifest.ofJson?_eq_some_iff,
      implies_true]
  have hnone : (Json.parse? content).bind Manifest.ofJson? = none ↔
      ∀ v, Json.IsText v content → ¬ Json.IsDocument Manifest.fieldNames v := by
    simp only [Option.bind_eq_none_iff, Json.parse?_eq_some_iff, Manifest.ofJson?_eq_none_iff]
  simp only [← hread, ← hnone, Manifest.parse]
  rcases (Json.parse? content).bind Manifest.ofJson? with _ | m
  · simp
  · simp

example : (Json.parse? "[\"app\", null]".toList).bind Manifest.ofJson?
    = some ⟨some "app".toList, [], [], [], [], []⟩ := by decide +kernel

/-- A name that is out of range. -/
def hugeName : Text := r#"{"name":1e999,"dependencies":{"react":"18"}}"#.toList

theorem hugeName_isText : ∃ members, Json.IsText (.object members) hugeName := by
  have hkeys : (Json.parse? hugeName).map Manifest.keys
      = some ["name".toList, "dependencies".toList] := by decide +kernel
  obtain ⟨v, hparse, hkeys⟩ := Option.map_eq_some_iff.1 hkeys
  cases v with
  | object members => exact ⟨members, Json.parse?_eq_some_iff.1 hparse⟩
  | _ => cases hkeys

theorem object_not_always_manifest :
    ¬ ∀ path content : Text, (∃ m, Manifest.parse path content = .ok m) ↔
      ∃ members, Json.IsText (.object members) content := by
  intro h
  obtain ⟨m, hm⟩ := (h "/p/package.json".toList hugeName).2 hugeName_isText
  have hnone : (Json.parse? hugeName).bind Manifest.ofJson? = none := by decide +kernel
  rw [Manifest.parse, hnone] at hm
  cases hm

end DidYouMean
