import DidYouMean.Json.Fields
import DidYouMean.Proofs.Lists
import Mathlib.Tactic.SplitIfs

/-!
# The fields of a document

What a document with given fields has to be like, and what it gives for each of them. The fields are
looked up as soon as it is one, and each look-up finds the value that is given or that there is none
(`fields?_eq_some_iff`).
-/

namespace DidYouMean

namespace Json

/-- The first value is the second one or stands somewhere in it. -/
inductive Within (part : Json) : Json → Prop where
  | self : Within part part
  | item {v : Json} {items : List Json} : v ∈ items → Within part v → Within part (array items)
  | member {key : Option Text} {v : Json} {members : List (Option Text × Json)} :
      (key, v) ∈ members → Within part v → Within part (object members)

/-- A value all of which can be kept: numbers in range, strings and keys that are texts, not too
many levels of nesting. -/
structure Keepable (v : Json) : Prop where
  number : ∀ n, Within (number n) v → n.double? ≠ none
  string : ∀ content, Within (string content) v → content ≠ none
  key : ∀ members, Within (object members) v → ∀ member ∈ members, member.1 ≠ none
  nesting : v.nesting < maxNesting

/-- The value that a document gives for a field: that of a member with the name, or the item in
its place. -/
inductive Gives (names : List Text) : Json → Text → Json → Prop where
  | member {members : List (Option Text × Json)} {name : Text} {v : Json} :
      (some name, v) ∈ members → Gives names (object members) name v
  | item {items : List Json} {i : Nat} {name : Text} {v : Json} : names[i]? = some name →
      items[i]? = some v → Gives names (array items) name v

/-- A document with the fields, given by name or in their order. What is given for them can be
kept. -/
inductive IsDocument (names : List Text) : Json → Prop where
  | object {members : List (Option Text × Json)} : (∀ member ∈ members, member.1 ≠ none) →
      (∀ name ∈ names, members.countP (·.1 == some name) ≤ 1) →
      (∀ name ∈ names, ∀ v, (some name, v) ∈ members → Keepable v) →
      IsDocument names (object members)
  | array {items : List Json} : items.length ≤ names.length → (∀ v ∈ items, Keepable v) →
      IsDocument names (array items)

/-- The value that a document gives for a field, if it gives one. -/
def Finds (names : List Text) (v : Json) (name : Text) (found : Option Json) : Prop :=
  ∀ w, Gives names v name w ↔ found = some w

/-! ## What can be kept -/

theorem itemsArePlain_eq : ∀ vs : List Json, itemsArePlain vs = vs.all isPlain
  | [] => rfl
  | v :: vs => by rw [itemsArePlain, itemsArePlain_eq vs, List.all_cons]

theorem membersArePlain_eq : ∀ ms : List (Option Text × Json),
    membersArePlain ms = ms.all fun m => m.1.isSome && isPlain m.2
  | [] => rfl
  | (key, v) :: ms => by rw [membersArePlain, membersArePlain_eq ms, List.all_cons]

theorem isPlain_of_within {part v : Json} (h : Within part v) (hv : isPlain v = true) :
    isPlain part = true := by
  induction h with
  | self => exact hv
  | item hmem _ ih =>
    rw [isPlain, itemsArePlain_eq] at hv
    exact ih (List.all_eq_true.1 hv _ hmem)
  | member hmem _ ih =>
    rw [isPlain, membersArePlain_eq] at hv
    exact ih (Bool.and_eq_true_iff.1 (List.all_eq_true.1 hv _ hmem)).2

/-- Of a value itself, without what stands in it. -/
def PlainHere : Json → Prop
  | number n => n.double? ≠ none
  | string content => content ≠ none
  | object members => ∀ member ∈ members, member.1 ≠ none
  | _ => True

mutual

theorem isPlain_of_plainHere : ∀ {v : Json}, (∀ part, Within part v → part.PlainHere) →
    isPlain v = true
  | null, _ | bool _, _ => rfl
  | number _, h | string _, h => Option.isSome_iff_ne_none.2 (h _ .self)
  | array _, h => itemsArePlain_of_plainHere fun _ hv part hpart => h part (.item hv hpart)
  | object _, h => membersArePlain_of_plainHere (h _ .self) fun _ hm part hpart =>
    h part (.member hm hpart)

theorem itemsArePlain_of_plainHere : ∀ {vs : List Json},
    (∀ v ∈ vs, ∀ part, Within part v → part.PlainHere) → itemsArePlain vs = true
  | [], _ => rfl
  | v :: vs, h => by
    rw [itemsArePlain, isPlain_of_plainHere (h v List.mem_cons_self), Bool.true_and]
    exact itemsArePlain_of_plainHere fun w hw => h w (List.mem_cons_of_mem _ hw)

theorem membersArePlain_of_plainHere : ∀ {ms : List (Option Text × Json)},
    (∀ m ∈ ms, m.1 ≠ none) → (∀ m ∈ ms, ∀ part, Within part m.2 → part.PlainHere) →
      membersArePlain ms = true
  | [], _, _ => rfl
  | (key, v) :: ms, hkeys, h => by
    rw [membersArePlain, Option.isSome_iff_ne_none.2 (hkeys _ List.mem_cons_self),
      isPlain_of_plainHere (h _ List.mem_cons_self)]
    exact membersArePlain_of_plainHere (fun m hm => hkeys m (List.mem_cons_of_mem _ hm))
      fun m hm => h m (List.mem_cons_of_mem _ hm)

end

theorem plainHere_of_isPlain {v : Json} (h : isPlain v = true) : v.PlainHere := by
  cases v with
  | number n => exact Option.isSome_iff_ne_none.1 h
  | string content => exact Option.isSome_iff_ne_none.1 h
  | object members =>
    rw [isPlain, membersArePlain_eq] at h
    intro m hm
    exact Option.isSome_iff_ne_none.1 (Bool.and_eq_true_iff.1 (List.all_eq_true.1 h m hm)).1
  | _ => trivial

theorem isKeepable_iff {v : Json} : isKeepable v = true ↔ Keepable v := by
  rw [isKeepable, Bool.and_eq_true, decide_eq_true_eq]
  constructor
  · rintro ⟨hplain, hnesting⟩
    have hparts : ∀ part, Within part v → part.PlainHere := fun part hpart =>
      plainHere_of_isPlain (isPlain_of_within hpart hplain)
    exact ⟨fun n => hparts (.number n), fun content => hparts (.string content),
      fun members => hparts (.object members), hnesting⟩
  · rintro ⟨hnumber, hstring, hkey, hnesting⟩
    refine ⟨isPlain_of_plainHere fun part hpart => ?_, hnesting⟩
    cases part with
    | number n => exact hnumber n hpart
    | string content => exact hstring content hpart
    | object members => exact hkey members hpart
    | _ => trivial

/-! ## What is looked up -/

theorem field?_eq_some_iff {members : List (Option Text × Json)} {name : Text}
    {found : Option Json} :
    field? members name = some found ↔
      (members.countP (·.1 == some name) ≤ 1 ∧ ∀ v, (some name, v) ∈ members → Keepable v)
        ∧ ∀ v, (some name, v) ∈ members ↔ found = some v := by
  have hmem : ∀ v, (some name, v) ∈ members ↔
      (some name, v) ∈ members.filter (·.1 == some name) := by
    simp [List.mem_filter]
  have hkey : ∀ m ∈ members.filter (·.1 == some name), m.1 = some name := by
    simp [List.mem_filter]
  simp only [hmem, List.countP_eq_length_filter, field?]
  generalize members.filter (·.1 == some name) = given at hkey
  rcases given with _ | ⟨⟨key, v⟩, _ | ⟨m, ms⟩⟩
  · cases found <;> simp
  · obtain rfl := hkey _ List.mem_cons_self
    simp only [List.mem_singleton, Prod.mk.injEq, true_and, forall_eq, List.length_singleton,
      Nat.le_refl, ← isKeepable_iff]
    split_ifs with hkeepable
    · cases found <;> simp [hkeepable, eq_comm]
    · simp [hkeepable]
  · simp

theorem exists_field? {members : List (Option Text × Json)} {name : Text}
    (honce : members.countP (·.1 == some name) ≤ 1)
    (hkept : ∀ v, (some name, v) ∈ members → Keepable v) :
    ∃ found, field? members name = some found := by
  have hmem : ∀ m ∈ members.filter (·.1 == some name), (some name, m.2) ∈ members := by
    rintro ⟨key, v⟩ hm
    obtain ⟨hm, hkey⟩ := List.mem_filter.1 hm
    exact beq_iff_eq.1 hkey ▸ hm
  rw [List.countP_eq_length_filter] at honce
  unfold field?
  generalize members.filter (·.1 == some name) = given at honce hmem
  rcases given with _ | ⟨⟨key, v⟩, _ | ⟨m, ms⟩⟩
  · exact ⟨none, rfl⟩
  · exact ⟨some v, if_pos (isKeepable_iff.2 (hkept v (hmem _ List.mem_cons_self)))⟩
  · simp at honce

section Fields

variable {names : List Text}

theorem gives_object_iff {members : List (Option Text × Json)} {name : Text} {v : Json} :
    Gives names (object members) name v ↔ (some name, v) ∈ members := by
  refine ⟨fun h => ?_, .member⟩
  obtain ⟨hmem⟩ := h
  exact hmem

theorem gives_array_iff (hnames : names.Nodup) {items : List Json} {i : Nat} {name : Text}
    {v : Json} (hi : names[i]? = some name) :
    Gives names (array items) name v ↔ items[i]? = some v := by
  refine ⟨fun h => ?_, .item hi⟩
  obtain @⟨_⟩ | @⟨_, j, _, _, hj, hitem⟩ := h
  have hlt := (List.getElem?_eq_some_iff.1 hi).1
  rwa [(List.getElem?_inj hlt hnames).1 (hi.trans hj.symm)]

theorem forall₂_inPlace (hnames : names.Nodup) {items : List Json}
    (hlength : items.length ≤ names.length) :
    List.Forall₂ (Finds names (array items)) names
      (items.map some ++ List.replicate (names.length - items.length) none) := by
  refine List.forall₂_iff_get.2 ⟨by simp; omega, fun i hi _ v => ?_⟩
  rw [List.get_eq_getElem, List.get_eq_getElem,
    gives_array_iff hnames (List.getElem?_eq_getElem hi)]
  by_cases hitem : i < items.length
  · rw [List.getElem_append_left (by simpa using hitem)]
    simp [hitem]
  · rw [List.getElem_append_right (by simpa using hitem), List.getElem_replicate]
    simp [hitem]

theorem found_unique {v : Json} {found found' : List (Option Json)}
    (h : List.Forall₂ (Finds names v) names found)
    (h' : List.Forall₂ (Finds names v) names found') :
    found = found' := by
  refine List.right_unique_forall₂' (fun _ _ _ ho ho' => ?_) h h'
  exact Option.ext fun w => (ho w).symm.trans (ho' w)

theorem isDocument_object_iff {members : List (Option Text × Json)} :
    IsDocument names (object members) ↔ members.all (·.1.isSome) = true
      ∧ ∀ name ∈ names, members.countP (·.1 == some name) ≤ 1
        ∧ ∀ v, (some name, v) ∈ members → Keepable v := by
  simp only [List.all_eq_true, Option.isSome_iff_ne_none]
  constructor
  · rintro (⟨hkeys, honce, hkept⟩ | _)
    exact ⟨hkeys, fun name hname => ⟨honce name hname, hkept name hname⟩⟩
  · rintro ⟨hkeys, hfields⟩
    exact .object hkeys (fun name hname => (hfields name hname).1)
      fun name hname => (hfields name hname).2

theorem isDocument_array_iff {items : List Json} : IsDocument names (array items) ↔
    items.length ≤ names.length ∧ items.all isKeepable = true := by
  simp only [List.all_eq_true, isKeepable_iff]
  constructor
  · rintro (_ | ⟨hlength, hkept⟩)
    exact ⟨hlength, hkept⟩
  · rintro ⟨hlength, hkept⟩
    exact .array hlength hkept

/-- A document gives at most one value for a field, and the look-up of the fields finds it. -/
theorem fields?_eq_some_iff (hnames : names.Nodup) {v : Json} {found : List (Option Json)} :
    fields? names v = some found ↔
      IsDocument names v ∧ List.Forall₂ (Finds names v) names found := by
  cases v with
  | object members =>
    have hfinds : Finds names (object members) = fun name found =>
        ∀ v, (some name, v) ∈ members ↔ found = some v := by
      funext name found
      simp only [Finds, gives_object_iff]
    rw [isDocument_object_iff, hfinds, and_assoc, ← List.forall₂_and_left, fields?]
    simp only [← field?_eq_some_iff]
    rw [← mapM_eq_some_iff]
    split_ifs with hkeys <;> simp [hkeys]
  | array items =>
    rw [isDocument_array_iff, fields?]
    split_ifs with h
    · rw [and_iff_right h, Option.some.injEq]
      have hfound := forall₂_inPlace hnames h.1
      constructor
      · rintro rfl
        exact hfound
      · exact fun hfound' => found_unique hfound hfound'
    · constructor
      · intro hnone
        cases hnone
      · exact fun hd => absurd hd.1 h
  | _ =>
    constructor
    · intro h
      cases h
    · rintro ⟨hdocument, -⟩
      cases hdocument

theorem exists_fields? {v : Json} (h : IsDocument names v) :
    ∃ found, fields? names v = some found := by
  cases v with
  | object members =>
    obtain ⟨hkeys, hfields⟩ := isDocument_object_iff.1 h
    obtain ⟨found, hfound⟩ := exists_mapM fun name hname =>
      exists_field? (hfields name hname).1 (hfields name hname).2
    exact ⟨found, by rw [fields?, if_pos hkeys, hfound]⟩
  | array items => exact ⟨_, if_pos (isDocument_array_iff.1 h)⟩
  | _ => cases h

end Fields

end Json

end DidYouMean
