import DidYouMean.Proofs.ManifestReading

/-!
# Fields of a manifest apart

A field of a manifest depends on nothing but the value that the document gives for it
(`agreeOn_of_gives`). What an object gives for a name does not change when its members change places
or when a member of another name gets another value, and which objects are documents does not depend
on the order of the members either. Space between tokens is not part of a value at all. So it makes
no difference in which order a manifest lists its fields, and what one field holds makes none to
the others (`manifest_fields_independent`).
-/

namespace DidYouMean

namespace Json

variable {names : List Text} {members members' : List (Option Text × Json)}

theorem gives_perm (h : members.Perm members') {name : Text} {v : Json} :
    Gives names (object members) name v ↔ Gives names (object members') name v := by
  rw [gives_object_iff, gives_object_iff, h.mem_iff]

theorem gives_replaced {before after : List (Option Text × Json)} {key name : Text} {v v' w : Json}
    (h : name ≠ key) : Gives names (object (before ++ (some key, v) :: after)) name w ↔
      Gives names (object (before ++ (some key, v') :: after)) name w := by
  simp only [gives_object_iff, List.mem_append, List.mem_cons, Prod.mk.injEq, Option.some.injEq, h,
    false_and, false_or]

theorem isDocument_perm (h : members.Perm members') :
    IsDocument names (object members) ↔ IsDocument names (object members') := by
  simp only [isDocument_object_iff, h.all_eq, h.countP_eq, h.mem_iff]

theorem exists_finds (hnames : names.Nodup) {v : Json} (h : IsDocument names v) {name : Text}
    (hname : name ∈ names) : ∃ found, Finds names v name found := by
  obtain ⟨found, hfields⟩ := exists_fields? h
  have hfound := ((fields?_eq_some_iff hnames).1 hfields).2
  obtain ⟨i, hi, rfl⟩ := List.getElem_of_mem hname
  exact ⟨_, hfound.get hi (hfound.length_eq ▸ hi)⟩

end Json

namespace Manifest

/-- The manifests have the same in the fields of these names. -/
structure AgreeOn (P : Text → Prop) (m m' : Manifest) : Prop where
  name : P "name".toList → m.name = m'.name
  dependencies : P "dependencies".toList → m.dependencies = m'.dependencies
  devDependencies : P "devDependencies".toList → m.devDependencies = m'.devDependencies
  peerDependencies : P "peerDependencies".toList → m.peerDependencies = m'.peerDependencies
  optionalDependencies :
    P "optionalDependencies".toList → m.optionalDependencies = m'.optionalDependencies
  workspaces : P "workspaces".toList → m.workspaces = m'.workspaces

variable {v v' : Json} {m m' : Manifest}

theorem AgreeOn.eq {P : Text → Prop} (h : AgreeOn P m m') (hall : ∀ name, P name) : m = m' := by
  cases m
  cases m'
  rw [Manifest.mk.injEq]
  exact ⟨h.name (hall _), h.dependencies (hall _), h.devDependencies (hall _),
    h.peerDependencies (hall _), h.optionalDependencies (hall _), h.workspaces (hall _)⟩

theorem AgreeOn.mono {P Q : Text → Prop} (h : AgreeOn P m m') (hsub : ∀ name, Q name → P name) :
    AgreeOn Q m m' :=
  ⟨fun hq => h.name (hsub _ hq), fun hq => h.dependencies (hsub _ hq),
    fun hq => h.devDependencies (hsub _ hq), fun hq => h.peerDependencies (hsub _ hq),
    fun hq => h.optionalDependencies (hsub _ hq), fun hq => h.workspaces (hsub _ hq)⟩

/-- What a field is read as is one thing for all documents that give the same for it. -/
theorem eq_of_lenient {α : Type} {name : Text} {Reads : Json → α → Prop} {empty a b : α}
    {read : Option Json → α}
    (hreads : ∀ {v : Json} {found : Option Json} {a : α}, Json.Finds fieldNames v name found →
      (Lenient v name Reads empty a ↔ a = read found))
    (hdocument : Json.IsDocument fieldNames v) (hname : name ∈ fieldNames)
    (ha : Lenient v name Reads empty a) (hb : Lenient v' name Reads empty b)
    (hsame : ∀ w, Json.Gives fieldNames v name w ↔ Json.Gives fieldNames v' name w) : a = b := by
  obtain ⟨found, hfound⟩ := Json.exists_finds (by decide) hdocument hname
  have hfound' : Json.Finds fieldNames v' name found := fun w => (hsame w).symm.trans (hfound w)
  rw [(hreads hfound).1 ha, (hreads hfound').1 hb]

/-- A field depends only on what the document gives for it. -/
theorem agreeOn_of_gives (hm : ofJson? v = some m) (hm' : ofJson? v' = some m') :
    AgreeOn (fun name => ∀ w, Json.Gives fieldNames v name w ↔ Json.Gives fieldNames v' name w)
      m m' := by
  obtain ⟨hdocument, hread⟩ := ofJson?_eq_some_iff.1 hm
  obtain ⟨-, hread'⟩ := ofJson?_eq_some_iff.1 hm'
  exact {
    name := eq_of_lenient lenient_name_iff hdocument (by decide) hread.name hread'.name
    dependencies := eq_of_lenient lenient_keys_iff hdocument (by decide) hread.dependencies
      hread'.dependencies
    devDependencies := eq_of_lenient lenient_keys_iff hdocument (by decide) hread.devDependencies
      hread'.devDependencies
    peerDependencies := eq_of_lenient lenient_keys_iff hdocument (by decide)
      hread.peerDependencies hread'.peerDependencies
    optionalDependencies := eq_of_lenient lenient_keys_iff hdocument (by decide)
      hread.optionalDependencies hread'.optionalDependencies
    workspaces := eq_of_lenient lenient_patterns_iff hdocument (by decide) hread.workspaces
      hread'.workspaces }

theorem ofJson?_perm {members members' : List (Option Text × Json)} (h : members.Perm members') :
    ofJson? (.object members) = ofJson? (.object members') := by
  rcases hm : ofJson? (.object members) with _ | m
  · rw [ofJson?_eq_none_iff, Json.isDocument_perm h] at hm
    exact (ofJson?_eq_none_iff.2 hm).symm
  · have hdocument := (Json.isDocument_perm h).1 (ofJson?_eq_some_iff.1 hm).1
    obtain ⟨m', hm', -⟩ := exists_ofJson? hdocument
    have heq := (agreeOn_of_gives hm hm').eq fun name w => Json.gives_perm h
    rw [hm', heq]

theorem parse_eq_ok_iff {path content : Text} (h : Json.IsText v content) :
    parse path content = .ok m ↔ ofJson? v = some m := by
  rw [parse, Json.parse?_eq_some_iff.2 h, Option.bind_some]
  cases ofJson? v <;> simp

theorem parse_eq_malformed_iff {path content : Text} (h : Json.IsText v content) :
    parse path content = .error (.malformed path) ↔ ofJson? v = none := by
  rw [parse, Json.parse?_eq_some_iff.2 h, Option.bind_some]
  cases ofJson? v <;> simp

end Manifest

/-- Texts of objects with the same members in any order, and with any space, are both malformed or
are one manifest. Texts of objects that differ in the value of one member, if both are manifests,
are manifests that have the same in all fields but the one of that name. -/
theorem manifest_fields_independent (path content content' : Text) :
    (∀ members members' : List (Option Text × Json), members.Perm members' →
        Json.IsText (.object members) content → Json.IsText (.object members') content' →
          (∃ m, Manifest.parse path content = .ok m ∧ Manifest.parse path content' = .ok m)
            ∨ Manifest.parse path content = .error (.malformed path)
              ∧ Manifest.parse path content' = .error (.malformed path))
      ∧ ∀ (before after : List (Option Text × Json)) (key : Text) (v v' : Json) (m m' : Manifest),
        Json.IsText (.object (before ++ (some key, v) :: after)) content →
        Json.IsText (.object (before ++ (some key, v') :: after)) content' →
        Manifest.parse path content = .ok m → Manifest.parse path content' = .ok m' →
          Manifest.AgreeOn (· ≠ key) m m' := by
  constructor
  · intro members members' hperm htext htext'
    have hsame := Manifest.ofJson?_perm hperm
    rcases hm : Manifest.ofJson? (.object members) with _ | m
    · right
      rw [Manifest.parse_eq_malformed_iff htext, Manifest.parse_eq_malformed_iff htext', ← hsame]
      exact ⟨hm, hm⟩
    · refine .inl ⟨m, ?_⟩
      rw [Manifest.parse_eq_ok_iff htext, Manifest.parse_eq_ok_iff htext', ← hsame]
      exact ⟨hm, hm⟩
  · intro before after key v v' m m' htext htext' hm hm'
    rw [Manifest.parse_eq_ok_iff htext] at hm
    rw [Manifest.parse_eq_ok_iff htext'] at hm'
    exact (Manifest.agreeOn_of_gives hm hm').mono fun name hname w => Json.gives_replaced hname

/-- A manifest with a name and a dependency. -/
def nameFirst : Text :=
  r#"{"name":"app","dependencies":{"react":"18"}}"#.toList

/-- The same with the name behind the dependency, and some space. -/
def nameLast : Text :=
  r#"{ "dependencies" : {"react":"18"},
"name":"app" }"#.toList

/-- The first again with a list for a name. -/
def nameListed : Text :=
  r#"{"name":[],"dependencies":{"react":"18"}}"#.toList

/-- The dependency in them. -/
def onReact : Option Text × Json :=
  (some "dependencies".toList, .object [(some "react".toList, .string (some "18".toList))])

theorem nameFirst_isText : Json.IsText
    (.object [(some "name".toList, .string (some "app".toList)), onReact]) nameFirst :=
  Json.parse?_eq_some_iff.1 (by decide +kernel)

theorem nameLast_isText : Json.IsText
    (.object [onReact, (some "name".toList, .string (some "app".toList))]) nameLast :=
  Json.parse?_eq_some_iff.1 (by decide +kernel)

theorem nameListed_isText : Json.IsText
    (.object [(some "name".toList, .array []), onReact]) nameListed :=
  Json.parse?_eq_some_iff.1 (by decide +kernel)

theorem name_independent :
    let path := "/app/package.json".toList
    (∃ m, Manifest.parse path nameFirst = .ok m ∧ Manifest.parse path nameLast = .ok m)
      ∧ ∃ m m', Manifest.parse path nameFirst = .ok m ∧ Manifest.parse path nameListed = .ok m'
        ∧ m.name ≠ m'.name ∧ Manifest.AgreeOn (· ≠ "name".toList) m m' := by
  intro path
  have hfirst : Manifest.parse path nameFirst
      = .ok ⟨some "app".toList, ["react".toList], [], [], [], []⟩ :=
    (Manifest.parse_eq_ok_iff nameFirst_isText).2 rfl
  have hlisted : Manifest.parse path nameListed
      = .ok ⟨none, ["react".toList], [], [], [], []⟩ :=
    (Manifest.parse_eq_ok_iff nameListed_isText).2 rfl
  constructor
  · obtain ⟨horder, -⟩ := manifest_fields_independent path nameFirst nameLast
    refine (horder _ _ (.swap _ _ []) nameFirst_isText nameLast_isText).resolve_right ?_
    rw [hfirst]
    simp
  · obtain ⟨-, hreplace⟩ := manifest_fields_independent path nameFirst nameListed
    exact ⟨_, _, hfirst, hlisted, by decide,
      hreplace [] _ _ _ _ _ _ nameFirst_isText nameListed_isText hfirst hlisted⟩

end DidYouMean
