import DidYouMean.Proofs.FilledTrees
import DidYouMean.Proofs.WorkspaceMembers

/-!
# What a directory lists

A tree in memory lists the file names of the paths that stand in a directory, in the order of the
whole paths. So a name is read off a path as it was spelled, and may be none if the path ends with
a separator, or lead elsewhere when it is joined to the directory again. A listing is free of that
exactly if each path that stands in the directory is found by its name
(`usable_listing_iff`), as it is when everything was added in normal form
(`usable_listing_of_collapsed`). Such a tree is one that workspace members are discovered in
(`listsNames_of_collapsed`).
-/

namespace DidYouMean

namespace Text

theorem lt_of_append_lt {lead a b : Text} (h : lead ++ a < lead ++ b) : a < b := by
  by_contra hnot
  rw [List.not_lt] at hnot
  exact List.not_lt.2 (List.append_left_le hnot) h

end Text

namespace Path

variable {p d name : Text}

/-- Paths that begin alike before their file names are in order if the file names are. -/
theorem pairwise_fileName {lead : Text} {ps : List Text} (h : ps.Pairwise (· < ·))
    (hlead : ∀ p ∈ ps, p = lead ++ fileName p) : (ps.map fileName).Pairwise (· < ·) := by
  rw [List.pairwise_map]
  refine h.imp_of_mem fun {p q} hp hq hlt => ?_
  rw [hlead p hp, hlead q hq] at hlt
  exact Text.lt_of_append_lt hlt

/-- A path spelled with a separator behind it. -/
def Trailing (d : Text) : Prop := ∃ above, above ≠ [] ∧ d = above ++ ['/']

theorem normalize_append (p q : Text) : normalize (p ++ q) = normalize p ++ normalize q := by
  simp [normalize]

theorem normalize_join_name (hne : name ≠ []) (hback : '\\' ∉ name) :
    normalize (join d name) = normalize (lead d) ++ name := by
  rw [join_eq_lead hne, normalize_append, normalize_eq_self hback]

/-- What has a name and stands in a path with a separator behind it has one more separator. -/
theorem eq_of_dirname_trailing (hname : fileName p ≠ []) (hd : Trailing d)
    (hdir : dirname p = d) : p = d ++ ['/'] ++ fileName p := by
  obtain ⟨c, above, hd⟩ : ∃ c above, d = c :: (above ++ ['/']) := by
    obtain ⟨above, hne, rfl⟩ := hd
    obtain ⟨c, above, rfl⟩ := List.exists_cons_of_ne_nil hne
    exact ⟨c, above, rfl⟩
  rcases exists_above p with hlone | ⟨above', name, rfl, hslash⟩
  · rw [dirname_of_not_mem hlone, hd] at hdir
    simp at hdir
  · rw [fileName_append_slash hslash] at hname ⊢
    rw [dirname_append_slash hname hslash] at hdir
    split_ifs at hdir with habove
    · simp [hd] at hdir
    · simp [hdir]

theorem exists_lead (hd : d ≠ []) : ∃ above, lead d = above ++ ['/'] := by
  unfold lead
  split_ifs with hlast
  · exact List.getLast?_eq_some_iff.1 (hlast.resolve_left hd)
  · exact ⟨d, rfl⟩

theorem fileName_join_name (hd : d ≠ []) (hne : name ≠ []) (hslash : '/' ∉ name)
    (hback : '\\' ∉ name) : fileName (normalize (join d name)) = name := by
  obtain ⟨above, habove⟩ := exists_lead hd
  rw [normalize_join_name hne hback, habove, normalize_append, List.append_assoc]
  exact fileName_append_slash hslash

theorem normalize_join_name_ne (hne : name ≠ []) (hback : '\\' ∉ name) :
    normalize (join d name) ≠ normalize d := by
  intro heq
  have hlength := congrArg List.length heq
  have hpos := List.length_pos_iff.2 hne
  have hle : d.length ≤ (lead d).length := by
    unfold lead
    split_ifs <;> simp
  rw [normalize_join_name hne hback, List.length_append, normalize, normalize, List.length_map,
    List.length_map] at hlength
  omega

/-- A name joined to a path without a separator behind it stands in that path. -/
theorem dirname_join_name (hd : d ≠ []) (htrailing : ¬ Trailing d) (hne : name ≠ [])
    (hslash : '/' ∉ name) (hback : '\\' ∉ name) :
    dirname (normalize (join d name)) = normalize d := by
  rw [normalize_join_name hne hback]
  by_cases htop : d = ['/']
  · rw [htop]
    exact @dirname_append_slash [] name hne hslash
  · have hlast : d.getLast? ≠ some '/' := by
      intro hlast
      obtain ⟨above, rfl⟩ := List.getLast?_eq_some_iff.1 hlast
      exact htrailing ⟨above, fun habove => htop (by simp [habove]), rfl⟩
    have hlead : lead d = d ++ ['/'] := by simp [lead, hd, hlast]
    rw [hlead, normalize_append, List.append_assoc]
    have hnormal : normalize d ≠ [] := by simpa [normalize] using hd
    exact (dirname_append_slash hne hslash).trans (if_neg hnormal)

end Path

namespace MemoryTree

variable {t : MemoryTree} {d e : Text}

/-- The listing of a directory is in order, and each name in it leads to a directory. -/
structure Usable (t : MemoryTree) (d : Text) : Prop where
  increasing : (t.listDirectories d).Pairwise (· < ·)
  nonempty : ∀ name ∈ t.listDirectories d, name ≠ []
  leads : ∀ name ∈ t.listDirectories d, t.toFileTree.directoryExists (Path.join d name) = true

theorem Usable.nodup (h : t.Usable d) : (t.listDirectories d).Nodup := by
  refine List.Pairwise.imp ?_ h.increasing
  rintro name _ hlt rfl
  exact List.lt_irrefl name hlt

theorem listDirectories_normalize (d : Text) :
    t.listDirectories (Path.normalize d) = t.listDirectories d := by
  simp [listDirectories]

/-- A known path other than the directory, which it stands in. -/
structure StandsIn (t : MemoryTree) (d e : Text) : Prop where
  known : e ∈ t.directories
  ne : e ≠ Path.normalize d
  dirname_eq : Path.dirname e = Path.normalize d

/-- The path has a name, and the name leads from the directory to it. From a directory spelled with
a separator behind it the name may lead to another one. -/
structure FoundByName (t : MemoryTree) (d e : Text) : Prop where
  named : Path.fileName e ≠ []
  found : Path.normalize (Path.join d (Path.fileName e)) = e
    ∨ Path.Trailing d ∧ t.toFileTree.directoryExists (Path.join d (Path.fileName e)) = true

theorem Closed.exists_listed (h : t.Closed) (d : Text) : ∃ es : List Text,
    es.Pairwise (· < ·) ∧ (∀ e, e ∈ es ↔ t.StandsIn d e)
      ∧ t.listDirectories d = es.map Path.fileName := by
  refine ⟨_, Text.pairwise_lt_sort (h.nodup.filter _), fun e => ?_, rfl⟩
  rw [(Text.sort_perm _).mem_iff, List.mem_filter, Bool.and_eq_true, bne_iff_ne, beq_iff_eq]
  exact ⟨fun ⟨hknown, hne, hdir⟩ => ⟨hknown, hne, hdir⟩, fun he => ⟨he.known, he.ne, he.dirname_eq⟩⟩

theorem StandsIn.ne_nil (h : t.StandsIn d e) : d ≠ [] := by
  rintro rfl
  exact Path.dirname_ne_nil e h.dirname_eq

theorem Closed.usable_of_foundByName (h : t.Closed)
    (hfound : ∀ e, t.StandsIn d e → t.FoundByName d e) : t.Usable d := by
  obtain ⟨es, hsorted, hes, hlisted⟩ := h.exists_listed d
  have hlead : ∃ lead : Text, ∀ e ∈ es, e = lead ++ Path.fileName e := by
    by_cases htrailing : Path.Trailing d
    · have hnormal : Path.Trailing (Path.normalize d) := by
        obtain ⟨above, hne, rfl⟩ := htrailing
        exact ⟨Path.normalize above, by simpa [Path.normalize] using hne,
          Path.normalize_append above ['/']⟩
      refine ⟨Path.normalize d ++ ['/'], fun e he => ?_⟩
      have he := (hes e).1 he
      exact Path.eq_of_dirname_trailing (hfound e he).named hnormal he.dirname_eq
    · refine ⟨Path.normalize (Path.lead d), fun e he => ?_⟩
      have he := (hes e).1 he
      rcases (hfound e he).found with hback | ⟨hd, -⟩
      · rw [← Path.normalize_join_name (hfound e he).named (h.no_backslash he.known), hback]
      · exact absurd hd htrailing
  obtain ⟨lead, hlead⟩ := hlead
  refine ⟨?_, ?_, ?_⟩ <;> rw [hlisted]
  · exact Path.pairwise_fileName hsorted hlead
  · intro name hname
    obtain ⟨e, he, rfl⟩ := List.mem_map.1 hname
    exact (hfound e ((hes e).1 he)).named
  · intro name hname
    obtain ⟨e, he, rfl⟩ := List.mem_map.1 hname
    have he := (hes e).1 he
    rcases (hfound e he).found with hback | ⟨-, hthere⟩
    · rw [directoryExists_iff, hback]
      exact he.known
    · exact hthere

theorem Closed.foundByName_of_usable (h : t.Closed) (husable : t.Usable d) (he : t.StandsIn d e) :
    t.FoundByName d e := by
  obtain ⟨es, -, hes, hlisted⟩ := h.exists_listed d
  have hmem : Path.fileName e ∈ t.listDirectories d := by
    rw [hlisted]
    exact List.mem_map_of_mem ((hes e).2 he)
  have hname := husable.nonempty _ hmem
  have hthere := husable.leads _ hmem
  refine ⟨hname, ?_⟩
  by_cases htrailing : Path.Trailing d
  · exact .inr ⟨htrailing, hthere⟩
  · -- What the name leads to stands in the directory as well, and there no name comes twice.
    have hslash := Path.not_mem_fileName e
    have hback := h.no_backslash he.known
    have hjoined : t.StandsIn d (Path.normalize (Path.join d (Path.fileName e))) :=
      ⟨directoryExists_iff.1 hthere, Path.normalize_join_name_ne hname hback,
        Path.dirname_join_name he.ne_nil htrailing hname hslash hback⟩
    have hnodup := husable.nodup
    rw [hlisted] at hnodup
    refine .inl (List.inj_on_of_nodup_map hnodup ((hes _).2 hjoined) ((hes e).2 he) ?_)
    exact Path.fileName_join_name he.ne_nil hname hslash hback

end MemoryTree

open MemoryTree

/-- A listing is usable exactly if all that stands in the directory is found by its name. -/
theorem usable_listing_iff (additions : List Addition) (d : Text) :
    (ofAdditions additions).Usable d ↔
      ∀ e, (ofAdditions additions).StandsIn d e → (ofAdditions additions).FoundByName d e := by
  have hclosed := (built_ofAdditions additions).closed
  constructor
  · intro husable e he
    exact hclosed.foundByName_of_usable husable he
  · exact hclosed.usable_of_foundByName

/-- A directory that was added twice, once with a separator behind it. -/
def twiceSpelled : List Addition :=
  [.directory "/repo/web".toList, .directory "/repo/web/".toList]

theorem listing_not_always_usable :
    ¬ ∀ (additions : List Addition) (d : Text), (ofAdditions additions).Usable d := by
  intro hall
  have he : (ofAdditions twiceSpelled).StandsIn "/repo".toList "/repo/web/".toList := by
    refine ⟨?_, by decide, by decide⟩
    exact mem_directories_ofAdditions.2
      ⟨.directory "/repo/web/".toList, by decide, Path.self_mem_ancestors _⟩
  have hfound := (built_ofAdditions twiceSpelled).closed.foundByName_of_usable (hall _ _) he
  exact hfound.named (by decide)

/-- A tree of absolute paths in normal form has usable listings. -/
theorem usable_listing_of_collapsed {additions : List Addition} {d : Text}
    (h : ∀ a ∈ additions, Path.Collapsed a.start) (hd : '\\' ∉ d) :
    (ofAdditions additions).Usable d := by
  have hclosed := (built_ofAdditions additions).closed
  refine hclosed.usable_of_foundByName fun e he => ?_
  obtain ⟨a, ha, habove⟩ := mem_directories_ofAdditions.1 he.known
  have hcollapsed : Path.Collapsed e :=
    Path.ancestors_induction (motive := Path.Collapsed) habove (h a ha)
      fun _ => Path.Collapsed.dirname
  have hdir : Path.dirname e = d := he.dirname_eq.trans (Path.normalize_eq_self hd)
  have hne : d ≠ e := fun heq => he.ne ((Path.normalize_eq_self hd).trans heq).symm
  have hjoin : Path.join d (Path.fileName e) = e := by
    rw [← hdir]
    exact hcollapsed.join_dirname_fileName (hdir ▸ hne)
  refine ⟨fun hname => hne ?_, .inl ?_⟩
  · rwa [hname, Path.join, if_pos rfl] at hjoin
  · rw [hjoin, hclosed.normalized e he.known]

/-- What the search for workspace members asks of a tree, such a tree has. -/
theorem listsNames_of_collapsed {additions : List Addition}
    (h : ∀ a ∈ additions, Path.Collapsed a.start) :
    (ofAdditions additions).toFileTree.ListsNames := by
  have husable : ∀ d, (ofAdditions additions).Usable (Path.normalize d) := fun d =>
    usable_listing_of_collapsed h (Path.not_mem_normalize d)
  have hlisted : ∀ d, (ofAdditions additions).toFileTree.listDirectories d
      = (ofAdditions additions).listDirectories (Path.normalize d) := fun d =>
    (listDirectories_normalize d).symm
  refine ⟨fun d => ?_, fun d name hname => ?_⟩
  · rw [hlisted]
    exact (husable d).nodup
  · rw [hlisted] at hname
    exact ⟨(husable d).nonempty name hname,
      ((built_ofAdditions additions).closed.name_of_mem_listDirectories hname).1⟩

end DidYouMean
