import DidYouMean.Proofs.GlobSeparators
import DidYouMean.Proofs.Trimming
import Mathlib.Data.List.Perm.Basic
import Mathlib.Tactic.SplitIfs

/-!
# Reading globs

A pattern is read by one rule for each thing that can come next in it (`Reads`). What a rule takes
from the pattern and what it adds to the parts go together: no more separators are written in the
parts than were in the text, and without `**` in the text none of the parts stands for directories
(`Adds`). So a path that is matched has no more separators than the pattern, if every class that has
the separator as a member names it (`count_le_of_isMatch`).
-/

namespace DidYouMean

namespace Glob

/-- The pattern from some place on is read as the rest of these parts, where `here` and the groups
around it hold what stood before the place. -/
inductive Reads (parts : List Part) : (outer : List Group) → (here : Group) → Text → Prop where
  | done {here : Group} : here.parts.reverse = parts → Reads parts [] here []
  | escaped {outer : List Group} {here : Group} {c : Char} {t : Text} :
      Reads parts outer (here.push (literal c)) t → Reads parts outer here ('\\' :: c :: t)
  | leading {outer : List Group} {here : Group} {t rest : Text} :
      t = [] ∧ rest = [] ∨ t = '/' :: rest →
      Reads parts outer (here.push [.leading]) rest → Reads parts outer here ('*' :: '*' :: t)
  | inner {outer : List Group} {here : Group} {t : Text} :
      Reads parts outer (here.pushDirs .inner) t → Reads parts outer here ('*' :: '*' :: '/' :: t)
  | trailing {outer : List Group} {here : Group} {t : Text} :
      Reads parts outer (here.pushDirs .trailing) t → Reads parts outer here ('*' :: '*' :: t)
  | twice {outer : List Group} {here : Group} {t : Text} :
      Reads parts outer (here.push [.anyRun, .anyRun]) t → Reads parts outer here ('*' :: '*' :: t)
  | set {outer : List Group} {here : Group} {part : Part} {t rest : Text} :
      readSet? t = some (part, rest) → Reads parts outer (here.push [part]) rest →
      Reads parts outer here ('[' :: t)
  | closing {outer : List Group} {up here : Group} {t : Text} :
      Reads parts outer (up.push [.alternatives here.close]) t →
      Reads parts (up :: outer) here ('}' :: t)
  | anyByte {outer : List Group} {here : Group} {t : Text} :
      Reads parts outer (here.push [.anyByte]) t → Reads parts outer here ('?' :: t)
  | anyRun {outer : List Group} {here : Group} {t : Text} :
      Reads parts outer (here.push [.anyRun]) t → Reads parts outer here ('*' :: t)
  | opening {outer : List Group} {here : Group} {t : Text} :
      Reads parts (here :: outer) ⟨[], []⟩ t → Reads parts outer here ('{' :: t)
  | branch {outer : List Group} {here : Group} {t : Text} : outer ≠ [] →
      Reads parts outer ⟨here.parts.reverse :: here.branches, []⟩ t →
      Reads parts outer here (',' :: t)
  | plain {outer : List Group} {here : Group} {c : Char} {t : Text} :
      Reads parts outer (here.push (literal c)) t → Reads parts outer here (c :: t)

theorem reads_of_readParts? {before : Option Char} {outer : List Group} {here : Group} {t : Text}
    {parts : List Part} (h : readParts? before outer here t = some parts) :
    Reads parts outer here t := by
  -- The cases in which the reader refuses the text have no parts.
  fun_induction readParts? before outer here t <;> try contradiction
  next houter =>
    rw [List.isEmpty_iff.1 houter]
    exact .done (Option.some.inj h)
  next ih => exact .escaped (ih h)
  next ih => exact .leading (.inl ⟨rfl, rfl⟩) (ih h)
  next ih => exact .leading (.inr rfl) (ih h)
  next ih => exact .twice (ih h)
  next ih => exact .twice (ih h)
  next ih => exact .trailing (ih h)
  next ih => exact .inner (ih h)
  next ih => exact .trailing (ih h)
  next ih => exact .twice (ih h)
  next hset _ ih => exact .set hset (ih h)
  next ih => exact .closing (ih h)
  next ih => exact .anyByte (ih h)
  next ih => exact .anyRun (ih h)
  next ih => exact .opening (ih h)
  next hcomma ih =>
    rw [List.unattach_reverse, List.unattach_attach] at ih
    obtain ⟨rfl, houter⟩ := hcomma
    exact .branch (by simpa using houter) (ih h)
  next ih => exact .plain (ih h)

/-! ## Classes -/

/-- Whether a range begins or ends with a value. -/
def HasEnd {α : Type} (a : α) (range : α × α) : Prop := range.1 = a ∨ range.2 = a

theorem separator_mem_bytes {c : Char} : separator ∈ Text.bytes [c] ↔ c = '/' := by
  rw [← List.count_pos_iff, Text.count_bytes, List.count_pos_iff, List.mem_singleton]
  exact eq_comm

/-- A range of bytes that ends at the separator comes of a range of characters that does. -/
theorem hasEnd_of_mem_byteRanges {range : Char × Char} {bytes : UInt8 × UInt8}
    (h : bytes ∈ byteRanges range) (hsep : HasEnd separator bytes) : HasEnd '/' range := by
  obtain ⟨low, high⟩ := range
  have hlow : separator ∈ Text.bytes [low] → HasEnd '/' (low, high) := fun h =>
    .inl (separator_mem_bytes.1 h)
  have hhigh : separator ∈ Text.bytes [high] → HasEnd '/' (low, high) := fun h =>
    .inr (separator_mem_bytes.1 h)
  have hpair : ∀ {bs : List UInt8}, bytes ∈ bs.map (fun b => (b, b)) → separator ∈ bs := by
    intro bs hmem
    obtain ⟨b, hb, rfl⟩ := List.mem_map.1 hmem
    rcases hsep with rfl | rfl <;> exact hb
  have hzero : (0 : UInt8) ≠ separator := by decide
  rw [byteRanges] at h
  split_ifs at h with heq
  · exact hlow (hpair h)
  · simp only [List.mem_append, List.mem_singleton] at h
    rcases h with (h | rfl) | h
    · exact hlow (List.mem_of_mem_dropLast (hpair h))
    · rcases hsep with hsep | hsep
      · refine hlow ?_
        rcases hbytes : (Text.bytes [low]).getLast? with _ | b
        · rw [List.getLastD_eq_getLast?, hbytes] at hsep
          exact absurd hsep hzero
        · rw [List.getLastD_eq_getLast?, hbytes] at hsep
          exact hsep ▸ List.mem_of_getLast? hbytes
      · refine hhigh ?_
        rcases hbytes : Text.bytes [high] with _ | ⟨b, bs⟩
        · rw [hbytes] at hsep
          exact absurd hsep hzero
        · rw [hbytes] at hsep
          exact hsep ▸ List.mem_cons_self
    · exact hhigh (List.mem_of_mem_drop (hpair h))

/-- The ranges with a separator at an end were there before, or the separator stands in the text. -/
def EndsWritten (ranges : List (Char × Char)) (inside : Text) (found : List (Char × Char)) : Prop :=
  ∀ range ∈ found, HasEnd '/' range → (∃ r ∈ ranges, HasEnd '/' r) ∨ '/' ∈ inside

section

variable {ranges ranges' found : List (Char × Char)} {first dash : Bool} {c : Char}
  {t inside rest : Text}

/-- One character of a class in front of the others. -/
theorem EndsWritten.cons (hrest : EndsWritten ranges' inside found)
    (hhere : EndsWritten ranges [c] ranges') : EndsWritten ranges (c :: inside) found := by
  intro range hrange hslash
  rcases hrest range hrange hslash with ⟨r, hr, hend⟩ | hmem
  · exact (hhere r hr hend).imp_right fun hc => List.mem_cons.2 (.inl (List.mem_singleton.1 hc))
  · exact .inr (List.mem_cons_of_mem c hmem)

/-- A range whose ends are the character, or those of ranges before it. -/
theorem endsWritten_cons {range : Char × Char}
    (hrange : HasEnd '/' range → (∃ r ∈ ranges, HasEnd '/' r) ∨ c = '/')
    (hsub : ∀ r ∈ ranges', r ∈ ranges) : EndsWritten ranges [c] (range :: ranges') := by
  intro r hr hslash
  rcases List.mem_cons.1 hr with rfl | hr
  · exact (hrange hslash).imp_right fun hc => List.mem_singleton.2 hc.symm
  · exact .inl ⟨r, hsub r hr, hslash⟩

theorem readClass?_eq_some (h : readClass? ranges first dash t = some (found, rest)) :
    ∃ inside, t = inside ++ rest ∧ EndsWritten ranges inside found := by
  induction t generalizing ranges first dash with
  | nil => cases h
  | cons c t ih =>
    have hnext : ∀ {ranges' : List (Char × Char)} {first' dash' : Bool},
        EndsWritten ranges [c] ranges' → readClass? ranges' first' dash' t = some (found, rest) →
        ∃ inside, c :: t = inside ++ rest ∧ EndsWritten ranges inside found := by
      intro ranges' first' dash' hhere hread
      obtain ⟨inside, rfl, hrest⟩ := ih hread
      exact ⟨c :: inside, rfl, hrest.cons hhere⟩
    have hsame : EndsWritten ranges [c] ranges := fun r hr hslash => .inl ⟨r, hr, hslash⟩
    unfold readClass? at h
    split_ifs at h with hclosing hwaiting hdash hrange
    · obtain ⟨rfl, rfl⟩ := Prod.mk.inj (Option.some.inj h)
      refine ⟨[c], rfl, endsWritten_cons (fun hslash => ?_) fun r => id⟩
      rcases hslash with hslash | hslash <;> cases hslash
    · obtain ⟨rfl, rfl⟩ := Prod.mk.inj (Option.some.inj h)
      exact ⟨[c], rfl, hsame⟩
    · exact hnext hsame h
    · rcases ranges with _ | ⟨⟨low, high⟩, before⟩
      · cases h
      · simp only [Option.ite_none_left_eq_some] at h
        refine hnext (endsWritten_cons (fun hslash => ?_) fun r => List.mem_cons_of_mem _) h.2
        exact hslash.imp (fun hlow => ⟨_, List.mem_cons_self, .inl hlow⟩) id
    · exact hnext (endsWritten_cons (fun hslash => .inr (hslash.elim id id)) fun r => id) h

end

theorem readSet?_eq_some {t rest : Text} {part : Part} (h : readSet? t = some (part, rest)) :
    ∃ inside, t = inside ++ rest ∧ leaves part = [part] ∧ isDirs part = false
      ∧ (isWritten part = true → '/' ∈ inside) := by
  simp only [readSet?, Option.map_eq_some_iff, Prod.mk.injEq] at h
  obtain ⟨⟨ranges, after⟩, hread, rfl, rfl⟩ := h
  obtain ⟨inside, hinside, hranges⟩ := readClass?_eq_some hread
  have hwritten : ∀ negated, isWritten (.oneOf negated (ranges.flatMap byteRanges)) = true →
      '/' ∈ inside := by
    intro negated h
    obtain ⟨bytes, hbytes, hsep⟩ := List.any_eq_true.1 (Bool.and_eq_true_iff.1 h).2
    obtain ⟨range, hrange, hbytes⟩ := List.mem_flatMap.1 hbytes
    have hend : HasEnd separator bytes := by simpa [HasEnd] using hsep
    have hslash := hranges range hrange (hasEnd_of_mem_byteRanges hbytes hend)
    exact hslash.resolve_left (by simp)
  split_ifs at hinside with hnegated
  · refine ⟨t.take 1 ++ inside, ?_, rfl, rfl, fun h => List.mem_append_right _ (hwritten _ h)⟩
    rw [List.append_assoc, ← hinside, List.take_append_drop]
  · exact ⟨inside, hinside, rfl, rfl, hwritten _⟩

/-! ## Groups -/

theorem leavesOfParts_eq : ∀ ps : List Part, leavesOfParts ps = ps.flatMap leaves
  | [] => rfl
  | p :: ps => by rw [leavesOfParts, leavesOfParts_eq ps, List.flatMap_cons]

theorem leavesOfBranches_eq : ∀ branches : List (List Part),
    leavesOfBranches branches = branches.flatMap leavesOfParts
  | [] => rfl
  | ps :: rest => by rw [leavesOfBranches, leavesOfBranches_eq rest, List.flatMap_cons]

@[simp] theorem leavesOfParts_singleton (p : Part) : leavesOfParts [p] = leaves p := by
  rw [leavesOfParts_eq, List.flatMap_singleton]

namespace Group

/-- The parts that a group holds so far, groups taken apart. -/
def leaves (g : Group) : List Part := leavesOfBranches g.branches ++ leavesOfParts g.parts

theorem leavesOfParts_reverse_perm (ps : List Part) :
    (leavesOfParts ps.reverse).Perm (leavesOfParts ps) := by
  rw [leavesOfParts_eq, leavesOfParts_eq]
  exact (List.reverse_perm ps).flatMap_right _

theorem leaves_push_perm (g : Group) (ps : List Part) :
    (g.push ps).leaves.Perm (leavesOfParts ps ++ g.leaves) := by
  have hparts : (leavesOfParts (ps.reverse ++ g.parts)).Perm
      (leavesOfParts ps ++ leavesOfParts g.parts) := by
    rw [leavesOfParts_eq (_ ++ _), List.flatMap_append, ← leavesOfParts_eq, ← leavesOfParts_eq]
    exact (leavesOfParts_reverse_perm ps).append_right _
  have hswap := List.perm_append_comm_assoc (leavesOfBranches g.branches) (leavesOfParts ps)
    (leavesOfParts g.parts)
  exact (hparts.append_left _).trans hswap

theorem leavesOfBranches_close_perm (g : Group) : (leavesOfBranches g.close).Perm g.leaves := by
  have hbranches : (leavesOfBranches g.close).Perm
      (leavesOfParts g.parts.reverse ++ leavesOfBranches g.branches) := by
    rw [close, leavesOfBranches_eq, leavesOfBranches_eq]
    exact (List.reverse_perm _).flatMap_right _
  exact hbranches.trans (((leavesOfParts_reverse_perm _).append_right _).trans
    List.perm_append_comm)

/-- The group with its present branch put to those before it. -/
theorem leaves_branch_perm (g : Group) :
    (Group.mk (g.parts.reverse :: g.branches) []).leaves.Perm g.leaves := by
  rw [leaves, leavesOfBranches, leavesOfParts, List.append_nil]
  exact ((leavesOfParts_reverse_perm g.parts).append_right _).trans List.perm_append_comm

/-- A closed group in the one around it. -/
theorem leaves_push_close_perm (up here : Group) :
    (up.push [.alternatives here.close]).leaves.Perm (here.leaves ++ up.leaves) := by
  have hpushed := up.leaves_push_perm [.alternatives here.close]
  rw [leavesOfParts_singleton] at hpushed
  exact hpushed.trans (here.leavesOfBranches_close_perm.append_right up.leaves)

end Group

/-! ## What is added -/

/-- Of the parts that a pattern is read as, those that were not held before are no `**`, and no more
separators are written in them than in the text. -/
def Adds (held : List Part) (t : Text) (parts : List Part) : Prop :=
  ∃ read, (leavesOfParts parts).Subperm (read ++ held) ∧ (∀ p ∈ read, isDirs p = false)
    ∧ written read ≤ t.count '/'

section

variable {held held' parts new : List Part} {outer : List Group} {up here : Group} {part : Part}
  {c : Char} {t rest : Text}

/-- Reading goes on behind some text that gave some parts. -/
theorem Adds.of_read (h : Adds held' t parts) (new : List Part) (consumed : Text)
    (hperm : held'.Perm (new ++ held)) (hflat : ∀ p ∈ new, isDirs p = false)
    (hwritten : written new ≤ consumed.count '/') : Adds held (consumed ++ t) parts := by
  obtain ⟨read, hsub, hread, hcount⟩ := h
  refine ⟨read ++ new, ?_, fun p hp => ?_, ?_⟩
  · rw [List.append_assoc]
    exact hsub.trans (hperm.append_left read).subperm
  · exact (List.mem_append.1 hp).elim (hread p) (hflat p)
  · rw [written, List.countP_append, List.count_append, Nat.add_comm]
    exact Nat.add_le_add hwritten hcount

/-- Text that only changes how the parts are grouped. -/
theorem Adds.of_perm (h : Adds held' t parts) (consumed : Text) (hperm : held'.Perm held) :
    Adds held (consumed ++ t) parts :=
  h.of_read [] consumed hperm (by simp) (Nat.zero_le _)

theorem adds_done (hparts : here.parts.reverse = parts) :
    Adds ([here].flatMap Group.leaves) [] parts := by
  refine ⟨[], ?_, by simp, Nat.zero_le _⟩
  rw [← hparts, List.nil_append, List.flatMap_singleton, Group.leaves]
  exact (Group.leavesOfParts_reverse_perm here.parts).subperm.trans
    (List.sublist_append_right _ _).subperm

/-- Parts of the present group, which leaves the others alone. -/
theorem Adds.push (h : Adds ((here.push new :: outer).flatMap Group.leaves) t parts)
    (consumed : Text) (hflat : ∀ p ∈ leavesOfParts new, isDirs p = false)
    (hwritten : written (leavesOfParts new) ≤ consumed.count '/') :
    Adds ((here :: outer).flatMap Group.leaves) (consumed ++ t) parts := by
  refine h.of_read _ consumed ?_ hflat hwritten
  rw [List.flatMap_cons, List.flatMap_cons, ← List.append_assoc]
  exact (here.leaves_push_perm new).append_right _

@[simp] theorem leavesOfParts_literal (c : Char) : leavesOfParts (literal c) = literal c := by
  rw [leavesOfParts_eq, literal]
  induction Text.bytes [c] with
  | nil => rfl
  | cons b bs ih => rw [List.map_cons, List.flatMap_cons, ih]; rfl

@[simp] theorem written_literal (c : Char) : written (literal c) = [c].count '/' := by
  rw [← Text.count_bytes, written, literal, List.countP_map]
  rfl

theorem isDirs_of_mem_literal {p : Part} (h : p ∈ literal c) : isDirs p = false := by
  obtain ⟨b, -, rfl⟩ := List.mem_map.1 h
  rfl

/-- A character that stands for itself, with or without a backslash before it. -/
theorem Adds.literal (h : Adds ((here.push (literal c) :: outer).flatMap Group.leaves) t parts)
    (before : Text) : Adds ((here :: outer).flatMap Group.leaves) (before ++ c :: t) parts := by
  have hread := h.push (before ++ [c]) (fun p hp => isDirs_of_mem_literal
    (leavesOfParts_literal c ▸ hp)) ?_
  · rwa [List.append_assoc, List.singleton_append] at hread
  · rw [leavesOfParts_literal, written_literal, List.count_append]
    exact Nat.le_add_left _ _

/-- A part of which nothing is written in the pattern but its sign. -/
theorem Adds.wildcard (h : Adds ((here.push [part] :: outer).flatMap Group.leaves) t parts)
    (c : Char) (hleaves : leaves part = [part]) (hflat : isDirs part = false)
    (hunwritten : isWritten part = false) :
    Adds ((here :: outer).flatMap Group.leaves) (c :: t) parts := by
  refine h.push [c] ?_ ?_ <;> rw [leavesOfParts_singleton, hleaves]
  · exact fun p hp => List.mem_singleton.1 hp ▸ hflat
  · rw [written, List.countP_singleton, hunwritten]
    exact Nat.zero_le _

theorem Adds.set (h : Adds ((here.push [part] :: outer).flatMap Group.leaves) rest parts)
    (hset : readSet? t = some (part, rest)) :
    Adds ((here :: outer).flatMap Group.leaves) ('[' :: t) parts := by
  obtain ⟨inside, rfl, hleaves, hflat, hslash⟩ := readSet?_eq_some hset
  refine h.push ('[' :: inside) ?_ ?_ <;> rw [leavesOfParts_singleton, hleaves]
  · exact fun p hp => List.mem_singleton.1 hp ▸ hflat
  · rw [written, List.countP_singleton]
    split_ifs with hwritten
    · exact List.count_pos_iff.2 (List.mem_cons_of_mem _ (hslash hwritten))
    · exact Nat.zero_le _

theorem Adds.closing
    (h : Adds ((up.push [.alternatives here.close] :: outer).flatMap Group.leaves) t parts) :
    Adds ((here :: up :: outer).flatMap Group.leaves) ('}' :: t) parts := by
  refine h.of_perm ['}'] ?_
  rw [List.flatMap_cons, List.flatMap_cons, List.flatMap_cons, ← List.append_assoc]
  exact (up.leaves_push_close_perm here).append_right _

theorem Adds.branch
    (h : Adds ((⟨here.parts.reverse :: here.branches, []⟩ :: outer).flatMap Group.leaves) t parts) :
    Adds ((here :: outer).flatMap Group.leaves) (',' :: t) parts :=
  h.of_perm [','] (here.leaves_branch_perm.append_right _)

/-- A pattern without `**`. -/
theorem Reads.adds (h : Reads parts outer here t) (hstars : ¬ ['*', '*'].IsInfix t) :
    Adds ((here :: outer).flatMap Group.leaves) t parts := by
  have htail : ∀ {c : Char} {t : Text}, ¬ ['*', '*'].IsInfix (c :: t) →
      ¬ ['*', '*'].IsInfix t := fun hstars hmem => hstars (List.infix_cons hmem)
  induction h with
  | done hparts => exact adds_done hparts
  | escaped _ ih => exact (ih (htail (htail hstars))).literal ['\\']
  | leading | inner | trailing | twice => exact absurd ⟨[], _, rfl⟩ hstars
  | @set outer here part t rest hset _ ih =>
    have hrest : ¬ ['*', '*'].IsInfix rest := by
      obtain ⟨inside, rfl, -⟩ := readSet?_eq_some hset
      exact fun hmem => htail hstars (hmem.trans (List.suffix_append _ _).isInfix)
    exact (ih hrest).set hset
  | closing _ ih => exact (ih (htail hstars)).closing
  | anyByte _ ih => exact (ih (htail hstars)).wildcard '?' rfl rfl rfl
  | anyRun _ ih => exact (ih (htail hstars)).wildcard '*' rfl rfl rfl
  | opening _ ih => exact (ih (htail hstars)).of_perm ['{'] (.refl _)
  | branch _ _ ih => exact (ih (htail hstars)).branch
  | plain _ ih => exact (ih (htail hstars)).literal []

end

/-- A path that is matched has no more separators than the pattern, if the pattern has no `**` and
every class that has the separator as a member names it. -/
theorem count_le_of_isMatch {pattern path : Text} {g : Glob} (hparse : parse? true pattern = some g)
    (hstars : Text.contains ['*', '*'] pattern = false)
    (hclasses : ∀ p ∈ leavesOfParts g.parts, isHidden p = false)
    (hmatch : g.isMatch path = true) : path.count '/' ≤ pattern.count '/' := by
  obtain ⟨parts, hread, rfl⟩ := Option.map_eq_some_iff.1 hparse
  rw [← Bool.not_eq_true, Text.contains_iff] at hstars
  obtain ⟨read, hsub, hflat, hwritten⟩ := (reads_of_readParts? hread).adds hstars
  have hnone : [Group.mk [] []].flatMap Group.leaves = [] := rfl
  rw [hnone, List.append_nil] at hsub
  have hleaves : ∀ p ∈ leavesOfParts parts, isDirs p = false ∧ isHidden p = false := fun p hp =>
    ⟨hflat p (hsub.subset hp), hclasses p hp⟩
  calc path.count '/' ≤ written (leavesOfParts parts) := count_le_written rfl hleaves hmatch
    _ ≤ written read := hsub.countP_le _
    _ ≤ pattern.count '/' := hwritten

end Glob

end DidYouMean
