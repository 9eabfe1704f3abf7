import DidYouMean.Proofs.EditTable

/-!
# Edit scripts

A script changes a text one character at a time: it inserts one, deletes one, or puts one in the
place of another. One edit, wherever it is made, takes a text at most one step nearer to another
(`distance_le_of_edited`), so no script is shorter than the distance, and the recursion that the
table follows says how to edit to make do with that many (`turns_distance`).
-/

namespace DidYouMean

/-- One change of a text at a place, which is counted in characters. -/
inductive Edit where
  | insert (place : Nat) (c : Char)
  | delete (place : Nat)
  | replace (place : Nat) (c : Char)
  deriving DecidableEq, Repr

namespace Edit

/-- The text after an edit, if the text has the place. -/
def after? (t : Text) : Edit → Option Text
  | insert place c => if place ≤ t.length then some (t.insertIdx place c) else none
  | delete place => if place < t.length then some (t.eraseIdx place) else none
  | replace place c => if place < t.length then some (t.set place c) else none

/-- The text after the edits of a script, made one after the other. -/
def run? (t : Text) (script : List Edit) : Option Text := script.foldlM after? t

/-- One text comes from another by one edit, behind what the two begin with. -/
inductive Edited : Text → Text → Prop where
  | insert (front : Text) (c : Char) (behind : Text) :
      Edited (front ++ behind) (front ++ c :: behind)
  | delete (front : Text) (c : Char) (behind : Text) :
      Edited (front ++ c :: behind) (front ++ behind)
  | replace (front : Text) (c d : Char) (behind : Text) :
      Edited (front ++ c :: behind) (front ++ d :: behind)

/-- A script of `n` edits turns one text into the other. -/
def Turns (n : Nat) (a b : Text) : Prop :=
  ∃ script : List Edit, run? a script = some b ∧ script.length = n

variable {a b t : Text} {n m : Nat}

theorem insertIdx_append (front behind : Text) (c : Char) :
    (front ++ behind).insertIdx front.length c = front ++ c :: behind := by
  induction front with
  | nil => rfl
  | cons d front ih => simpa using ih

theorem edited_iff : Edited a b ↔ ∃ e, after? a e = some b := by
  constructor
  · rintro (⟨front, c, behind⟩ | ⟨front, c, behind⟩ | ⟨front, c, d, behind⟩)
    · exact ⟨.insert front.length c, by simp [after?, insertIdx_append]⟩
    · exact ⟨.delete front.length, by simp [after?, List.eraseIdx_append_of_length_le]⟩
    · exact ⟨.replace front.length d, by simp [after?]⟩
  · rintro ⟨e, he⟩
    cases e with
    | insert place c =>
      simp only [after?, Option.ite_none_right_eq_some, Option.some.injEq] at he
      obtain ⟨hplace, rfl⟩ := he
      have hedit := Edited.insert (a.take place) c (a.drop place)
      rw [← insertIdx_append, List.take_append_drop, List.length_take_of_le hplace] at hedit
      exact hedit
    | delete place =>
      simp only [after?, Option.ite_none_right_eq_some, Option.some.injEq] at he
      obtain ⟨hplace, rfl⟩ := he
      have hedit := Edited.delete (a.take place) a[place] (a.drop (place + 1))
      rwa [List.getElem_cons_drop, List.take_append_drop, ← List.eraseIdx_eq_take_drop_succ]
        at hedit
    | replace place c =>
      simp only [after?, Option.ite_none_right_eq_some, Option.some.injEq] at he
      obtain ⟨hplace, rfl⟩ := he
      have hedit := Edited.replace (a.take place) a[place] c (a.drop (place + 1))
      rwa [List.getElem_cons_drop, List.take_append_drop,
        ← List.set_eq_take_append_cons_drop.trans (if_pos hplace)] at hedit

theorem Edited.append (h : Edited a b) (w : Text) : Edited (a ++ w) (b ++ w) := by
  cases h with
  | insert front c behind => simpa using Edited.insert front c (behind ++ w)
  | delete front c behind => simpa using Edited.delete front c (behind ++ w)
  | replace front c d behind => simpa using Edited.replace front c d (behind ++ w)

@[simp] theorem turns_zero_iff : Turns 0 a b ↔ a = b := by
  simp [Turns, run?]

theorem turns_succ_iff : Turns (n + 1) a b ↔ ∃ t, Edited a t ∧ Turns n t b := by
  constructor
  · rintro ⟨script, hrun, hlength⟩
    obtain ⟨e, rest, rfl⟩ := List.exists_cons_of_length_eq_add_one hlength
    rw [run?, List.foldlM_cons, Option.bind_eq_bind, Option.bind_eq_some_iff] at hrun
    obtain ⟨t, he, hrest⟩ := hrun
    exact ⟨t, edited_iff.2 ⟨e, he⟩, rest, hrest, Nat.succ.inj hlength⟩
  · rintro ⟨t, hedit, script, hrun, rfl⟩
    obtain ⟨e, he⟩ := edited_iff.1 hedit
    exact ⟨e :: script, by rw [run?, List.foldlM_cons, he]; exact hrun, rfl⟩

theorem Turns.append {a : Text} (h : Turns n a b) (w : Text) : Turns n (a ++ w) (b ++ w) := by
  induction n generalizing a with
  | zero => rw [turns_zero_iff.1 h, turns_zero_iff]
  | succ n ih =>
    obtain ⟨t, hedit, hrest⟩ := turns_succ_iff.1 h
    exact turns_succ_iff.2 ⟨_, hedit.append w, ih hrest⟩

/-- One more edit after a script. -/
theorem Turns.edited {a t : Text} (h : Turns n a t) (hedit : Edited t b) : Turns (n + 1) a b := by
  induction n generalizing a with
  | zero =>
    rw [turns_zero_iff.1 h]
    exact turns_succ_iff.2 ⟨b, hedit, turns_zero_iff.2 rfl⟩
  | succ n ih =>
    obtain ⟨u, hfirst, hrest⟩ := turns_succ_iff.1 h
    exact turns_succ_iff.2 ⟨u, hfirst, ih hrest⟩

end Edit

namespace EditDistance

variable {b u v : Text} {x y : Char}

/-- An edit takes a text at most one step nearer to any other. -/
theorem distance_le_of_edited {a t : Text} (h : Edit.Edited a t) (b : Text) :
    distance a.reverse b ≤ distance t.reverse b + 1 := by
  cases h with
  | insert front c behind =>
    simpa using distance_append_le (fun _ => distance_le_cons_left) behind.reverse b
  | delete front c behind =>
    simpa using distance_append_le (fun _ => distance_cons_left_le) behind.reverse b
  | replace front c d behind =>
    simpa using distance_append_le (fun _ => distance_replace_le) behind.reverse b

theorem distance_le_of_turns {n : Nat} {a : Text} (h : Edit.Turns n a b) :
    distance a.reverse b.reverse ≤ n := by
  induction n generalizing a with
  | zero => rw [Edit.turns_zero_iff.1 h, distance_self]
  | succ n ih =>
    obtain ⟨t, hedit, hrest⟩ := Edit.turns_succ_iff.1 h
    have hstep := distance_le_of_edited hedit b.reverse
    have := ih hrest
    omega

theorem turns_delete {n : Nat} (h : Edit.Turns n u.reverse b) :
    Edit.Turns (n + 1) (x :: u).reverse b := by
  have hedit : Edit.Edited (u.reverse ++ [x]) u.reverse := by
    simpa using Edit.Edited.delete u.reverse x []
  rw [List.reverse_cons]
  exact Edit.turns_succ_iff.2 ⟨_, hedit, h⟩

theorem turns_insert {n : Nat} {a : Text} (h : Edit.Turns n a v.reverse) :
    Edit.Turns (n + 1) a (y :: v).reverse := by
  have hedit : Edit.Edited v.reverse (v.reverse ++ [y]) := by
    simpa using Edit.Edited.insert v.reverse y []
  rw [List.reverse_cons]
  exact h.edited hedit

theorem turns_both {n : Nat} (h : Edit.Turns n u.reverse v.reverse) :
    Edit.Turns (n + if x = y then 0 else 1) (x :: u).reverse (y :: v).reverse := by
  have hkeep := h.append [x]
  rw [List.reverse_cons, List.reverse_cons]
  split_ifs with hxy
  · rw [hxy] at hkeep ⊢
    exact hkeep
  · exact hkeep.edited (Edit.Edited.replace v.reverse x y [])

/-- The recursion says how to edit: its texts are read from their ends, and what is left of them
when both last characters are dealt with stands in front of these. -/
theorem turns_distance : ∀ u v : Text, Edit.Turns (distance u v) u.reverse v.reverse
  | [], [] => by
    rw [distance_self]
    exact Edit.turns_zero_iff.2 rfl
  | [], y :: v => by
    have h := turns_distance [] v
    rw [distance_nil_left] at h ⊢
    exact turns_insert h
  | x :: u, [] => by
    have h := turns_distance u []
    rw [distance_nil_right] at h ⊢
    exact turns_delete h
  | x :: u, y :: v => by
    have hleast : distance (x :: u) (y :: v) = distance u (y :: v) + 1
        ∨ distance (x :: u) (y :: v) = distance (x :: u) v + 1
        ∨ distance (x :: u) (y :: v) = distance u v + if x = y then 0 else 1 := by
      rw [distance_cons_cons]
      omega
    rcases hleast with h | h | h <;> rw [h]
    · exact turns_delete (turns_distance u (y :: v))
    · exact turns_insert (turns_distance (x :: u) v)
    · exact turns_both (turns_distance u v)
termination_by u v => u.length + v.length

end EditDistance

/-- The edit distance is the least number of edits that turn one text into the other: a script of
that many does, and none with fewer. -/
theorem editDistance_least (a b : Text) :
    (∃ script, Edit.run? a script = some b ∧ script.length = editDistance a b)
      ∧ ∀ script, Edit.run? a script = some b → editDistance a b ≤ script.length := by
  rw [editDistance_eq]
  constructor
  · have h := EditDistance.turns_distance a.reverse b.reverse
    rwa [List.reverse_reverse, List.reverse_reverse] at h
  · intro script hrun
    exact EditDistance.distance_le_of_turns ⟨script, hrun, rfl⟩

/-- Two replacements and an insertion are needed here, and the last place is behind the text. -/
theorem kitten_three_edits :
    Edit.run? "kitten".toList [.replace 0 's', .replace 4 'i', .insert 6 'g']
        = some "sitting".toList
      ∧ editDistance "kitten".toList "sitting".toList = 3
      ∧ ¬ ∃ script, Edit.run? "kitten".toList script = some "sitting".toList
          ∧ script.length < 3 := by
  have hdistance : editDistance "kitten".toList "sitting".toList = 3 := by decide
  refine ⟨by decide, hdistance, ?_⟩
  rintro ⟨script, hrun, hlength⟩
  have hleast := (editDistance_least "kitten".toList "sitting".toList).2 script hrun
  omega

end DidYouMean
