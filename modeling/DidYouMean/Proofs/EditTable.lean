import DidYouMean.EditDistance
import Mathlib.Data.List.Induction
import Mathlib.Data.List.Infix
import Mathlib.Tactic.SplitIfs

/-!
# The table of an edit distance

The cells of a row are the distances of the usual recursion on both texts, which here are read from
their ends: a row belongs to a text that grows behind (`row_eq`). So what is said of the recursion
holds of the edit distance (`editDistance_eq`), first of all that it is no less than the lengths of
its texts differ.
-/

namespace DidYouMean

namespace EditDistance

/-- The distance of two texts, by what becomes of their first characters. -/
def distance : Text → Text → Nat
  | [], b => b.length
  | a, [] => a.length
  | x :: a, y :: b =>
    min (min (distance a (y :: b) + 1) (distance (x :: a) b + 1))
      (distance a b + if x = y then 0 else 1)
termination_by a b => a.length + b.length

variable {a b u v : Text} {x y : Char}

@[simp] theorem distance_nil_left (b : Text) : distance [] b = b.length := by
  rw [distance]

@[simp] theorem distance_nil_right (a : Text) : distance a [] = a.length := by
  cases a <;> simp [distance]

theorem distance_cons_cons (x y : Char) (a b : Text) : distance (x :: a) (y :: b)
    = min (min (distance a (y :: b) + 1) (distance (x :: a) b + 1))
      (distance a b + if x = y then 0 else 1) := by
  rw [distance]

@[simp] theorem distance_self (a : Text) : distance a a = 0 := by
  induction a with
  | nil => rw [distance_nil_left, List.length_nil]
  | cons x a ih => simp [distance_cons_cons, ih]

theorem distance_cons_left_le : distance (x :: a) b ≤ distance a b + 1 := by
  cases b with
  | nil => simp
  | cons y b =>
    rw [distance_cons_cons]
    omega

theorem distance_cons_right_le : distance a (y :: b) ≤ distance a b + 1 := by
  cases a with
  | nil => simp
  | cons x a =>
    rw [distance_cons_cons]
    omega

theorem distance_le_cons_left : distance a b ≤ distance (x :: a) b + 1 := by
  induction b with
  | nil =>
    simp only [distance_nil_right, List.length_cons]
    omega
  | cons y b ih =>
    have hcons : distance a (y :: b) ≤ distance a b + 1 := distance_cons_right_le
    rw [distance_cons_cons]
    omega

theorem distance_replace_le : distance (x :: a) b ≤ distance (y :: a) b + 1 := by
  induction b with
  | nil => simp
  | cons z b ih =>
    rw [distance_cons_cons, distance_cons_cons]
    split_ifs <;> omega

/-- Texts that are hardly further away than others stay so with the same character in front. -/
theorem distance_cons_le (h : ∀ b, distance u b ≤ distance v b + 1) (b : Text) :
    distance (x :: u) b ≤ distance (x :: v) b + 1 := by
  induction b with
  | nil =>
    have := h []
    simp only [distance_nil_right, List.length_cons] at this ⊢
    omega
  | cons y b ih =>
    have hrest := h b
    have hall := h (y :: b)
    rw [distance_cons_cons, distance_cons_cons]
    split_ifs <;> omega

theorem distance_append_le (h : ∀ b, distance u b ≤ distance v b + 1) : ∀ (front b : Text),
    distance (front ++ u) b ≤ distance (front ++ v) b + 1
  | [], b => h b
  | _ :: front, b => distance_cons_le (distance_append_le h front) b

theorem length_le_distance_add : ∀ a b : Text,
    a.length ≤ distance a b + b.length ∧ b.length ≤ distance a b + a.length
  | [], b => by simp
  | a, [] => by simp
  | x :: a, y :: b => by
    have hdelete := length_le_distance_add a (y :: b)
    have hinsert := length_le_distance_add (x :: a) b
    have hboth := length_le_distance_add a b
    simp only [List.length_cons] at hdelete hinsert ⊢
    rw [distance_cons_cons]
    split_ifs <;> omega
termination_by a b => a.length + b.length

theorem exists_inits_eq_cons (b : Text) : ∃ rest, b.inits = [] :: rest := by
  cases b <;> simp

/-- From a row for one text the cells of the next row, behind its first, are those for the text
with one more character. The row begins anywhere in the second text, `v` being what was read. -/
theorem nextCells_eq (x : Char) (u : Text) : ∀ b v : Text,
    nextCells x (distance (x :: u) v) b (b.inits.map fun front => distance u (front.reverse ++ v))
      = b.inits.tail.map fun front => distance (x :: u) (front.reverse ++ v)
  | [], v => by simp [nextCells]
  | y :: b, v => by
    have ih := nextCells_eq x u b (y :: v)
    obtain ⟨rest, hinits⟩ := exists_inits_eq_cons b
    simp only [hinits, List.map_cons, List.tail_cons, List.reverse_nil, List.nil_append] at ih
    simp only [List.inits_cons, hinits, List.map_cons, List.map_map, List.tail_cons, nextCells,
      List.reverse_nil, List.nil_append, List.reverse_cons, Function.comp_def, List.append_assoc,
      List.singleton_append, ← distance_cons_cons, ih]

theorem nextRow_eq (x : Char) (u b : Text) :
    nextRow b (b.inits.map fun front => distance u front.reverse) x
      = b.inits.map fun front => distance (x :: u) front.reverse := by
  have hcells := nextCells_eq x u b []
  obtain ⟨rest, hinits⟩ := exists_inits_eq_cons b
  simp only [hinits, List.map_cons, List.tail_cons, List.append_nil, List.reverse_nil,
    distance_nil_right, List.length_cons, nextRow, List.headD_cons] at hcells ⊢
  rw [hcells]

theorem row_nil (b : Text) : row [] b = b.inits.map fun front => distance [] front.reverse := by
  simp only [row, List.foldl_nil, distance_nil_left, List.length_reverse]
  refine List.ext_getElem (by simp) fun i hi _ => ?_
  rw [List.length_range] at hi
  simp [Nat.le_of_lt_succ hi]

theorem row_eq (a b : Text) :
    row a b = b.inits.map fun front => distance a.reverse front.reverse := by
  induction a using List.reverseRecOn with
  | nil => exact row_nil b
  | append_singleton a x ih =>
    rw [row, List.foldl_append, List.foldl_cons, List.foldl_nil, ← row, ih, nextRow_eq,
      List.reverse_append, List.reverse_singleton, List.singleton_append]

end EditDistance

theorem editDistance_eq (a b : Text) :
    editDistance a b = EditDistance.distance a.reverse b.reverse := by
  have hlast : b.inits.getLast? = some b := by
    rcases List.eq_nil_or_concat' b with rfl | ⟨front, y, rfl⟩ <;> simp [List.inits_append]
  rw [editDistance, EditDistance.row_eq, List.getLastD_eq_getLast?, List.getLast?_map, hlast,
    Option.map_some, Option.getD_some]

theorem length_le_editDistance_add (a b : Text) :
    a.length ≤ editDistance a b + b.length ∧ b.length ≤ editDistance a b + a.length := by
  have h := EditDistance.length_le_distance_add a.reverse b.reverse
  rwa [List.length_reverse, List.length_reverse, ← editDistance_eq] at h

end DidYouMean
