import DidYouMean.Glob.Match
import DidYouMean.Proofs.Segments
import DidYouMean.Proofs.Trimming
import Mathlib.Data.List.Basic
import Mathlib.Data.List.Count
import Mathlib.Data.List.Perm.Basic
import Mathlib.Data.List.Infix

/-!
# Separators in globs

How many separators can a glob take up? Wildcards that stop at separators take up none, and a part
that is the separator takes up one. That leaves `**`, which takes up any number, and classes, which
may have the separator as a member without naming it. Apart from these two, what a glob takes up is
written in its parts (`count_le_written`): each part that is matched carries a bound on the
separators before the marked places, and adds to it what is written in the part.
-/

namespace DidYouMean

namespace Text

/-- A separator is one byte, and no other character has that byte among its own. -/
theorem count_utf8EncodeChar (c : Char) :
    (String.utf8EncodeChar c).count Glob.separator = if c = '/' then 1 else 0 := by
  have hlow : (47 : UInt8).toNat = 47 := rfl
  have hslash : c = '/' ↔ c.val.toNat = 47 := by
    rw [← Char.toNat_inj]
    rfl
  simp only [hslash]
  by_cases hone : c.val.toNat ≤ 127
  · have hbyte : String.utf8EncodeChar c = [UInt8.ofNat c.val.toNat] := by
      unfold String.utf8EncodeChar
      simp only [hone, if_true]
    have hlt : c.val.toNat < UInt8.size := Nat.lt_of_le_of_lt hone (by decide)
    have hsep : UInt8.ofNat c.val.toNat = Glob.separator ↔ c.val.toNat = 47 := by
      rw [← UInt8.toNat_inj, UInt8.toNat_ofNat_of_lt' hlt, Glob.separator, hlow]
    rw [hbyte, List.count_singleton]
    simp only [beq_iff_eq, hsep]
  · have hhigh : ∀ b ∈ String.utf8EncodeChar c, 128 ≤ b.toNat := by
      intro b hb
      unfold String.utf8EncodeChar at hb
      simp only [hone, if_false] at hb
      split_ifs at hb <;> simp only [List.mem_cons, List.not_mem_nil, or_false] at hb <;>
        rcases hb with rfl | rfl | rfl | rfl <;> simp only [UInt8.toNat_ofNat'] <;> omega
    rw [if_neg (by omega), List.count_eq_zero]
    intro hmem
    have := hhigh _ hmem
    rw [Glob.separator, hlow] at this
    omega

@[simp] theorem count_bytes (t : Text) : (bytes t).count Glob.separator = t.count '/' := by
  induction t with
  | nil => rfl
  | cons c t ih =>
    have hcons : bytes (c :: t) = String.utf8EncodeChar c ++ bytes t := rfl
    rw [hcons, List.count_append, count_utf8EncodeChar, ih, List.count_cons, Nat.add_comm]
    simp

end Text

namespace Glob

mutual

/-- The parts that a part consists of, groups taken apart. -/
def leaves : Part → List Part
  | .alternatives branches => leavesOfBranches branches
  | p => [p]

def leavesOfBranches : List (List Part) → List Part
  | [] => []
  | ps :: rest => leavesOfParts ps ++ leavesOfBranches rest

def leavesOfParts : List Part → List Part
  | [] => []
  | p :: ps => leaves p ++ leavesOfParts ps

end

/-- Whether a part is the separator, or a class that it is written in. -/
def isWritten : Part → Bool
  | .byte b => b == separator
  | .oneOf negated ranges =>
    !negated && ranges.any fun (low, high) => low == separator || high == separator
  | _ => false

/-- Whether a part is a class that has the separator as a member without its being written there. -/
def isHidden : Part → Bool
  | .oneOf negated ranges => isMember negated ranges separator && !isWritten (.oneOf negated ranges)
  | _ => false

/-- Whether a part stands for any number of directories. -/
def isDirs : Part → Bool
  | .leading | .inner | .trailing => true
  | _ => false

/-- How many separators are written in parts. -/
def written (ps : List Part) : Nat := ps.countP isWritten

/-- Before each marked place there are at most so many separators. -/
structure Marks.Within (bs : List UInt8) (n : Nat) (marks : Marks) : Prop where
  length_eq : marks.length = bs.length + 1
  count_le : ∀ i, marks[i]? = some true → (bs.take i).count separator ≤ n

namespace Marks

variable {bs : List UInt8} {n : Nat} {marks others : Marks} {p : UInt8 → Bool}

theorem within_start (bs : List UInt8) : Within bs 0 (start bs) where
  length_eq := by simp [start]
  count_le i h := by
    cases i with
    | zero => simp
    | succ i => simp [start, List.getElem?_replicate] at h

theorem Within.mono {m : Nat} (h : Within bs n marks) (hle : n ≤ m) : Within bs m marks :=
  ⟨h.length_eq, fun i hi => Nat.le_trans (h.count_le i hi) hle⟩

theorem within_clear (h : Within bs n marks) : Within bs 0 marks.clear where
  length_eq := by simp [clear, h.length_eq]
  count_le i hi := by simp [clear, List.getElem?_replicate] at hi

theorem Within.either (h : Within bs n marks) (h' : Within bs n others) :
    Within bs n (marks.either others) where
  length_eq := by simp [Marks.either, h.length_eq, h'.length_eq]
  count_le i hi := by
    obtain ⟨m, m', hm, hm', hor⟩ := List.getElem?_zipWith_eq_some.1 hi
    rcases Bool.or_eq_true_iff.1 hor with rfl | rfl
    · exact h.count_le i hm
    · exact h'.count_le i hm'

/-- A byte that may be a separator adds at most one. -/
theorem Within.step (h : Within bs n marks) {k : Nat} (hp : p separator = true → 1 ≤ k) :
    Within bs (n + k) (marks.step p bs) where
  length_eq := by simp [Marks.step, h.length_eq]
  count_le i hi := by
    cases i with
    | zero => simp
    | succ i =>
      rw [Marks.step, List.getElem?_cons_succ] at hi
      obtain ⟨b, m, hb, hm, hand⟩ := List.getElem?_zipWith_eq_some.1 hi
      obtain ⟨rfl, hpb⟩ := Bool.and_eq_true_iff.1 hand
      have hbefore := h.count_le i hm
      rw [List.take_add_one, hb, List.count_append, Option.toList_some, List.count_singleton]
      split_ifs with hsep
      · have := hp (beq_iff_eq.1 hsep ▸ hpb)
        omega
      · omega

theorem length_spread : ∀ (bs : List UInt8) (marks : Marks) (reached : Bool),
    marks.length = bs.length + 1 → (spread p reached bs marks).length = bs.length + 1
  | [], [m], reached, _ => rfl
  | b :: bs, m :: marks, reached, h => by
    rw [spread, List.length_cons, length_spread bs marks _ (by simpa using h), List.length_cons]

/-- Bytes that are no separators add none. The bound is kept for the places from some place on, with
`c` separators before it. -/
theorem count_le_of_spread (hp : p separator = false) : ∀ (bs : List UInt8) (marks : Marks)
    (reached : Bool) (c : Nat), (reached = true → c ≤ n) →
      (∀ i, marks[i]? = some true → c + (bs.take i).count separator ≤ n) →
      ∀ i, (spread p reached bs marks)[i]? = some true → c + (bs.take i).count separator ≤ n
  | bs, [], reached, c, hreached, hmarks, i, hi => by simp [spread] at hi
  | [], m :: marks, reached, c, hreached, hmarks, i, hi => by
    cases i with
    | zero =>
      rw [spread, List.getElem?_cons_zero, Option.some.injEq, Bool.or_eq_true] at hi
      rcases hi with rfl | hi
      · exact hmarks 0 rfl
      · simpa using hreached hi
    | succ i => simp [spread] at hi
  | b :: bs, m :: marks, reached, c, hreached, hmarks, i, hi => by
    have hhere : (m || reached) = true → c ≤ n := by
      rw [Bool.or_eq_true]
      rintro (rfl | h)
      · simpa using hmarks 0 rfl
      · exact hreached h
    rw [spread] at hi
    cases i with
    | zero =>
      rw [List.getElem?_cons_zero, Option.some.injEq] at hi
      simpa using hhere hi
    | succ i =>
      rw [List.getElem?_cons_succ] at hi
      have hnext := count_le_of_spread hp bs marks _ (c + [b].count separator) ?_ ?_ i hi
      · rwa [List.take_succ_cons, ← List.singleton_append, List.count_append, ← Nat.add_assoc]
      · intro hgo
        obtain ⟨hm, hpb⟩ := Bool.and_eq_true_iff.1 hgo
        have hb : b ≠ separator := by
          rintro rfl
          rw [hp] at hpb
          cases hpb
        simpa [List.count_singleton, hb] using hhere hm
      · intro j hj
        have := hmarks (j + 1) (by rwa [List.getElem?_cons_succ])
        rwa [List.take_succ_cons, ← List.singleton_append, List.count_append, ← Nat.add_assoc]
          at this

theorem Within.spread (h : Within bs n marks) (hp : p separator = false) :
    Within bs n (marks.spread p false bs) where
  length_eq := length_spread bs marks false h.length_eq
  count_le i hi := by
    have := count_le_of_spread hp bs marks false 0 (by simp)
      (fun j hj => by simpa using h.count_le j hj) i hi
    simpa using this

end Marks

mutual

/-- What a part reaches has at most the separators before it that were there already and those that
are written in the part. -/
theorem within_reach {bs : List UInt8} : ∀ (part : Part),
    (∀ p ∈ leaves part, isDirs p = false ∧ isHidden p = false) →
      ∀ {n : Nat} {marks : Marks}, marks.Within bs n →
        (reach true bs part marks).Within bs (n + written (leaves part))
  | .byte b, _, n, marks, h => by
    refine h.step fun hb => ?_
    simp [leaves, written, isWritten, (beq_iff_eq.1 hb).symm]
  | .anyByte, _, n, marks, h => h.step (by simp)
  | .anyRun, _, n, marks, h => h.spread (by simp)
  | .oneOf negated ranges, hleaves, n, marks, h => by
    refine h.step fun hmember => ?_
    obtain ⟨-, hhidden⟩ := hleaves (.oneOf negated ranges) (List.mem_singleton_self _)
    rw [isHidden, hmember, Bool.true_and, Bool.not_eq_false'] at hhidden
    simp [leaves, written, hhidden]
  | .leading, hleaves, _, _, _ => by simp [leaves, isDirs] at hleaves
  | .inner, hleaves, _, _, _ => by simp [leaves, isDirs] at hleaves
  | .trailing, hleaves, _, _, _ => by simp [leaves, isDirs] at hleaves
  | .alternatives branches, hleaves, n, marks, h => by
    rw [reach]
    split_ifs
    · exact h.mono (Nat.le_add_right _ _)
    · exact within_reachByBranches branches hleaves h

theorem within_reachByBranches {bs : List UInt8} : ∀ (branches : List (List Part)),
    (∀ p ∈ leavesOfBranches branches, isDirs p = false ∧ isHidden p = false) →
      ∀ {n : Nat} {marks : Marks}, marks.Within bs n →
        (reachByBranches true bs branches marks).Within bs (n + written (leavesOfBranches branches))
  | [], _, n, marks, h => (Marks.within_clear h).mono (Nat.zero_le _)
  | ps :: rest, hleaves, n, marks, h => by
    rw [leavesOfBranches] at hleaves
    have hps := within_reachByParts ps (fun p hp => hleaves p (List.mem_append_left _ hp)) h
    have hrest := within_reachByBranches rest
      (fun p hp => hleaves p (List.mem_append_right _ hp)) h
    have hsum : written (leavesOfBranches (ps :: rest))
        = written (leavesOfParts ps) + written (leavesOfBranches rest) := by
      rw [leavesOfBranches, written, List.countP_append]
      rfl
    rw [reachByBranches, hsum]
    refine Marks.Within.either ?_ (hrest.mono (by omega))
    split_ifs
    · exact (Marks.within_clear h).mono (Nat.zero_le _)
    · exact hps.mono (by omega)

theorem within_reachByParts {bs : List UInt8} : ∀ (ps : List Part),
    (∀ p ∈ leavesOfParts ps, isDirs p = false ∧ isHidden p = false) →
      ∀ {n : Nat} {marks : Marks}, marks.Within bs n →
        (reachByParts true bs ps marks).Within bs (n + written (leavesOfParts ps))
  | [], _, n, marks, h => h
  | p :: ps, hleaves, n, marks, h => by
    rw [leavesOfParts] at hleaves
    have hp := within_reach p (fun q hq => hleaves q (List.mem_append_left _ hq)) h
    have hps := within_reachByParts ps (fun q hq => hleaves q (List.mem_append_right _ hq)) hp
    have hsum : written (leavesOfParts (p :: ps))
        = written (leaves p) + written (leavesOfParts ps) := by
      rw [leavesOfParts, written, List.countP_append]
      rfl
    rw [reachByParts, hsum, ← Nat.add_assoc]
    exact hps

end

theorem count_le_written {g : Glob} {path : Text} (hstops : g.stopsAtSeparator = true)
    (hleaves : ∀ p ∈ leavesOfParts g.parts, isDirs p = false ∧ isHidden p = false)
    (hmatch : g.isMatch path = true) : path.count '/' ≤ written (leavesOfParts g.parts) := by
  have hspans : g.spans path = true := (Bool.and_eq_true_iff.1 hmatch).2
  have hwithin := within_reachByParts g.parts hleaves (Marks.within_start (Text.bytes path))
  unfold spans at hspans
  split at hspans
  · rename_i hdirs
    simp [hdirs, leavesOfParts, leaves, isDirs] at hleaves
  · rw [hstops] at hspans
    have hlast : (reachByParts true (Text.bytes path) g.parts (.start (Text.bytes path)))[
        (Text.bytes path).length]? = some true := by
      rw [List.getLastD_eq_getLast?, List.getLast?_eq_getElem?, hwithin.length_eq,
        Nat.add_sub_cancel] at hspans
      rcases hplace : (reachByParts true (Text.bytes path) g.parts (.start (Text.bytes path)))[
        (Text.bytes path).length]? with _ | m
      · rw [hplace] at hspans
        cases hspans
      · rw [hplace] at hspans
        exact congrArg some hspans
    have := hwithin.count_le _ hlast
    rwa [List.take_length, Text.count_bytes, Nat.zero_add] at this

end Glob

end DidYouMean
