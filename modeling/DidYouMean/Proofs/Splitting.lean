import DidYouMean.Proofs.Segments
import DidYouMean.Proofs.Trimming
import DidYouMean.Proofs.WellNested
import Mathlib.Data.List.Infix

/-!
# Splitting at top level

A text is cut at exactly the semicolons before which all brackets of the text so far are closed
(`pieces_eq_outerPieces`). Behind such a semicolon everything is as at the start of a text, so a
piece is read alone as it was read in the whole (`pieces_of_mem`), and every piece but the last is
closed (`pairwise_closed`). So putting pieces together again, with or without the blank ones, gives
a text that is cut into the same pieces (`pieces_join`). There is more than one segment exactly if a
semicolon outside of all brackets has more than blanks and semicolons on either side
(`one_lt_length_segments_iff`), and that does not change when the text is trimmed.
-/

namespace DidYouMean

namespace Signature

namespace Depth

/-- The depth behind a text that is read at depth `d` after `before`. -/
def run (d : Depth) (before : Option Char) : Text → Depth
  | [] => d
  | c :: t => run (d.advance before c) (some c) t

@[simp] theorem run_append (t : Text) : ∀ (s : Text) (d : Depth) (before : Option Char),
    run d before (s ++ t) = run (run d before s) (s.getLast?.or before) t
  | [], d, before => by simp [run]
  | c :: s, d, before => by
    rw [List.cons_append, run, run_append t s, run, getLast?_cons_or]

theorem isTop_iff {d : Depth} : d.isTop = true ↔ d = zero := by
  obtain ⟨paren, bracket, brace, angle⟩ := d
  simp [isTop, zero, and_assoc]

theorem advance_of_ne {before : Option Char} (h : before ≠ some '=') (d : Depth) (c : Char) :
    d.advance before c = d.advance none c := by
  unfold advance
  split <;> simp [h]

theorem run_of_ne {before : Option Char} (h : before ≠ some '=') (d : Depth) (t : Text) :
    run d before t = run d none t := by
  cases t with
  | nil => rfl
  | cons c t => rw [run, run, advance_of_ne h]

end Depth

/-- Whether a character is a semicolon behind a text with no bracket open. -/
def isOuterSemicolon (c : Char) (front : Text) : Bool :=
  c == ';' && (Depth.run .zero none front).isTop

/-- The text cut at exactly its semicolons with no bracket open in all of the text before. -/
def outerPieces (t : Text) : List Text :=
  ((t.zip t.inits).splitOnP fun (c, front) => isOuterSemicolon c front).map (·.map Prod.fst)

theorem consFirst_append {c : Char} {ps : List Text} (hne : ps ≠ []) (qs : List Text) :
    consFirst c (ps ++ qs) = consFirst c ps ++ qs := by
  rcases ps with _ | ⟨p, ps⟩
  · exact absurd rfl hne
  · rfl

theorem pieces_of_ne {before : Option Char} (h : before ≠ some '=') (d : Depth) (t : Text) :
    pieces d before t = pieces d none t := by
  cases t with
  | nil => rfl
  | cons c t => rw [pieces, pieces, Depth.advance_of_ne h]

theorem run_semicolon (d : Depth) (before : Option Char) (t : Text) :
    Depth.run d before (';' :: t) = Depth.run d none t := by
  rw [Depth.run, Depth.advance_of_not_bracket rfl, Depth.run_of_ne (by simp)]

/-- Reading on behind `front` is cutting by what stands before each character. -/
theorem pieces_run (t : Text) : ∀ front : Text,
    ((t.zip (t.inits.map (front ++ ·))).splitOnP fun (c, front) => isOuterSemicolon c front).map
        (·.map Prod.fst)
      = pieces (Depth.run .zero none front) front.getLast? t := by
  induction t with
  | nil => intro front; rfl
  | cons c t ih =>
    intro front
    have hnext : (t.inits.map (c :: ·)).map (front ++ ·) = t.inits.map ((front ++ [c]) ++ ·) := by
      simp
    have hrun : Depth.run .zero none (front ++ [c])
        = (Depth.run .zero none front).advance front.getLast? c := by
      rw [Depth.run_append, Option.or_none]
      rfl
    have ih := ih (front ++ [c])
    rw [hrun, List.getLast?_concat] at ih
    rw [List.inits_cons, List.map_cons, List.append_nil, List.zip_cons_cons, hnext,
      List.splitOnP_cons_eq_if_modifyHead, pieces]
    by_cases hcut : isOuterSemicolon c front = true
    · obtain ⟨hc, htop⟩ := (Bool.and_eq_true _ _).mp hcut
      rw [beq_iff_eq] at hc
      subst hc
      rw [Depth.advance_of_not_bracket rfl] at ih
      rw [if_pos hcut, if_pos ⟨rfl, htop⟩, List.map_cons, ih]
      rfl
    · have hpiece : ¬(c = ';' ∧ (Depth.run .zero none front).isTop = true) := by
        simpa [isOuterSemicolon] using hcut
      rw [if_neg hcut, if_neg hpiece, ← ih]
      obtain ⟨p, ps, hps⟩ := List.exists_cons_of_ne_nil (List.splitOnP_ne_nil
        (fun (c, front) => isOuterSemicolon c front) (t.zip (t.inits.map ((front ++ [c]) ++ ·))))
      rw [hps]
      rfl

theorem pieces_eq_outerPieces (t : Text) : pieces Depth.zero none t = outerPieces t := by
  have h := pieces_run t []
  simp only [List.nil_append, List.map_id'] at h
  exact h.symm

/-- At a semicolon outside of all brackets a text falls into two, which are cut each for itself. -/
theorem pieces_cut (back : Text) : ∀ {front : Text} {d : Depth} {before : Option Char},
    (Depth.run d before front).isTop = true →
      pieces d before (front ++ ';' :: back) = pieces d before front ++ pieces .zero none back
  | [], d, before, h => by
    rw [Depth.run] at h
    rw [List.nil_append, pieces_semicolon h, Depth.isTop_iff.1 h, pieces_of_ne (by simp)]
    rfl
  | c :: front, d, before, h => by
    rw [Depth.run] at h
    rw [List.cons_append]
    by_cases hcut : c = ';' ∧ d.isTop = true
    · obtain ⟨rfl, htop⟩ := hcut
      rw [Depth.advance_of_not_bracket rfl] at h
      rw [pieces_semicolon htop, pieces_semicolon htop, pieces_cut back h, List.cons_append]
    · have hgoes : c = ';' → d.isTop = false := by simpa using hcut
      rw [pieces_cons hgoes, pieces_cons hgoes, pieces_cut back h,
        consFirst_append (pieces_ne_nil _ _ _)]

/-- A text is one piece, or it has a first piece and the rest is cut like a text of its own. -/
theorem pieces_first : ∀ (t : Text) (d : Depth) (before : Option Char),
    pieces d before t = [t] ∨ ∃ front back, t = front ++ ';' :: back
      ∧ (Depth.run d before front).isTop = true ∧ pieces d before front = [front]
      ∧ pieces d before t = front :: pieces .zero none back
  | [], d, before => .inl rfl
  | c :: t, d, before => by
    by_cases hcut : c = ';' ∧ d.isTop = true
    · obtain ⟨rfl, htop⟩ := hcut
      refine .inr ⟨[], t, rfl, htop, rfl, ?_⟩
      rw [pieces_semicolon htop, Depth.isTop_iff.1 htop, pieces_of_ne (by simp)]
    · have hgoes : c = ';' → d.isTop = false := by simpa using hcut
      rw [pieces_cons hgoes]
      rcases pieces_first t (d.advance before c) (some c) with
        h | ⟨front, back, rfl, htop, hfront, h⟩
      · exact .inl (by rw [h, consFirst])
      · refine .inr ⟨c :: front, back, rfl, htop, ?_, ?_⟩
        · rw [pieces_cons hgoes, hfront, consFirst]
        · rw [h, consFirst]

/-- What holds of a text in one piece, and of a first piece in front of a text that it holds of,
holds of every text. -/
theorem pieces_induction {motive : Text → List Text → Prop}
    (whole : ∀ t, pieces .zero none t = [t] → motive t [t])
    (cut : ∀ front back, pieces .zero none front = [front] → Depth.run .zero none front = .zero →
      motive back (pieces .zero none back) →
        motive (front ++ ';' :: back) (front :: pieces .zero none back))
    (t : Text) : motive t (pieces .zero none t) := by
  rcases pieces_first t .zero none with h | ⟨front, back, ht, htop, hfront, h⟩
  · rw [h]
    exact whole t h
  · have hshorter : back.length < t.length := by
      rw [ht, List.length_append, List.length_cons]
      omega
    rw [h, ht]
    exact cut front back hfront (Depth.isTop_iff.1 htop) (pieces_induction whole cut back)
termination_by t.length

theorem pieces_of_mem {p : Text} (t : Text) :
    p ∈ pieces .zero none t → pieces .zero none p = [p] := by
  induction t using pieces_induction with
  | whole t h =>
    intro hp
    rw [List.mem_singleton] at hp
    rw [hp, h]
  | cut front back hfront hrun ih =>
    intro hp
    rcases List.mem_cons.1 hp with rfl | hp
    · exact hfront
    · exact ih hp

/-- Of the pieces of a text only the last may leave a bracket open. -/
theorem pairwise_closed (t : Text) :
    (pieces .zero none t).Pairwise fun p _ => Depth.run .zero none p = .zero := by
  induction t using pieces_induction with
  | whole t h => exact List.pairwise_singleton _ t
  | cut front back hfront hrun ih => exact List.pairwise_cons.2 ⟨fun _ _ => hrun, ih⟩

/-- Uncut pieces of which all but the last are closed are the pieces of their join. -/
theorem pieces_join : ∀ {ps : List Text}, ps ≠ [] → (∀ p ∈ ps, pieces .zero none p = [p]) →
    (ps.Pairwise fun p _ => Depth.run .zero none p = .zero) →
      pieces .zero none (Text.join [';'] ps) = ps
  | [p], _, huncut, _ => huncut p List.mem_cons_self
  | p :: q :: ps, _, huncut, hclosed => by
    rw [List.pairwise_cons] at hclosed
    have htop := Depth.isTop_iff.2 (hclosed.1 q List.mem_cons_self)
    have ih := pieces_join (List.cons_ne_nil q ps)
      (fun p hp => huncut p (List.mem_cons_of_mem _ hp)) hclosed.2
    rw [Text.join_cons_cons, List.append_assoc, List.singleton_append, pieces_cut _ htop, ih,
      huncut p List.mem_cons_self, List.singleton_append]

theorem segments_of_mem {p t : Text} (h : p ∈ segments t) : segments p = [p] := by
  obtain ⟨hp, hblank⟩ := List.mem_filter.1 h
  rw [segments, pieces_of_mem t hp]
  simpa using hblank

theorem segments_join_segments (t : Text) :
    segments (Text.join [';'] (segments t)) = segments t := by
  by_cases hne : segments t = []
  · rw [hne]
    rfl
  · have huncut : ∀ p ∈ segments t, pieces .zero none p = [p] := fun p hp =>
      pieces_of_mem t (List.mem_filter.1 hp).1
    rw [segments, pieces_join hne huncut ((pairwise_closed t).filter _)]
    exact List.filter_eq_self.2 fun p hp => (List.mem_filter.1 hp).2

/-- Whether a character makes a piece that it stands in more than blank. -/
def isSolid (c : Char) : Bool := !Text.isBlank c && c != ';'

/-- A text falls into `front` and `back` at a semicolon outside of all brackets. -/
structure OuterCut (t front back : Text) : Prop where
  eq_append : t = front ++ ';' :: back
  closed : Depth.run .zero none front = .zero

/-- A semicolon outside of all brackets, with more than blanks and semicolons on either side. -/
def Parted (t : Text) : Prop :=
  ∃ front back, OuterCut t front back ∧ front.any isSolid = true ∧ back.any isSolid = true

/-- Around a character that is no semicolon, a text falls apart on one of its sides. -/
theorem outerCut_append_cons {c : Char} (hc : c ≠ ';') {u v front back : Text} :
    OuterCut (u ++ c :: v) front back ↔
      (∃ mid, back = mid ++ c :: v ∧ OuterCut u front mid)
        ∨ ∃ mid, front = u ++ c :: mid ∧ v = mid ++ ';' :: back
          ∧ Depth.run .zero none front = .zero := by
  constructor
  · rintro ⟨h, hclosed⟩
    rcases List.append_eq_append_iff.1 h with ⟨mid, rfl, hv⟩ | ⟨mid, rfl, hback⟩
    · rcases mid with _ | ⟨c', mid⟩
      · exact absurd (List.cons.inj hv).1 hc
      · obtain ⟨rfl, rfl⟩ := List.cons.inj hv
        exact .inr ⟨mid, rfl, rfl, hclosed⟩
    · rcases mid with _ | ⟨c', mid⟩
      · exact absurd (List.cons.inj hback).1.symm hc
      · obtain ⟨rfl, rfl⟩ := List.cons.inj hback
        exact .inl ⟨mid, rfl, rfl, hclosed⟩
  · rintro (⟨mid, rfl, rfl, hclosed⟩ | ⟨mid, rfl, rfl, hclosed⟩)
    · exact ⟨by simp, hclosed⟩
    · exact ⟨by simp, hclosed⟩

theorem not_isSolid_of_isBlank {c : Char} (h : Text.isBlank c = true) : isSolid c = false := by
  simp [isSolid, h]

theorem isSolid_of_isBracket {c : Char} (h : isBracket c = true) : isSolid c = true := by
  simp only [isBracket, List.contains_iff_mem, List.mem_cons, List.not_mem_nil, or_false] at h
  rcases h with rfl | rfl | rfl | rfl | rfl | rfl | rfl | rfl <;> decide

/-- What is not solid leaves the depth alone and makes no arrow. -/
theorem run_cons_of_not_solid {c : Char} (h : isSolid c = false) (d : Depth)
    (before : Option Char) (t : Text) : Depth.run d before (c :: t) = Depth.run d none t := by
  have hbracket : isBracket c = false := by
    rw [← Bool.not_eq_true]
    intro hc
    simp [isSolid_of_isBracket hc] at h
  have hequals : some c ≠ some '=' := by
    rintro ⟨⟩
    exact absurd h (by decide)
  rw [Depth.run, Depth.advance_of_not_bracket hbracket, Depth.run_of_ne hequals]

theorem run_of_not_solid : ∀ {t : Text}, t.any isSolid = false → ∀ (d : Depth)
    (before : Option Char), Depth.run d before t = d
  | [], _, d, before => rfl
  | c :: t, h, d, before => by
    rw [List.any_cons, Bool.or_eq_false_iff] at h
    rw [run_cons_of_not_solid h.1, run_of_not_solid h.2]

theorem segments_cut {front : Text} (h : Depth.run .zero none front = .zero) (back : Text) :
    segments (front ++ ';' :: back) = segments front ++ segments back := by
  rw [segments, pieces_cut back (Depth.isTop_iff.2 h), List.filter_append, segments, segments]

/-- A text in one piece is blank if it has nothing but blanks and semicolons, since the first
semicolon in it would be outside of all brackets. -/
theorem trim_eq_nil_iff_of_uncut {t : Text} (huncut : pieces .zero none t = [t]) :
    Text.trim t = [] ↔ t.any isSolid = false := by
  rw [Text.trim_eq_nil_iff]
  constructor
  · intro h
    simp only [List.all_eq_true, List.any_eq_false, Bool.not_eq_true] at h ⊢
    exact fun c hc => not_isSolid_of_isBlank (h c hc)
  · intro h
    have hnone : ';' ∉ t := by
      intro hmem
      obtain ⟨front, back, rfl⟩ := List.append_of_mem hmem
      rw [List.any_append, Bool.or_eq_false_iff] at h
      rw [pieces_cut back (by rw [run_of_not_solid h.1]; rfl)] at huncut
      have hlength := congrArg List.length huncut
      have hfront := List.length_pos_iff.2 (pieces_ne_nil .zero none front)
      have hback := List.length_pos_iff.2 (pieces_ne_nil .zero none back)
      simp only [List.length_append, List.length_singleton] at hlength
      omega
    simp only [List.all_eq_true, List.any_eq_false, Bool.not_eq_true] at h ⊢
    intro c hc
    have hne : c ≠ ';' := by
      rintro rfl
      exact hnone hc
    simpa [isSolid, hne] using h c hc

/-- There are segments where there is more than blanks and semicolons. -/
theorem segments_ne_nil_iff (t : Text) : segments t ≠ [] ↔ t.any isSolid = true := by
  rw [segments]
  induction t using pieces_induction with
  | whole t h => simp [trim_eq_nil_iff_of_uncut h]
  | cut front back hfront hrun ih =>
    rw [List.any_append, List.any_cons, Bool.or_eq_true, Bool.or_eq_true, ← ih]
    have hblank := trim_eq_nil_iff_of_uncut hfront
    by_cases h : front.any isSolid = true
    · have hne : Text.trim front ≠ [] := by simp [hblank, h]
      simp [hne, h]
    · rw [Bool.not_eq_true] at h
      have hsemicolon : isSolid ';' = false := by decide
      simp only [hblank.2 h, h, hsemicolon, List.filter_cons, bne_self_eq_false,
        Bool.false_eq_true, false_or, if_false]

theorem one_lt_length_segments_iff (t : Text) : 1 < (segments t).length ↔ Parted t := by
  constructor
  · rw [segments]
    induction t using pieces_induction with
    | whole t h =>
      intro hlength
      have := List.length_filter_le (fun piece => Text.trim piece != []) [t]
      simp only [List.length_singleton] at this
      omega
    | cut front back hfront hrun ih =>
      intro hlength
      by_cases hblank : Text.trim front = []
      · -- The semicolon that parts the rest parts the whole text as well.
        rw [List.filter_cons_of_neg (by simp [hblank])] at hlength
        obtain ⟨front', back', ⟨rfl, hrun'⟩, hfront', hback'⟩ := ih hlength
        refine ⟨front ++ ';' :: front', back', ⟨by simp, ?_⟩, by simp [hfront'], hback'⟩
        rw [Depth.run_append, hrun, run_semicolon, hrun']
      · rw [List.filter_cons_of_pos (by simpa using hblank), List.length_cons] at hlength
        have hback : segments back ≠ [] := by
          rw [← List.length_pos_iff, segments]
          omega
        refine ⟨front, back, ⟨rfl, hrun⟩, ?_, (segments_ne_nil_iff back).1 hback⟩
        rw [← Bool.not_eq_false, ← trim_eq_nil_iff_of_uncut hfront]
        exact hblank
  · rintro ⟨front, back, ⟨rfl, hrun⟩, hfront, hback⟩
    rw [← segments_ne_nil_iff, ← List.length_pos_iff] at hfront hback
    rw [segments_cut hrun, List.length_append]
    omega

theorem ne_semicolon_of_isBlank {c : Char} (h : Text.isBlank c = true) : c ≠ ';' := by
  rintro rfl
  exact absurd h (by decide)

theorem parted_cons {c : Char} (hc : Text.isBlank c = true) (t : Text) :
    Parted (c :: t) ↔ Parted t := by
  have hsolid := not_isSolid_of_isBlank hc
  constructor
  · rintro ⟨front, back, hcut, hfront, hback⟩
    rcases (outerCut_append_cons (ne_semicolon_of_isBlank hc) (u := [])).1 hcut with
      ⟨mid, -, h, -⟩ | ⟨mid, rfl, rfl, hclosed⟩
    · simp at h
    · rw [List.nil_append, run_cons_of_not_solid hsolid] at hclosed
      rw [List.nil_append, List.any_cons, hsolid, Bool.false_or] at hfront
      exact ⟨mid, back, ⟨rfl, hclosed⟩, hfront, hback⟩
  · rintro ⟨front, back, ⟨rfl, hclosed⟩, hfront, hback⟩
    refine ⟨c :: front, back, ⟨rfl, ?_⟩, ?_, hback⟩
    · rw [run_cons_of_not_solid hsolid, hclosed]
    · rw [List.any_cons, hfront, Bool.or_true]

theorem parted_concat {c : Char} (hc : Text.isBlank c = true) (t : Text) :
    Parted (t ++ [c]) ↔ Parted t := by
  have hsolid := not_isSolid_of_isBlank hc
  constructor
  · rintro ⟨front, back, hcut, hfront, hback⟩
    rcases (outerCut_append_cons (ne_semicolon_of_isBlank hc)).1 hcut with
      ⟨mid, rfl, hmid⟩ | ⟨mid, -, h, -⟩
    · exact ⟨front, mid, hmid, hfront, by simpa [hsolid] using hback⟩
    · simp at h
  · rintro ⟨front, back, ⟨rfl, hclosed⟩, hfront, hback⟩
    exact ⟨front, back ++ [c], ⟨by simp, hclosed⟩, hfront, by simp [hback]⟩

theorem parted_iff_trim (t : Text) : Parted t ↔ Parted (Text.trim t) :=
  Text.iff_trim (fun _ t hc => parted_cons hc t) (fun _ t hc => parted_concat hc t) t

end Signature

open Signature

/-- The segments of a text are its pieces between the semicolons outside of all brackets, the blank
ones left out. Splitting one of them gives it back, and so does splitting their join. -/
theorem segments_exact (t : Text) :
    segments t = (outerPieces t).filter (fun piece => !piece.all Text.isBlank)
      ∧ (∀ piece ∈ segments t, segments piece = [piece])
      ∧ segments (Text.join [';'] (segments t)) = segments t := by
  refine ⟨?_, fun piece h => segments_of_mem h, segments_join_segments t⟩
  rw [segments, pieces_eq_outerPieces]
  refine List.filter_congr fun piece _ => ?_
  rw [Bool.eq_iff_iff, bne_iff_ne, Ne, Text.trim_eq_nil_iff, Bool.not_eq_true', Bool.not_eq_true]

/-- The last of these segments leaves its parenthesis open. -/
theorem segments_unclosed :
    segments "a: {x; y}; ; b: (c; d".toList
        = ["a: {x; y}".toList, " b: (c; d".toList]
      ∧ " b: (c; d".toList ∈ segments "a: {x; y}; ; b: (c; d".toList
      ∧ segments " b: (c; d".toList = [" b: (c; d".toList] := by
  have hsegments : segments "a: {x; y}; ; b: (c; d".toList
      = ["a: {x; y}".toList, " b: (c; d".toList] := by decide
  have hmem : " b: (c; d".toList ∈ segments "a: {x; y}; ; b: (c; d".toList := by
    rw [hsegments]
    exact List.mem_cons_of_mem _ List.mem_cons_self
  exact ⟨hsegments, hmem, (segments_exact _).2.1 _ hmem⟩

end DidYouMean
