import DidYouMean.Proofs.Splitting
import Mathlib.Order.WellFounded

/-!
# Clauses of type parameters

The reader of a clause counts angle brackets alone, and its count never falls below zero because it
stops there. The depth that is kept when signatures are cut counts them as well, and stays at zero
instead. Up to the place where the reader stops the two counts are the same, arrows or not, so the
clause is the shortest beginning of the text behind which the depth has no angle bracket open
(`angleClause?_eq_some_iff`), and what follows the clause makes no difference to it.
-/

namespace DidYouMean

namespace Signature

/-- The shortest beginning of a text, beyond the empty one, that leaves no angle bracket open when
the text is read at depth `d` after `before`. -/
structure FirstClosed (d : Depth) (before : Option Char) (t p : Text) : Prop where
  isPrefix : p <+: t
  nonempty : p ≠ []
  closed : (Depth.run d before p).angle = 0
  shortest : ∀ q, q <+: t → q ≠ [] → (Depth.run d before q).angle = 0 → p.length ≤ q.length

variable {d : Depth} {before : Option Char} {c : Char} {t p q : Text}

theorem not_firstClosed_nil : ¬ FirstClosed d before [] p :=
  fun h => h.nonempty (List.prefix_nil.1 h.isPrefix)

theorem firstClosed_cons_of_closed (h : (d.advance before c).angle = 0) :
    FirstClosed d before (c :: t) p ↔ p = [c] := by
  have hfirst : [c] <+: c :: t := List.cons_prefix_cons.2 ⟨rfl, List.nil_prefix⟩
  constructor
  · intro hp
    have hlength := hp.shortest [c] hfirst (List.cons_ne_nil c []) h
    have hone : p.length = [c].length :=
      le_antisymm hlength (List.length_pos_iff.2 hp.nonempty)
    exact (List.prefix_of_prefix_length_le hp.isPrefix hfirst hlength).eq_of_length hone
  · rintro rfl
    exact ⟨hfirst, List.cons_ne_nil c [], h, fun q _ hq _ => List.length_pos_iff.2 hq⟩

theorem firstClosed_cons_of_open (h : (d.advance before c).angle ≠ 0) :
    FirstClosed d before (c :: t) p
      ↔ ∃ p', FirstClosed (d.advance before c) (some c) t p' ∧ c :: p' = p := by
  -- The first character alone is no such beginning, so each of them goes on behind it.
  have hgoes : ∀ q, (Depth.run d before (c :: q)).angle = 0 → q ≠ [] := by
    rintro q hq rfl
    exact h hq
  constructor
  · intro hp
    obtain ⟨p', hp', hrest⟩ := List.prefix_cons_iff.1 hp.isPrefix |>.resolve_left hp.nonempty
    subst hp'
    refine ⟨p', ⟨hrest, hgoes p' hp.closed, hp.closed, fun q hq _ hclosed => ?_⟩, rfl⟩
    have := hp.shortest (c :: q) (List.cons_prefix_cons.2 ⟨rfl, hq⟩) (List.cons_ne_nil c q) hclosed
    simpa using this
  · rintro ⟨p', hp, rfl⟩
    refine ⟨List.cons_prefix_cons.2 ⟨rfl, hp.isPrefix⟩, List.cons_ne_nil c p', hp.closed, ?_⟩
    intro q hq hne hclosed
    obtain ⟨q', rfl, hrest⟩ := List.prefix_cons_iff.1 hq |>.resolve_left hne
    exact Nat.succ_le_succ (hp.shortest q' hrest (hgoes q' hclosed) hclosed)

/-- The count comes to zero at a `>` that closes the only bracket open. -/
theorem throughAngle?_closing (h : 0 < d.angle) (hnext : (d.advance before c).angle = 0) :
    throughAngle? d.angle before (c :: t) = some [c] := by
  rw [Depth.angle_advance] at hnext
  by_cases hopen : c = '<'
  · simp [hopen] at hnext
  · rw [if_neg hopen] at hnext
    split_ifs at hnext with hclose
    · have hone : d.angle = 1 := by omega
      rw [throughAngle?, if_neg hopen, if_pos ⟨hclose.1, hclose.2, h⟩, if_pos hone]
    · omega

theorem throughAngle?_eq_some_iff (h : 0 < d.angle) :
    throughAngle? d.angle before t = some p ↔ FirstClosed d before t p := by
  induction t generalizing d before p with
  | nil => simp [throughAngle?, not_firstClosed_nil]
  | cons c t ih =>
    by_cases hnext : (d.advance before c).angle = 0
    · rw [throughAngle?_closing h hnext, firstClosed_cons_of_closed hnext, Option.some.injEq,
        eq_comm]
    · have hpos := Nat.pos_of_ne_zero hnext
      simp only [throughAngle?_cons h hpos, firstClosed_cons_of_open hnext,
        Option.map_eq_some_iff, ih hpos]

theorem angleClause?_open (t : Text) :
    angleClause? ('<' :: t) = (throughAngle? 1 (some '<') t).map ('<' :: ·) := by
  rw [angleClause?, List.head?_cons, if_pos rfl, throughAngle?, if_pos rfl]

theorem angleClause?_eq_some_iff :
    angleClause? t = some p ↔ t.head? = some '<' ∧ FirstClosed .zero none t p := by
  by_cases hopen : t.head? = some '<'
  · obtain ⟨rest, rfl⟩ := List.head?_eq_some_iff.1 hopen
    have hone : (Depth.zero.advance none '<').angle ≠ 0 := by decide
    rw [angleClause?_open, firstClosed_cons_of_open hone, Option.map_eq_some_iff,
      and_iff_right hopen]
    exact exists_congr fun p' => and_congr_left'
      (throughAngle?_eq_some_iff (d := Depth.zero.advance none '<') Nat.one_pos)
  · simp [angleClause?, hopen]

/-- If some beginning leaves no angle bracket open, there is a shortest one. -/
theorem exists_firstClosed (hq : q <+: t) (hne : q ≠ [])
    (hclosed : (Depth.run d before q).angle = 0) : ∃ p, FirstClosed d before t p := by
  obtain ⟨p, ⟨hp, hpne, hpclosed⟩, hmin⟩ := (measure List.length).wf.has_min
    {q : Text | q <+: t ∧ q ≠ [] ∧ (Depth.run d before q).angle = 0} ⟨q, hq, hne, hclosed⟩
  exact ⟨p, hp, hpne, hpclosed, fun q hq hne hclosed => not_lt.1 (hmin q ⟨hq, hne, hclosed⟩)⟩

/-- What stands behind a shortest beginning has no part in it. -/
theorem FirstClosed.append (h : FirstClosed d before t p) (w : Text) :
    FirstClosed d before (p ++ w) p := by
  refine ⟨List.prefix_append p w, h.nonempty, h.closed, fun q hq hne hclosed => ?_⟩
  by_contra hshorter
  have hlength := (not_le.1 hshorter).le
  have hbegins := List.prefix_of_prefix_length_le hq (List.prefix_append p w) hlength
  exact hshorter (h.shortest q (hbegins.trans h.isPrefix) hne hclosed)

end Signature

open Signature

/-- The clause of type parameters that a text begins with is the shortest beginning of the text that
leaves no angle bracket open, as the depth counts them. There is none if the text begins with
another character or all its beginnings leave one open. Whatever follows the clause, it is the
clause of the whole. -/
theorem angleClause_exact (t : Text) :
    (∀ p, angleClause? t = some p ↔ t.head? = some '<' ∧ FirstClosed .zero none t p)
      ∧ (angleClause? t = none ↔ (t.head? = some '<' →
          ∀ q, q <+: t → q ≠ [] → (Depth.run .zero none q).angle ≠ 0))
      ∧ ∀ p, angleClause? t = some p → ∀ w, angleClause? (p ++ w) = some p := by
  refine ⟨fun p => angleClause?_eq_some_iff, ?_, fun p hp w => ?_⟩
  · rw [← Option.not_isSome_iff_eq_none, Option.isSome_iff_exists]
    simp only [angleClause?_eq_some_iff]
    constructor
    · intro hnone hopen q hq hne hclosed
      obtain ⟨p, hp⟩ := exists_firstClosed hq hne hclosed
      exact hnone ⟨p, hopen, hp⟩
    · rintro hall ⟨p, hopen, hp⟩
      exact hall hopen p hp.isPrefix hp.nonempty hp.closed
  · obtain ⟨hopen, hfirst⟩ := angleClause?_eq_some_iff.1 hp
    have hbegins : (p ++ w).head? = some '<' := by
      obtain ⟨rest, hrest⟩ := hfirst.isPrefix
      rw [← hrest, List.head?_append_of_ne_nil _ hfirst.nonempty] at hopen
      rw [List.head?_append_of_ne_nil _ hfirst.nonempty, hopen]
    exact angleClause?_eq_some_iff.2 ⟨hbegins, hfirst.append w⟩

/-- A clause with an arrow and a bracket inside of it, before two different texts. -/
theorem mapperClause_kept :
    angleClause? "<F extends () => Array<A>>(f: F): F".toList
        = some "<F extends () => Array<A>>".toList
      ∧ FirstClosed .zero none "<F extends () => Array<A>>(f: F): F".toList
          "<F extends () => Array<A>>".toList
      ∧ angleClause? "<F extends () => Array<A>>=> F<A>".toList
        = some "<F extends () => Array<A>>".toList := by
  have hclause : angleClause? "<F extends () => Array<A>>(f: F): F".toList
      = some "<F extends () => Array<A>>".toList := by decide
  obtain ⟨hiff, -, hkept⟩ := angleClause_exact "<F extends () => Array<A>>(f: F): F".toList
  exact ⟨hclause, ((hiff _).1 hclause).2, hkept _ hclause "=> F<A>".toList⟩

end DidYouMean
