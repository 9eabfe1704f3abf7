import DidYouMean.Proofs.SignatureLines
import DidYouMean.Proofs.Splitting

/-!
# Signatures on one line

A signature takes more than one line exactly if it begins and ends with a brace and what is between
these two is parted by a semicolon outside of all brackets (`lines_eq_single_iff`). A function type
begins with a parenthesis, so it never does, and its parameter list ends where its own bracket
closes, however much is nested inside. Two object types next to each other do begin and end with a
brace, though not with one pair, and that the first of them closes early goes unnoticed
(`parted_adjoined_iff`).
-/

namespace DidYouMean

namespace Signature

theorem WellNested.run_append {allowed : Char → Bool} {w : Text} (h : WellNested allowed w)
    (d : Depth) (before : Option Char) (t : Text) :
    Depth.run d before (w ++ t) = Depth.run d (w.getLast?.or before) t := by
  have hkeep : ∀ (u : Text) (e : Depth), u.foldr (fun _ e => e) e = e := by
    intro u e
    induction u with
    | nil => rfl
    | cons c u ih => exact ih
  have hscan : Depth.run d before (w ++ t)
      = w.foldr (fun _ e => e) (Depth.run d (w.getLast?.or before) t) :=
    h.scan_append Depth.run (fun _ _ => True) (fun _ _ _ _ => trivial) (fun _ _ _ _ _ _ => rfl)
      (fun _ _ => trivial) before t
  rw [hscan, hkeep]

theorem WellNested.run_eq {allowed : Char → Bool} {w : Text} (h : WellNested allowed w)
    (d : Depth) (before : Option Char) : Depth.run d before w = d := by
  simpa [Depth.run] using h.run_append d before []

/-- The closing brace at the end of a well-nested text closes something. -/
theorem WellNested.isTop_run_dropLast {allowed : Char → Bool} {w : Text}
    (h : WellNested allowed w) : ∀ {u : Text} (d : Depth) (before : Option Char),
      w = u ++ ['}'] → (Depth.run d before u).isTop = false := by
  induction h with
  | nil => intro u d before hw; simp at hw
  | @char allowed c t hc _ _ ih =>
    intro u d before hw
    rcases u with _ | ⟨c', u⟩
    · rw [List.nil_append, List.cons.injEq] at hw
      rw [hw.1] at hc
      simp [isBracket] at hc
    · rw [List.cons_append, List.cons.injEq] at hw
      rw [Depth.run]
      exact ih _ _ hw.2
  | @arrow allowed t _ _ ih =>
    intro u d before hw
    rcases u with _ | ⟨c, _ | ⟨c', u⟩⟩ <;> simp at hw
    rw [Depth.run, Depth.run]
    exact ih _ _ hw.2.2
  | @group allowed inside t b harrow hinside ht _ ih =>
    intro u d before hw
    rcases List.eq_nil_or_concat t with rfl | ⟨t', c, rfl⟩
    · have hw' : (b.opening :: inside) ++ [b.closing] = u ++ ['}'] := by simpa using hw
      obtain ⟨rfl, -⟩ := List.append_inj' hw' rfl
      rw [Depth.run, Depth.advance_opening, hinside.run_eq]
      exact Depth.isTop_opened
    · have hw' : (b.opening :: (inside ++ b.closing :: t')) ++ [c] = u ++ ['}'] := by
        simpa using hw
      obtain ⟨rfl, hc⟩ := List.append_inj' hw' rfl
      rw [Depth.run, hinside.run_append, Depth.run]
      exact ih _ _ (by simpa using hc)

theorem braced?_eq_some_iff {t inner : Text} :
    braced? t = some inner ↔ t = '{' :: (inner ++ ['}']) := by
  unfold braced?
  split
  · rename_i rest
    rw [Text.stripEnd?_eq_some_iff, List.cons.injEq, and_iff_right rfl]
  · rename_i hopen
    simp only [reduceCtorEq, false_iff]
    exact fun h => hopen _ h

theorem overloads?_eq_none_iff {signature : Text} :
    overloads? signature = none ↔
      ∀ inner, braced? (Text.trim signature) = some inner → ¬ Parted inner := by
  have hlength : ∀ t, (((segments t).map Text.trim).filter (· != [])).length
      = (segments t).length := by
    intro t
    rw [List.filter_eq_self.2, List.length_map]
    intro piece hpiece
    obtain ⟨segment, hsegment, rfl⟩ := List.mem_map.1 hpiece
    exact (List.mem_filter.1 hsegment).2
  unfold overloads?
  rcases braced? (Text.trim signature) with _ | inner
  · simp
  · simp only [Option.bind_eq_bind, Option.bind_some, Option.some.injEq, forall_eq']
    rw [hlength, parted_iff_trim, ← one_lt_length_segments_iff]
    simp

theorem lines_eq_single_iff {name signature : Text} :
    lines name signature = [single name signature] ↔
      ∀ inner, braced? (Text.trim signature) = some inner → ¬ Parted inner := by
  rw [← overloads?_eq_none_iff]
  unfold lines
  rcases hfound : overloads? signature with _ | found
  · simp
  · have htwo := (overloads?_eq_some hfound).1
    simp only [reduceCtorEq, iff_false]
    intro h
    have := congrArg List.length h
    simp only [List.length_map, List.length_singleton] at this
    omega

/-- Read on behind a brace that closes nothing, a text is parted where its own semicolons are. -/
theorem parted_adjoined_iff {inside rest : Text} (hinside : WellNested (fun _ => true) inside)
    (hrest : WellNested (fun _ => true) (rest ++ ['}'])) :
    Parted (inside ++ '}' :: rest) ↔
      (∃ front back, OuterCut inside front back ∧ front.any isSolid = true)
        ∨ ∃ front back, OuterCut (rest ++ ['}']) front back := by
  have hbrace : ∀ {t : Text}, '}' ∈ t → t.any isSolid = true := fun h =>
    List.any_eq_true.2 ⟨'}', h, by decide⟩
  have hrun : ∀ front, Depth.run .zero none (inside ++ '}' :: front)
      = Depth.run .zero none front := by
    intro front
    rw [hinside.run_append, Depth.run]
    exact Depth.run_of_ne (by simp) _ _
  constructor
  · rintro ⟨front, back, hcut, hfront, -⟩
    rcases (outerCut_append_cons (by decide)).1 hcut with
      ⟨mid, -, hcut⟩ | ⟨mid, rfl, rfl, hclosed⟩
    · exact .inl ⟨front, mid, hcut, hfront⟩
    · rw [hrun] at hclosed
      exact .inr ⟨mid, back ++ ['}'], by simp, hclosed⟩
  · rintro (⟨front, back, ⟨rfl, hclosed⟩, hfront⟩ | ⟨front, back, hcut⟩)
    · exact ⟨front, back ++ '}' :: rest, ⟨by simp, hclosed⟩, hfront, hbrace (by simp)⟩
    · rcases (outerCut_append_cons (by decide)).1 hcut with
        ⟨mid, rfl, rfl, hclosed⟩ | ⟨mid, -, h, -⟩
      · refine ⟨inside ++ '}' :: front, mid, ⟨by simp, ?_⟩, hbrace (by simp), ?_⟩
        · rw [hrun, hclosed]
        · -- Without anything solid behind the semicolon the last brace would close nothing.
          rw [← Bool.not_eq_false]
          intro hmid
          have htop := hrest.isTop_run_dropLast .zero none rfl
          rw [Depth.run_append, hclosed, run_semicolon, run_of_not_solid hmid] at htop
          exact absurd htop (by decide)
      · simp at h

end Signature

open Signature

/-- Object types next to each other are shown on one line unless the last of them ends the
signature, and a semicolon outside of all brackets stands behind the first one or, with more than
blanks and semicolons before it, within the first one. -/
theorem lines_adjoined_iff (name : Text) {signature inside rest : Text}
    (hinside : WellNested (fun _ => true) inside) (hrest : WellNested (fun _ => true) rest)
    (hne : rest ≠ []) (htrim : Text.trim signature = '{' :: (inside ++ '}' :: rest)) :
    Signature.lines name signature = [single name signature] ↔
      (rest.getLast? = some '}' →
        (∀ front back, OuterCut inside front back → front.any isSolid = false)
          ∧ ∀ front back, ¬ OuterCut rest front back) := by
  rw [lines_eq_single_iff, htrim]
  simp only [braced?_eq_some_iff, List.cons.injEq, true_and]
  rcases List.eq_nil_or_concat rest with rfl | ⟨rest, c, rfl⟩
  · exact absurd rfl hne
  · rw [List.concat_eq_append] at *
    by_cases hc : c = '}'
    · subst hc
      have hinner : ∀ inner, inside ++ '}' :: (rest ++ ['}']) = inner ++ ['}'] ↔
          inside ++ '}' :: rest = inner := by
        intro inner
        rw [← List.cons_append, ← List.append_assoc, List.append_cancel_right_eq]
      simp only [hinner, forall_eq', List.getLast?_concat, parted_adjoined_iff hinside hrest]
      simp
    · have hother : ∀ inner, inside ++ '}' :: (rest ++ [c]) ≠ inner ++ ['}'] := by
        intro inner h
        rw [← List.cons_append, ← List.append_assoc] at h
        exact hc (List.singleton_inj.1 (List.append_inj' h rfl).2)
      simp [hother, hc]

/-- The members of the first of two object types. -/
def firstMembers : Text := " a: A; b: B ".toList

/-- What follows it: the sign of an intersection and the second object type. -/
def secondObject : Text := " & { c: C }".toList

/-- The intersection of the two. -/
def intersection : Text := '{' :: (firstMembers ++ '}' :: secondObject)

theorem nested_firstMembers : WellNested (fun _ => true) firstMembers :=
  .plain_append (s := " a: A; b: B ".toList) rfl .nil

theorem nested_secondObject : WellNested (fun _ => true) secondObject :=
  .plain_append (s := " & ".toList) rfl <|
    .group .brace (by simp) (.plain_append (s := " c: C ".toList) rfl .nil) .nil

theorem lines_intersection :
    (WellNested (fun _ => true) firstMembers ∧ WellNested (fun _ => true) secondObject
        ∧ secondObject ≠ []
        ∧ Text.trim intersection = '{' :: (firstMembers ++ '}' :: secondObject))
      ∧ Signature.lines "props".toList intersection ≠ [single "props".toList intersection] := by
  have hne : secondObject ≠ [] := by decide
  have htrim : Text.trim intersection = '{' :: (firstMembers ++ '}' :: secondObject) := by
    decide
  refine ⟨⟨nested_firstMembers, nested_secondObject, hne, htrim⟩, fun h => ?_⟩
  obtain ⟨hmembers, -⟩ := (lines_adjoined_iff "props".toList nested_firstMembers
    nested_secondObject hne htrim).1 h (by decide)
  exact absurd (hmembers " a: A".toList " b: B ".toList ⟨by decide, by decide⟩) (by decide)

theorem adjoined_not_always_single :
    ¬ ∀ name signature inside rest : Text, WellNested (fun _ => true) signature →
      WellNested (fun _ => true) inside →
        Text.trim signature = '{' :: (inside ++ '}' :: rest) → rest ≠ [] →
          Signature.lines name signature = [single name signature] := by
  intro h
  have hnested : WellNested (fun _ => true) intersection :=
    .group .brace (by simp) nested_firstMembers nested_secondObject
  have hlines := h "props".toList intersection firstMembers secondObject hnested
    nested_firstMembers (by decide) (by decide)
  exact absurd hlines (by decide)

/-- A function type is bound to its name on one line, with a colon in place of the arrow behind its
parameter list. -/
theorem lines_function (name parameters result lead trail : Text)
    (hparameters : WellNested (fun _ => true) parameters)
    (hresult : ∃ c, result.getLast? = some c ∧ Text.isBlank c = false)
    (hlead : lead.all Text.isBlank = true) (htrail : trail.all Text.isBlank = true) :
    Signature.lines name (lead ++ '(' :: (parameters ++ ") => ".toList ++ result) ++ trail)
      = [name ++ '(' :: (parameters ++ "): ".toList ++ result)] := by
  have htrim : Text.trim (lead ++ '(' :: (parameters ++ ") => ".toList ++ result) ++ trail)
      = '(' :: (parameters ++ ") => ".toList ++ result) := by
    rw [Text.trim_append_right (List.all_eq_true.1 htrail),
      Text.trim_append_left (List.all_eq_true.1 hlead)]
    obtain ⟨c, hc, hblank⟩ := hresult
    refine Text.Tight.trim_eq ⟨⟨'(', rfl, rfl⟩, c, ?_, hblank⟩
    rw [← List.cons_append, List.getLast?_append, hc, Option.some_or]
  have harrow : arrow? ('(' :: (parameters ++ ") => ".toList ++ result))
      = some (parameters, result) := by
    have happend : parameters ++ ") => ".toList ++ result
        = parameters ++ ')' :: (" => ".toList ++ result) := List.append_assoc _ _ _
    rw [happend, hparameters.arrow?_append, Text.stripStart?_append, Option.map_some]
  have hsingle : single name (lead ++ '(' :: (parameters ++ ") => ".toList ++ result) ++ trail)
      = name ++ '(' :: (parameters ++ "): ".toList ++ result) := by
    simp only [single, htrim, harrow]
    simp
  rw [lines_eq_single_iff.2, hsingle]
  intro inner hinner
  rw [htrim, braced?_eq_some_iff, List.cons.injEq] at hinner
  exact absurd hinner.1 (by decide)

theorem lines_mapper :
    (WellNested (fun _ => true) "f: (a: A) => B".toList
        ∧ "(b: B) => B[]".toList.getLast? = some ']' ∧ "  ".toList.all Text.isBlank = true
        ∧ [' '].all Text.isBlank = true)
      ∧ Signature.lines "map".toList "  (f: (a: A) => B) => (b: B) => B[] ".toList
        = ["map(f: (a: A) => B): (b: B) => B[]".toList] := by
  have hnested : WellNested (fun _ => true) "f: (a: A) => B".toList :=
    .plain_append (s := "f: ".toList) rfl <|
      .group .paren (by simp) (.plain_append (s := "a: A".toList) rfl .nil) <|
        .plain_append (s := [' ']) rfl <| .arrow rfl <| .plain_append (s := " B".toList) rfl .nil
  refine ⟨⟨hnested, rfl, rfl, rfl⟩, ?_⟩
  exact lines_function "map".toList "f: (a: A) => B".toList "(b: B) => B[]".toList "  ".toList
    [' '] hnested ⟨']', rfl, rfl⟩ rfl rfl

end DidYouMean
