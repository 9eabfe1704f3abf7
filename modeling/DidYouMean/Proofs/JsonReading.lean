import DidYouMean.Proofs.JsonGrammar
import Mathlib.Data.List.DropRight

/-!
# Reading JSON texts

The readers of values, items and members take the texts of the grammar and no others. The fuel is
enough if it is the length of the value, and for items and members one more, since between any two
readers that call each other a character is taken.
-/

namespace DidYouMean

namespace Json

theorem readKey?_eq_some {t rest : Text} {key : Option Text} (h : readKey? t = some (key, rest)) :
    ∃ k, IsKey key k ∧ t = k ++ rest := by
  unfold readKey? at h
  split at h
  · rename_i t' hquote
    simp only [Option.bind_eq_bind, Option.bind_eq_some_iff] at h
    obtain ⟨⟨units, behind⟩, hread, h⟩ := h
    simp only at h
    split at h
    · rename_i hcolon
      obtain ⟨rfl, rfl⟩ := Prod.mk.inj (Option.some.inj h)
      obtain ⟨body, hbody, rfl⟩ := readString?_eq_some hread
      obtain ⟨s, hs, ht⟩ := exists_blank t
      obtain ⟨s', hs', hbehind⟩ := exists_blank behind
      refine ⟨_, .key hs (.quoted hbody) hs', ?_⟩
      rw [ht, hquote, hbehind, hcolon]
      simp
    · cases h
  · cases h

theorem readKey?_append {k : Text} {key : Option Text} (h : IsKey key k) (rest : Text) :
    readKey? (k ++ rest) = some (key, rest) := by
  obtain @⟨units, s, _, s', hs, @⟨body, hbody⟩, hs'⟩ := h
  have hquote : skipSpace (s ++ ('"' :: body ++ ['"'] ++ (s' ++ [':'])) ++ rest)
      = '"' :: (body ++ '"' :: (s' ++ ':' :: rest)) := by
    rw [List.append_assoc, skipSpace_append hs]
    simp only [List.cons_append, List.append_assoc, List.nil_append]
    exact skipSpace_cons (by decide)
  have hcolon : skipSpace (s' ++ ':' :: rest) = ':' :: rest := by
    rw [skipSpace_append hs', skipSpace_cons (by decide)]
  rw [readKey?, hquote]
  simp [readString?_append hbody, hcolon]

theorem Blank.append {s s' : Text} (hs : Blank s) (hs' : Blank s') : Blank (s ++ s') :=
  fun c hc => (List.mem_append.1 hc).elim (hs c) (hs' c)

theorem IsText.space {s t : Text} {v : Json} (hs : Blank s) (h : IsText v t) :
    IsText v (s ++ t) := by
  obtain ⟨hbefore, hv, hbehind⟩ := h
  rw [← List.append_assoc]
  exact .spaced (hs.append hbefore) hv hbehind

theorem IsItems.space {s t : Text} {vs : List Json} (hs : Blank s) (h : IsItems vs t) :
    IsItems vs (s ++ t) := by
  cases h with
  | last hv => exact .last (hv.space hs)
  | more hv hvs =>
    rw [← List.append_assoc]
    exact .more (hv.space hs) hvs

theorem IsKey.space {s k : Text} {key : Option Text} (hs : Blank s) (h : IsKey key k) :
    IsKey key (s ++ k) := by
  obtain ⟨hbefore, hstring, hbehind⟩ := h
  rw [← List.append_assoc]
  exact .key (hs.append hbefore) hstring hbehind

theorem IsMembers.space {s t : Text} {ms : List (Option Text × Json)} (hs : Blank s)
    (h : IsMembers ms t) : IsMembers ms (s ++ t) := by
  cases h with
  | last hkey hv =>
    rw [← List.append_assoc]
    exact .last (hkey.space hs) hv
  | more hkey hv hms =>
    rw [← List.append_assoc]
    exact .more (hkey.space hs) hv hms

/-- What stands before the first character behind a value and some space is a text of the value. -/
theorem exists_isText {v : Json} {s u rest rest' : Text} {c : Char} (hs : Blank s)
    (hv : IsValue v u) (hrest : skipSpace rest = c :: rest') :
    ∃ w, IsText v w ∧ s ++ (u ++ rest) = w ++ c :: rest' := by
  obtain ⟨s', hs', hbehind⟩ := exists_blank rest
  refine ⟨_, .spaced hs hv hs', ?_⟩
  rw [hbehind, hrest]
  simp

mutual

theorem readValue?_eq_some : ∀ {fuel : Nat} {t rest : Text} {v : Json},
    readValue? fuel t = some (v, rest) → ∃ s u, Blank s ∧ IsValue v u ∧ t = s ++ (u ++ rest)
  | fuel + 1, t, rest, v, h => by
    obtain ⟨s, hs, ht⟩ := exists_blank t
    suffices ∃ u, IsValue v u ∧ skipSpace t = u ++ rest by
      obtain ⟨u, hu, heq⟩ := this
      exact ⟨s, u, hs, hu, heq ▸ ht⟩
    rw [readValue?] at h
    split at h
    · rename_i t' hopen
      obtain ⟨s', hs', ht'⟩ := exists_blank t'
      split at h
      · rename_i hclose
        obtain ⟨rfl, rfl⟩ := Prod.mk.inj (Option.some.inj h)
        refine ⟨_, .noMembers hs', ?_⟩
        rw [hopen, ht', hclose]
        simp
      · obtain ⟨⟨ms, behind⟩, hread, hpair⟩ := Option.map_eq_some_iff.1 h
        obtain ⟨rfl, rfl⟩ := Prod.mk.inj hpair
        obtain ⟨u, hms, hu⟩ := readMembers?_eq_some hread
        refine ⟨_, .members (hms.space hs'), ?_⟩
        rw [hopen, ht', hu]
        simp
    · rename_i t' hopen
      obtain ⟨s', hs', ht'⟩ := exists_blank t'
      split at h
      · rename_i hclose
        obtain ⟨rfl, rfl⟩ := Prod.mk.inj (Option.some.inj h)
        refine ⟨_, .noItems hs', ?_⟩
        rw [hopen, ht', hclose]
        simp
      · obtain ⟨⟨vs, behind⟩, hread, hpair⟩ := Option.map_eq_some_iff.1 h
        obtain ⟨rfl, rfl⟩ := Prod.mk.inj hpair
        obtain ⟨u, hvs, hu⟩ := readItems?_eq_some hread
        refine ⟨_, .items (hvs.space hs'), ?_⟩
        rw [hopen, ht', hu]
        simp
    · rename_i hopen
      obtain ⟨⟨units, behind⟩, hread, hpair⟩ := Option.map_eq_some_iff.1 h
      obtain ⟨rfl, rfl⟩ := Prod.mk.inj hpair
      obtain ⟨body, hbody, rfl⟩ := readString?_eq_some hread
      refine ⟨_, .string (.quoted hbody), ?_⟩
      rw [hopen]
      simp
    · split at h
      · rename_i hnull
        obtain ⟨rfl, rfl⟩ := Prod.mk.inj (Option.some.inj h)
        exact ⟨_, .null, Text.stripStart?_eq_some_iff.1 hnull⟩
      · split at h
        · rename_i htrue
          obtain ⟨rfl, rfl⟩ := Prod.mk.inj (Option.some.inj h)
          exact ⟨_, .true, Text.stripStart?_eq_some_iff.1 htrue⟩
        · split at h
          · rename_i hfalse
            obtain ⟨rfl, rfl⟩ := Prod.mk.inj (Option.some.inj h)
            exact ⟨_, .false, Text.stripStart?_eq_some_iff.1 hfalse⟩
          · obtain ⟨⟨n, behind⟩, hread, hpair⟩ := Option.map_eq_some_iff.1 h
            obtain ⟨rfl, rfl⟩ := Prod.mk.inj hpair
            obtain ⟨u, hu, heq⟩ := readNumeral?_eq_some hread
            exact ⟨u, .number hu, heq⟩

theorem readItems?_eq_some : ∀ {fuel : Nat} {t rest : Text} {vs : List Json},
    readItems? fuel t = some (vs, rest) → ∃ u, IsItems vs u ∧ t = u ++ ']' :: rest
  | fuel + 1, t, rest, vs, h => by
    simp only [readItems?, Option.bind_eq_bind, Option.bind_eq_some_iff] at h
    obtain ⟨⟨v, behind⟩, hread, h⟩ := h
    obtain ⟨s, u, hs, hv, rfl⟩ := readValue?_eq_some hread
    simp only at h
    split at h
    · rename_i hclose
      obtain ⟨rfl, rfl⟩ := Prod.mk.inj (Option.some.inj h)
      obtain ⟨w, hw, heq⟩ := exists_isText hs hv hclose
      exact ⟨w, .last hw, heq⟩
    · rename_i hcomma
      simp only [Option.bind_eq_some_iff] at h
      obtain ⟨⟨vs', rest'⟩, hmore, h⟩ := h
      obtain ⟨rfl, rfl⟩ := Prod.mk.inj (Option.some.inj h)
      obtain ⟨w, hw, heq⟩ := exists_isText hs hv hcomma
      obtain ⟨us, hvs, rfl⟩ := readItems?_eq_some hmore
      exact ⟨_, .more hw hvs, by rw [heq]; simp⟩
    · cases h

theorem readMembers?_eq_some : ∀ {fuel : Nat} {t rest : Text} {ms : List (Option Text × Json)},
    readMembers? fuel t = some (ms, rest) → ∃ u, IsMembers ms u ∧ t = u ++ '}' :: rest
  | fuel + 1, t, rest, ms, h => by
    simp only [readMembers?, Option.bind_eq_bind, Option.bind_eq_some_iff] at h
    obtain ⟨⟨key, behindKey⟩, hkey, ⟨v, behind⟩, hread, h⟩ := h
    obtain ⟨k, hk, rfl⟩ := readKey?_eq_some hkey
    obtain ⟨s, u, hs, hv, rfl⟩ := readValue?_eq_some hread
    simp only at h
    split at h
    · rename_i hclose
      obtain ⟨rfl, rfl⟩ := Prod.mk.inj (Option.some.inj h)
      obtain ⟨w, hw, heq⟩ := exists_isText hs hv hclose
      exact ⟨_, .last hk hw, by rw [heq]; simp⟩
    · rename_i hcomma
      simp only [Option.bind_eq_some_iff] at h
      obtain ⟨⟨ms', rest'⟩, hmore, h⟩ := h
      obtain ⟨rfl, rfl⟩ := Prod.mk.inj (Option.some.inj h)
      obtain ⟨w, hw, heq⟩ := exists_isText hs hv hcomma
      obtain ⟨us, hms, rfl⟩ := readMembers?_eq_some hmore
      exact ⟨_, .more hk hw hms, by rw [heq]; simp⟩
    · cases h

end

/-! ## What is of the grammar is read -/

@[simp] theorem skipSpace_skipSpace (t : Text) : skipSpace (skipSpace t) = skipSpace t :=
  List.dropWhile_idempotent _ _

theorem readValue?_skipSpace (fuel : Nat) (t : Text) :
    readValue? fuel (skipSpace t) = readValue? fuel t := by
  cases fuel with
  | zero => rfl
  | succ fuel => rw [readValue?, readValue?, skipSpace_skipSpace]

theorem readValue?_space {s : Text} (hs : Blank s) (fuel : Nat) (t : Text) :
    readValue? fuel (s ++ t) = readValue? fuel t := by
  rw [← readValue?_skipSpace, skipSpace_append hs, readValue?_skipSpace]

theorem readItems?_skipSpace (fuel : Nat) (t : Text) :
    readItems? fuel (skipSpace t) = readItems? fuel t := by
  cases fuel with
  | zero => rfl
  | succ fuel => simp only [readItems?, readValue?_skipSpace]

theorem readMembers?_skipSpace (fuel : Nat) (t : Text) :
    readMembers? fuel (skipSpace t) = readMembers? fuel t := by
  cases fuel with
  | zero => rfl
  | succ fuel => simp only [readMembers?, readKey?, skipSpace_skipSpace]

theorem readItems?_close (fuel : Nat) (t : Text) : readItems? fuel (']' :: t) = none := by
  rcases fuel with _ | _ | fuel <;> rfl

theorem readMembers?_close (fuel : Nat) (t : Text) : readMembers? fuel ('}' :: t) = none := by
  rcases fuel with _ | fuel <;> rfl

theorem ends_append {s rest : Text} (hs : Blank s) (hrest : Ends rest) : Ends (s ++ rest) := by
  intro c hc
  rcases s with _ | ⟨d, s⟩
  · exact hrest c hc
  · obtain rfl := Option.some.inj hc
    have hspace := hs d List.mem_cons_self
    simp only [isSpace, Bool.or_eq_true, beq_iff_eq] at hspace
    rcases hspace with ((rfl | rfl) | rfl) | rfl <;> decide

theorem head?_isNumeral {n : Numeral} {u : Text} (h : IsNumeral n u) :
    ∃ c t, u = c :: t ∧ (c = '-' ∨ isDigit c = true) := by
  cases h with
  | positive hwhole =>
    obtain ⟨c, t, rfl, hc⟩ := head?_isWhole hwhole
    exact ⟨c, _, rfl, .inr hc⟩
  | negative => exact ⟨'-', _, rfl, .inl rfl⟩

theorem readValue?_numeral {fuel : Nat} {n : Numeral} {u rest : Text} (h : IsNumeral n u)
    (hrest : Ends rest) : readValue? (fuel + 1) (u ++ rest) = some (number n, rest) := by
  have hread := readNumeral?_append h hrest
  obtain ⟨c, t, rfl, hc⟩ := head?_isNumeral h
  have hdigits : ∀ d : Fin 10, let c := Nat.digitChar d.val
      isSpace c = false ∧ c ≠ '{' ∧ c ≠ '[' ∧ c ≠ '"' ∧ 'n' ≠ c ∧ 't' ≠ c ∧ 'f' ≠ c := by decide
  have hfirst : isSpace c = false ∧ c ≠ '{' ∧ c ≠ '[' ∧ c ≠ '"' ∧ 'n' ≠ c ∧ 't' ≠ c ∧ 'f' ≠ c := by
    rcases hc with rfl | hc
    · decide
    · obtain ⟨d, rfl⟩ := exists_of_isDigit hc
      exact hdigits d
  obtain ⟨hspace, hbrace, hbracket, hquote, hnull, htrue, hfalse⟩ := hfirst
  rw [List.cons_append] at hread ⊢
  rw [readValue?, skipSpace_cons hspace]
  split
  · rename_i heq
    exact absurd (List.cons.inj heq).1 hbrace
  · rename_i heq
    exact absurd (List.cons.inj heq).1 hbracket
  · rename_i heq
    exact absurd (List.cons.inj heq).1 hquote
  · simp [Text.stripStart?, hnull, htrue, hfalse, hread]

theorem IsValue.length_pos {v : Json} {u : Text} (h : IsValue v u) : 0 < u.length := by
  cases h with
  | number hn =>
    obtain ⟨c, t, rfl, -⟩ := head?_isNumeral hn
    exact Nat.succ_pos _
  | string hstring =>
    obtain ⟨hbody⟩ := hstring
    exact Nat.succ_pos _
  | _ => exact Nat.succ_pos _

/-- Behind a text of a value the reader stops before a character that cannot belong to it. -/
theorem exists_behind {fuel : Nat} {v : Json} {w : Text} {c : Char}
    (hread : ∀ {u : Text} (rest : Text), IsValue v u → u.length ≤ fuel → Ends rest →
      readValue? fuel (u ++ rest) = some (v, rest))
    (h : IsText v w) (hw : w.length ≤ fuel) (hspace : isSpace c = false)
    (hends : continuesNumber c = false) (rest : Text) :
    ∃ behind, readValue? fuel (w ++ c :: rest) = some (v, behind)
      ∧ skipSpace behind = c :: rest := by
  obtain @⟨_, s, u, s', hs, hv, hs'⟩ := h
  refine ⟨s' ++ c :: rest, ?_, by rw [skipSpace_append hs', skipSpace_cons hspace]⟩
  rw [List.append_assoc, List.append_assoc, readValue?_space hs]
  refine hread _ hv ?_ (ends_append hs' fun d hd => ?_)
  · simp only [List.length_append] at hw
    omega
  · obtain rfl := Option.some.inj hd
    exact hends

mutual

theorem readValue?_append : ∀ (fuel : Nat) {u : Text} {v : Json} (rest : Text), IsValue v u →
    u.length ≤ fuel → Ends rest → readValue? fuel (u ++ rest) = some (v, rest)
  | 0, u, v, rest, h, hfuel, hrest => by
    have := h.length_pos
    omega
  | fuel + 1, u, v, rest, h, hfuel, hrest => by
    cases h with
    | null => rfl
    | true => rfl
    | false => rfl
    | number hn => exact readValue?_numeral hn hrest
    | string hstring =>
      obtain @⟨body, hbody⟩ := hstring
      rw [List.append_assoc, List.cons_append, readValue?, skipSpace_cons (by decide)]
      simp [readString?_append hbody]
    | @noItems s hs =>
      have hclose : skipSpace (s ++ ']' :: rest) = ']' :: rest := by
        rw [skipSpace_append hs, skipSpace_cons (by decide)]
      rw [List.cons_append, List.append_assoc, readValue?, skipSpace_cons (by decide)]
      simp [hclose]
    | @items vs t hvs =>
      have hread := readItems?_append fuel rest hvs (by simpa using hfuel)
      rw [List.cons_append, List.append_assoc, readValue?, skipSpace_cons (by decide)]
      simp only [List.singleton_append]
      rw [← readItems?_skipSpace] at hread
      split
      · rename_i hclose
        rw [hclose, readItems?_close] at hread
        cases hread
      · rw [hread]
        rfl
    | @noMembers s hs =>
      have hclose : skipSpace (s ++ '}' :: rest) = '}' :: rest := by
        rw [skipSpace_append hs, skipSpace_cons (by decide)]
      rw [List.cons_append, List.append_assoc, readValue?, skipSpace_cons (by decide)]
      simp [hclose]
    | @members ms t hms =>
      have hread := readMembers?_append fuel rest hms (by simpa using hfuel)
      rw [List.cons_append, List.append_assoc, readValue?, skipSpace_cons (by decide)]
      simp only [List.singleton_append]
      rw [← readMembers?_skipSpace] at hread
      split
      · rename_i hclose
        rw [hclose, readMembers?_close] at hread
        cases hread
      · rw [hread]
        rfl

theorem readItems?_append : ∀ (fuel : Nat) {t : Text} {vs : List Json} (rest : Text),
    IsItems vs t → t.length + 1 ≤ fuel → readItems? fuel (t ++ ']' :: rest) = some (vs, rest)
  | fuel + 1, t, vs, rest, h, hfuel => by
    cases h with
    | last hv =>
      obtain ⟨behind, hread, hclose⟩ := exists_behind (c := ']') (readValue?_append fuel) hv
        (by omega) (by decide) (by decide) rest
      simp [readItems?, hread, hclose]
    | @more v vs t ts hv hvs =>
      simp only [List.length_append, List.length_cons] at hfuel
      obtain ⟨behind, hread, hcomma⟩ := exists_behind (c := ',') (readValue?_append fuel) hv
        (by omega) (by decide) (by decide) (ts ++ ']' :: rest)
      have hmore := readItems?_append fuel rest hvs (by omega)
      simp [readItems?, hread, hcomma, hmore]

theorem readMembers?_append : ∀ (fuel : Nat) {t : Text} {ms : List (Option Text × Json)}
    (rest : Text), IsMembers ms t → t.length + 1 ≤ fuel →
      readMembers? fuel (t ++ '}' :: rest) = some (ms, rest)
  | fuel + 1, t, ms, rest, h, hfuel => by
    cases h with
    | @last key v k t hkey hv =>
      simp only [List.length_append] at hfuel
      obtain ⟨behind, hread, hclose⟩ := exists_behind (c := '}') (readValue?_append fuel) hv
        (by omega) (by decide) (by decide) rest
      simp [readMembers?, readKey?_append hkey, hread, hclose]
    | @more key v ms k t ts hkey hv hms =>
      simp only [List.length_append, List.length_cons] at hfuel
      obtain ⟨behind, hread, hcomma⟩ := exists_behind (c := ',') (readValue?_append fuel) hv
        (by omega) (by decide) (by decide) (ts ++ '}' :: rest)
      have hmore := readMembers?_append fuel rest hms (by omega)
      simp [readMembers?, readKey?_append hkey, hread, hcomma, hmore]

end

/-- A whole text is read as a value exactly if it is one by the grammar. -/
theorem parse?_eq_some_iff {t : Text} {v : Json} : parse? t = some v ↔ IsText v t := by
  simp only [parse?, Option.bind_eq_bind, Option.bind_eq_some_iff]
  constructor
  · rintro ⟨⟨v', rest⟩, hread, h⟩
    simp only at h
    split_ifs at h with hrest
    obtain rfl := Option.some.inj h
    obtain ⟨s, u, hs, hv, rfl⟩ := readValue?_eq_some hread
    exact .spaced hs hv (skipSpace_eq_nil_iff.1 hrest)
  · rintro @⟨_, s, u, s', hs, hv, hs'⟩
    refine ⟨(v, s'), ?_, if_pos (skipSpace_eq_nil_iff.2 hs')⟩
    have hends : Ends (s' ++ []) := ends_append hs' fun c hc => by cases hc
    rw [List.append_nil] at hends
    rw [readValue?_space hs]
    refine readValue?_append _ _ hv ?_ hends
    simp only [List.length_append]
    omega

end Json

end DidYouMean
