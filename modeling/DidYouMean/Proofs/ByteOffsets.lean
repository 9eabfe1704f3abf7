import DidYouMean.Text
import Mathlib.Data.List.Basic
import Mathlib.Tactic.SplitIfs

/-!
# Byte offsets

A place in a text may be told by the number of bytes before it. Not every number is such a place,
since one may be inside of a character or behind the end. At those numbers a text is not cut, at all
others it is (`cutAtByte?_eq_some_iff`).
-/

namespace DidYouMean

namespace Text

variable {t before rest : Text} {offset : Nat}

@[simp] theorem byteLength_append (s t : Text) :
    byteLength (s ++ t) = byteLength s + byteLength t := by
  simp [byteLength, bytes]

theorem byteLength_cons (c : Char) (t : Text) :
    byteLength (c :: t) = byteLength [c] + byteLength t := byteLength_append [c] t

theorem byteLength_le_of_isPrefix {s t : Text} (h : s <+: t) : byteLength s ≤ byteLength t := by
  obtain ⟨rest, rfl⟩ := h
  rw [byteLength_append]
  omega

theorem byteLength_pos {t : Text} (h : t ≠ []) : 0 < byteLength t := by
  obtain ⟨c, rest, rfl⟩ := List.exists_cons_of_ne_nil h
  have hchar := List.length_pos_iff.2 (@String.utf8EncodeChar_ne_nil c)
  have hbytes : byteLength (c :: rest) = (String.utf8EncodeChar c).length + byteLength rest := by
    simp [byteLength, bytes]
  omega

/-- What stands before and behind a byte offset, if a character begins there or the text ends. -/
def cutAtByte? : (offset : Nat) → Text → Option (Text × Text)
  | 0, t => some ([], t)
  | _ + 1, [] => none
  | offset + 1, c :: t =>
    if byteLength [c] ≤ offset + 1 then
      (cutAtByte? (offset + 1 - byteLength [c]) t).map fun (before, rest) => (c :: before, rest)
    else none

theorem cutAtByte?_append (before rest : Text) :
    cutAtByte? (byteLength before) (before ++ rest) = some (before, rest) := by
  induction before with
  | nil => simp [byteLength, bytes, cutAtByte?]
  | cons c before ih =>
    have hlength := byteLength_cons c before
    obtain ⟨n, hn⟩ : ∃ n, byteLength (c :: before) = n + 1 :=
      Nat.exists_eq_add_one.2 (byteLength_pos (List.cons_ne_nil c before))
    have hrest : n + 1 - byteLength [c] = byteLength before := by omega
    rw [hn, List.cons_append, cutAtByte?, if_pos (by omega), hrest, ih, Option.map_some]

theorem eq_append_of_cutAtByte? {rest : Text} : ∀ {offset : Nat} {t before : Text},
    cutAtByte? offset t = some (before, rest) →
      t = before ++ rest ∧ byteLength before = offset
  | 0, t, before, h => by
    rw [cutAtByte?] at h
    obtain ⟨rfl, rfl⟩ := Prod.mk.inj (Option.some.inj h)
    exact ⟨rfl, rfl⟩
  | offset + 1, [], before, h => by cases h
  | offset + 1, c :: t, before, h => by
    rw [cutAtByte?] at h
    split_ifs at h with hfits
    obtain ⟨⟨before', rest'⟩, hcut, hpair⟩ := Option.map_eq_some_iff.1 h
    obtain ⟨rfl, rfl⟩ := Prod.mk.inj hpair
    obtain ⟨rfl, hlength⟩ := eq_append_of_cutAtByte? hcut
    refine ⟨rfl, ?_⟩
    rw [byteLength_cons, hlength]
    omega

/-- A text is cut at the byte offsets of its characters and of its end, and at no others. -/
theorem cutAtByte?_eq_some_iff : cutAtByte? offset t = some (before, rest) ↔
    t = before ++ rest ∧ byteLength before = offset := by
  refine ⟨eq_append_of_cutAtByte?, fun ⟨ht, hoffset⟩ => ?_⟩
  exact ht ▸ hoffset ▸ cutAtByte?_append before rest

end Text

end DidYouMean
