import DidYouMean.Text
import Mathlib.Data.List.Basic
import Mathlib.Tactic.SplitIfs

/-!
# Decimal digits

A text of decimal digits is written by a list of numbers below ten, the leading one first, and these
are what is read of it.
-/

namespace DidYouMean

namespace Text

/-- The number that decimal digits write behind those of `n`, the leading digit first. -/
def decimal (n : Nat) (ds : List (Fin 10)) : Nat := ds.foldl (fun n d => n * 10 + d.val) n

def ofDigits (ds : List (Fin 10)) : Text := ds.map fun d => Nat.digitChar d.val

@[simp] theorem digit?_digitChar (d : Fin 10) : digit? (Nat.digitChar d.val) = some d.val := by
  revert d
  decide

theorem exists_of_digit? {c : Char} {n : Nat} (h : digit? c = some n) :
    ∃ d : Fin 10, c = Nat.digitChar d.val ∧ n = d.val := by
  unfold digit? at h
  split_ifs at h with hc
  have hlow : 48 ≤ c.toNat := hc.1
  have hhigh : c.toNat ≤ 57 := hc.2
  have hn : n + 48 = c.toNat := by
    have : c.toNat - 48 = n := Option.some.inj h
    omega
  have hchars : ∀ d : Fin 10, Char.ofNat (d.val + 48) = Nat.digitChar d.val := by decide
  refine ⟨⟨n, by omega⟩, ?_, rfl⟩
  rw [← hchars, hn, Char.ofNat_toNat]

theorem foldlM_digit?_eq_some_iff {n : Nat} : ∀ {t : Text} {m : Nat},
    t.foldlM (fun n c => (digit? c).map (n * 10 + ·)) m = some n ↔
      ∃ ds, t = ofDigits ds ∧ n = decimal m ds
  | [], m => by
    constructor
    · intro h
      exact ⟨[], rfl, (Option.some.inj h).symm⟩
    · rintro ⟨ds, ht, rfl⟩
      rw [List.map_eq_nil_iff.1 ht.symm]
      rfl
  | c :: t, m => by
    rw [List.foldlM_cons, Option.bind_eq_bind, Option.bind_eq_some_iff]
    constructor
    · rintro ⟨next, hnext, hrest⟩
      obtain ⟨value, hvalue, rfl⟩ := Option.map_eq_some_iff.1 hnext
      obtain ⟨d, rfl, rfl⟩ := exists_of_digit? hvalue
      obtain ⟨ds, rfl, rfl⟩ := foldlM_digit?_eq_some_iff.1 hrest
      exact ⟨d :: ds, rfl, rfl⟩
    · rintro ⟨ds, ht, rfl⟩
      obtain ⟨d, ds, rfl, rfl, rfl⟩ := List.map_eq_cons_iff.1 ht.symm
      exact ⟨m * 10 + d.val, by rw [digit?_digitChar, Option.map_some],
        foldlM_digit?_eq_some_iff.2 ⟨ds, rfl, rfl⟩⟩

theorem digits?_eq_some_iff {t : Text} {n : Nat} :
    digits? t = some n ↔ ∃ ds, ds ≠ [] ∧ t = ofDigits ds ∧ n = decimal 0 ds := by
  unfold digits?
  split_ifs with hnil
  · subst hnil
    simp [ofDigits]
  · rw [foldlM_digit?_eq_some_iff]
    constructor
    · rintro ⟨ds, rfl, rfl⟩
      exact ⟨ds, fun hds => hnil (by rw [hds]; rfl), rfl, rfl⟩
    · rintro ⟨ds, -, ht, hn⟩
      exact ⟨ds, ht, hn⟩

end Text

end DidYouMean
