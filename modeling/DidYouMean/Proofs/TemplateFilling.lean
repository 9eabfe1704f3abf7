import DidYouMean.Proofs.Digits
import DidYouMean.Proofs.Trimming
import DidYouMean.Template
import Mathlib.Data.List.Forall2

/-!
# Filling templates

A template whose braces are in order is a row of pieces, text and places in braces. Filling goes
through it piece by piece (`Piece.exists_shows`): text stays, and so does a place that no argument
has the number of, while an argument is put down as it is and never looked at again. Braces that
are out of order are no places, so without arguments every template stays what it is.
-/

namespace DidYouMean

namespace Text

/-- Which texts write a number of 64 bits: some digits, with or without a plus sign before them. -/
inductive WritesWord : Text → Nat → Prop where
  | bare {ds : List (Fin 10)} : ds ≠ [] → decimal 0 ds < wordLimit →
      WritesWord (ofDigits ds) (decimal 0 ds)
  | plus {ds : List (Fin 10)} : ds ≠ [] → decimal 0 ds < wordLimit →
      WritesWord ('+' :: ofDigits ds) (decimal 0 ds)

theorem stripStart?_plus_ofDigits (ds : List (Fin 10)) :
    stripStart? ['+'] (ofDigits ds) = none := by
  cases ds with
  | nil => rfl
  | cons d ds =>
    have hplus : '+' ≠ Nat.digitChar d.val := by
      revert d
      decide
    simp [ofDigits, stripStart?, hplus]

theorem word?_eq_some_iff {t : Text} {n : Nat} : word? t = some n ↔ WritesWord t n := by
  rw [word?, Option.filter_eq_some_iff, digits?_eq_some_iff, decide_eq_true_eq]
  constructor
  · rintro ⟨⟨ds, hne, ht, rfl⟩, hlt⟩
    rcases hstrip : stripStart? ['+'] t with _ | rest
    · rw [hstrip, Option.getD_none] at ht
      rw [ht]
      exact .bare hne hlt
    · rw [hstrip, Option.getD_some] at ht
      rw [stripStart?_eq_some_iff.1 hstrip, ht]
      exact .plus hne hlt
  · rintro (⟨hne, hlt⟩ | ⟨hne, hlt⟩)
    · exact ⟨⟨_, hne, by rw [stripStart?_plus_ofDigits, Option.getD_none], rfl⟩, hlt⟩
    · exact ⟨⟨_, hne, rfl, rfl⟩, hlt⟩

end Text

namespace Template

/-- A piece of a template: text in which no brace opens, or a place with a label in its braces. -/
inductive Piece where
  | text (chunk : Text) (hopen : '{' ∉ chunk)
  | place (label : Text) (hopen : '{' ∉ label) (hclose : '}' ∉ label)

namespace Piece

def written : Piece → Text
  | text chunk _ => chunk
  | place label _ _ => '{' :: label ++ ['}']

/-- What a piece becomes. A place becomes the argument that its label is the number of; if there is
no such argument, or the label is no number, it stays. -/
inductive Shows (args : List Text) : Piece → Text → Prop where
  | text {chunk : Text} {hopen : '{' ∉ chunk} : Shows args (.text chunk hopen) chunk
  | argument {label arg : Text} {i : Nat} {hopen : '{' ∉ label} {hclose : '}' ∉ label} :
      Text.WritesWord label i → args[i]? = some arg → Shows args (.place label hopen hclose) arg
  | stays {label : Text} {hopen : '{' ∉ label} {hclose : '}' ∉ label} :
      (∀ i, Text.WritesWord label i → args.length ≤ i) →
      Shows args (.place label hopen hclose) ('{' :: label ++ ['}'])

theorem shows_rightUnique (args : List Text) : Relator.RightUnique (Shows args) := by
  intro piece t u ht hu
  cases ht with
  | text =>
    cases hu
    rfl
  | @argument label arg i _ _ hword harg =>
    cases hu with
    | argument hword' harg' =>
      rw [← Text.word?_eq_some_iff] at hword hword'
      obtain rfl := Option.some.inj (hword.symm.trans hword')
      exact Option.some.inj (harg.symm.trans harg')
    | stays hstays =>
      have hi : i < args.length := (List.getElem?_eq_some_iff.1 harg).1
      exact absurd (hstays i hword) (Nat.not_le_of_lt hi)
  | stays hstays =>
    cases hu with
    | argument hword harg =>
      have hi := (List.getElem?_eq_some_iff.1 harg).1
      exact absurd (hstays _ hword) (Nat.not_le_of_lt hi)
    | stays => rfl

end Piece

variable {args : List Text}

theorem fill_text_append : ∀ {chunk : Text}, '{' ∉ chunk → ∀ rest,
    fill args (chunk ++ rest) = chunk ++ fill args rest
  | [], _, rest => rfl
  | c :: chunk, h, rest => by
    rw [List.mem_cons, not_or] at h
    obtain ⟨hc, hchunk⟩ := h
    rw [List.cons_append, fill, if_neg (Ne.symm hc), fill_text_append hchunk, List.cons_append]

/-- Of a brace that opens no place with an argument, nothing is left out. -/
theorem fill_brace_of_stays {rest : Text}
    (h : ∀ i after, place? rest = some (i, after) → args.length ≤ i) :
    fill args ('{' :: rest) = '{' :: fill args rest := by
  rw [fill, if_pos rfl]
  split
  · rename_i i after hplace
    rw [List.getElem?_eq_none (h i after hplace)]
  · rfl

theorem fill_brace_of_argument {rest after arg : Text} {i : Nat}
    (hplace : place? rest = some (i, after)) (harg : args[i]? = some arg) :
    fill args ('{' :: rest) = arg ++ fill args after := by
  rw [fill, if_pos rfl]
  split
  · rename_i j after' hplace'
    obtain ⟨rfl, rfl⟩ := Prod.mk.inj (Option.some.inj (hplace.symm.trans hplace'))
    rw [harg]
  · rename_i hnone
    rw [hplace] at hnone
    cases hnone

theorem place?_append {label : Text} (hclose : '}' ∉ label) (rest : Text) :
    place? (label ++ '}' :: rest) = (Text.word? label).map (·, rest) := by
  have hlabel : ∀ c ∈ label, (c != '}') = true := fun c hc =>
    bne_iff_ne.2 (ne_of_mem_of_not_mem hc hclose)
  rw [place?, List.dropWhile_append_of_pos hlabel, List.takeWhile_append_of_pos hlabel,
    List.dropWhile_cons_of_neg (by simp), List.takeWhile_cons_of_neg (by simp), List.append_nil]

/-- Filling a template puts down what its first piece becomes and goes on behind that piece. -/
theorem Piece.exists_shows (args : List Text) (piece : Piece) : ∃ shown, piece.Shows args shown
    ∧ ∀ rest, fill args (piece.written ++ rest) = shown ++ fill args rest := by
  cases piece with
  | text chunk hopen => exact ⟨chunk, .text, fill_text_append hopen⟩
  | place label hopen hclose =>
    have hwritten : ∀ rest, (Piece.place label hopen hclose).written ++ rest
        = '{' :: (label ++ '}' :: rest) := by
      intro rest
      simp [Piece.written]
    by_cases hnumber : ∃ i, Text.WritesWord label i ∧ i < args.length
    · obtain ⟨i, hword, hi⟩ := hnumber
      have harg : args[i]? = some args[i] := List.getElem?_eq_getElem hi
      refine ⟨args[i], .argument hword harg, fun rest => ?_⟩
      rw [hwritten]
      refine fill_brace_of_argument ?_ harg
      rw [place?_append hclose, Text.word?_eq_some_iff.2 hword, Option.map_some]
    · have hstays : ∀ i, Text.WritesWord label i → args.length ≤ i := fun i hword =>
        Nat.le_of_not_lt fun hi => hnumber ⟨i, hword, hi⟩
      refine ⟨_, .stays hstays, fun rest => ?_⟩
      -- The label and the closing brace behind it are text once the opening brace is none.
      have hplain : '{' ∉ label ++ ['}'] := by simp [hopen]
      rw [hwritten, fill_brace_of_stays, List.append_cons label, fill_text_append hplain]
      · rfl
      · intro i after hplace
        rw [place?_append hclose, Option.map_eq_some_iff] at hplace
        obtain ⟨j, hword, hj⟩ := hplace
        rw [← (Prod.mk.inj hj).1]
        exact hstays j (Text.word?_eq_some_iff.1 hword)

theorem exists_shows (args : List Text) : ∀ pieces : List Piece,
    ∃ shown, List.Forall₂ (Piece.Shows args) pieces shown
      ∧ fill args (pieces.flatMap Piece.written) = shown.flatten
  | [] => ⟨[], .nil, by rw [List.flatMap_nil, fill, List.flatten_nil]⟩
  | piece :: pieces => by
    obtain ⟨first, hfirst, hfill⟩ := piece.exists_shows args
    obtain ⟨others, hothers, hrest⟩ := exists_shows args pieces
    refine ⟨first :: others, .cons hfirst hothers, ?_⟩
    rw [List.flatMap_cons, hfill, hrest, List.flatten_cons]

@[simp] theorem fill_nil : ∀ template : Text, fill [] template = template
  | [] => by rw [fill]
  | c :: rest => by
    by_cases hc : c = '{'
    · rw [hc, fill_brace_of_stays (by simp), fill_nil rest]
    · rw [fill, if_neg hc, fill_nil rest]

end Template

/-- A template of text and places is filled piece by piece, and there is one thing that each piece
becomes. Without arguments any template stays what it is, whatever braces it has. -/
theorem template_filled (args : List Text) (pieces : List Template.Piece) (template : Text) :
    (∃ shown, (∀ others, List.Forall₂ (Template.Piece.Shows args) pieces others ↔ others = shown)
        ∧ Template.fill args (pieces.flatMap Template.Piece.written) = shown.flatten)
      ∧ Template.fill [] template = template := by
  obtain ⟨shown, hshown, hfill⟩ := Template.exists_shows args pieces
  refine ⟨⟨shown, fun others => ⟨fun hothers => ?_, fun h => h ▸ hshown⟩, hfill⟩,
    Template.fill_nil template⟩
  exact List.right_unique_forall₂' (Template.Piece.shows_rightUnique args) hothers hshown

end DidYouMean
