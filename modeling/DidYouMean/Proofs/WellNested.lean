import DidYouMean.Signature.Segments
import Mathlib.Data.List.Basic
import Mathlib.Tactic.SplitIfs

/-!
# Well-nested texts

In a well-nested text every bracket is closed by one of its own kind. Read at some depth, such a
text leads back to that depth, and inside of its brackets the depth is greater all the way. So a
pass through a signature that stops nowhere inside of brackets goes over a well-nested text as if
it were one character (`WellNested.scan_append`). Cutting at semicolons, looking for the end of a
parameter list and looking for the end of a clause of type parameters are three such passes.
-/

namespace DidYouMean

namespace Signature

/-- The kinds of brackets. -/
inductive Bracket where
  | paren
  | bracket
  | brace
  | angle
  deriving DecidableEq, Repr

namespace Bracket

def opening : Bracket → Char
  | paren => '('
  | bracket => '['
  | brace => '{'
  | angle => '<'

def closing : Bracket → Char
  | paren => ')'
  | bracket => ']'
  | brace => '}'
  | angle => '>'

end Bracket

/-- Whether a character opens or closes a bracket. -/
def isBracket (c : Char) : Bool := ['(', ')', '[', ']', '{', '}', '<', '>'].contains c

/-- A text of characters that are no brackets, arrows, and groups in brackets that are well nested
inside. A `>` after `=` would be an arrow, so nothing in angle brackets ends in `=`. Outside of all
groups only the characters with `allowed` stand. -/
inductive WellNested : (allowed : Char → Bool) → Text → Prop where
  | nil {allowed : Char → Bool} : WellNested allowed []
  | char {allowed : Char → Bool} {c : Char} {t : Text} (hc : isBracket c = false)
      (hallowed : allowed c = true) (ht : WellNested allowed t) : WellNested allowed (c :: t)
  | arrow {allowed : Char → Bool} {t : Text} (hallowed : allowed '=' = true)
      (ht : WellNested allowed t) : WellNested allowed ('=' :: '>' :: t)
  | group {allowed : Char → Bool} {inside t : Text} (b : Bracket)
      (harrow : b = .angle → inside.getLast? ≠ some '=')
      (hinside : WellNested (fun _ => true) inside) (ht : WellNested allowed t) :
      WellNested allowed (b.opening :: (inside ++ b.closing :: t))

theorem WellNested.plain_append {allowed : Char → Bool} {t : Text} : ∀ {s : Text},
    (s.all fun c => !isBracket c && allowed c) = true → WellNested allowed t →
      WellNested allowed (s ++ t)
  | [], _, ht => ht
  | c :: s, hs, ht => by
    rw [List.all_cons, Bool.and_eq_true, Bool.and_eq_true, Bool.not_eq_true'] at hs
    exact .char hs.1.1 hs.1.2 (plain_append hs.2 ht)

namespace Depth

/-- The depth behind an opening bracket. -/
def opened (d : Depth) (b : Bracket) : Depth := d.advance none b.opening

variable {d : Depth} {before : Option Char} {b : Bracket} {c : Char}

theorem advance_opening : d.advance before b.opening = d.opened b := by
  cases b <;> rfl

theorem advance_closing (h : b = .angle → before ≠ some '=') :
    (d.opened b).advance before b.closing = d := by
  cases b with
  | angle => simp [opened, advance, Bracket.opening, Bracket.closing, h rfl]
  | _ => rfl

theorem advance_of_not_bracket (h : isBracket c = false) : d.advance before c = d := by
  unfold advance
  split
  case h_9 => rfl
  all_goals simp [isBracket] at h

theorem advance_arrow : d.advance (some '=') '>' = d := by
  simp [advance]

theorem isTop_opened : (d.opened b).isTop = false := by
  cases b <;> simp [opened, advance, isTop, Bracket.opening]

theorem angle_le_opened : d.angle ≤ (d.opened b).angle := by
  cases b <;> simp [opened, advance, Bracket.opening]

/-- The count of angle brackets minds no bracket of another kind. -/
theorem angle_advance : (d.advance before c).angle
    = if c = '<' then d.angle + 1
      else if c = '>' ∧ before ≠ some '=' then d.angle - 1 else d.angle := by
  unfold advance
  split
  case h_8 => by_cases h : before = some '=' <;> simp [h]
  case h_9 hopen hclose => rw [if_neg hopen, if_neg fun h => hclose h.1]
  all_goals simp

end Depth

theorem isBracket_opening (b : Bracket) : isBracket b.opening = true := by
  cases b <;> rfl

theorem isBracket_closing (b : Bracket) : isBracket b.closing = true := by
  cases b <;> rfl

theorem getLast?_cons_or (c : Char) (t : Text) (before : Option Char) :
    (c :: t).getLast?.or before = t.getLast?.or (some c) := by
  rw [List.getLast?_cons, Option.some_or, Option.or_some]

theorem getLast?_or_ne {c : Char} {t : Text} {before : Option Char} (hlast : t.getLast? ≠ some c)
    (hbefore : before ≠ some c) : t.getLast?.or before ≠ some c := by
  rcases ht : t.getLast? with _ | d
  · rwa [Option.none_or]
  · rwa [Option.some_or, ← ht]

section

variable {β : Type} (scan : Depth → Option Char → Text → β) {keep : Char → β → β}
  (Goes : Depth → Char → Prop)

/-- A pass that goes on at what is allowed outside of groups, and inside of them at whatever comes,
goes on behind the whole text at the depth it came with. -/
theorem WellNested.scan_append {allowed : Char → Bool} {w : Text} (h : WellNested allowed w)
    (hopened : ∀ d b c, Goes d b.opening → Goes (d.opened b) c)
    (hscan : ∀ d before c t, Goes d c → Goes (d.advance before c) c →
      scan d before (c :: t) = keep c (scan (d.advance before c) (some c) t)) :
    ∀ {d : Depth}, (∀ c, isBracket c = true ∨ allowed c = true → Goes d c) →
      ∀ before t, scan d before (w ++ t) = w.foldr keep (scan d (w.getLast?.or before) t) := by
  induction h with
  | nil => intro d hd before t; rfl
  | @char allowed c w hc hallowed _ ih =>
    intro d hd before t
    have hnext : d.advance before c = d := Depth.advance_of_not_bracket hc
    have hgoes : Goes d c := hd c (.inr hallowed)
    rw [List.cons_append, hscan d before c _ hgoes (by rwa [hnext]), hnext, ih hd,
      getLast?_cons_or, List.foldr_cons]
  | @arrow allowed w hallowed _ ih =>
    intro d hd before t
    have hnext : d.advance before '=' = d := Depth.advance_of_not_bracket rfl
    have hgoes : Goes d '=' := hd '=' (.inr hallowed)
    have hgoes' : Goes d '>' := hd '>' (.inl rfl)
    rw [List.cons_append, List.cons_append, hscan d before '=' _ hgoes (by rwa [hnext]), hnext,
      hscan d (some '=') '>' _ hgoes' (by rwa [Depth.advance_arrow]), Depth.advance_arrow, ih hd,
      getLast?_cons_or, getLast?_cons_or, List.foldr_cons, List.foldr_cons]
  | @group allowed inside w b harrow _ _ ihinside ih =>
    intro d hd before t
    have hgoes : Goes d b.opening := hd _ (.inl (isBracket_opening b))
    have hinside : ∀ c, Goes (d.opened b) c := fun c => hopened d b c hgoes
    have hclosed : (d.opened b).advance (inside.getLast?.or (some b.opening)) b.closing = d := by
      refine Depth.advance_closing fun hb => getLast?_or_ne (harrow hb) ?_
      simp [hb, Bracket.opening]
    rw [List.cons_append, hscan d before _ _ hgoes (by rw [Depth.advance_opening]; exact hinside _),
      Depth.advance_opening, List.append_assoc, List.cons_append, ihinside fun c _ => hinside c,
      hscan _ _ _ _ (hinside _) (by rw [hclosed]; exact hd _ (.inl (isBracket_closing b))),
      hclosed, ih hd, getLast?_cons_or, List.getLast?_append, getLast?_cons_or, Option.or_assoc,
      Option.some_or, List.foldr_cons, List.foldr_append, List.foldr_cons]

end

@[simp] theorem pieces_ne_nil : ∀ (d : Depth) (before : Option Char) (t : Text),
    pieces d before t ≠ []
  | _, _, [] => List.cons_ne_nil _ _
  | d, before, c :: t => by
    rw [pieces]
    split_ifs
    · exact List.cons_ne_nil _ _
    · split <;> exact List.cons_ne_nil _ _

/-- A character in front of the first piece. -/
def consFirst (c : Char) : List Text → List Text
  | piece :: rest => (c :: piece) :: rest
  | [] => [[c]]

theorem foldr_consFirst (piece : Text) (rest : List Text) : ∀ w : Text,
    w.foldr consFirst (piece :: rest) = (w ++ piece) :: rest
  | [] => rfl
  | c :: w => by rw [List.foldr_cons, foldr_consFirst piece rest w, consFirst, List.cons_append]

theorem pieces_cons {d : Depth} {before : Option Char} {c : Char} {t : Text}
    (h : c = ';' → d.isTop = false) :
    pieces d before (c :: t) = consFirst c (pieces (d.advance before c) (some c) t) := by
  rw [pieces, if_neg]
  · rfl
  · rintro ⟨hc, htop⟩
    rw [h hc] at htop
    exact Bool.false_ne_true htop

theorem pieces_semicolon {d : Depth} (h : d.isTop = true) (before : Option Char) (t : Text) :
    pieces d before (';' :: t) = [] :: pieces d (some ';') t := by
  rw [pieces, if_pos ⟨rfl, h⟩]

variable {allowed : Char → Bool} {w : Text}

/-- A well-nested text without a semicolon at top level stays in one piece. -/
theorem WellNested.pieces_append (h : WellNested allowed w) {d : Depth}
    (hcut : d.isTop = true → allowed ';' = false) (before : Option Char) (t : Text) {piece : Text}
    {rest : List Text} (hrest : pieces d (w.getLast?.or before) t = piece :: rest) :
    pieces d before (w ++ t) = (w ++ piece) :: rest := by
  rw [← foldr_consFirst, ← hrest]
  refine h.scan_append pieces (fun d c => c = ';' → d.isTop = false)
    (fun d b c _ _ => Depth.isTop_opened) (fun d before c t hgoes _ => pieces_cons hgoes) ?_
    before t
  rintro c hc rfl
  rw [← Bool.not_eq_true]
  intro htop
  simp [hcut htop, isBracket] at hc

theorem closeGroup?_cons {d : Depth} {before : Option Char} {c : Char} {t : Text}
    (h : (d.advance before c).isTop = false) :
    closeGroup? d before (c :: t)
      = (closeGroup? (d.advance before c) (some c) t).map (Prod.map (c :: ·) id) := by
  rw [closeGroup?, if_neg]
  · rfl
  · rintro ⟨-, htop⟩
    rw [h] at htop
    exact Bool.false_ne_true htop

/-- A group in parentheses is closed by its own bracket. -/
theorem WellNested.closeGroup?_append (h : WellNested allowed w) (before : Option Char) (t : Text) :
    closeGroup? (Depth.zero.opened .paren) before (w ++ ')' :: t) = some (w, t) := by
  have hkeep : ∀ u : Text, u.foldr (fun c => Option.map (Prod.map (c :: ·) id)) (some ([], t))
      = some (u, t) := by
    intro u
    induction u with
    | nil => rfl
    | cons c u ih => rw [List.foldr_cons, ih, Option.map_some, Prod.map, id]
  rw [h.scan_append closeGroup? (fun d _ => d.isTop = false) (fun d b c _ => Depth.isTop_opened)
    (fun d before c t _ hnext => closeGroup?_cons hnext) fun c _ => Depth.isTop_opened]
  exact hkeep w

/-- The arrow of a function type is looked for right behind its parameter list. -/
theorem WellNested.arrow?_append (h : WellNested allowed w) (t : Text) :
    arrow? ('(' :: (w ++ ')' :: t)) = (Text.stripStart? " => ".toList t).map fun u => (w, u) := by
  have hgroup := h.closeGroup?_append (some '(') t
  rw [Depth.opened, Bracket.opening] at hgroup
  simp only [arrow?, hgroup, Option.bind_eq_bind, Option.bind_some, Option.pure_def]
  rcases Text.stripStart? " => ".toList t with _ | u <;> rfl

theorem throughAngle?_cons {d : Depth} {before : Option Char} {c : Char} {t : Text}
    (h : 0 < d.angle) (hnext : 0 < (d.advance before c).angle) :
    throughAngle? d.angle before (c :: t)
      = (throughAngle? (d.advance before c).angle (some c) t).map (c :: ·) := by
  rw [Depth.angle_advance] at hnext ⊢
  rw [throughAngle?]
  by_cases hopen : c = '<'
  · rw [if_pos hopen, if_pos hopen]
  · rw [if_neg hopen] at hnext
    rw [if_neg hopen, if_neg hopen]
    by_cases hclose : c = '>' ∧ before ≠ some '='
    · rw [if_pos hclose] at hnext
      rw [if_pos ⟨hclose.1, hclose.2, h⟩, if_neg (by omega), if_pos hclose]
    · rw [if_neg hclose, if_neg fun hc => hclose ⟨hc.1, hc.2.1⟩]

/-- A clause of type parameters is closed by its own bracket. -/
theorem WellNested.throughAngle?_append (h : WellNested allowed w)
    (harrow : w.getLast? ≠ some '=') (t : Text) :
    throughAngle? 1 (some '<') (w ++ '>' :: t) = some (w ++ ['>']) := by
  have hkeep : ∀ u : Text, u.foldr (fun c => Option.map (c :: ·)) (some ['>'])
      = some (u ++ ['>']) := by
    intro u
    induction u with
    | nil => rfl
    | cons c u ih => rw [List.foldr_cons, ih, Option.map_some, List.cons_append]
  have hlast : w.getLast?.or (some '<') ≠ some '=' := getLast?_or_ne harrow (by simp)
  have hend : throughAngle? 1 (w.getLast?.or (some '<')) ('>' :: t) = some ['>'] := by
    rw [throughAngle?, if_neg (by decide), if_pos ⟨rfl, hlast, Nat.one_pos⟩, if_pos rfl]
  have hscan := h.scan_append (fun d => throughAngle? d.angle) (fun d _ => 0 < d.angle)
    (fun d b c hd => Nat.lt_of_lt_of_le hd Depth.angle_le_opened)
    (fun d before c t => throughAngle?_cons) (d := Depth.zero.opened .angle)
    (fun c _ => Nat.zero_lt_one) (some '<') ('>' :: t)
  rw [← hkeep w, ← hend]
  exact hscan

end Signature

end DidYouMean
