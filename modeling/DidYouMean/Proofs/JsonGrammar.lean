import DidYouMean.Json.Parser
import DidYouMean.Proofs.Digits
import DidYouMean.Proofs.Trimming
import Mathlib.Data.List.TakeWhile

/-!
# The grammar of JSON

The grammar of RFC 8259, rule by rule, as relations of what is written and the text of it. The
readers take exactly the texts of the grammar (`parse?_eq_some_iff`). What a reader has taken is of
the grammar whatever comes behind it. In the other direction, a number is only read to its end if
nothing comes behind it that could belong to it, which nothing does that the grammar allows there.
-/

namespace DidYouMean

namespace Json

open Text (ofDigits decimal)

/-! ## Rules -/

/-- Nothing but space. -/
def Blank (s : Text) : Prop := ∀ c ∈ s, isSpace c = true

/-- What stands between the quotes of a string. -/
inductive Spells : List Nat → Text → Prop where
  | nil : Spells [] []
  | plain {units : List Nat} {c : Char} {t : Text} : c ≠ '"' → c ≠ '\\' → 0x20 ≤ c.toNat →
      Spells units t → Spells (c.toNat :: units) (c :: t)
  | escaped {units : List Nat} {c e : Char} {t : Text} : escape? c = some e →
      Spells units t → Spells (e.toNat :: units) ('\\' :: c :: t)
  | coded {units : List Nat} {a b c d : Char} {i j k l : Nat} {t : Text} : hexDigit? a = some i →
      hexDigit? b = some j → hexDigit? c = some k → hexDigit? d = some l → Spells units t →
      Spells ((((i * 16 + j) * 16 + k) * 16 + l) :: units) ('\\' :: 'u' :: a :: b :: c :: d :: t)

/-- A string in its quotes. -/
inductive IsString : List Nat → Text → Prop where
  | quoted {units : List Nat} {t : Text} : Spells units t → IsString units ('"' :: t ++ ['"'])

/-- The digits before the point. -/
inductive IsWhole : Text → Prop where
  | zero : IsWhole ['0']
  | nonzero {d : Fin 10} {ds : List (Fin 10)} : d ≠ 0 → IsWhole (ofDigits (d :: ds))

/-- The digits behind the point, and the point with them. -/
inductive IsFraction : Text → Text → Prop where
  | none : IsFraction [] []
  | some {ds : List (Fin 10)} : ds ≠ [] → IsFraction (ofDigits ds) ('.' :: ofDigits ds)

/-- The power of ten, and its digits behind a mark and perhaps a sign. -/
inductive IsExponent : Option Int → Text → Prop where
  | none : IsExponent none []
  | bare {mark : Char} {ds : List (Fin 10)} : mark = 'e' ∨ mark = 'E' → ds ≠ [] →
      IsExponent (some (decimal 0 ds)) (mark :: ofDigits ds)
  | plus {mark : Char} {ds : List (Fin 10)} : mark = 'e' ∨ mark = 'E' → ds ≠ [] →
      IsExponent (some (decimal 0 ds)) (mark :: '+' :: ofDigits ds)
  | minus {mark : Char} {ds : List (Fin 10)} : mark = 'e' ∨ mark = 'E' → ds ≠ [] →
      IsExponent (some (-(decimal 0 ds : Int))) (mark :: '-' :: ofDigits ds)

/-- A number. -/
inductive IsNumeral : Numeral → Text → Prop where
  | positive {whole digits fraction power : Text} {e : Option Int} : IsWhole whole →
      IsFraction digits fraction → IsExponent e power →
      IsNumeral ⟨false, whole, digits, e⟩ (whole ++ (fraction ++ power))
  | negative {whole digits fraction power : Text} {e : Option Int} : IsWhole whole →
      IsFraction digits fraction → IsExponent e power →
      IsNumeral ⟨true, whole, digits, e⟩ ('-' :: (whole ++ (fraction ++ power)))

/-- The key of a member and the colon behind it. -/
inductive IsKey : Option Text → Text → Prop where
  | key {units : List Nat} {s t s' : Text} : Blank s → IsString units t → Blank s' →
      IsKey (spell? units) (s ++ (t ++ (s' ++ [':'])))

mutual

/-- A value. -/
inductive IsValue : Json → Text → Prop where
  | null : IsValue null "null".toList
  | true : IsValue (bool true) "true".toList
  | false : IsValue (bool false) "false".toList
  | number {n : Numeral} {t : Text} : IsNumeral n t → IsValue (number n) t
  | string {units : List Nat} {t : Text} : IsString units t → IsValue (string (spell? units)) t
  | noItems {s : Text} : Blank s → IsValue (array []) ('[' :: (s ++ [']']))
  | items {vs : List Json} {t : Text} : IsItems vs t → IsValue (array vs) ('[' :: (t ++ [']']))
  | noMembers {s : Text} : Blank s → IsValue (object []) ('{' :: (s ++ ['}']))
  | members {ms : List (Option Text × Json)} {t : Text} : IsMembers ms t →
      IsValue (object ms) ('{' :: (t ++ ['}']))

/-- A value in some space, which is what a whole text has to be. -/
inductive IsText : Json → Text → Prop where
  | spaced {v : Json} {s t s' : Text} : Blank s → IsValue v t → Blank s' →
      IsText v (s ++ (t ++ s'))

/-- Items with commas between them. -/
inductive IsItems : List Json → Text → Prop where
  | last {v : Json} {t : Text} : IsText v t → IsItems [v] t
  | more {v : Json} {vs : List Json} {t ts : Text} : IsText v t → IsItems vs ts →
      IsItems (v :: vs) (t ++ ',' :: ts)

/-- Members with commas between them. -/
inductive IsMembers : List (Option Text × Json) → Text → Prop where
  | last {key : Option Text} {v : Json} {k t : Text} : IsKey key k → IsText v t →
      IsMembers [(key, v)] (k ++ t)
  | more {key : Option Text} {v : Json} {ms : List (Option Text × Json)} {k t ts : Text} :
      IsKey key k → IsText v t → IsMembers ms ts →
      IsMembers ((key, v) :: ms) (k ++ (t ++ ',' :: ts))

end

/-! ## Tokens -/

section Space

variable {s t : Text} {c : Char}

theorem skipSpace_append (h : Blank s) : skipSpace (s ++ t) = skipSpace t :=
  List.dropWhile_append_of_pos h

theorem skipSpace_cons (h : isSpace c = false) : skipSpace (c :: t) = c :: t :=
  List.dropWhile_cons_of_neg (by simp [h])

theorem exists_blank (t : Text) : ∃ s, Blank s ∧ t = s ++ skipSpace t :=
  ⟨t.takeWhile isSpace, fun _ => List.mem_takeWhile_imp, List.takeWhile_append_dropWhile.symm⟩

theorem skipSpace_eq_nil_iff : skipSpace t = [] ↔ Blank t := by
  rw [skipSpace, List.dropWhile_eq_nil_iff]
  rfl

end Space

theorem readString?_eq_some {t rest : Text} {units : List Nat}
    (h : readString? t = some (units, rest)) :
    ∃ body, Spells units body ∧ t = body ++ '"' :: rest := by
  fun_induction readString? t generalizing units
  next => cases h
  next t =>
    obtain ⟨rfl, rfl⟩ := Prod.mk.inj (Option.some.inj h)
    exact ⟨[], .nil, rfl⟩
  next a b c d t ih =>
    simp only [Option.bind_eq_bind, Option.bind_eq_some_iff, Option.pure_def, Option.some.injEq,
      Prod.mk.injEq] at h
    obtain ⟨i, hi, j, hj, k, hk, l, hl, ⟨units', rest'⟩, hread, rfl, rfl⟩ := h
    obtain ⟨body, hbody, rfl⟩ := ih hread
    exact ⟨_, .coded hi hj hk hl hbody, rfl⟩
  next c t _ ih =>
    simp only [Option.bind_eq_bind, Option.bind_eq_some_iff, Option.pure_def, Option.some.injEq,
      Prod.mk.injEq] at h
    obtain ⟨e, he, ⟨units', rest'⟩, hread, rfl, rfl⟩ := h
    obtain ⟨body, hbody, rfl⟩ := ih hread
    exact ⟨_, .escaped he hbody, rfl⟩
  next => cases h
  next c t hquote _ _ hplain ih =>
    obtain ⟨⟨units', rest'⟩, hread, hpair⟩ := Option.map_eq_some_iff.1 h
    obtain ⟨rfl, rfl⟩ := Prod.mk.inj hpair
    obtain ⟨body, hbody, rfl⟩ := ih hread
    obtain ⟨hescape, hlow⟩ := not_or.1 hplain
    exact ⟨_, .plain hquote hescape (Nat.le_of_not_lt hlow) hbody, rfl⟩

theorem readString?_append {units : List Nat} {body : Text} (h : Spells units body) (rest : Text) :
    readString? (body ++ '"' :: rest) = some (units, rest) := by
  induction h with
  | nil => rfl
  | @plain units c t hquote hescape hplain _ ih =>
    rw [List.cons_append, readString?, if_neg (not_or.2 ⟨hescape, Nat.not_lt.2 hplain⟩), ih]
    · rfl
    · exact hquote
    · exact fun _ _ _ _ _ h => absurd h hescape
    · exact fun _ _ h => absurd h hescape
  | @escaped units c e t he _ ih =>
    have hcode : c ≠ 'u' := by
      rintro rfl
      cases he
    rw [List.cons_append, List.cons_append, readString?, he, ih]
    · rfl
    · exact fun _ _ _ _ _ h => absurd h hcode
  | @coded units a b c d i j k l t hi hj hk hl _ ih =>
    simp only [List.cons_append, readString?, hi, hj, hk, hl, ih]
    rfl

/-- Whether a number may go on with a character. -/
def continuesNumber (c : Char) : Bool := isDigit c || c == '.' || c == 'e' || c == 'E'

/-- A number that stands before the text does not go on in it. -/
def Ends (rest : Text) : Prop := ∀ c ∈ rest.head?, continuesNumber c = false

@[simp] theorem isDigit_digitChar (d : Fin 10) : isDigit (Nat.digitChar d.val) = true := by
  simp [isDigit]

theorem isDigit_of_mem_ofDigits {c : Char} {ds : List (Fin 10)} (h : c ∈ ofDigits ds) :
    isDigit c = true := by
  obtain ⟨d, -, rfl⟩ := List.mem_map.1 h
  exact isDigit_digitChar d

theorem exists_of_isDigit {c : Char} (h : isDigit c = true) :
    ∃ d : Fin 10, c = Nat.digitChar d.val := by
  obtain ⟨n, hn⟩ := Option.isSome_iff_exists.1 h
  obtain ⟨d, hd, -⟩ := Text.exists_of_digit? hn
  exact ⟨d, hd⟩

theorem takeWhile_isDigit_eq : ∀ t : Text, ∃ ds, t.takeWhile isDigit = ofDigits ds
  | [] => ⟨[], rfl⟩
  | c :: t => by
    rw [List.takeWhile_cons]
    split_ifs with hc
    · obtain ⟨d, rfl⟩ := exists_of_isDigit hc
      obtain ⟨ds, hds⟩ := takeWhile_isDigit_eq t
      exact ⟨d :: ds, by rw [hds]; rfl⟩
    · exact ⟨[], rfl⟩

section Digits

variable {rest : Text} (hrest : ∀ c ∈ rest.head?, isDigit c = false)
include hrest

theorem takeWhile_ofDigits (ds : List (Fin 10)) :
    (ofDigits ds ++ rest).takeWhile isDigit = ofDigits ds := by
  rw [List.takeWhile_append_of_pos fun c => isDigit_of_mem_ofDigits]
  cases rest with
  | nil => rw [List.takeWhile_nil, List.append_nil]
  | cons c rest => rw [List.takeWhile_cons_of_neg (by simpa using hrest c rfl), List.append_nil]

theorem dropWhile_ofDigits (ds : List (Fin 10)) :
    (ofDigits ds ++ rest).dropWhile isDigit = rest := by
  have hsplit := List.takeWhile_append_dropWhile (p := isDigit) (l := ofDigits ds ++ rest)
  rw [takeWhile_ofDigits hrest] at hsplit
  exact List.append_cancel_left hsplit

end Digits

theorem isDigit_eq_false_of_ends {rest : Text} (h : Ends rest) :
    ∀ c ∈ rest.head?, isDigit c = false := by
  intro c hc
  have := h c hc
  simp only [continuesNumber, Bool.or_eq_false_iff] at this
  exact this.1.1.1

theorem readWhole?_eq_some {t whole rest : Text} (h : readWhole? t = some (whole, rest)) :
    IsWhole whole ∧ t = whole ++ rest := by
  rcases t with _ | ⟨c, t⟩
  · cases h
  · rw [readWhole?] at h
    split_ifs at h with hzero hdigit
    · obtain ⟨rfl, rfl⟩ := Prod.mk.inj (Option.some.inj h)
      exact ⟨.zero, by rw [hzero]; rfl⟩
    · obtain ⟨rfl, rfl⟩ := Prod.mk.inj (Option.some.inj h)
      obtain ⟨d, rfl⟩ := exists_of_isDigit hdigit
      obtain ⟨ds, hds⟩ := takeWhile_isDigit_eq t
      have hd : d ≠ 0 := by
        rintro rfl
        exact hzero rfl
      have hwhole : IsWhole (ofDigits (d :: ds)) := .nonzero hd
      refine ⟨?_, by rw [List.cons_append, List.takeWhile_append_dropWhile]⟩
      rw [hds]
      exact hwhole

theorem readWhole?_append {whole rest : Text} (h : IsWhole whole)
    (hrest : ∀ c ∈ rest.head?, isDigit c = false) :
    readWhole? (whole ++ rest) = some (whole, rest) := by
  cases h with
  | zero => rfl
  | @nonzero d ds hd =>
    have hzero : Nat.digitChar d.val ≠ '0' := by
      revert d
      decide
    have hcons : ofDigits (d :: ds) = Nat.digitChar d.val :: ofDigits ds := rfl
    rw [hcons, List.cons_append, readWhole?, if_neg hzero, if_pos (isDigit_digitChar d),
      takeWhile_ofDigits hrest, dropWhile_ofDigits hrest]

theorem readFraction?_eq_some {t digits rest : Text} (h : readFraction? t = some (digits, rest)) :
    ∃ fraction, IsFraction digits fraction ∧ t = fraction ++ rest := by
  unfold readFraction? at h
  split at h
  · rename_i t
    obtain ⟨ds, hds⟩ := takeWhile_isDigit_eq t
    simp only at h
    split_ifs at h with hnone
    obtain ⟨rfl, rfl⟩ := Prod.mk.inj (Option.some.inj h)
    have hsplit : '.' :: t = '.' :: t.takeWhile isDigit ++ t.dropWhile isDigit := by
      rw [List.cons_append, List.takeWhile_append_dropWhile]
    refine ⟨_, ?_, hsplit⟩
    rw [hds] at hnone ⊢
    exact .some fun hempty => hnone (by rw [hempty]; rfl)
  · obtain ⟨rfl, rfl⟩ := Prod.mk.inj (Option.some.inj h)
    exact ⟨[], .none, rfl⟩

theorem ofDigits_ne_nil {ds : List (Fin 10)} (h : ds ≠ []) : ofDigits ds ≠ [] :=
  fun hempty => h (List.map_eq_nil_iff.1 hempty)

theorem readFraction?_append {digits fraction rest : Text} (h : IsFraction digits fraction)
    (hrest : ∀ c ∈ rest.head?, isDigit c = false ∧ c ≠ '.') :
    readFraction? (fraction ++ rest) = some (digits, rest) := by
  have hdigit : ∀ c ∈ rest.head?, isDigit c = false := fun c hc => (hrest c hc).1
  cases h with
  | none =>
    rw [List.nil_append, readFraction?]
    rintro t rfl
    exact (hrest '.' rfl).2 rfl
  | @some ds hds =>
    rw [List.cons_append, readFraction?]
    simp only [takeWhile_ofDigits hdigit, dropWhile_ofDigits hdigit, if_neg (ofDigits_ne_nil hds)]

theorem readPower?_eq_some {negative : Bool} {t rest : Text} {e : Option Int}
    (h : readPower? negative t = some (e, rest)) : ∃ ds, ds ≠ [] ∧ t = ofDigits ds ++ rest
      ∧ e = some (if negative then -(decimal 0 ds : Int) else decimal 0 ds) := by
  simp only [readPower?, Option.map_eq_some_iff, Option.bind_eq_bind, Option.bind_eq_some_iff,
    Text.digits?_eq_some_iff] at h
  obtain ⟨_, ⟨_, ⟨ds, hds, ht, rfl⟩, hn⟩, hpair⟩ := h
  obtain rfl := Option.some.inj hn
  obtain ⟨rfl, rfl⟩ := Prod.mk.inj hpair
  exact ⟨ds, hds, by rw [← ht, List.takeWhile_append_dropWhile], rfl⟩

theorem readPower?_append (negative : Bool) {ds : List (Fin 10)} {rest : Text} (hds : ds ≠ [])
    (hrest : ∀ c ∈ rest.head?, isDigit c = false) : readPower? negative (ofDigits ds ++ rest)
      = some (some (if negative then -(decimal 0 ds : Int) else decimal 0 ds), rest) := by
  rw [readPower?, takeWhile_ofDigits hrest, dropWhile_ofDigits hrest,
    Text.digits?_eq_some_iff.2 ⟨ds, hds, rfl, rfl⟩]
  rfl

theorem readExponent?_eq_some {t rest : Text} {e : Option Int}
    (h : readExponent? t = some (e, rest)) : ∃ power, IsExponent e power ∧ t = power ++ rest := by
  unfold readExponent? at h
  split at h
  · obtain ⟨rfl, rfl⟩ := Prod.mk.inj (Option.some.inj h)
    exact ⟨[], .none, rfl⟩
  · split_ifs at h with hmark
    · split at h <;> obtain ⟨ds, hds, rfl, rfl⟩ := readPower?_eq_some h
      · exact ⟨_, .plus hmark hds, rfl⟩
      · exact ⟨_, .minus hmark hds, rfl⟩
      · exact ⟨_, .bare hmark hds, rfl⟩
    · obtain ⟨rfl, rfl⟩ := Prod.mk.inj (Option.some.inj h)
      exact ⟨[], .none, rfl⟩

theorem readExponent?_append {e : Option Int} {power rest : Text} (h : IsExponent e power)
    (hrest : Ends rest) : readExponent? (power ++ rest) = some (e, rest) := by
  have hdigit := isDigit_eq_false_of_ends hrest
  cases h with
  | none =>
    rcases rest with _ | ⟨c, rest⟩
    · rfl
    · have hends : ¬ (c = 'e' ∨ c = 'E') := by
        have := hrest c rfl
        simp only [continuesNumber, Bool.or_eq_false_iff, beq_eq_false_iff_ne] at this
        exact not_or.2 ⟨this.1.2, this.2⟩
      unfold readExponent?
      exact if_neg hends
  | @bare mark ds hmark hds =>
    rcases ds with _ | ⟨d, ds⟩
    · exact absurd rfl hds
    · have hsign : ∀ d : Fin 10, Nat.digitChar d.val ≠ '+' ∧ Nat.digitChar d.val ≠ '-' := by decide
      rw [List.cons_append, readExponent?, if_pos hmark]
      · exact readPower?_append false hds hdigit
      · exact fun t ht => (hsign d).1 (List.cons.inj ht).1
      · exact fun t ht => (hsign d).2 (List.cons.inj ht).1
  | plus hmark hds =>
    rw [List.cons_append, List.cons_append, readExponent?, if_pos hmark]
    exact readPower?_append false hds hdigit
  | minus hmark hds =>
    rw [List.cons_append, List.cons_append, readExponent?, if_pos hmark]
    exact readPower?_append true hds hdigit

theorem readNumeral?_eq_some {t rest : Text} {n : Numeral} (h : readNumeral? t = some (n, rest)) :
    ∃ u, IsNumeral n u ∧ t = u ++ rest := by
  simp only [readNumeral?, Option.bind_eq_bind, Option.bind_eq_some_iff, Option.pure_def] at h
  obtain ⟨⟨whole, t₁⟩, hwhole, h⟩ := h
  simp only at h
  split_ifs at h with hlead
  simp only [Option.bind_eq_some_iff, Option.some.injEq, Prod.mk.injEq] at h
  obtain ⟨⟨digits, t₂⟩, hfraction, ⟨e, t₃⟩, hexponent, rfl, rfl⟩ := h
  obtain ⟨iswhole, hunsigned⟩ := readWhole?_eq_some hwhole
  obtain ⟨fraction, isfraction, rfl⟩ := readFraction?_eq_some hfraction
  obtain ⟨power, ispower, rfl⟩ := readExponent?_eq_some hexponent
  rcases hminus : Text.stripStart? ['-'] t with _ | unsigned
  · rw [hminus, Option.getD_none] at hunsigned
    simp only [Option.getD_none, ne_eq, not_true_eq_false, decide_false]
    refine ⟨_, .positive iswhole isfraction ispower, ?_⟩
    rw [hunsigned, List.append_assoc, List.append_assoc]
  · rw [hminus, Option.getD_some] at hunsigned
    have ht := Text.stripStart?_eq_some_iff.1 hminus
    have hlength : unsigned.length ≠ t.length := by simp [ht]
    simp only [Option.getD_some, ne_eq, hlength, not_false_eq_true, decide_true]
    refine ⟨_, .negative iswhole isfraction ispower, ?_⟩
    rw [ht, hunsigned]
    simp only [List.cons_append, List.append_assoc, List.nil_append]

theorem head?_isExponent {e : Option Int} {power rest : Text} (h : IsExponent e power)
    (hrest : Ends rest) : ∀ c ∈ (power ++ rest).head?, isDigit c = false ∧ c ≠ '.' := by
  intro c hc
  have hmarks : ∀ mark : Char, mark = 'e' ∨ mark = 'E' → isDigit mark = false ∧ mark ≠ '.' := by
    rintro mark (rfl | rfl) <;> decide
  cases h with
  | none =>
    have := hrest c hc
    simp only [continuesNumber, Bool.or_eq_false_iff, beq_eq_false_iff_ne] at this
    exact this.1.1
  | bare hmark | plus hmark | minus hmark =>
    obtain rfl := Option.some.inj hc
    exact hmarks _ hmark

theorem head?_isFraction {digits fraction rest : Text} (h : IsFraction digits fraction)
    (hrest : ∀ c ∈ rest.head?, isDigit c = false) :
    ∀ c ∈ (fraction ++ rest).head?, isDigit c = false := by
  intro c hc
  cases h with
  | none => exact hrest c hc
  | some =>
    obtain rfl := Option.some.inj hc
    decide

theorem head?_isWhole {whole : Text} (h : IsWhole whole) :
    ∃ c t, whole = c :: t ∧ isDigit c = true := by
  cases h with
  | zero => exact ⟨'0', [], rfl, by decide⟩
  | @nonzero d ds => exact ⟨Nat.digitChar d.val, ofDigits ds, rfl, isDigit_digitChar d⟩

theorem readNumeral?_append {n : Numeral} {u rest : Text} (h : IsNumeral n u) (hrest : Ends rest) :
    readNumeral? (u ++ rest) = some (n, rest) := by
  have hparts : ∀ {whole digits fraction power : Text} {e : Option Int}, IsWhole whole →
      IsFraction digits fraction → IsExponent e power →
      let behind := fraction ++ (power ++ rest)
      readWhole? (whole ++ behind) = some (whole, behind) ∧ behind.head?.any isDigit = false
        ∧ readFraction? behind = some (digits, power ++ rest)
        ∧ readExponent? (power ++ rest) = some (e, rest) := by
    intro whole digits fraction power e hwhole hfraction hpower
    have hbehind := head?_isFraction hfraction fun c hc => (head?_isExponent hpower hrest c hc).1
    refine ⟨readWhole?_append hwhole hbehind, ?_,
      readFraction?_append hfraction (head?_isExponent hpower hrest),
      readExponent?_append hpower hrest⟩
    rw [Option.any_eq_false]
    simpa using hbehind
  cases h with
  | @positive whole digits fraction power e hwhole hfraction hpower =>
    obtain ⟨hreadWhole, hbehind, hreadFraction, hreadExponent⟩ := hparts hwhole hfraction hpower
    obtain ⟨c, t, rfl, hc⟩ := head?_isWhole hwhole
    have hminus : '-' ≠ c := by
      rintro rfl
      cases hc
    have hsign : Text.stripStart? ['-'] (c :: t ++ (fraction ++ (power ++ rest))) = none := by
      simp [Text.stripStart?, hminus]
    simp only [List.append_assoc, readNumeral?, hsign, Option.getD_none, Option.bind_eq_bind,
      hreadWhole, Option.bind_some, hbehind, hreadFraction, hreadExponent]
    simp
  | @negative whole digits fraction power e hwhole hfraction hpower =>
    obtain ⟨hreadWhole, hbehind, hreadFraction, hreadExponent⟩ := hparts hwhole hfraction hpower
    have hsign : Text.stripStart? ['-'] ('-' :: (whole ++ (fraction ++ (power ++ rest))))
        = some (whole ++ (fraction ++ (power ++ rest))) := Text.stripStart?_append ['-'] _
    simp only [List.cons_append, List.append_assoc, readNumeral?, hsign, Option.getD_some,
      Option.bind_eq_bind, hreadWhole, Option.bind_some, hbehind, hreadFraction, hreadExponent]
    simp

end Json

end DidYouMean
