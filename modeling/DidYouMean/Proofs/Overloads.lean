import DidYouMean.Proofs.Segments
import DidYouMean.Proofs.Trimming
import DidYouMean.Proofs.WellNested
import DidYouMean.Signature

/-!
# Unions of call signatures

A union is cut at the semicolons between its call signatures and nowhere else, and trimming takes
nothing from a call signature but the blanks around it (`trimmed_pieces_unionBody`). What is left
of each is recognized by its first bracket: a clause of type parameters ends where it is closed, and
so does a parameter list, behind which a colon stands where a function type would have an arrow
(`overload_text`).
-/

namespace DidYouMean

namespace Signature

/-- Pieces that are blank are left out sooner or later. -/
theorem filter_trim_segments (t : Text) :
    ((segments t).map Text.trim).filter (· != [])
      = ((pieces Depth.zero none t).map Text.trim).filter (· != []) := by
  rw [segments, List.filter_map, List.filter_map, List.filter_filter]
  simp only [Function.comp_def, Bool.and_self]

/-- A call signature: type parameters if it is generic, a parameter list and a result. -/
structure CallSignature where
  typeParameters : Option Text
  parameters : Text
  result : Text
  typeParameters_nested : ∀ g ∈ typeParameters, WellNested (fun _ => true) g
  typeParameters_closed : ∀ g ∈ typeParameters, g.getLast? ≠ some '='
  parameters_nested : WellNested (fun _ => true) parameters
  result_nested : WellNested (· != ';') result
  result_ends : ∃ c, result.getLast? = some c ∧ Text.isBlank c = false

namespace CallSignature

/-- The parameter list and the result. -/
def callText (s : CallSignature) : Text := '(' :: (s.parameters ++ ')' :: (": ".toList ++ s.result))

def text (s : CallSignature) : Text :=
  match s.typeParameters with
  | some g => '<' :: (g ++ '>' :: s.callText)
  | none => s.callText

/-- What is shown of a call signature. A generic one is shown by its type parameters alone. -/
def label (name : Text) (s : CallSignature) : Text :=
  match s.typeParameters with
  | some g => name ++ '<' :: (g ++ ['>'])
  | none => name ++ s.callText

variable (s : CallSignature) {name : Text}

theorem nested_text : WellNested (· != ';') s.text := by
  have hcall : WellNested (· != ';') s.callText :=
    .group .paren (by simp) s.parameters_nested (.char rfl rfl (.char rfl rfl s.result_nested))
  rw [text]
  split
  · rename_i g hg
    exact .group .angle (fun _ => s.typeParameters_closed g hg) (s.typeParameters_nested g hg) hcall
  · exact hcall

theorem isCall_text : isCall s.text = true := by
  rw [text]
  split <;> rfl

theorem exists_front : ∃ front, s.text = front ++ s.result := by
  rw [text]
  split
  · rename_i g _
    exact ⟨'<' :: (g ++ '>' :: '(' :: (s.parameters ++ "): ".toList)), by simp [callText]⟩
  · exact ⟨'(' :: (s.parameters ++ "): ".toList), by simp [callText]⟩

theorem tight_text : Text.Tight s.text := by
  have hhead : ∀ {c}, c = '(' ∨ c = '<' → Text.isBlank c = false := by
    rintro c (rfl | rfl) <;> rfl
  refine ⟨?_, ?_⟩
  · have hcall := s.isCall_text
    rcases htext : s.text.head? with _ | c
    · rw [isCall, htext] at hcall
      exact absurd hcall (by simp)
    · rw [isCall, htext] at hcall
      exact ⟨c, rfl, hhead (by simpa using hcall)⟩
  · obtain ⟨front, hfront⟩ := s.exists_front
    obtain ⟨c, hc, hblank⟩ := s.result_ends
    exact ⟨c, by rw [hfront, List.getLast?_append, hc, Option.some_or], hblank⟩

theorem filter_text_cons (rest : List Text) :
    (s.text :: rest).filter (· != []) = s.text :: rest.filter (· != []) :=
  List.filter_cons_of_pos (by simpa using s.tight_text.ne_nil)

/-- A name that is no call signature itself is not found in front of one. -/
theorem stripStart?_of_isCall {t : Text} (hname : isCall name = false) (ht : isCall t = true) :
    name = [] ∨ Text.stripStart? name t = none := by
  rcases name with _ | ⟨c, name⟩
  · exact .inl rfl
  · rcases t with _ | ⟨d, t⟩
    · exact .inr rfl
    · refine .inr ?_
      rw [Text.stripStart?, if_neg]
      rintro rfl
      rw [isCall, List.head?_cons] at hname ht
      rw [hname] at ht
      exact Bool.false_ne_true ht

theorem nameless_text (hname : isCall name = false) :
    ((Text.stripStart? name s.text).map Text.trimStart).getD s.text = s.text := by
  rcases stripStart?_of_isCall hname s.isCall_text with rfl | hnone
  · rw [Text.stripStart?, Option.map_some, Option.getD_some, Text.trimStart,
      Text.dropWhile_isBlank_of_head s.tight_text.head]
  · rw [hnone, Option.map_none, Option.getD_none]

theorem arrow?_callText : arrow? s.callText = none := by
  rw [callText, s.parameters_nested.arrow?_append]
  rfl

theorem single_text (hname : isCall name = false) (hplain : s.typeParameters = none) :
    single name s.text = name ++ s.callText := by
  have htext : s.text = s.callText := by rw [text, hplain]
  have hcall := s.isCall_text
  rw [single, s.tight_text.trim_eq]
  rw [htext] at hcall ⊢
  rw [s.arrow?_callText]
  rcases stripStart?_of_isCall hname hcall with rfl | hnone
  · simp [Text.stripStart?, hcall]
  · simp [hnone, hcall]

theorem angleClause?_text : angleClause? s.text
    = s.typeParameters.map fun g => '<' :: (g ++ ['>']) := by
  rw [text]
  split
  · rename_i g hg
    have hclause := (s.typeParameters_nested g hg).throughAngle?_append
      (s.typeParameters_closed g hg) s.callText
    rw [hg, Option.map_some, angleClause?, List.head?_cons, if_pos rfl, throughAngle?, if_pos rfl,
      hclause, Option.map_some]
  · rename_i hplain
    rw [hplain]
    rfl

/-- A call signature of a union is shown by its label. -/
theorem overload_text (hname : isCall name = false) : overload name s.text = s.label name := by
  simp only [overload, s.tight_text.trim_eq, s.nameless_text hname, s.angleClause?_text]
  rcases hg : s.typeParameters with _ | g
  · have hhead : s.text.head? = some '(' := by
      rw [text, hg]
      rfl
    simp only [Option.map_none, hhead, if_true, s.single_text hname hg, label, hg]
  · simp only [Option.map_some, label, hg]

end CallSignature

/-- Some call signatures with semicolons between them, and perhaps one behind the last. -/
def unionBody (terminated : Bool) (signatures : List CallSignature) : Text :=
  Text.join "; ".toList (signatures.map CallSignature.text) ++ if terminated then [';'] else []

/-- Some call signatures in braces. -/
def unionText (terminated : Bool) (signatures : List CallSignature) : Text :=
  '{' :: (' ' :: (unionBody terminated signatures ++ [' ']) ++ ['}'])

theorem map_trim_consFirst {c : Char} (hc : Text.isBlank c = true) {ps : List Text}
    (hne : ps ≠ []) : (consFirst c ps).map Text.trim = ps.map Text.trim := by
  obtain ⟨piece, rest, rfl⟩ := List.exists_cons_of_ne_nil hne
  rw [consFirst, List.map_cons, Text.trim_cons hc, List.map_cons]

/-- A union is cut into its call signatures, blanks and a blank rest apart. -/
theorem trimmed_pieces_unionBody (terminated : Bool) : ∀ (signatures : List CallSignature) before,
    ((pieces Depth.zero before (unionBody terminated signatures)).map Text.trim).filter (· != [])
      = signatures.map CallSignature.text
  | [], before => by
    cases terminated <;> rfl
  | [s], before => by
    have hbody : unionBody terminated [s] = s.text ++ if terminated then [';'] else [] := rfl
    obtain ⟨rest, hrest, hblank⟩ : ∃ rest, pieces Depth.zero (s.text.getLast?.or before)
        (if terminated then [';'] else []) = [] :: rest
          ∧ (rest.map Text.trim).filter (· != []) = [] := by
      cases terminated with
      | false => exact ⟨[], rfl, rfl⟩
      | true => exact ⟨[[]], rfl, rfl⟩
    rw [hbody, s.nested_text.pieces_append (fun _ => rfl) before _ hrest, List.append_nil,
      List.map_cons, s.tight_text.trim_eq, s.filter_text_cons, hblank,
      List.map_singleton]
  | s :: s' :: signatures, before => by
    have ih := trimmed_pieces_unionBody terminated (s' :: signatures) (some ' ')
    have hbody : unionBody terminated (s :: s' :: signatures)
        = s.text ++ ';' :: ' ' :: unionBody terminated (s' :: signatures) := by
      simp only [unionBody, List.map_cons, Text.join_cons_cons, List.append_assoc]
      rfl
    have hblank : pieces Depth.zero (some ';') (' ' :: unionBody terminated (s' :: signatures))
        = consFirst ' ' (pieces Depth.zero (some ' ') (unionBody terminated (s' :: signatures))) :=
      pieces_cons fun h => absurd h (by decide)
    rw [hbody, s.nested_text.pieces_append (fun _ => rfl) before _ (pieces_semicolon rfl _ _),
      hblank, List.append_nil, List.map_cons, map_trim_consFirst rfl (pieces_ne_nil _ _ _),
      s.tight_text.trim_eq, s.filter_text_cons, ih]
    rfl

theorem tight_unionBody (terminated : Bool) {signatures : List CallSignature}
    (hne : signatures ≠ []) : Text.Tight (unionBody terminated signatures) := by
  have hjoin : Text.Tight (Text.join "; ".toList (signatures.map CallSignature.text)) :=
    Text.Tight.join _ (by simpa using hne) (by simpa using fun s _ => CallSignature.tight_text s)
  rw [unionBody]
  cases terminated with
  | false => simpa using hjoin
  | true => simpa using hjoin.append [] (t := [';']) ⟨⟨';', rfl, rfl⟩, ⟨';', rfl, rfl⟩⟩

theorem overloads?_union {terminated : Bool} {signatures : List CallSignature}
    (htwo : 2 ≤ signatures.length) :
    overloads? (unionText terminated signatures) = some (signatures.map CallSignature.text) := by
  have hne : signatures ≠ [] := by
    rintro rfl
    simp at htwo
  have htight : Text.Tight (unionText terminated signatures) :=
    ⟨⟨'{', rfl, rfl⟩, ⟨'}', by simp [unionText, List.getLast?_cons], rfl⟩⟩
  have hinner : Text.trim (' ' :: (unionBody terminated signatures ++ [' ']))
      = unionBody terminated signatures := by
    rw [Text.trim_cons rfl, Text.trim_concat rfl, (tight_unionBody terminated hne).trim_eq]
  have hbraced : braced? (unionText terminated signatures)
      = some (' ' :: (unionBody terminated signatures ++ [' '])) :=
    Text.stripEnd?_eq_some_iff.2 rfl
  simp only [overloads?, htight.trim_eq, hbraced, Option.bind_eq_bind, Option.bind_some, hinner,
    filter_trim_segments, trimmed_pieces_unionBody, List.length_map]
  exact if_pos htwo

end Signature

open Signature

/-- A union of two or more call signatures is shown in one line for each of them. -/
theorem lines_union (name : Text) (hname : Signature.isCall name = false)
    (signatures : List CallSignature) (htwo : 2 ≤ signatures.length) (terminated : Bool) :
    Signature.lines name (unionText terminated signatures)
      = signatures.map (CallSignature.label name) := by
  simp only [Signature.lines, overloads?_union htwo, List.map_map]
  exact List.map_congr_left fun s _ => s.overload_text hname

/-- A call signature with an arrow in the default of a type parameter. -/
def genericPipe : CallSignature where
  typeParameters := some "A, F = () => A".toList
  parameters := "f: F".toList
  result := "A".toList
  typeParameters_nested := by
    rintro _ ⟨⟩
    exact .plain_append (s := "A, F = ".toList) rfl <| .group .paren (by simp) .nil <|
      .plain_append (s := [' ']) rfl <| .arrow rfl <| .plain_append (s := " A".toList) rfl .nil
  typeParameters_closed := by decide
  parameters_nested := .plain_append (s := "f: F".toList) rfl .nil
  result_nested := .char rfl rfl .nil
  result_ends := ⟨'A', rfl, rfl⟩

/-- A call signature with semicolons in its parameter list. -/
def plainPipe : CallSignature where
  typeParameters := none
  parameters := "a: {x; y}".toList
  result := "Array<A>".toList
  typeParameters_nested := by simp
  typeParameters_closed := by simp
  parameters_nested :=
    .plain_append (s := "a: ".toList) rfl <|
      .group .brace (by simp) (.plain_append (s := "x; y".toList) rfl .nil) .nil
  result_nested :=
    .plain_append (s := "Array".toList) rfl <|
      .group .angle (by decide) (.char rfl rfl .nil) .nil
  result_ends := ⟨'>', rfl, rfl⟩

theorem lines_pipe :
    unionText true [genericPipe, plainPipe]
        = "{ <A, F = () => A>(f: F): A; (a: {x; y}): Array<A>; }".toList
      ∧ Signature.lines "pipe".toList (unionText true [genericPipe, plainPipe])
        = ["pipe<A, F = () => A>".toList, "pipe(a: {x; y}): Array<A>".toList] := by
  refine ⟨by decide, ?_⟩
  rw [lines_union "pipe".toList rfl [genericPipe, plainPipe] (Nat.le_refl 2) true]
  decide

end DidYouMean
