import DidYouMean.Proofs.Trimming
import DidYouMean.Proofs.WellNested
import DidYouMean.Signature

/-!
# A line begins with its name

Every line that a signature is shown as is the name and a rest set off from it: by a blank, a
bracket or a colon, or by the end of the line (`bound_of_mem_lines`). So the name can be read off
the line, whatever the signature is (`Bound.name_eq`). The rest has no characters that the signature
does not have, apart from the parentheses, the colon and the blank that rewrite it.
-/

namespace DidYouMean

namespace Signature

/-- Whether a character sets a name off from what follows it. -/
def endsName (c : Char) : Bool := Text.isBlank c || isCall [c] || c == ':'

/-- What a signature is rewritten with. -/
def marks : Text := "(): ".toList

/-- A line that begins with a name and goes on with what is written in a source. -/
def Bound (name source line : Text) : Prop :=
  ∃ rest, line = name ++ rest ∧ (∀ c ∈ rest.head?, endsName c = true)
    ∧ ∀ c ∈ rest, c ∈ marks ∨ c ∈ source

theorem closeGroup?_eq_some {inside rest : Text} : ∀ {d : Depth} {before : Option Char} {t : Text},
    closeGroup? d before t = some (inside, rest) → t = inside ++ ')' :: rest
  | _, _, [], h => by simp [closeGroup?] at h
  | d, before, c :: t, h => by
    simp only [closeGroup?] at h
    split_ifs at h with hclosed
    · obtain ⟨rfl, rfl⟩ := Prod.mk.inj (Option.some.inj h)
      rw [hclosed.1, List.nil_append]
    · obtain ⟨⟨inside', rest'⟩, hgroup, hcons⟩ := Option.map_eq_some_iff.1 h
      obtain ⟨rfl, rfl⟩ := Prod.mk.inj hcons
      rw [closeGroup?_eq_some hgroup, List.cons_append]

theorem arrow?_eq_some {t parameters result : Text} (h : arrow? t = some (parameters, result)) :
    t = '(' :: (parameters ++ ')' :: (" => ".toList ++ result)) := by
  unfold arrow? at h
  split at h
  · simp only [Option.bind_eq_bind, Option.bind_eq_some_iff, Option.pure_def, Option.some.injEq,
      Prod.mk.injEq] at h
    obtain ⟨group, hgroup, _, hrest, rfl, rfl⟩ := h
    rw [closeGroup?_eq_some hgroup, Text.stripStart?_eq_some_iff.1 hrest]
  · simp at h

theorem throughAngle?_eq_some {clause : Text} : ∀ {depth : Nat} {before : Option Char} {t : Text},
    throughAngle? depth before t = some clause → clause ≠ [] ∧ clause <+: t
  | _, _, [], h => by simp [throughAngle?] at h
  | depth, before, c :: t, h => by
    -- Whatever the depth is next, the clause goes on from this character.
    have hcons : ∀ {depth' : Nat}, (throughAngle? depth' (some c) t).map (c :: ·) = some clause →
        clause ≠ [] ∧ clause <+: c :: t := by
      intro depth' h'
      obtain ⟨clause', hclause, rfl⟩ := Option.map_eq_some_iff.1 h'
      exact ⟨List.cons_ne_nil _ _,
        List.cons_prefix_cons.2 ⟨rfl, (throughAngle?_eq_some hclause).2⟩⟩
    simp only [throughAngle?] at h
    split_ifs at h
    · exact hcons h
    · obtain rfl := Option.some.inj h
      exact ⟨List.cons_ne_nil _ _, List.cons_prefix_cons.2 ⟨rfl, List.nil_prefix⟩⟩
    · exact hcons h
    · exact hcons h

theorem angleClause?_eq_some {t clause : Text} (h : angleClause? t = some clause) :
    isCall clause = true ∧ clause <+: t := by
  rw [angleClause?] at h
  split_ifs at h with hopen
  obtain ⟨hne, hfront⟩ := throughAngle?_eq_some h
  obtain ⟨c, clause, rfl⟩ := List.exists_cons_of_ne_nil hne
  obtain ⟨rest, rfl⟩ := hfront
  obtain rfl := Option.some.inj hopen
  exact ⟨rfl, List.prefix_append _ rest⟩

theorem mem_of_mem_consFirst {a c : Char} {piece : Text} {ps : List Text}
    (h : piece ∈ consFirst a ps) (hc : c ∈ piece) : c = a ∨ ∃ p ∈ ps, c ∈ p := by
  rcases ps with _ | ⟨first, rest⟩
  · rw [consFirst, List.mem_singleton] at h
    exact .inl (by simpa [h] using hc)
  · rcases List.mem_cons.1 h with rfl | h
    · exact (List.mem_cons.1 hc).imp_right fun hc => ⟨first, List.mem_cons_self, hc⟩
    · exact .inr ⟨piece, List.mem_cons_of_mem _ h, hc⟩

theorem subset_of_mem_pieces {piece : Text} : ∀ {d : Depth} {before : Option Char} {t : Text},
    piece ∈ pieces d before t → piece ⊆ t
  | _, _, [], h => by
    rw [pieces, List.mem_singleton] at h
    rw [h]
    exact List.nil_subset []
  | d, before, c :: t, h => by
    by_cases hcut : c = ';' ∧ d.isTop = true
    · rw [pieces, if_pos hcut] at h
      rcases List.mem_cons.1 h with rfl | h
      · exact List.nil_subset _
      · exact List.subset_cons_of_subset c (subset_of_mem_pieces h)
    · rw [pieces_cons fun hc => by simpa [hc] using hcut] at h
      intro a ha
      rcases mem_of_mem_consFirst h ha with rfl | ⟨p, hp, hap⟩
      · exact List.mem_cons_self
      · exact List.mem_cons_of_mem _ (subset_of_mem_pieces hp hap)

/-- A union has two call signatures or more, all cut out of its text. -/
theorem overloads?_eq_some {signature : Text} {found : List Text}
    (h : overloads? signature = some found) :
    1 < found.length ∧ ∀ segment ∈ found, segment ⊆ signature := by
  simp only [overloads?, Option.bind_eq_bind, Option.bind_eq_some_iff] at h
  obtain ⟨inner, hinner, h⟩ := h
  split_ifs at h with htwo
  obtain rfl := Option.some.inj h
  refine ⟨htwo, fun segment hsegment => ?_⟩
  obtain ⟨piece, hpiece, rfl⟩ := List.mem_map.1 (List.mem_filter.1 hsegment).1
  have hpieces : piece ⊆ Text.trim inner := subset_of_mem_pieces (List.mem_filter.1 hpiece).1
  have hbraced : inner ⊆ Text.trim signature := by
    unfold braced? at hinner
    split at hinner
    · rename_i rest htrim
      rw [htrim, Text.stripEnd?_eq_some_iff.1 hinner]
      exact List.subset_cons_of_subset _ (List.subset_append_left _ _)
    · simp at hinner
  exact fun c hc => Text.trim_subset _ <| hbraced <| Text.trim_subset _ <| hpieces <|
    Text.trim_subset _ hc

namespace Bound

variable {name name' source source' line : Text}

theorem mono (h : Bound name source line) (hsub : source ⊆ source') : Bound name source' line := by
  obtain ⟨rest, hline, hends, hrest⟩ := h
  exact ⟨rest, hline, hends, fun c hc => (hrest c hc).imp_right fun h => hsub h⟩

theorem isPrefix (h : Bound name source line) : name <+: line := by
  obtain ⟨rest, rfl, -⟩ := h
  exact List.prefix_append name rest

theorem not_mem (h : Bound name source line) {c : Char} (hmarks : c ∉ marks) (hname : c ∉ name)
    (hsource : c ∉ source) : c ∉ line := by
  obtain ⟨rest, rfl, -, hrest⟩ := h
  intro hc
  rcases List.mem_append.1 hc with hc | hc
  · exact hname hc
  · exact (hrest c hc).elim hmarks hsource

theorem takeWhile_eq (h : Bound name source line) (hname : ∀ c ∈ name, endsName c = false) :
    line.takeWhile (fun c => !endsName c) = name := by
  obtain ⟨rest, rfl, hends, -⟩ := h
  rw [List.takeWhile_append_of_pos fun c hc => by rw [hname c hc, Bool.not_false]]
  rcases rest with _ | ⟨c, rest⟩
  · exact List.append_nil name
  · rw [List.takeWhile_cons_of_neg (by simp [hends c rfl]), List.append_nil]

/-- A line is bound to one name only. -/
theorem name_eq (h : Bound name source line) (h' : Bound name' source' line)
    (hname : ∀ c ∈ name, endsName c = false) (hname' : ∀ c ∈ name', endsName c = false) :
    name = name' :=
  (h.takeWhile_eq hname).symm.trans (h'.takeWhile_eq hname')

end Bound

theorem head_of_isCall {t : Text} (h : isCall t = true) : ∀ c ∈ t.head?, endsName c = true := by
  intro c hc
  have hcall : isCall [c] = isCall t := by rw [isCall, isCall, hc]; rfl
  rw [endsName, hcall, h, Bool.or_true, Bool.true_or]

variable (name : Text)

theorem nameless_subset (t : Text) :
    ((Text.stripStart? name t).map Text.trimStart).getD t ⊆ t := by
  rcases hrest : Text.stripStart? name t with _ | rest
  · exact List.Subset.refl t
  · rw [Text.stripStart?_eq_some_iff.1 hrest]
    exact List.subset_append_of_subset_right _ (List.dropWhile_subset _)

theorem bound_single (signature : Text) : Bound name signature (single name signature) := by
  have htrim : ∀ c ∈ Text.trim signature, c ∈ marks ∨ c ∈ signature :=
    fun c hc => .inr (Text.trim_subset signature hc)
  simp only [single]
  split
  · rename_i parameters result harrow
    refine ⟨'(' :: parameters ++ "): ".toList ++ result, by simp, by simp [endsName, isCall], ?_⟩
    have hparts : parameters ++ result ⊆ Text.trim signature := by
      rw [arrow?_eq_some harrow]
      intro c hc
      simp only [List.mem_append, List.mem_cons] at hc ⊢
      tauto
    intro c hc
    rcases List.mem_append.1 hc with hc | hc
    · rcases List.mem_append.1 hc with hc | hc
      · rcases List.mem_cons.1 hc with rfl | hc
        · exact .inl List.mem_cons_self
        · exact htrim c (hparts (List.mem_append_left _ hc))
      · exact .inl (List.mem_cons_of_mem _ hc)
    · exact htrim c (hparts (List.mem_append_right _ hc))
  · split_ifs with hnamed hcall
    · obtain ⟨rest, hrest, hcall⟩ := (Option.any_eq_true _ _).1 hnamed
      have hline := Text.stripStart?_eq_some_iff.1 hrest
      refine ⟨rest, hline, head_of_isCall hcall, fun c hc => htrim c ?_⟩
      rw [hline]
      exact List.mem_append_right _ hc
    · exact ⟨_, rfl, head_of_isCall hcall, htrim⟩
    · refine ⟨": ".toList ++ Text.trim signature, List.append_assoc _ _ _, by simp [endsName], ?_⟩
      intro c hc
      rcases List.mem_append.1 hc with hc | hc
      · exact .inl (List.mem_of_mem_drop (i := 2) hc)
      · exact htrim c hc

theorem bound_overload (segment : Text) : Bound name segment (overload name segment) := by
  simp only [overload]
  split
  · rename_i clause hclause
    obtain ⟨hcall, hfront⟩ := angleClause?_eq_some hclause
    refine ⟨clause, rfl, head_of_isCall hcall, fun c hc => .inr ?_⟩
    exact Text.trim_subset _ (nameless_subset name _ (hfront.subset hc))
  · split_ifs with hgroup hnamed
    · exact (bound_single name _).mono (Text.trim_subset segment)
    · -- The text does not begin with the parenthesis, so the name stands in front of it.
      rcases hrest : Text.stripStart? name (Text.trim segment) with _ | rest
      · rw [hrest] at hnamed
        exact absurd hnamed.2 hgroup
      · have hline := Text.stripStart?_eq_some_iff.1 hrest
        rw [hrest] at hnamed
        refine ⟨rest, hline, fun c hc => ?_, fun c hc => .inr (Text.trim_subset _ ?_)⟩
        · rcases Text.isBlank_or_head?_trimStart hc with hblank | hhead
          · rw [endsName, hblank, Bool.true_or, Bool.true_or]
          · obtain rfl := Option.some.inj (hhead.symm.trans hnamed.2)
            rfl
        · rw [hline]
          exact List.mem_append_right _ hc
    · exact ⟨[], (List.append_nil name).symm, by simp, by simp⟩

theorem bound_of_mem_lines {signature line : Text} (h : line ∈ lines name signature) :
    Bound name signature line := by
  unfold lines at h
  split at h
  · rename_i found hfound
    obtain ⟨segment, hsegment, rfl⟩ := List.mem_map.1 h
    exact (bound_overload name segment).mono ((overloads?_eq_some hfound).2 segment hsegment)
  · rw [List.mem_singleton] at h
    rw [h]
    exact bound_single name signature

@[simp] theorem lines_ne_nil (signature : Text) : lines name signature ≠ [] := by
  unfold lines
  split
  · rename_i found hfound
    have htwo := (overloads?_eq_some hfound).1
    rw [Ne, List.map_eq_nil_iff]
    rintro rfl
    simp at htwo
  · exact List.cons_ne_nil _ _

end Signature

end DidYouMean
