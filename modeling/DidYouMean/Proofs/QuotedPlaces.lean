import DidYouMean.Proofs.ByteOffsets
import DidYouMean.Proofs.Trimming
import DidYouMean.Span

/-!
# Where a specifier is quoted

A specifier may stand between quotes of several kinds in one source text. The kinds are tried in the
order of preference, so the span is at the first place of the first kind that the specifier is found
in. That is the first place of all exactly if no other kind is found earlier
(`ofSpecifier_first_iff`).
-/

namespace DidYouMean

namespace Span

variable {source specifier : Text} {quote other : Char} {place : Nat} {s : Span}

/-- The specifier stands between two quotes of a kind, the first of them at a place. -/
def Quoted (source specifier : Text) (quote : Char) (place : Nat) : Prop :=
  ∃ before after, source = before ++ (quote :: specifier ++ [quote] ++ after)
    ∧ Text.byteLength before = place

/-- The span of a specifier at the first place where quotes of one of the kinds are around it. -/
inductive FirstAmong (kinds : List Char) (source specifier : Text) : Span → Prop where
  | found {quote : Char} {place : Nat} : quote ∈ kinds → Quoted source specifier quote place →
      (∀ other ∈ kinds, ∀ place', Quoted source specifier other place' → place ≤ place') →
      FirstAmong kinds source specifier ⟨place + 1, Text.byteLength specifier⟩
  | missing : (∀ quote ∈ kinds, ∀ place, ¬ Quoted source specifier quote place) →
      FirstAmong kinds source specifier nowhere

/-- The specifier is found in quotes of the kind, and in none of a kind that is preferred to it. -/
def Prefers (source specifier : Text) (quote : Char) : Prop :=
  ∃ preferred others, quotes = preferred ++ quote :: others
    ∧ (∀ other ∈ preferred, ∀ place, ¬ Quoted source specifier other place)
    ∧ ∃ place, Quoted source specifier quote place

theorem inQuotes?_eq_none_iff :
    inQuotes? source specifier quote = none ↔ ∀ place, ¬ Quoted source specifier quote place := by
  rw [inQuotes?, Option.map_eq_none_iff, Text.cutAt?_eq_none_iff]
  constructor
  · rintro h place ⟨before, after, rfl, -⟩
    exact h ⟨before, after, by simp⟩
  · rintro h ⟨before, after, rfl⟩
    exact h _ ⟨before, after, by simp, rfl⟩

theorem firstAmong_of_inQuotes? (h : inQuotes? source specifier quote = some s) :
    FirstAmong [quote] source specifier s := by
  obtain ⟨⟨before, after⟩, hcut, rfl⟩ := Option.map_eq_some_iff.1 h
  refine .found (List.mem_singleton_self quote)
    ⟨before, after, Text.eq_of_cutAt? hcut, rfl⟩ ?_
  rintro other hother place' ⟨before', after', hsource, rfl⟩
  rw [List.mem_singleton.1 hother] at hsource
  exact Text.byteLength_le_of_isPrefix (Text.isPrefix_of_cutAt? hcut hsource)

theorem findSome?_of_prefers (h : Prefers source specifier quote) :
    quotes.findSome? (inQuotes? source specifier) = inQuotes? source specifier quote := by
  obtain ⟨preferred, others, hquotes, hnone, place, hplace⟩ := h
  obtain ⟨s, hs⟩ : ∃ s, inQuotes? source specifier quote = some s := by
    rw [← Option.ne_none_iff_exists', Ne, inQuotes?_eq_none_iff]
    exact fun h => h place hplace
  rw [hs, List.findSome?_eq_some_iff]
  exact ⟨preferred, quote, others, hquotes, hs, fun other hother =>
    inQuotes?_eq_none_iff.2 (hnone other hother)⟩

theorem exists_prefers (hquote : quote ∈ quotes) (h : Quoted source specifier quote place) :
    ∃ kind, Prefers source specifier kind := by
  rcases hfind : quotes.findSome? (inQuotes? source specifier) with _ | s
  · rw [List.findSome?_eq_none_iff] at hfind
    exact absurd h (inQuotes?_eq_none_iff.1 (hfind quote hquote) place)
  · obtain ⟨preferred, kind, others, hquotes, hs, hnone⟩ := List.findSome?_eq_some_iff.1 hfind
    refine ⟨kind, preferred, others, hquotes,
      fun other hother => inQuotes?_eq_none_iff.1 (hnone other hother), ?_⟩
    by_contra hnot
    push Not at hnot
    rw [inQuotes?_eq_none_iff.2 hnot] at hs
    simp at hs

theorem Prefers.mem (h : Prefers source specifier quote) : quote ∈ quotes := by
  obtain ⟨preferred, others, hquotes, -⟩ := h
  simp [hquotes]

/-- What stands before a quoted specifier, a quote and the specifier fit into the source text. -/
theorem Quoted.fits (h : Quoted source specifier quote place) :
    place + 1 + Text.byteLength specifier ≤ Text.byteLength source := by
  obtain ⟨before, after, rfl, rfl⟩ := h
  have hquote := Text.byteLength_pos (List.cons_ne_nil quote [])
  have hcons : quote :: specifier = [quote] ++ specifier := rfl
  rw [hcons]
  simp only [Text.byteLength_append]
  omega

theorem FirstAmong.within {kinds : List Char} (h : FirstAmong kinds source specifier s)
    (hsource : Text.byteLength source < limit) : s.start < limit ∧ s.length < limit := by
  rcases h with ⟨-, hplace, -⟩ | -
  · have hfits := hplace.fits
    dsimp only
    omega
  · decide

theorem FirstAmong.start_le {kinds : List Char} (h : FirstAmong kinds source specifier s)
    (hother : other ∈ kinds) (hplace : Quoted source specifier other place) :
    s.start ≤ place + 1 := by
  rcases h with ⟨-, -, hmin⟩ | hmissing
  · exact Nat.succ_le_succ (hmin other hother place hplace)
  · exact absurd hplace (hmissing other hother place)

theorem FirstAmong.exists_place (h : FirstAmong [quote] source specifier s)
    (hquoted : Quoted source specifier quote place) :
    ∃ first, s = ⟨first + 1, Text.byteLength specifier⟩ ∧ Quoted source specifier quote first
      ∧ ∀ place', Quoted source specifier quote place' → first ≤ place' := by
  rcases h with ⟨hkind, hfirst, hmin⟩ | hmissing
  · rw [List.mem_singleton.1 hkind] at hfirst
    exact ⟨_, rfl, hfirst, hmin quote (List.mem_singleton_self quote)⟩
  · exact absurd hquoted (hmissing quote (List.mem_singleton_self quote) place)

/-- The span is at the first place of the kind of quotes that is preferred. -/
theorem ofSpecifier_of_prefers (hsource : Text.byteLength source < limit)
    (h : Prefers source specifier quote) :
    FirstAmong [quote] source specifier (ofSpecifier source specifier) := by
  have hfind := findSome?_of_prefers h
  obtain ⟨preferred, others, -, -, place, hplace⟩ := h
  rcases hquote : inQuotes? source specifier quote with _ | s
  · exact absurd hplace (inQuotes?_eq_none_iff.1 hquote place)
  · have hfirst := firstAmong_of_inQuotes? hquote
    have hofSpecifier : ofSpecifier source specifier = s := by
      simp only [ofSpecifier, hfind, hquote, if_pos (hfirst.within hsource)]
    rwa [hofSpecifier]

theorem ofSpecifier_of_missing
    (h : ∀ quote ∈ quotes, ∀ place, ¬ Quoted source specifier quote place) :
    ofSpecifier source specifier = nowhere := by
  have hfind : quotes.findSome? (inQuotes? source specifier) = none :=
    List.findSome?_eq_none_iff.2 fun quote hquote => inQuotes?_eq_none_iff.2 (h quote hquote)
  simp only [ofSpecifier, hfind]

end Span

open DidYouMean.Span

/-- The span of a specifier is at the first place where it stands in quotes of the preferred kind.
It is at the first place of all exactly if no other kind of quotes is around it earlier. -/
theorem ofSpecifier_first_iff (source specifier : Text)
    (hsource : Text.byteLength source < Span.limit) :
    (∀ quote, Prefers source specifier quote →
        FirstAmong [quote] source specifier (ofSpecifier source specifier))
      ∧ (FirstAmong quotes source specifier (ofSpecifier source specifier) ↔
        ∀ quote, Prefers source specifier quote →
          ∀ other ∈ quotes, ∀ place', Quoted source specifier other place' →
            ∃ place, Quoted source specifier quote place ∧ place ≤ place') := by
  refine ⟨fun quote => ofSpecifier_of_prefers hsource, ?_⟩
  -- Both ways compare with the first place of the preferred kind, which the span always is.
  constructor
  · intro hfirst quote hquote other hother place' hplace'
    have hpreferred := ofSpecifier_of_prefers hsource hquote
    obtain ⟨-, -, -, -, somewhere, hsomewhere⟩ := hquote
    obtain ⟨place, hspan, hplace, -⟩ := hpreferred.exists_place hsomewhere
    have hle := hfirst.start_le hother hplace'
    rw [hspan] at hle
    exact ⟨place, hplace, Nat.le_of_succ_le_succ hle⟩
  · intro hearliest
    by_cases hmissing : ∀ quote ∈ quotes, ∀ place, ¬ Quoted source specifier quote place
    · rw [ofSpecifier_of_missing hmissing]
      exact .missing hmissing
    · push Not at hmissing
      obtain ⟨quote, hquote, somewhere, hsomewhere⟩ := hmissing
      obtain ⟨kind, hkind⟩ := exists_prefers hquote hsomewhere
      have hpreferred := ofSpecifier_of_prefers hsource hkind
      obtain ⟨-, -, -, -, elsewhere, helsewhere⟩ := id hkind
      obtain ⟨place, hspan, hplace, hmin⟩ := hpreferred.exists_place helsewhere
      rw [hspan]
      refine .found hkind.mem hplace fun other hother place' hplace' => ?_
      obtain ⟨before, hbefore, hle⟩ := hearliest kind hkind other hother place' hplace'
      exact (hmin before hbefore).trans hle

/-- A text with the specifier `x` in double quotes, behind it in single ones. -/
def doubleFirst : Text := "import a from \"x\"; import b from 'x';".toList

theorem doubleFirst_located :
    Text.byteLength doubleFirst < Span.limit
      ∧ Prefers doubleFirst ['x'] '"'
      ∧ FirstAmong ['"'] doubleFirst ['x'] (ofSpecifier doubleFirst ['x']) := by
  have hsource : Text.byteLength doubleFirst < Span.limit := by decide +kernel
  have hprefers : Prefers doubleFirst ['x'] '"' :=
    ⟨[], ['\'', '\x60'], rfl, by simp, 14, "import a from ".toList, "; import b from 'x';".toList,
      by decide, by decide⟩
  exact ⟨hsource, hprefers, (ofSpecifier_first_iff doubleFirst ['x'] hsource).1 '"' hprefers⟩

/-- A text with the specifier `x` in single quotes, behind it in double ones. -/
def singleFirst : Text := "import a from 'x'; import b from \"x\";".toList

theorem span_not_always_first :
    ¬ ∀ source specifier : Text, Text.byteLength source < Span.limit →
      Text.byteLength specifier < Span.limit →
        FirstAmong quotes source specifier (ofSpecifier source specifier) := by
  intro hall
  have hfirst := hall singleFirst ['x'] (by decide +kernel) (by decide +kernel)
  have hquoted : Quoted singleFirst ['x'] '\'' 14 :=
    ⟨"import a from ".toList, "; import b from \"x\";".toList, by decide, by decide⟩
  have hle := hfirst.start_le (by decide) hquoted
  have hspan : ofSpecifier singleFirst ['x'] = ⟨34, 1⟩ := by decide +kernel
  rw [hspan] at hle
  exact absurd hle (by decide)

end DidYouMean
