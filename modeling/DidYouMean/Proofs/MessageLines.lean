import DidYouMean.Message
import DidYouMean.Proofs.Lists
import DidYouMean.Proofs.Segments
import DidYouMean.Proofs.SignatureLines

/-!
# The lines of a message

A line that was shown already is not shown again, wherever it came from. But each line begins with
the name it belongs to, so suggestions of different names have no line in common, and what is left
out repeats a line of the same suggestion (`listLines_eq_flatMap`).
-/

namespace DidYouMean

namespace Message

variable {withSignatures : Bool} {s : Suggestion} {suggestions : List Suggestion} {line : Text}

@[simp] theorem suggestionLines_false (s : Suggestion) : suggestionLines false s = [s.name] := by
  unfold suggestionLines
  split <;> rfl

theorem bound_of_mem_suggestionLines (h : line ∈ suggestionLines withSignatures s) :
    Signature.Bound s.name (s.signature.getD []) line := by
  have hname : line ∈ [s.name] → Signature.Bound s.name (s.signature.getD []) line := by
    intro hline
    rw [List.mem_singleton] at hline
    exact ⟨[], by rw [hline, List.append_nil], by simp, by simp⟩
  unfold suggestionLines at h
  split at h
  · rename_i signature hsignature
    split_ifs at h
    · rw [hsignature, Option.getD_some]
      exact Signature.bound_of_mem_lines s.name h
    · exact hname h
  · exact hname h

theorem suggestionLines_ne_nil : suggestionLines withSignatures s ≠ [] := by
  unfold suggestionLines
  split
  · split_ifs
    · exact Signature.lines_ne_nil _ _
    · exact List.cons_ne_nil _ _
  · exact List.cons_ne_nil _ _

/-- A line is left out only behind an equal line of the same suggestion. -/
theorem listLines_eq_flatMap (hdistinct : (Suggestion.names suggestions).Nodup)
    (hnames : ∀ s ∈ suggestions, ∀ c ∈ s.name, Signature.endsName c = false) :
    listLines withSignatures suggestions
      = suggestions.flatMap fun s =>
          ((suggestionLines withSignatures s).map (bullet ++ ·)).eraseDups := by
  refine eraseDups_flatMap ((List.pairwise_map.1 hdistinct).imp_of_mem ?_)
  intro s s' hs hs' hne line hline hline'
  obtain ⟨text, htext, rfl⟩ := List.mem_map.1 hline
  obtain ⟨text', htext', hsame⟩ := List.mem_map.1 hline'
  obtain rfl := List.append_cancel_left hsame
  exact hne <| (bound_of_mem_suggestionLines htext).name_eq (bound_of_mem_suggestionLines htext')
    (hnames s hs) (hnames s' hs')

theorem listLines_false (hdistinct : (Suggestion.names suggestions).Nodup) :
    listLines false suggestions = (Suggestion.names suggestions).map (bullet ++ ·) := by
  have hlines : suggestions.flatMap (fun s => (suggestionLines false s).map (bullet ++ ·))
      = (Suggestion.names suggestions).map (bullet ++ ·) := by
    simp only [suggestionLines_false, List.map_singleton, Suggestion.names, List.map_map]
    exact List.flatMap_pure_eq_map _ _
  rw [listLines, hlines]
  exact eraseDups_of_nodup <| List.Pairwise.map _
    (fun _ _ hne hsame => hne (List.append_cancel_left hsame)) hdistinct

theorem splitOn_list (hne : suggestions ≠ [])
    (hlines : ∀ s ∈ suggestions, ∀ line ∈ suggestionLines withSignatures s, '\n' ∉ line) :
    Text.splitOn '\n' (list withSignatures suggestions)
      = listLines withSignatures suggestions := by
  refine Text.splitOn_join ?_ fun line hline => ?_
  · obtain ⟨s, rest, rfl⟩ := List.exists_cons_of_ne_nil hne
    obtain ⟨line, hline⟩ := List.exists_mem_of_ne_nil _ (suggestionLines_ne_nil (s := s))
    refine List.ne_nil_of_mem (a := bullet ++ line) (List.mem_eraseDups.2 ?_)
    exact List.mem_flatMap.2 ⟨s, List.mem_cons_self, List.mem_map_of_mem hline⟩
  · obtain ⟨s, hs, hline⟩ := List.mem_flatMap.1 (List.mem_eraseDups.1 hline)
    obtain ⟨text, htext, rfl⟩ := List.mem_map.1 hline
    rw [List.mem_append, not_or]
    exact ⟨by decide, hlines s hs text htext⟩

end Message

/-- A message shows the suggestions in their order, each by its own lines. Where only the names are
shown, these are the lines. -/
theorem suggestions_shown (suggestions : List Suggestion) (hne : suggestions ≠ [])
    (hdistinct : (Suggestion.names suggestions).Nodup)
    (hnames : ∀ s ∈ suggestions, ∀ c ∈ s.name, Signature.endsName c = false) :
    ((∀ s ∈ suggestions, ∀ signature ∈ s.signature, '\n' ∉ signature) → ∀ withSignatures,
        Text.splitOn '\n' (Message.list withSignatures suggestions)
          = (suggestions.flatMap fun s =>
              ((Message.suggestionLines withSignatures s).map ("  - ".toList ++ ·)).eraseDups)
        ∧ ∀ s ∈ suggestions, Message.suggestionLines withSignatures s ≠ []
            ∧ ∀ line ∈ Message.suggestionLines withSignatures s, s.name <+: line)
      ∧ (∀ context, Message.compose context suggestions
          = context.header ++ " Did you mean:\n".toList
              ++ Message.list context.showsSignatures suggestions)
      ∧ ∀ requested kind, Text.splitOn '\n'
          (Message.list (Context.moduleSpecifier requested kind).showsSignatures suggestions)
            = suggestions.map fun s => "  - ".toList ++ s.name := by
  have hname : ∀ s ∈ suggestions, '\n' ∉ s.name := fun s hs hc =>
    absurd (hnames s hs _ hc) (by decide)
  refine ⟨fun hsignatures withSignatures => ⟨?_, fun s _ => ?_⟩, fun context => ?_,
    fun requested kind => ?_⟩
  · rw [Message.splitOn_list hne, Message.listLines_eq_flatMap hdistinct hnames, Message.bullet]
    intro s hs line hline
    refine (Message.bound_of_mem_suggestionLines hline).not_mem (by decide) (hname s hs) ?_
    rcases hsignature : s.signature with _ | signature
    · exact List.not_mem_nil
    · exact hsignatures s hs signature hsignature
  · exact ⟨Message.suggestionLines_ne_nil, fun line hline =>
      (Message.bound_of_mem_suggestionLines hline).isPrefix⟩
  · have hwords : " Did you mean:\n".toList = ' ' :: (Message.didYouMean ++ ['\n']) := by decide
    simp only [Message.compose, if_neg hne, hwords, List.append_assoc, List.cons_append,
      List.nil_append]
  · have hplain : ∀ s ∈ suggestions, ∀ line ∈ Message.suggestionLines false s, '\n' ∉ line := by
      intro s hs line hline
      rw [Message.suggestionLines_false, List.mem_singleton] at hline
      rw [hline]
      exact hname s hs
    rw [Context.showsSignatures, Message.splitOn_list hne hplain,
      Message.listLines_false hdistinct, Suggestion.names, List.map_map, Message.bullet]
    rfl

/-- A name with a union of call signatures and one with a function type. -/
def pickAndPin : List Suggestion :=
  [⟨⟨"pick".toList, some "{ <K>(key: K): K; <K>(keys: K[]): K; (): void }".toList⟩, .exact⟩,
    ⟨⟨"pin".toList, some "(id: string) => void".toList⟩, .exact⟩]

theorem pickAndPin_shown :
    Text.splitOn '\n' (Message.list true pickAndPin)
        = ["  - pick<K>".toList, "  - pick(): void".toList, "  - pin(id: string): void".toList]
      ∧ Text.splitOn '\n' (Message.list false pickAndPin)
        = ["  - pick".toList, "  - pin".toList] := by
  have hplain : pickAndPin.all (fun s => s.name.all fun c => !Signature.endsName c) = true := by
    decide
  have hnames : ∀ s ∈ pickAndPin, ∀ c ∈ s.name, Signature.endsName c = false := fun s hs c hc => by
    simpa using List.all_eq_true.1 (List.all_eq_true.1 hplain s hs) c hc
  obtain ⟨hlist, -, hlocal⟩ :=
    suggestions_shown pickAndPin (List.cons_ne_nil _ _) (by decide) hnames
  exact ⟨(hlist (by decide) true).1.trans (by decide), hlocal [] .package⟩

end DidYouMean
