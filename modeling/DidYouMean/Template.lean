import DidYouMean.Text

/-!
# Message templates

A template holds numbered places such as `{0}`. Filling it goes once from left to right, so an
argument is copied as it stands, braces included, and a brace that opens no place is text.
-/

namespace DidYouMean

namespace Template

/-- The number of the place a template opens with, its brace already read, and what follows it. -/
def place? (rest : Text) : Option (Nat × Text) :=
  match rest.dropWhile (· != '}') with
  | [] => none
  | _ :: after => (Text.word? (rest.takeWhile (· != '}'))).map (·, after)

theorem length_of_place? {rest after : Text} {i : Nat} (h : place? rest = some (i, after)) :
    after.length < rest.length := by
  have hle := (List.dropWhile_sublist (· != '}') (l := rest)).length_le
  unfold place? at h
  split at h
  · simp at h
  · rename_i hd
    obtain ⟨-, -, -, rfl⟩ := Option.map_eq_some_iff.1 h
    rw [hd] at hle
    simp only [List.length_cons] at hle
    omega

/-- The template with its places filled by the arguments they number; a place without an argument
stays as it is. -/
def fill (args : List Text) : Text → Text
  | [] => []
  | c :: rest =>
    if c = '{' then
      match _h : place? rest with
      | some (i, after) =>
        match args[i]? with
        | some arg => arg ++ fill args after
        | none => c :: fill args rest
      | none => c :: fill args rest
    else c :: fill args rest
termination_by t => t.length
decreasing_by
  all_goals simp only [List.length_cons]
  · have := length_of_place? _h
    omega
  all_goals omega

end Template

end DidYouMean
