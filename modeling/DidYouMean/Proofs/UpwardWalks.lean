import DidYouMean.FileTree.Memory
import DidYouMean.ModuleIndex.Build
import DidYouMean.Proofs.Ancestors
import DidYouMean.Resolution

/-!
# Walks upwards

A walk upwards is in one directory after the other. It ends where it finds something or at a fixed
point of `dirname`, and else goes on in the directory above. Whatever it looks for, it is over after
as many turns as there are directories to come to, and comes to the nearest of these, or to all of
them if it finds nothing (`Computes.ends`). The searches for a manifest and for a package and the
registering of directories are three such walks, so they end from every path on (`walks_end`).
-/

namespace DidYouMean

/-- A walk upwards with states of type `σ` and results of type `ρ`. -/
structure Walk (σ ρ : Type) where
  /-- The directory the walk is in. -/
  directory : σ → Text
  /-- The result, if the walk ends here without a look further up. -/
  found? : σ → Option ρ
  /-- The result at a fixed point where nothing is found. -/
  missed : σ → ρ
  /-- The state to go on with. -/
  up : σ → σ
  directory_up : ∀ s, directory (up s) = Path.dirname (directory s)

namespace Walk

section

variable {σ ρ : Type} (w : Walk σ ρ)

/-- The states a walk is in and its result, if it is over within some number of turns. -/
def run? : (turns : Nat) → (start : σ) → Option (List σ × ρ)
  | 0, _ => none
  | turns + 1, s =>
    match w.found? s with
    | some result => some ([s], result)
    | none =>
      if Path.dirname (w.directory s) = w.directory s then some ([s], w.missed s)
      else (run? turns (w.up s)).map fun (states, result) => (s :: states, result)

/-- The walk is over within as many turns as there are directories to come to. It is in the nearest
of these one after the other, and in all of them if nothing is found. -/
structure Ends (start : σ) (result : ρ) (states : List σ) : Prop where
  run : w.run? (Path.ancestors (w.directory start)).length start = some (states, result)
  nearest : states.map w.directory <+: Path.ancestors (w.directory start)
  all : (∀ s ∈ states, w.found? s = none) →
    states.map w.directory = Path.ancestors (w.directory start)

/-- What is computed from each state on is what a walk from there comes to, one turn at a time. -/
def Computes (value : σ → ρ) : Prop :=
  ∀ s, value s = match w.found? s with
    | some result => result
    | none => if Path.dirname (w.directory s) = w.directory s then w.missed s else value (w.up s)

variable {w}

theorem Computes.ends {value : σ → ρ} (h : w.Computes value) (s : σ) :
    ∃ states, w.Ends s (value s) states := by
  generalize hd : w.directory s = d
  induction d using Path.upward_induction generalizing s with
  | up d ih =>
    subst hd
    have hvalue := h s
    rcases hfound : w.found? s with _ | result <;> rw [hfound] at hvalue
    · by_cases htop : Path.dirname (w.directory s) = w.directory s
      · have hlone : Path.ancestors (w.directory s) = [w.directory s] := by
          rw [Path.ancestors, dif_pos htop]
        simp only [if_pos htop] at hvalue
        refine ⟨[s], ?_, ?_, ?_⟩ <;> rw [hlone]
        · simp only [List.length_singleton, run?, hfound, if_pos htop, hvalue]
        · exact List.prefix_rfl
        · exact fun _ => rfl
      · obtain ⟨states, hends⟩ := ih htop (w.up s) (w.directory_up s)
        have habove := Path.ancestors_of_ne htop
        rw [← w.directory_up s] at habove
        simp only [if_neg htop] at hvalue
        refine ⟨s :: states, ?_, ?_, ?_⟩ <;> rw [habove]
        · simp only [List.length_cons, run?, hfound, if_neg htop, hends.run, Option.map_some,
            hvalue]
        · exact List.cons_prefix_cons.2 ⟨rfl, hends.nearest⟩
        · intro hnone
          rw [List.map_cons, hends.all fun s' hs' => hnone s' (List.mem_cons_of_mem _ hs')]
    · refine ⟨[s], ?_, ?_, ?_⟩
      · rw [Path.ancestors, List.length_cons, run?, hfound, hvalue]
      · rw [Path.ancestors]
        exact List.cons_prefix_cons.2 ⟨rfl, List.nil_prefix⟩
      · intro hnone
        rw [hnone s List.mem_cons_self] at hfound
        simp at hfound

end

/-! ## The three walks -/

/-- The search for a manifest, with the directories that were looked into. It is over as well where
the answer is known. -/
def manifest (tree : FileTree) (manifestName : Text) (known : List (Text × Option Text)) :
    Walk (Text × List Text) (Option Text × List Text) where
  directory := Prod.fst
  found? := fun (directory, visited) =>
    match known.lookup directory with
    | some nearest => some (nearest, visited)
    | none =>
      let manifest := Path.join directory manifestName
      if tree.fileExists manifest then some (some manifest, visited ++ [directory]) else none
  missed := fun (directory, visited) => (none, visited ++ [directory])
  up := fun (directory, visited) => (Path.dirname directory, visited ++ [directory])
  directory_up _ := rfl

/-- The search for a package. -/
def package (tree : FileTree) (options : IndexOptions) (package : Text) : Walk Text Bool where
  directory := id
  found? directory :=
    if Resolution.holdsPackage tree options package directory then some true else none
  missed _ := false
  up := Path.dirname
  directory_up _ := rfl

/-- The registering of directories, with those that are known. It is over at one of these. -/
def registering : Walk (List Text × Text) (List Text) where
  directory := Prod.snd
  found? := fun (known, directory) => if known.contains directory then some known else none
  missed := fun (known, directory) => known ++ [directory]
  up := fun (known, directory) => (known ++ [directory], Path.dirname directory)
  directory_up _ := rfl

theorem computes_manifest (tree : FileTree) (manifestName : Text)
    (known : List (Text × Option Text)) :
    (manifest tree manifestName known).Computes fun (directory, visited) =>
      (ModuleIndex.walkUp tree manifestName known directory).map id (visited ++ ·) := by
  rintro ⟨directory, visited⟩
  dsimp only [manifest]
  rw [ModuleIndex.walkUp]
  rcases hknown : known.lookup directory with _ | nearest
  · by_cases hexists : tree.fileExists (Path.join directory manifestName) = true
    · simp only [if_pos hexists, Prod.map_apply, id]
    · simp only [if_neg hexists]
      by_cases htop : Path.dirname directory = directory
      · rw [dif_pos htop]
        exact (if_pos htop).symm
      · rw [dif_neg htop]
        refine Eq.trans ?_ (if_neg htop).symm
        simp [Prod.map]
  · simp only [Prod.map_apply, id, List.append_nil]

theorem computes_package (tree : FileTree) (options : IndexOptions) (name : Text) :
    (package tree options name).Computes fun directory =>
      (Path.ancestors directory).any (Resolution.holdsPackage tree options name) := by
  intro directory
  dsimp only [package, id]
  by_cases hholds : Resolution.holdsPackage tree options name directory = true
  · simp only [if_pos hholds]
    rw [Path.ancestors, List.any_cons, hholds, Bool.true_or]
  · simp only [if_neg hholds]
    rw [Path.ancestors, List.any_cons, eq_false_of_ne_true hholds, Bool.false_or]
    by_cases htop : Path.dirname directory = directory
    · rw [dif_pos htop]
      exact (if_pos htop).symm
    · rw [dif_neg htop]
      exact (if_neg htop).symm

theorem computes_registering : registering.Computes fun (known, directory) =>
    MemoryTree.register known directory := by
  rintro ⟨known, directory⟩
  dsimp only [registering]
  rw [MemoryTree.register]
  by_cases hknown : known.contains directory = true
  · simp only [if_pos hknown]
  · simp only [if_neg hknown, dite_eq_ite]
    rfl

end Walk

/-- From every path the directories lead up to one of the two fixed points, in no more steps than
the path has characters and one. So the searches for a manifest and for a package and the
registering of directories are over after that, with what they come to. Above an absolute path in
normal form stand exactly the directories in normal form that it lies below, the nearest first and
the root last. -/
theorem walks_end (p : Text) :
    (∀ d, Path.dirname d = d ↔ d = ['/'] ∨ d = ['.'])
      ∧ (∃ k ≤ p.length + 1, (Path.dirname^[k] p = ['/'] ∨ Path.dirname^[k] p = ['.'])
          ∧ Path.ancestors p = (List.range (k + 1)).map (Path.dirname^[·] p))
      ∧ (∀ tree manifestName known, ∃ states, (Walk.manifest tree manifestName known).Ends (p, [])
          (ModuleIndex.walkUp tree manifestName known p) states)
      ∧ (∀ tree options specifier, ∃ states,
          (Walk.package tree options (Specifier.packageName specifier)).Ends
            (Path.dirname (Path.normalize p)) (Resolution.findsPackage tree options specifier p)
            states)
      ∧ (∀ known, ∃ states, Walk.registering.Ends (known, p) (MemoryTree.register known p) states)
      ∧ (Path.Collapsed p →
          Path.ancestors p = (Path.collapsedSegments p).inits.reverse.map Path.rooted
            ∧ (Path.ancestors p).getLast? = some ['/']
            ∧ ∀ d, d ∈ Path.ancestors p ↔ Path.Collapsed d ∧ Path.AtOrBelow d p) := by
  refine ⟨fun _ => Path.dirname_eq_self_iff, ?_, ?_, ?_, ?_, fun hp => ?_⟩
  · obtain ⟨k, hk, htop, hwalk⟩ := Path.exists_top p
    exact ⟨k, hk.trans (Path.climb_le p), Path.dirname_eq_self_iff.1 htop, hwalk⟩
  · intro tree manifestName known
    exact (Walk.computes_manifest tree manifestName known).ends (p, [])
  · intro tree options specifier
    exact (Walk.computes_package tree options _).ends (Path.dirname (Path.normalize p))
  · intro known
    exact Walk.computes_registering.ends (known, p)
  · have hrooted : Path.rooted (Path.collapsedSegments p) = p := by
      rw [← Path.collapse_of_absolute hp.absolute, hp.fixed]
    have hwalk := Path.ancestors_rooted (Path.plain_collapsedSegments hp.absolute)
    rw [hrooted] at hwalk
    refine ⟨hwalk, ?_, fun _ => hp.mem_ancestors_iff⟩
    have hshortest : (Path.collapsedSegments p).inits.head? = some [] := by
      cases Path.collapsedSegments p <;> simp
    rw [hwalk, List.getLast?_map, List.getLast?_reverse, hshortest]
    rfl

theorem library_walk_ends :
    Path.Collapsed "/w/src/lib".toList
      ∧ Path.ancestors "/w/src/lib".toList
        = ["/w/src/lib".toList, "/w/src".toList, "/w".toList, ['/']] := by
  have hcollapsed : Path.Collapsed "/w/src/lib".toList := by decide
  obtain ⟨-, -, -, -, -, habove⟩ := walks_end "/w/src/lib".toList
  refine ⟨hcollapsed, (habove hcollapsed).1.trans ?_⟩
  decide

end DidYouMean
