import Mathlib.Logic.Relation
import Pithos.Library.Disk

/-!
# What a lookup passes through

`Step` is one move of a path lookup, without a budget for followed links, so
`Reaches` holds everything that a lookup can pass through, however long it is.
It depends only on the shape of the tree.  A lookup in a subtree that never
takes `..` at the root of the subtree stays in it, wherever the subtree hangs;
one that does leaves it.
-/

namespace FileTree

open HostPath

/-- What a lookup sees at a location. -/
inductive Shape
  | directory
  | file
  | symlink (target : Path)
  deriving DecidableEq

/-- The shape of a label. -/
def Label.shape : Label → Shape
  | directory _ => .directory
  | file _ => .file
  | symlink _ target => .symlink target

/-- A lookup in progress. -/
structure Config where
  location : Location
  rest : List Component

/-- One move of a lookup. -/
inductive Step (read : Location → Option Shape) : Config → Config → Prop
  | rootDir (location : Location) (rest : List Component) :
      Step read ⟨location, .rootDir :: rest⟩ ⟨[], rest⟩
  | curDir (location : Location) (rest : List Component) :
      Step read ⟨location, .curDir :: rest⟩ ⟨location, rest⟩
  | parentDir (location : Location) (rest : List Component) :
      Step read ⟨location, .parentDir :: rest⟩ ⟨location.dropLast, rest⟩
  | descend (location : Location) (name : Name) (rest : List Component)
      (found : read (location ++ [name]) = some .directory) :
      Step read ⟨location, .normal name :: rest⟩ ⟨location ++ [name], rest⟩
  | arrive (location : Location) (name : Name)
      (found : read (location ++ [name]) = some .file) :
      Step read ⟨location, [.normal name]⟩ ⟨location ++ [name], []⟩
  | follow (location : Location) (name : Name) (rest : List Component)
      (target : Path)
      (found : read (location ++ [name]) = some (.symlink target))
      (nonempty : target ≠ []) :
      Step read ⟨location, .normal name :: rest⟩
        ⟨location, lookupComponents target ++ rest⟩

/-- What a lookup passes through. -/
def Reaches (read : Location → Option Shape) : Config → Config → Prop :=
  Relation.ReflTransGen (Step read)

/-- A lookup of names goes nowhere where nothing stands. -/
theorem Reaches.eq_of_free
    {read : Location → Option Shape}
    {location : Location}
    {names : List Name}
    {reached : Config}
    (reaches : Reaches read ⟨location, names.map .normal⟩ reached)
    (free : ∀ name, read (location ++ [name]) = none) :
    reached = ⟨location, names.map .normal⟩ := by
  rcases Relation.ReflTransGen.cases_head reaches with rfl | ⟨_, step, _⟩
  · rfl
  · cases names with
    | nil => cases step
    | cons name names =>
        have absent := free name
        rw [List.map_cons] at step
        generalize names.map Component.normal = tail at step
        cases step with
        | descend _ _ _ found => cases absent.symm.trans found
        | arrive _ _ found => cases absent.symm.trans found
        | follow _ _ _ _ found => cases absent.symm.trans found

/-! ## Lookups as runs -/

/-- The next move of a lookup, if there is one. -/
def Config.next (read : Location → Option Shape) : Config → Option Config
  | ⟨_, []⟩ => none
  | ⟨_, .rootDir :: rest⟩ => some ⟨[], rest⟩
  | ⟨location, .curDir :: rest⟩ => some ⟨location, rest⟩
  | ⟨location, .parentDir :: rest⟩ => some ⟨location.dropLast, rest⟩
  | ⟨location, .normal name :: rest⟩ =>
      match read (location ++ [name]) with
      | none => none
      | some .directory => some ⟨location ++ [name], rest⟩
      | some .file => if rest = [] then some ⟨location ++ [name], []⟩ else none
      | some (.symlink target) =>
          if target = [] then none
          else some ⟨location, lookupComponents target ++ rest⟩

/-- A lookup has at most one next move. -/
theorem step_iff_next
    {read : Location → Option Shape}
    {config reached : Config} :
    Step read config reached ↔ config.next read = some reached := by
  constructor
  · intro step
    cases step with
    | rootDir | curDir | parentDir => rfl
    | descend location name rest found | arrive location name found =>
        simp [Config.next, found]
    | follow location name rest target found nonempty =>
        simp [Config.next, found, nonempty]
  · obtain ⟨location, rest⟩ := config
    intro isNext
    match rest with
    | [] => cases isNext
    | .rootDir :: rest =>
        cases isNext
        exact .rootDir _ _
    | .curDir :: rest =>
        cases isNext
        exact .curDir _ _
    | .parentDir :: rest =>
        cases isNext
        exact .parentDir _ _
    | .normal name :: rest =>
        simp only [Config.next] at isNext
        split at isNext
        · cases isNext
        · rename_i found
          cases isNext
          exact .descend _ _ _ found
        · rename_i found
          split at isNext
          · rename_i isLast
            subst isLast
            cases isNext
            exact .arrive _ _ found
          · cases isNext
        · rename_i target found
          split at isNext
          · cases isNext
          · rename_i nonempty
            cases isNext
            exact .follow _ _ _ _ found nonempty

/-- What a lookup passes through in a number of moves, and whether it has ended
by then. -/
def Config.trace (read : Location → Option Shape) :
    Nat → Config → List Config × Bool
  | 0, config => ([config], (config.next read).isNone)
  | moves + 1, config =>
      match config.next read with
      | none => ([config], true)
      | some reached =>
          let (later, ended) := reached.trace read moves
          (config :: later, ended)

theorem reaches_of_mem_trace
    {read : Location → Option Shape}
    {moves : Nat}
    {config reached : Config}
    (member : reached ∈ (config.trace read moves).1) :
    Reaches read config reached := by
  induction moves generalizing config with
  | zero =>
      rw [List.mem_singleton.mp member]
      exact .refl
  | succ moves inductionHypothesis =>
      simp only [Config.trace] at member
      split at member
      · rw [List.mem_singleton.mp member]
        exact .refl
      · rename_i following isNext
        rcases List.mem_cons.mp member with rfl | later
        · exact .refl
        · exact .head (step_iff_next.mpr isNext) (inductionHypothesis later)

/-- A lookup that has ended passed through nothing else. -/
theorem mem_trace_of_reaches
    {read : Location → Option Shape}
    {moves : Nat}
    {config reached : Config}
    (ended : (config.trace read moves).2)
    (reaches : Reaches read config reached) :
    reached ∈ (config.trace read moves).1 := by
  induction moves generalizing config with
  | zero =>
      rcases Relation.ReflTransGen.cases_head reaches with rfl | ⟨_, step, _⟩
      · exact List.mem_singleton_self _
      · simp [Config.trace, step_iff_next.mp step] at ended
  | succ moves inductionHypothesis =>
      rcases Relation.ReflTransGen.cases_head reaches with
        rfl | ⟨following, step, later⟩
      · simp only [Config.trace]
        split
        · exact List.mem_singleton_self _
        · exact List.mem_cons_self
      · simp only [Config.trace, step_iff_next.mp step] at ended ⊢
        exact List.mem_cons_of_mem _ (inductionHypothesis ended later)

/-- The shape of what stands at a location of a disk. -/
def Disk.shape (disk : Disk) (location : Location) : Option Shape :=
  (disk.look location).map Label.shape

/-! ## Lookups in a subtree -/

/-- A lookup in a subtree that stands at a base. -/
def Config.below (base : Location) (config : Config) : Config :=
  ⟨base ++ config.location, config.rest⟩

/-- A lookup about to leave its tree. -/
def Config.Leaves (config : Config) : Prop :=
  config.location = [] ∧ config.rest.head? = some .parentDir

instance (config : Config) : Decidable config.Leaves :=
  inferInstanceAs (Decidable (_ ∧ _))

/-- A tree in which every link is relative. -/
def LinksRelative (read : Location → Option Shape) : Prop :=
  ∀ location target, read location = some (.symlink target) →
    .rootDir ∉ lookupComponents target

section Subtree

variable
  {whole subtree : Location → Option Shape}
  {base : Location}

theorem LinksRelative.step
    (linksRelative : LinksRelative subtree)
    {first second : Config}
    (relative : .rootDir ∉ first.rest)
    (step : Step subtree first second) :
    .rootDir ∉ second.rest := by
  cases step with
  | rootDir location rest => simp at relative
  | curDir location rest => simpa using relative
  | parentDir location rest => simpa using relative
  | descend location name rest found => simpa using relative
  | arrive location name found => simp
  | follow location name rest target found nonempty =>
      have := linksRelative _ target found
      simp_all

/-- A move of a relative lookup that does not leave the subtree is the same move
below the base. -/
theorem Step.below_iff
    (sameShapes : ∀ relative, whole (base ++ relative) = subtree relative)
    {config : Config}
    (relative : .rootDir ∉ config.rest)
    (stays : ¬config.Leaves)
    {moved : Config} :
    Step whole (config.below base) moved ↔
      ∃ next, Step subtree config next ∧ moved = next.below base := by
  obtain ⟨location, rest⟩ := config
  constructor
  · intro step
    generalize isBelow : Config.below base ⟨location, rest⟩ = start at step
    cases step with
    | rootDir place tail =>
        cases isBelow
        simp at relative
    | curDir place tail =>
        cases isBelow
        exact ⟨⟨location, tail⟩, .curDir _ _, rfl⟩
    | parentDir place tail =>
        cases isBelow
        have nonempty : location ≠ [] := fun empty => stays ⟨empty, rfl⟩
        refine ⟨⟨location.dropLast, tail⟩, .parentDir _ _, ?_⟩
        rw [Config.below, List.dropLast_append_of_ne_nil nonempty]
    | descend place name tail found =>
        cases isBelow
        rw [List.append_assoc, sameShapes] at found
        exact ⟨⟨location ++ [name], tail⟩, .descend _ _ _ found,
          by simp [Config.below]⟩
    | arrive place name found =>
        cases isBelow
        rw [List.append_assoc, sameShapes] at found
        exact ⟨⟨location ++ [name], []⟩, .arrive _ _ found,
          by simp [Config.below]⟩
    | follow place name tail target found nonempty =>
        cases isBelow
        rw [List.append_assoc, sameShapes] at found
        exact ⟨⟨location, lookupComponents target ++ tail⟩,
          .follow _ _ _ target found nonempty, rfl⟩
  · rintro ⟨next, step, rfl⟩
    unfold Config.below
    cases step with
    | rootDir place tail => simp at relative
    | curDir place tail => exact .curDir _ _
    | parentDir place tail =>
        have nonempty : location ≠ [] := fun empty => stays ⟨empty, rfl⟩
        simp only
        rw [← List.dropLast_append_of_ne_nil nonempty]
        exact .parentDir _ _
    | descend place name tail found =>
        simp only
        rw [← List.append_assoc]
        refine .descend _ _ _ ?_
        rwa [List.append_assoc, sameShapes]
    | arrive place name found =>
        simp only
        rw [← List.append_assoc]
        refine .arrive _ _ ?_
        rwa [List.append_assoc, sameShapes]
    | follow place name tail target found nonempty =>
        refine .follow _ _ _ target ?_ nonempty
        rwa [List.append_assoc, sameShapes]

theorem LinksRelative.reaches
    (linksRelative : LinksRelative subtree)
    {first second : Config}
    (relative : .rootDir ∉ first.rest)
    (reaches : Reaches subtree first second) :
    .rootDir ∉ second.rest := by
  induction reaches with
  | refl => exact relative
  | tail _ step inductionHypothesis =>
      exact linksRelative.step inductionHypothesis step

/-- A lookup that never leaves the subtree stays below the base. -/
theorem Reaches.stays_below
    (sameShapes : ∀ relative, whole (base ++ relative) = subtree relative)
    (linksRelative : LinksRelative subtree)
    {start : Config}
    (relative : .rootDir ∉ start.rest)
    (stays : ∀ config, Reaches subtree start config → ¬config.Leaves)
    {reached : Config}
    (reaches : Reaches whole (start.below base) reached) :
    base <+: reached.location := by
  have follows : ∃ config, Reaches subtree start config ∧
      reached = config.below base := by
    induction reaches with
    | refl => exact ⟨start, .refl, rfl⟩
    | tail _ step inductionHypothesis =>
        obtain ⟨config, before, rfl⟩ := inductionHypothesis
        obtain ⟨next, move, rfl⟩ := (Step.below_iff sameShapes
          (linksRelative.reaches relative before) (stays config before)).mp
          step
        exact ⟨next, before.tail move, rfl⟩
  obtain ⟨config, _, rfl⟩ := follows
  exact List.prefix_append _ _

/-- A lookup that leaves the subtree leaves the base. -/
theorem Reaches.leaves_below
    (sameShapes : ∀ relative, whole (base ++ relative) = subtree relative)
    (linksRelative : LinksRelative subtree)
    (nonempty : base ≠ [])
    {start config : Config}
    (relative : .rootDir ∉ start.rest)
    (reaches : Reaches subtree start config)
    (leaves : config.Leaves) :
    ∃ reached, Reaches whole (start.below base) reached ∧
      ¬base <+: reached.location := by
  -- The first move out of the subtree is also one in the whole tree.
  have out {config : Config} (before : Reaches whole (start.below base)
      (config.below base)) (leaves : config.Leaves) :
      ∃ reached, Reaches whole (start.below base) reached ∧
        ¬base <+: reached.location := by
    obtain ⟨location, rest⟩ := config
    obtain ⟨rfl, isParent⟩ := leaves
    obtain ⟨tail, rfl⟩ : ∃ tail, rest = .parentDir :: tail := by
      cases rest with
      | nil => cases isParent
      | cons first tail =>
          cases isParent
          exact ⟨tail, rfl⟩
    refine ⟨_, before.tail (.parentDir _ _), ?_⟩
    intro isPrefix
    have shorter := isPrefix.length_le
    have positive := List.length_pos_iff.mpr nonempty
    rw [List.append_nil, List.length_dropLast] at shorter
    omega
  have follows : Reaches whole (start.below base) (config.below base) ∨
      ∃ reached, Reaches whole (start.below base) reached ∧
        ¬base <+: reached.location := by
    clear leaves
    induction reaches with
    | refl => exact Or.inl .refl
    | @tail middle last before step inductionHypothesis =>
        rcases inductionHypothesis with reached | left
        · by_cases leaves : middle.Leaves
          · exact Or.inr (out reached leaves)
          · refine Or.inl (reached.tail ?_)
            exact (Step.below_iff sameShapes
              (linksRelative.reaches relative before) leaves).mpr
              ⟨last, step, rfl⟩
        · exact Or.inr left
  rcases follows with reached | left
  · exact out reached leaves
  · exact left

end Subtree

end FileTree
