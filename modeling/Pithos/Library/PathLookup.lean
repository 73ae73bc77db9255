import Pithos.Library.FileTree

/-!
# Path lookup

A lookup walks components from a location, given what stands at each location.
`walk` is the lookup, with a budget for followed links.  On a path without
symbolic links the result of a walk is read off the tree.
-/

namespace FileTree

open HostPath

/-- Walk until the next link, and jump there. -/
def walkToLink
    (read : Location → Option Label)
    (jump : Location → List Component → Except IoErrorKind Location) :
    Location → List Component → Except IoErrorKind Location
  | location, [] => .ok location
  | _, .rootDir :: rest => walkToLink read jump [] rest
  | location, .curDir :: rest => walkToLink read jump location rest
  | location, .parentDir :: rest => walkToLink read jump location.dropLast rest
  | location, .normal name :: rest =>
      match read (location ++ [name]) with
      | none => .error .notFound
      | some (.directory _) => walkToLink read jump (location ++ [name]) rest
      | some (.file _) =>
          if rest = [] then .ok (location ++ [name])
          else .error .notADirectory
      | some (.symlink _ target) =>
          if target = [] then .error .notFound
          else jump location (lookupComponents target ++ rest)

/-- Walk components from a location, following at most `budget` links.  The
result is the location that the path stands for. -/
def walk (read : Location → Option Label) :
    Nat → Location → List Component → Except IoErrorKind Location
  | 0 => walkToLink read fun _ _ => .error .filesystemLoop
  | budget + 1 => walkToLink read (walk read budget)

/-- The number of links that one lookup follows. -/
def linkBudget : Nat := 40

/-! ## Walks without links -/

section LinkFree

variable {read : Location → Option Label}

/-- A walk along directories arrives. -/
theorem walk_directories
    {budget : Nat}
    {location : Location}
    {names : List Name}
    {rest : List Component}
    (directories : ∀ done, done <+: names → done ≠ [] →
      ∃ metadata, read (location ++ done) = some (.directory metadata)) :
    walk read budget location (names.map .normal ++ rest) =
      walk read budget (location ++ names) rest := by
  induction names generalizing location with
  | nil => simp
  | cons name names inductionHypothesis =>
      obtain ⟨metadata, found⟩ := directories [name] (by simp) (by simp)
      have step : walk read budget location
          ((name :: names).map .normal ++ rest) =
            walk read budget (location ++ [name])
              (names.map .normal ++ rest) := by
        cases budget <;>
          simp only [walk, walkToLink, List.map_cons, List.cons_append, found]
      rw [step, inductionHypothesis]
      · simp
      · intro done isPrefix nonempty
        have := directories (name :: done)
          (List.cons_prefix_cons.mpr ⟨rfl, isPrefix⟩) (by simp)
        simpa using this

/-- The last name of a walk is free. -/
theorem walk_missing
    {budget : Nat}
    {location : Location}
    {name : Name}
    {rest : List Component}
    (missing : read (location ++ [name]) = none) :
    walk read budget location (.normal name :: rest) = .error .notFound := by
  cases budget <;> simp only [walk, walkToLink, missing]

theorem walk_file
    {budget : Nat}
    {location : Location}
    {name : Name}
    {rest : List Component}
    {inode : Nat}
    (isFile : read (location ++ [name]) = some (.file inode)) :
    walk read budget location (.normal name :: rest) =
      if rest = [] then .ok (location ++ [name])
      else .error .notADirectory := by
  cases budget <;> simp only [walk, walkToLink, isFile]

@[simp] theorem walk_nil
    (budget : Nat)
    (location : Location) :
    walk read budget location [] = .ok location := by
  cases budget <;> rfl

end LinkFree

/-- No name on the way to a location, nor the location itself, is a symbolic
link. -/
def LinkFree (root : Node) (location : Location) : Prop :=
  ∀ done, done <+: location → ∀ metadata target,
    look root done ≠ some (.symlink metadata target)

/-- The outcome of walking a path of names without links. -/
inductive NamesWalk (root : Node) (names : List Name) :
    Except IoErrorKind Location → Prop
  | found (label : Label)
      (present : look root names = some label) :
      NamesWalk root names (.ok names)
  | missing
      (absent : look root names = none)
      (notBlocked : ∀ done, done <+: names → ∀ inode,
        look root done ≠ some (.file inode)) :
      NamesWalk root names (.error .notFound)
  | blocked (done : List Name) (inode : Nat)
      (isPrefix : done <+: names)
      (different : done ≠ names)
      (isFile : look root done = some (.file inode)) :
      NamesWalk root names (.error .notADirectory)

private theorem namesWalk_from
    {root : Node}
    {budget : Nat}
    (done rest : List Name)
    (isDirectory : ∃ metadata, look root done = some (.directory metadata))
    (linkFree : LinkFree root (done ++ rest)) :
    NamesWalk root (done ++ rest)
      (walk (look root) budget done (rest.map .normal)) := by
  induction rest generalizing done with
  | nil =>
      obtain ⟨metadata, found⟩ := isDirectory
      simpa using NamesWalk.found _ found
  | cons name rest inductionHypothesis =>
      have assoc : done ++ name :: rest = (done ++ [name]) ++ rest := by simp
      cases found : look root (done ++ [name]) with
      | none =>
          rw [List.map_cons, walk_missing found]
          refine .missing ?_ ?_
          · exact look_eq_none_of_isPrefix found ⟨rest, assoc.symm⟩
          · intro before isPrefix inode isFile
            obtain ⟨metadata, isDirectory⟩ := isDirectory
            rcases List.prefix_or_prefix_of_prefix isPrefix
              (List.prefix_append done (name :: rest)) with shorter | longer
            · -- A file above `done` would have `done` below it.
              obtain ⟨below, rfl⟩ := shorter
              cases below with
              | nil => simp [isFile] at isDirectory
              | cons first below =>
                  obtain ⟨_, above⟩ := @isDirectory_of_look root before
                    (first :: below) (by simp) (by simp [isDirectory])
                  simp [isFile] at above
            · obtain ⟨below, rfl⟩ := longer
              cases below with
              | nil =>
                  rw [List.append_nil, isDirectory] at isFile
                  cases isFile
              | cons first below =>
                  have same : first = name := by
                    obtain ⟨tail, whole⟩ := isPrefix
                    simp at whole
                    exact whole.1
                  subst same
                  have absent := look_eq_none_of_isPrefix found
                    (by simp : done ++ [first] <+: done ++ first :: below)
                  simp [isFile] at absent
      | some label =>
          cases label with
          | directory metadata =>
              have step : walk (look root) budget done
                  ((name :: rest).map .normal) =
                    walk (look root) budget (done ++ [name])
                      (rest.map .normal) := by
                cases budget <;>
                  simp only [walk, walkToLink, List.map_cons, found]
              rw [step, assoc]
              exact inductionHypothesis (done ++ [name]) ⟨metadata, found⟩
                (by simpa using linkFree)
          | file inode =>
              rw [List.map_cons, walk_file found]
              cases rest with
              | nil => simpa using NamesWalk.found _ found
              | cons next rest =>
                  simp only [List.map_cons, reduceCtorEq, if_false]
                  exact .blocked (done ++ [name]) inode
                    ⟨next :: rest, assoc.symm⟩ (by simp) found
          | symlink metadata target =>
              exact absurd found (linkFree (done ++ [name])
                ⟨rest, assoc.symm⟩ metadata target)

/-- Walking a path of names without links finds the node, or misses it, or is
blocked by a file on the way. -/
theorem namesWalk
    {root : Node}
    {budget : Nat}
    {names : List Name}
    (isDirectory : ∃ metadata, look root [] = some (.directory metadata))
    (linkFree : LinkFree root names) :
    NamesWalk root names
      (walk (look root) budget [] (names.map .normal)) :=
  namesWalk_from [] names isDirectory linkFree

/-! ## Walks that go on -/

section GoingOn

variable {read larger : Location → Option Label}

private theorem walkToLink_append
    {jump : Location → List Component → Except IoErrorKind Location}
    {middle : Location}
    {tail : List Component}
    (isDirectory : ∃ metadata, read middle = some (.directory metadata))
    (jumps : ∀ start rest, jump start rest = .ok middle →
      ∃ budget, jump start (rest ++ tail) = walk read budget middle tail)
    {budget : Nat}
    (walks : ∀ start rest, walkToLink read jump start rest =
      walk read budget start rest)
    {start : Location}
    {rest : List Component}
    (walked : walkToLink read jump start rest = .ok middle) :
    ∃ budget, walkToLink read jump start (rest ++ tail) =
      walk read budget middle tail := by
  induction rest generalizing start with
  | nil =>
      cases walked
      exact ⟨budget, walks _ _⟩
  | cons component rest inductionHypothesis =>
      cases component with
      | rootDir | curDir | parentDir => exact inductionHypothesis walked
      | normal name =>
          simp only [walkToLink, List.cons_append] at walked ⊢
          split at walked
          · cases walked
          · rename_i metadata found
            exact inductionHypothesis walked
          · rename_i inode found
            split at walked
            · cases walked
              obtain ⟨metadata, present⟩ := isDirectory
              rw [found] at present
              cases present
            · cases walked
          · split at walked
            · cases walked
            · rename_i metadata target found nonempty
              rw [if_neg nonempty, ← List.append_assoc]
              exact jumps _ _ walked

/-- A walk that comes to a directory goes on from there. -/
theorem walk_append
    {middle : Location}
    {tail : List Component}
    (isDirectory : ∃ metadata, read middle = some (.directory metadata))
    {budget : Nat}
    {start : Location}
    {rest : List Component}
    (walked : walk read budget start rest = .ok middle) :
    ∃ left, walk read budget start (rest ++ tail) =
      walk read left middle tail := by
  induction budget generalizing start rest with
  | zero =>
      refine @walkToLink_append read _ middle tail isDirectory ?_ 0
        (fun _ _ => rfl) start rest walked
      intro start rest failed
      cases failed
  | succ budget inductionHypothesis =>
      refine @walkToLink_append read _ middle tail isDirectory ?_ (budget + 1)
        (fun _ _ => rfl) start rest walked
      intro start rest walked
      exact inductionHypothesis walked

private theorem walkToLink_prefix
    {jump : Location → List Component → Except IoErrorKind Location}
    {tail : List Component}
    (jumps : ∀ start rest final, jump start (rest ++ tail) = .ok final →
      ∃ middle, jump start rest = .ok middle)
    {start final : Location}
    {rest : List Component}
    (walked : walkToLink read jump start (rest ++ tail) = .ok final) :
    ∃ middle, walkToLink read jump start rest = .ok middle := by
  induction rest generalizing start with
  | nil => exact ⟨start, rfl⟩
  | cons component rest inductionHypothesis =>
      cases component with
      | rootDir | curDir | parentDir => exact inductionHypothesis walked
      | normal name =>
          simp only [walkToLink, List.cons_append] at walked ⊢
          split at walked
          · cases walked
          · exact inductionHypothesis walked
          · split at walked
            · rename_i isLast
              exact ⟨_, if_pos (List.append_eq_nil_iff.mp isLast).1⟩
            · cases walked
          · split at walked
            · cases walked
            · rename_i nonempty
              rw [← List.append_assoc] at walked
              rw [if_neg nonempty]
              exact jumps _ _ _ walked

/-- The first components of a walk that arrives lead somewhere. -/
theorem walk_prefix
    {budget : Nat}
    {start final : Location}
    {rest tail : List Component}
    (walked : walk read budget start (rest ++ tail) = .ok final) :
    ∃ middle, walk read budget start rest = .ok middle := by
  induction budget generalizing start final rest with
  | zero =>
      exact walkToLink_prefix (fun _ _ _ failed => by cases failed) walked
  | succ budget inductionHypothesis =>
      exact walkToLink_prefix (fun _ _ _ => inductionHypothesis) walked

private theorem walkToLink_mono
    (grows : ∀ location label, read location = some label →
      larger location = some label)
    {jump largerJump : Location → List Component → Except IoErrorKind Location}
    (jumps : ∀ start rest final, jump start rest = .ok final →
      largerJump start rest = .ok final)
    {start final : Location}
    {rest : List Component}
    (walked : walkToLink read jump start rest = .ok final) :
    walkToLink larger largerJump start rest = .ok final := by
  induction rest generalizing start with
  | nil => exact walked
  | cons component rest inductionHypothesis =>
      cases component with
      | rootDir | curDir | parentDir => exact inductionHypothesis walked
      | normal name =>
          simp only [walkToLink] at walked ⊢
          split at walked
          · cases walked
          · rename_i metadata found
            rw [grows _ _ found]
            exact inductionHypothesis walked
          · rename_i inode found
            rw [grows _ _ found]
            exact walked
          · rename_i metadata target found
            rw [grows _ _ found]
            split at walked
            · cases walked
            · rename_i nonempty
              simp only [if_neg nonempty]
              exact jumps _ _ _ walked

/-- A walk that arrives also arrives where more stands. -/
theorem walk_mono
    (grows : ∀ location label, read location = some label →
      larger location = some label)
    {budget : Nat}
    {start final : Location}
    {rest : List Component}
    (walked : walk read budget start rest = .ok final) :
    walk larger budget start rest = .ok final := by
  induction budget generalizing start rest final with
  | zero =>
      exact walkToLink_mono grows (fun _ _ _ failed => by cases failed) walked
  | succ budget inductionHypothesis =>
      exact walkToLink_mono grows (fun _ _ _ => inductionHypothesis) walked

end GoingOn

end FileTree
