import Pithos.Library.DiskGrowth

/-!
# Operations that may fail at any time

A disk whose operations meet faults: an operation that meets one fails and
leaves the disk as it is.  The disk remembers the paths that its operations
used, each with what stood on it then.

Making directories along any path, links or not, adds directories only where a
beginning of the path leads.
-/

namespace FileTree

open HostPath
open Fallible

namespace Disk

/-! ## Paths that lead through directories -/

section Paths

variable
  {disk after : Disk}
  {path : List Component}
  {parent location : Location}
  {name : Name}

@[simp] theorem hasNul_append
    (first second : List Component) :
    hasNul (first ++ second) = (hasNul first || hasNul second) :=
  List.any_append

theorem resolve_eq_ok_iff :
    disk.resolve path = .ok location ↔
      hasNul path = false ∧ walk disk.look linkBudget [] path = .ok location := by
  simp only [resolve, bind_eq_ok, ensure_eq_ok, exists_const]

theorem resolve_nil (disk : Disk) : disk.resolve [] = .ok [] := rfl

/-- A path leads where it led as long as nothing is taken away. -/
theorem Kept.resolve
    (kept : Kept disk after)
    (resolved : disk.resolve path = .ok location) :
    after.resolve path = .ok location := by
  rw [resolve_eq_ok_iff] at resolved ⊢
  exact ⟨resolved.1, walk_mono kept.look resolved.2⟩

/-- A name in a directory. -/
theorem resolveLast_entry
    (resolved : disk.resolve path = .ok parent)
    (isDirectory : ∃ metadata, disk.look parent = some (.directory metadata)) :
    disk.resolveLast (path ++ [.normal name]) =
      if hasNul [.normal name] = false then .ok (parent ++ [name])
      else .error .invalidInput := by
  obtain ⟨noNul, walked⟩ := resolve_eq_ok_iff.mp resolved
  obtain ⟨metadata, present⟩ := isDirectory
  rw [resolveLast, List.getLast?_concat, List.dropLast_concat, hasNul_append,
    noNul, Bool.false_or, walked]
  simp only [ok_bind, present, Option.any_some, Label.isDirectory]
  split
  · rename_i plain
    rw [ensure_of plain, ok_bind]
    rfl
  · rename_i bad
    rw [ensure_of_not bad, error_bind]

/-- What stands in a directory, unless it is a link. -/
theorem resolve_entry
    (resolved : disk.resolve path = .ok parent)
    (isDirectory : ∃ metadata, disk.look parent = some (.directory metadata))
    (plain : hasNul [.normal name] = false)
    {label : Label}
    (found : disk.look (parent ++ [name]) = some label)
    (notLink : label.isSymlink = false) :
    disk.resolve (path ++ [.normal name]) = .ok (parent ++ [name]) := by
  obtain ⟨noNul, walked⟩ := resolve_eq_ok_iff.mp resolved
  rw [resolve_eq_ok_iff, hasNul_append, noNul, plain]
  refine ⟨rfl, ?_⟩
  obtain ⟨left, same⟩ := @walk_append disk.look parent [.normal name]
    isDirectory _ _ _ walked
  rw [same]
  cases label with
  | directory metadata => cases left <;> simp [walk, walkToLink, found]
  | file inode => rw [walk_file found, if_pos rfl]
  | symlink metadata target => cases notLink

/-- A node that is added at a path stands alone where the path leads. -/
theorem addAt_eq_ok
    {added : Node}
    (leaf : added.IsLeaf)
    (placed : disk.addAt path added = .ok after) :
    ∃ location, disk.resolveLast path = .ok location ∧
      after.inodes = disk.inodes ∧
      LeafAdded disk location added.label after := by
  simp only [addAt, bind_eq_ok, okOr_eq_ok, add_eq_some] at placed
  obtain ⟨location, resolved, inserted, inodes⟩ := placed
  refine ⟨location, resolved, inodes, ?_⟩
  rcases List.eq_nil_or_concat location with rfl | ⟨parent, name, rfl⟩
  · cases disk.root <;> simp [Node.insert] at inserted
  · rw [List.concat_eq_append] at inserted ⊢
    exact ⟨(insert_isSome_iff.mp (by rw [inserted]; rfl)).2,
      look_insert_leaf leaf inserted⟩

/-- The parent of a path with a last name is a directory. -/
theorem resolveLast_eq_ok_iff
    {path : List Component} :
    disk.resolveLast path = .ok location ↔
      ∃ front name parent, path = front ++ [.normal name] ∧
        disk.resolve front = .ok parent ∧
        (∃ metadata, disk.look parent = some (.directory metadata)) ∧
        hasNul [.normal name] = false ∧ location = parent ++ [name] := by
  constructor
  · intro resolved
    have whole := resolved
    simp only [resolveLast, bind_eq_ok, ensure_eq_ok] at resolved
    obtain ⟨_, noNul, resolved⟩ := resolved
    split at resolved
    · rename_i name isLast
      simp only [bind_eq_ok, ensure_eq_ok, Except.ok.injEq] at resolved
      obtain ⟨parent, walked, _, isDirectory, rfl⟩ := resolved
      have split : path = path.dropLast ++ [.normal name] := by
        obtain ⟨front, rfl⟩ := List.getLast?_eq_some_iff.mp isLast
        rw [List.dropLast_concat]
      rw [split, hasNul_append, Bool.or_eq_false_iff] at noNul
      refine ⟨path.dropLast, name, parent, split,
        resolve_eq_ok_iff.mpr ⟨noNul.1, walked⟩, ?_, noNul.2, rfl⟩
      cases found : disk.look parent with
      | none => simp [found] at isDirectory
      | some label =>
          cases label with
          | directory metadata => exact ⟨metadata, rfl⟩
          | file inode => simp [found, Label.isDirectory] at isDirectory
          | symlink metadata target =>
              simp [found, Label.isDirectory] at isDirectory
    · simp [bind_eq_ok] at resolved
    · simp [bind_eq_ok] at resolved
    · cases resolved
    · cases resolved
  · rintro ⟨front, name, parent, rfl, resolved, isDirectory, plain, rfl⟩
    rw [resolveLast_entry resolved isDirectory, if_pos plain]

theorem Kept.resolveLast
    (kept : Kept disk after)
    (resolved : disk.resolveLast path = .ok location) :
    after.resolveLast path = .ok location := by
  rw [resolveLast_eq_ok_iff] at resolved ⊢
  obtain ⟨front, name, parent, split, isFront, ⟨metadata, isDirectory⟩, plain,
    isLocation⟩ := resolved
  exact ⟨front, name, parent, split, kept.resolve isFront,
    ⟨metadata, kept.look _ _ isDirectory⟩, plain, isLocation⟩

/-- A directory that is made is where its path leads. -/
theorem mkdir_eq_ok
    (made : mkdir path disk = (.ok (), after)) :
    ∃ location, disk.resolveLast path = .ok location ∧
      after.inodes = disk.inodes ∧
      LeafAdded disk location (.directory newDirectory) after ∧
      after.resolve path = .ok location := by
  simp only [mkdir, StateAction.attempt_eq_ok, bind_eq_ok, Except.ok.injEq,
    Prod.mk.injEq, true_and] at made
  obtain ⟨_, placed, rfl⟩ := made
  obtain ⟨location, resolved, inodes, added⟩ := addAt_eq_ok
    (Node.isLeaf_directory newDirectory) placed
  refine ⟨location, resolved, inodes, added, ?_⟩
  obtain ⟨front, name, parent, rfl, isFront, ⟨metadata, isParent⟩, plain,
    rfl⟩ := resolveLast_eq_ok_iff.mp resolved
  have kept := kept_of_addAt placed
  refine @resolve_entry _ front parent name (kept.resolve isFront)
    ⟨metadata, kept.look _ _ isParent⟩ plain (.directory newDirectory) ?_ rfl
  rw [added.look, if_pos rfl]
  rfl

/-- A path that is a directory. -/
theorem isDir_eq_true_iff :
    disk.isDir path = true ↔ ∃ location metadata,
      disk.resolve path = .ok location ∧
        disk.look location = some (.directory metadata) := by
  unfold isDir
  constructor
  · intro isDir
    split at isDir
    · rename_i location resolved
      cases found : disk.look location with
      | none => simp [found] at isDir
      | some label =>
          cases label with
          | directory metadata => exact ⟨location, metadata, resolved, found⟩
          | file inode => simp [found, Label.isDirectory] at isDir
          | symlink metadata target =>
              simp [found, Label.isDirectory] at isDir
    · cases isDir
  · rintro ⟨location, metadata, resolved, found⟩
    simp [resolved, found, Label.isDirectory]

end Paths

end Disk

/-! ## Faults -/

/-- A path that an operation used, and the disk then. -/
structure Use where
  disk : Disk
  path : List Component

/-- A disk with the faults that its operations will meet. -/
structure FaultyDisk where
  disk : Disk
  faults : List (Option IoErrorKind)
  uses : List Use

namespace FaultyDisk

open Disk

variable {Value : Type}

/-- One operation later. -/
def used (path : List Component) (faulty : FaultyDisk) : FaultyDisk where
  disk := faulty.disk
  faults := faulty.faults.tail
  uses := faulty.uses ++ [⟨faulty.disk, path⟩]

/-- An operation on a path, unless there is a fault. -/
def exposed
    (path : List Component)
    (operation : StateAction Disk IoErrorKind Value) :
    StateAction FaultyDisk IoErrorKind Value :=
  fun faulty =>
    match faulty.faults.head?.join with
    | some failure => (.error failure, faulty.used path)
    | none => ((operation faulty.disk).1,
        { faulty.used path with disk := (operation faulty.disk).2 })

/-- Keep a failure unless the path is a directory, as far as one can tell. -/
def unlessDir (path : List Component) (failure : IoErrorKind) :
    StateAction FaultyDisk IoErrorKind Unit :=
  StateAction.mapError (fun _ => failure)
    (exposed path (Disk.unlessDir path failure))

/-- Run an action and then, when it fails, another. -/
def orElse
    (action : StateAction FaultyDisk IoErrorKind Unit)
    (handler : IoErrorKind → StateAction FaultyDisk IoErrorKind Unit) :
    StateAction FaultyDisk IoErrorKind Unit :=
  fun faulty =>
    match action faulty with
    | (.ok value, after) => (.ok value, after)
    | (.error failure, after) => handler failure after

/-- Make a directory. -/
def mkdir (path : List Component) : StateAction FaultyDisk IoErrorKind Unit :=
  exposed path (Disk.mkdir path)

/-- Make the directories of the first names of a path. -/
def createDirAllUpTo (path : List Component) :
    Nat → StateAction FaultyDisk IoErrorKind Unit
  | 0 => pure ()
  | count + 1 =>
      orElse (mkdir (path.take (count + 1))) fun failure =>
        if failure = .notFound then do
          createDirAllUpTo path count
          orElse (mkdir (path.take (count + 1)))
            (unlessDir (path.take (count + 1)))
        else unlessDir (path.take (count + 1)) failure

/-- Make a directory and all its parents that are missing. -/
def createDirAll (path : List Component) :
    StateAction FaultyDisk IoErrorKind Unit :=
  createDirAllUpTo path path.length

/-- What making directories along a path, up to a limit, does to a disk. -/
structure Along
    (start : FaultyDisk)
    (path : List Component)
    (limit : Nat)
    (faulty : FaultyDisk) : Prop where
  kept : Kept start.disk faulty.disk
  inodes : faulty.disk.inodes = start.disk.inodes
  added : ∀ location label, start.disk.look location = none →
    faulty.disk.look location = some label →
    label = .directory newDirectory ∧ ∃ count, count ≤ limit ∧
      faulty.disk.resolve (path.take count) = .ok location ∧
      faulty.disk.resolveLast (path.take count) = .ok location
  uses : ∀ use ∈ faulty.uses, use ∈ start.uses ∨
    Kept start.disk use.disk ∧ ∃ count, count ≤ path.length ∧
      use.path = path.take count

section Rules

variable
  {limit : Nat}
  {start faulty : FaultyDisk}
  {path : List Component}
  {operation : StateAction Disk IoErrorKind Value}

/-- The rule for an operation that may meet a fault. -/
theorem exposed_triple
    {before : FaultyDisk → Prop}
    {success : Value → FaultyDisk → Prop}
    {failed : IoErrorKind → FaultyDisk → Prop}
    (holds : ∀ faulty value after, before faulty →
      operation faulty.disk = (.ok value, after) →
      success value { faulty.used path with disk := after })
    (fails : ∀ faulty failure after, before faulty →
      operation faulty.disk = (.error failure, after) →
      failed failure { faulty.used path with disk := after })
    (meets : ∀ faulty failure, before faulty →
      failed failure (faulty.used path)) :
    StateAction.Triple before (exposed path operation) success failed := by
  intro faulty isBefore
  unfold exposed
  cases faulty.faults.head?.join with
  | some failure => exact meets faulty failure isBefore
  | none =>
      cases ran : operation faulty.disk with
      | mk result after =>
          cases result with
          | ok value => exact holds faulty value after isBefore ran
          | error failure => exact fails faulty failure after isBefore ran

theorem orElse_triple
    {before : FaultyDisk → Prop}
    {action : StateAction FaultyDisk IoErrorKind Unit}
    {handler : IoErrorKind → StateAction FaultyDisk IoErrorKind Unit}
    {success : Unit → FaultyDisk → Prop}
    {middle failed : IoErrorKind → FaultyDisk → Prop}
    (first : StateAction.Triple before action success middle)
    (second : ∀ failure,
      StateAction.Triple (middle failure) (handler failure) success failed) :
    StateAction.Triple before (orElse action handler) success failed := by
  intro faulty isBefore
  have result := first faulty isBefore
  unfold orElse
  match ran : action faulty with
  | (.ok value, after) =>
      rw [ran] at result
      exact result
  | (.error failure, after) =>
      rw [ran] at result
      exact second failure after result

theorem Along.refl
    (start : FaultyDisk)
    (path : List Component)
    (limit : Nat) :
    Along start path limit start := by
  refine ⟨.refl _, rfl, ?_, fun _ => .inl⟩
  intro location label absent found
  rw [absent] at found
  cases found

/-- An operation that only looks. -/
theorem Along.used
    (along : Along start path limit faulty)
    {count : Nat}
    (within : count ≤ path.length) :
    Along start path limit (faulty.used (path.take count)) := by
  refine ⟨along.kept, along.inodes, along.added, ?_⟩
  intro use isUse
  rcases List.mem_append.mp isUse with isUse | isNew
  · exact along.uses use isUse
  · rw [List.mem_singleton.mp isNew]
    exact .inr ⟨along.kept, count, within, rfl⟩

theorem Along.mono
    (along : Along start path limit faulty)
    {larger : Nat}
    (le : limit ≤ larger) :
    Along start path larger faulty := by
  refine ⟨along.kept, along.inodes, ?_, along.uses⟩
  intro location label absent found
  obtain ⟨isNew, count, within, leads⟩ :=
    along.added location label absent found
  exact ⟨isNew, count, Nat.le_trans within le, leads⟩

/-- A beginning of the path is a directory. -/
def IsDirectoryUpTo
    (path : List Component)
    (count : Nat)
    (faulty : FaultyDisk) : Prop :=
  ∃ location metadata,
    faulty.disk.resolve (path.take count) = .ok location ∧
      faulty.disk.look location = some (.directory metadata)

theorem mkdir_along
    {count : Nat}
    (within : count ≤ path.length) :
    StateAction.Triple (Along start path limit) (mkdir (path.take count))
      (fun _ faulty => Along start path (max limit count) faulty ∧
        IsDirectoryUpTo path count faulty)
      (fun _ => Along start path limit) := by
  refine exposed_triple ?_ ?_ ?_
  · intro faulty value after along made
    obtain ⟨location, isLast, inodes, added, leads⟩ := mkdir_eq_ok made
    have kept : Kept faulty.disk after := by
      have keeps := keeps_mkdir (path.take count) faulty.disk
      rwa [made] at keeps
    refine ⟨⟨along.kept.trans kept, inodes.trans along.inodes, ?_,
      (along.used within).uses⟩, location, newDirectory, leads, ?_⟩
    · intro asked label absent found
      dsimp only at found ⊢
      rw [added.look] at found
      split at found
      · rename_i same
        cases found
        subst same
        exact ⟨rfl, count, Nat.le_max_right _ _, leads,
          kept.resolveLast isLast⟩
      · obtain ⟨isNew, other, otherWithin, otherLeads, otherLast⟩ :=
          along.added asked label absent found
        exact ⟨isNew, other, Nat.le_trans otherWithin (Nat.le_max_left _ _),
          kept.resolve otherLeads, kept.resolveLast otherLast⟩
    · rw [added.look, if_pos rfl]
  · intro faulty failure after along failed
    rw [StateAction.eq_of_attempt_eq_error failed]
    exact along.used within
  · exact fun faulty failure along => along.used within

theorem unlessDir_along
    {count : Nat}
    (within : count ≤ path.length)
    (failure : IoErrorKind) :
    StateAction.Triple (Along start path limit)
      (unlessDir (path.take count) failure)
      (fun _ faulty => Along start path limit faulty ∧
        IsDirectoryUpTo path count faulty)
      (fun _ => Along start path limit) := by
  refine StateAction.Triple.mapError (exposed_triple ?_ ?_ ?_)
  · intro faulty value after along isDir
    unfold Disk.unlessDir StateAction.inspect at isDir
    obtain ⟨checked, rfl⟩ := Prod.mk.inj isDir
    refine ⟨along.used within, isDir_eq_true_iff.mp ?_⟩
    dsimp only at checked
    split at checked
    · assumption
    · cases checked
  · intro faulty other after along failed
    have same := (Prod.mk.inj failed).2
    rw [← same]
    exact along.used within
  · exact fun faulty other along => along.used within

/-- Making directories along a path, faults or not.  The last one is made only
by a call that succeeds. -/
theorem createDirAllUpTo_along
    {count : Nat}
    (within : count ≤ path.length)
    (nearly : count ≤ limit + 1) :
    StateAction.Triple (Along start path limit) (createDirAllUpTo path count)
      (fun _ faulty => Along start path (max limit count) faulty ∧
        IsDirectoryUpTo path count faulty)
      (fun _ => Along start path limit) := by
  induction count with
  | zero =>
      refine StateAction.Triple.pure fun faulty along =>
        ⟨along.mono (Nat.le_max_left _ _), ?_⟩
      obtain ⟨metadata, isRoot⟩ := faulty.disk.look_root
      exact ⟨[], metadata, by rw [List.take_zero, resolve_nil], isRoot⟩
  | succ count inductionHypothesis =>
      have checks (failure : IoErrorKind) :
          StateAction.Triple (Along start path limit)
            (unlessDir (path.take (count + 1)) failure)
            (fun _ faulty => Along start path (max limit (count + 1)) faulty ∧
              IsDirectoryUpTo path (count + 1) faulty)
            (fun _ => Along start path limit) :=
        (unlessDir_along within failure).consequence (fun _ => id)
          (fun _ _ both => ⟨both.1.mono (Nat.le_max_left _ _), both.2⟩)
          (fun _ _ => id)
      refine orElse_triple (mkdir_along within) fun failure => ?_
      split
      · refine StateAction.Triple.bind
          (inductionHypothesis (by omega) (by omega)) fun _ => ?_
        refine StateAction.Triple.from
          (orElse_triple (mkdir_along within) checks) ?_
        rintro faulty ⟨along, _⟩
        rwa [Nat.max_eq_left (by omega)] at along
      · exact checks failure

theorem createDirAll_along
    (start : FaultyDisk)
    (path : List Component) :
    StateAction.Triple (Along start path (path.length - 1)) (createDirAll path)
      (fun _ faulty => Along start path path.length faulty ∧
        IsDirectoryUpTo path path.length faulty)
      (fun _ => Along start path (path.length - 1)) := by
  have made := @createDirAllUpTo_along (path.length - 1) start path path.length
    (Nat.le_refl _) (by omega)
  rwa [Nat.max_eq_right (Nat.sub_le _ _)] at made

end Rules

/-! ## Without faults -/

/-- An action that does without faults what another action does on the disk. -/
def Mimics
    {Failure : Type}
    (faulty : StateAction FaultyDisk Failure Value)
    (plain : StateAction Disk Failure Value) : Prop :=
  ∀ disk uses, ∃ after, faulty ⟨disk, [], uses⟩ =
    ((plain disk).1, ⟨(plain disk).2, [], after⟩)

section Mimics

variable
  {Failure Next : Type}
  {faulty : StateAction FaultyDisk Failure Value}
  {plain : StateAction Disk Failure Value}

theorem mimics_pure (value : Value) :
    Mimics (pure value : StateAction FaultyDisk Failure Value) (pure value) :=
  fun _ uses => ⟨uses, rfl⟩

theorem mimics_lift (result : Except Failure Value) :
    Mimics (StateAction.lift result) (StateAction.lift result) :=
  fun _ uses => ⟨uses, rfl⟩

theorem mimics_exposed
    (path : List Component)
    (operation : StateAction Disk IoErrorKind Value) :
    Mimics (exposed path operation) operation :=
  fun disk uses => ⟨uses ++ [⟨disk, path⟩], rfl⟩

theorem Mimics.bind
    {next : Value → StateAction FaultyDisk Failure Next}
    {plainNext : Value → StateAction Disk Failure Next}
    (first : Mimics faulty plain)
    (rest : ∀ value, Mimics (next value) (plainNext value)) :
    Mimics (faulty >>= next) (plain >>= plainNext) := by
  intro disk uses
  obtain ⟨after, ran⟩ := first disk uses
  match same : plain disk with
  | (.ok value, changed) =>
      rw [same] at ran
      rw [StateAction.bind_of_ok same, StateAction.bind_of_ok ran]
      exact rest value changed after
  | (.error failure, changed) =>
      rw [same] at ran
      rw [StateAction.bind_of_error same, StateAction.bind_of_error ran]
      exact ⟨after, rfl⟩

/-- A step that does nothing without faults. -/
theorem Mimics.before
    {step : StateAction FaultyDisk Failure Unit}
    {next : Unit → StateAction FaultyDisk Failure Value}
    (idle : Mimics step (pure ()))
    (rest : Mimics (next ()) plain) :
    Mimics (step >>= next) plain :=
  idle.bind fun _ => rest

/-- A step at the end that does nothing without faults. -/
theorem Mimics.after
    {faulty step : StateAction FaultyDisk Failure Unit}
    {plain : StateAction Disk Failure Unit}
    (mimics : Mimics faulty plain)
    (idle : Mimics step (pure ())) :
    Mimics (faulty >>= fun _ => step) plain := by
  have same : plain = plain >>= pure := by
    funext disk
    match ran : plain disk with
    | (.ok (), changed) =>
        rw [StateAction.bind_of_ok ran]
        rfl
    | (.error failure, changed) => rw [StateAction.bind_of_error ran]
  rw [same]
  exact mimics.bind fun _ => idle

theorem Mimics.cleanupAfter
    {cleanup : StateAction FaultyDisk Failure Unit}
    {plainCleanup : StateAction Disk Failure Unit}
    (mimics : Mimics faulty plain)
    (cleans : Mimics cleanup plainCleanup) :
    Mimics (StateAction.cleanupAfter faulty cleanup)
      (StateAction.cleanupAfter plain plainCleanup) := by
  intro disk uses
  obtain ⟨after, ran⟩ := mimics disk uses
  obtain ⟨final, cleaned⟩ := cleans (plain disk).2 after
  refine ⟨final, ?_⟩
  unfold StateAction.cleanupAfter
  rw [ran, cleaned]

theorem Mimics.forEach
    {Item : Type}
    {body : Item → StateAction FaultyDisk Failure Unit}
    {plainBody : Item → StateAction Disk Failure Unit}
    (mimics : ∀ item, Mimics (body item) (plainBody item))
    (items : List Item) :
    Mimics (StateAction.forEach body items)
      (StateAction.forEach plainBody items) := by
  induction items with
  | nil => exact mimics_pure ()
  | cons item items inductionHypothesis =>
      exact (mimics item).bind fun _ => inductionHypothesis

theorem Mimics.mapError
    {Other : Type}
    (rename : Failure → Other)
    (mimics : Mimics faulty plain) :
    Mimics (StateAction.mapError rename faulty)
      (StateAction.mapError rename plain) := by
  intro disk uses
  obtain ⟨after, ran⟩ := mimics disk uses
  refine ⟨after, ?_⟩
  unfold StateAction.mapError
  rw [ran]
  match plain disk with
  | (.ok value, changed) => rfl
  | (.error failure, changed) => rfl

theorem Mimics.orElse
    {action : StateAction FaultyDisk IoErrorKind Unit}
    {handler : IoErrorKind → StateAction FaultyDisk IoErrorKind Unit}
    {plainAction : StateAction Disk IoErrorKind Unit}
    {plainHandler : IoErrorKind → StateAction Disk IoErrorKind Unit}
    (first : Mimics action plainAction)
    (second : ∀ failure, Mimics (handler failure) (plainHandler failure)) :
    Mimics (FaultyDisk.orElse action handler)
      (Disk.orElse plainAction plainHandler) := by
  intro disk uses
  obtain ⟨after, ran⟩ := first disk uses
  unfold FaultyDisk.orElse Disk.orElse
  match same : plainAction disk with
  | (.ok value, changed) =>
      rw [same] at ran
      rw [ran]
      exact ⟨after, rfl⟩
  | (.error failure, changed) =>
      rw [same] at ran
      rw [ran]
      exact second failure changed after

theorem mimics_unlessDir
    (path : List Component)
    (failure : IoErrorKind) :
    Mimics (FaultyDisk.unlessDir path failure) (Disk.unlessDir path failure)
    := by
  intro disk uses
  refine ⟨uses ++ [⟨disk, path⟩], ?_⟩
  unfold FaultyDisk.unlessDir StateAction.mapError Disk.unlessDir
  cases isDir : disk.isDir path with
  | true => simp [exposed, StateAction.inspect, isDir, used]
  | false => simp [exposed, StateAction.inspect, isDir, used]

theorem mimics_createDirAll (path : List Component) :
    Mimics (FaultyDisk.createDirAll path) (Disk.createDirAll path) := by
  have upTo (count : Nat) : Mimics (FaultyDisk.createDirAllUpTo path count)
      (Disk.createDirAllUpTo path count) := by
    induction count with
    | zero => exact mimics_pure ()
    | succ count inductionHypothesis =>
        have makes := mimics_exposed (path.take (count + 1))
          (Disk.mkdir (path.take (count + 1)))
        refine makes.orElse fun failure => ?_
        split
        · exact inductionHypothesis.bind fun _ =>
            makes.orElse fun _ => mimics_unlessDir _ _
        · exact mimics_unlessDir _ _
  exact upTo path.length

end Mimics

end FaultyDisk

end FileTree
