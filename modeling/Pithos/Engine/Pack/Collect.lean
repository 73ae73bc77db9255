import Pithos.Engine.Scan.Defs
import Pithos.Engine.Pack.Groups
import Pithos.Engine.Pack.Layout

/-!
# Collecting the entries of an archive

Both packers walk over the scanned entries in their order and record each of
them.  A file that was met before under another name becomes a hardlink to its
first entry; what is done with a new file is up to the packer.

What the file system answers while a file is read, and where the job is
cancelled, are inputs of the model.
-/

namespace Pithos

open Fallible
open Machine
open FileTree

/-! ## Limits -/

/-- The limits of a pack. -/
structure PackLimits where
  maxInputBytes : UInt64
  maxMemoryBytes : UInt64
  maxTempBytes : UInt64
  maxOutputBytes : UInt64
  maxMetadataBytes : UInt64
  maxEntries : UInt64
  deriving DecidableEq

/-- The limits used when the caller gives none. -/
def PackLimits.default : PackLimits where
  maxInputBytes := DecodeLimits.default.maxOriginalBytes
  maxMemoryBytes := 18446744073709551615
  maxTempBytes := 18446744073709551615
  maxOutputBytes := 18446744073709551615
  maxMetadataBytes := DecodeLimits.default.maxMetadataBytes
  maxEntries := DecodeLimits.default.maxEntries

/-- The limits under which an archive is packed and then verified. -/
def PackLimits.decodeLimits
    (profile : CompressionProfile)
    (packLimits : PackLimits) : DecodeLimits :=
  { DecodeLimits.default with
    maxEntries := min packLimits.maxEntries DecodeLimits.default.maxEntries
    maxGroups := min packLimits.maxEntries DecodeLimits.default.maxGroups
    maxChunks := min packLimits.maxEntries DecodeLimits.default.maxChunks
    maxOriginalBytes := packLimits.maxInputBytes
    maxGroupOutput :=
      if profile = .raw then
        min packLimits.maxInputBytes DecodeLimits.default.maxGroupOutput
      else DecodeLimits.default.maxGroupOutput
    maxMetadataBytes :=
      min packLimits.maxMetadataBytes DecodeLimits.default.maxMetadataBytes }

/-- No budget is empty. -/
def PackLimits.checkBudgets (packLimits : PackLimits) : Result Unit :=
  ensure (packLimits.maxTempBytes ≠ 0 ∧ packLimits.maxOutputBytes ≠ 0 ∧
    packLimits.maxMetadataBytes ≠ 0 ∧ packLimits.maxEntries ≠ 0)
    (.resourceLimit "pack budget")

/-! ## The loop -/

/-- A scanned entry with what the scan saw of its file, and with what happens
when its turn comes: whether the job is cancelled, how the file looks before it
is hashed, and how reading it goes. -/
structure PackItem where
  entry : ScannedEntry
  size : UInt64
  modified : Option Int
  cancelled : Bool
  current : Except IoErrorKind SourceStamp
  reading : SourceReading

namespace PackItem

/-- How the file looked to the scan. -/
def stamp (item : PackItem) : SourceStamp where
  size := item.size
  modified := item.modified
  identity := item.entry.identity

/-- The entry record of an item. -/
def record
    (item : PackItem)
    (entryId size : UInt64)
    (hash : Digest)
    (kind : EntryKind) : EntryRecord where
  entryId := entryId
  path := item.entry.archivePath
  size := size
  modifiedNs := item.entry.metadata.modifiedNs
  mode := item.entry.metadata.mode
  blake3 := hash
  kind := kind

end PackItem

/-- `directory`. -/
def directoryText : List UInt8 :=
  [0x64, 0x69, 0x72, 0x65, 0x63, 0x74, 0x6F, 0x72, 0x79]

/-- The entries so far, the files met with their entry, size and hash, the size
of all files, and what the packer keeps of them. -/
structure Collecting (Files : Type) where
  entries : List EntryRecord
  hardlinks : List (Nat × (UInt64 × UInt64 × Digest))
  originalTotalSize : UInt64
  files : Files

namespace Collecting

variable {Files : Type}

/-- Nothing has been collected. -/
def start (files : Files) : Collecting Files := ⟨[], [], 0, files⟩

/-- The id of the next entry. -/
def nextId (state : Collecting Files) : UInt64 :=
  UInt64.ofNat state.entries.length

/-- One more entry. -/
def push (entry : EntryRecord) (state : Collecting Files) : Collecting Files :=
  { state with entries := state.entries ++ [entry] }

/-- Remember where a file was met, when the host can tell files apart. -/
def remember
    (identity : Option Nat)
    (found : UInt64 × UInt64 × Digest)
    (state : Collecting Files) : Collecting Files :=
  match identity with
  | none => state
  | some key => { state with hardlinks := (key, found) :: state.hardlinks }

/-- The entry under which a file was met. -/
def met (identity : Option Nat) (state : Collecting Files) :
    Option (UInt64 × UInt64 × Digest) :=
  identity.bind fun key => state.hardlinks.lookup key

section Remember

variable
  {identity : Option Nat}
  {found : UInt64 × UInt64 × Digest}
  {state : Collecting Files}

@[simp] theorem remember_entries :
    (state.remember identity found).entries = state.entries := by
  cases identity <;> rfl

@[simp] theorem remember_originalTotalSize :
    (state.remember identity found).originalTotalSize =
      state.originalTotalSize := by
  cases identity <;> rfl

@[simp] theorem remember_files :
    (state.remember identity found).files = state.files := by
  cases identity <;> rfl

/-- What was met is the file just remembered, when the host can tell it, or one
met before. -/
theorem met_remember (other : Option Nat) :
    (state.remember identity found).met other =
      if identity.isSome ∧ other = identity then some found
      else state.met other := by
  cases identity with
  | none => simp [remember]
  | some key =>
      cases other with
      | none => simp [met]
      | some sought =>
          simp only [remember, met, Option.bind_some, List.lookup_cons,
            Option.isSome_some, Option.some.injEq, true_and]
          by_cases same : sought = key
          · simp [same]
          · simp [same, beq_false_of_ne same]

end Remember

end Collecting

/-- What a packer does with a new file: it keeps something and tells the size,
the hash and the kind of the entry. -/
abbrev PackFile (Files : Type) :=
  PackItem → UInt64 → Files → Result (Files × UInt64 × Digest × EntryKind)

/-- Record one scanned entry. -/
def collectItem
    {Files : Type}
    (json : Json)
    (digests : Digests)
    (limits : DecodeLimits)
    (packFile : PackFile Files)
    (_position : Nat)
    (item : PackItem)
    (state : Collecting Files) : Result (Collecting Files) := do
  ensure (item.cancelled = false) .cancelled
  match item.entry.kind with
  | .directory =>
      .ok (state.push (item.record state.nextId 0
        (digests.blake3 directoryText) .directory))
  | .symlink target targetIsDir =>
      .ok (state.push (item.record state.nextId
        (UInt64.ofNat (json.linkTarget.toVec target).length)
        (digests.blake3 (json.linkTarget.toVec target))
        (.symlink target targetIsDir)))
  | .file => do
      let total ← okOr (checkedAdd state.originalTotalSize item.size)
        .integerOverflow
      ensure (total ≤ limits.maxOriginalBytes)
        (.resourceLimit "tamanho original")
      match state.met item.entry.identity with
      | some (target, size, hash) =>
          .ok ({ state with originalTotalSize := total }.push
            (item.record state.nextId size hash (.hardlink target)))
      | none => do
          ensure (item.size ≤ limits.maxGroupOutput)
            (.resourceLimit "tamanho do grupo")
          let (files, size, hash, kind) ←
            packFile item state.nextId state.files
          .ok (({ state with
              originalTotalSize := total
              files := files }.remember item.entry.identity
                (state.nextId, size, hash)).push
            (item.record state.nextId size hash kind))

/-- Record all scanned entries. -/
def collect
    {Files : Type}
    (json : Json)
    (digests : Digests)
    (limits : DecodeLimits)
    (packFile : PackFile Files)
    (files : Files)
    (items : List PackItem) : Result (Collecting Files) :=
  forEnum (collectItem json digests limits packFile) 0 items
    (Collecting.start files)

/-! ## What is recorded -/

/-- The item before a position is the file with an identity that the scan met
first. -/
structure FirstMet
    (items : List PackItem)
    (position : Nat)
    (identity : Option Nat) : Prop where
  isFile : ∃ item, items[position]? = some item ∧ item.entry.kind = .file ∧
    item.entry.identity = identity
  known : identity.isSome
  first : ∀ (earlier : Nat) (item : PackItem), earlier < position →
    items[earlier]? = some item → item.entry.kind = .file →
    item.entry.identity ≠ identity

/-- What is recorded of the kind of an item: a file met before is a hardlink to
the entry under which it was met first. -/
inductive RecordedKind
    (json : Json)
    (digests : Digests)
    (items : List PackItem)
    (entries : List EntryRecord)
    (position : Nat)
    (item : PackItem)
    (entry : EntryRecord) : Prop
  | directory
      (kind : item.entry.kind = .directory)
      (record : entry = item.record (UInt64.ofNat position) 0
        (digests.blake3 directoryText) .directory)
  | symlink (target : LinkTarget) (targetIsDir : Bool)
      (kind : item.entry.kind = .symlink target targetIsDir)
      (record : entry = item.record (UInt64.ofNat position)
        (UInt64.ofNat (json.linkTarget.toVec target).length)
        (digests.blake3 (json.linkTarget.toVec target))
        (.symlink target targetIsDir))
  | hardlink (first : Nat) (target : EntryRecord)
      (kind : item.entry.kind = .file)
      (earlier : first < position)
      (met : FirstMet items first item.entry.identity)
      (isTarget : entries[first]? = some target)
      (targetIsFile : target.isFile = true)
      (record : entry = item.record (UInt64.ofNat position) target.size
        target.blake3 (.hardlink (UInt64.ofNat first)))
  | file (groupId : UInt64) (hash : Digest)
      (kind : item.entry.kind = .file)
      (fresh : ∀ (earlier : Nat) (other : PackItem), earlier < position →
        items[earlier]? = some other → other.entry.kind = .file →
        item.entry.identity.isSome →
        other.entry.identity ≠ item.entry.identity)
      (record : entry = item.record (UInt64.ofNat position) item.size hash
        (.file groupId))

/-- A packer records a new file as a file of the scanned size. -/
def PackFile.Lawful {Files : Type} (packFile : PackFile Files) : Prop :=
  ∀ item entryId files next size hash kind,
    packFile item entryId files = .ok (next, size, hash, kind) →
    size = item.size ∧ ∃ groupId, kind = .file groupId

/-- The size of an item that counts towards the original size. -/
def PackItem.countedSize (item : PackItem) : Nat :=
  if item.entry.kind = .file then item.size.toNat else 0

/-- The state after some items. -/
structure Collected
    {Files : Type}
    (json : Json)
    (digests : Digests)
    (items : List PackItem)
    (state : Collecting Files) : Prop where
  length : state.entries.length = items.length
  recorded : ∀ (position : Nat) (item : PackItem) (entry : EntryRecord),
    items[position]? = some item → state.entries[position]? = some entry →
    RecordedKind json digests items state.entries position item entry
  met : ∀ identity found, state.met identity = some found →
    ∃ (first : Nat) (target : EntryRecord), FirstMet items first identity ∧
      state.entries[first]? = some target ∧ target.isFile = true ∧
      found = (UInt64.ofNat first, target.size, target.blake3)
  notMet : ∀ identity, state.met identity = none → identity.isSome →
    ∀ item ∈ items, item.entry.kind = .file → item.entry.identity ≠ identity
  total : state.originalTotalSize.toNat =
    (items.map PackItem.countedSize).sum

section Steps

variable
  {Files : Type}
  {json : Json}
  {digests : Digests}
  {limits : DecodeLimits}
  {packFile : PackFile Files}
  {items : List PackItem}
  {state : Collecting Files}

theorem FirstMet.concat
    {position : Nat}
    {identity : Option Nat}
    (met : FirstMet items position identity)
    (item : PackItem) :
    FirstMet (items ++ [item]) position identity := by
  obtain ⟨found, isFound, kind, same⟩ := met.isFile
  have inside := (List.getElem?_eq_some_iff.mp isFound).1
  refine ⟨⟨found, ?_, kind, same⟩, met.known, ?_⟩
  · rw [List.getElem?_append_left inside]
    exact isFound
  · intro earlier other before isOther
    rw [List.getElem?_append_left (by omega)] at isOther
    exact met.first earlier other before isOther

/-- What is recorded of an item stays so when more items follow. -/
theorem RecordedKind.concat
    {entries : List EntryRecord}
    {position : Nat}
    {item : PackItem}
    {entry : EntryRecord}
    (recorded : RecordedKind json digests items entries position item entry)
    (inside : position < items.length)
    (next : PackItem)
    (added : List EntryRecord) :
    RecordedKind json digests (items ++ [next]) (entries ++ added) position item
      entry := by
  cases recorded with
  | directory kind record => exact .directory kind record
  | symlink target targetIsDir kind record =>
      exact .symlink target targetIsDir kind record
  | hardlink first target kind earlier met isTarget targetIsFile record =>
      have targetInside := (List.getElem?_eq_some_iff.mp isTarget).1
      refine .hardlink first target kind earlier (met.concat next) ?_
        targetIsFile record
      rw [List.getElem?_append_left targetInside]
      exact isTarget
  | file groupId hash kind fresh record =>
      refine .file groupId hash kind ?_ record
      intro before other earlier isOther
      rw [List.getElem?_append_left (by omega)] at isOther
      exact fresh before other earlier isOther

/-- One more item with its entry. -/
theorem Collected.extend
    (collected : Collected json digests items state)
    {item : PackItem}
    {entry : EntryRecord}
    {next : Collecting Files}
    (entries : next.entries = state.entries ++ [entry])
    (recorded : RecordedKind json digests (items ++ [item])
      (state.entries ++ [entry]) items.length item entry)
    (met : ∀ identity found, next.met identity = some found →
      state.met identity = some found ∨
        FirstMet (items ++ [item]) items.length identity ∧
          entry.isFile = true ∧
          found = (UInt64.ofNat items.length, entry.size, entry.blake3))
    (notMet : ∀ identity, next.met identity = none →
      state.met identity = none ∧ (identity.isSome →
        item.entry.kind = .file → item.entry.identity ≠ identity))
    (total : next.originalTotalSize.toNat =
      state.originalTotalSize.toNat + item.countedSize) :
    Collected json digests (items ++ [item]) next where
  length := by
    rw [entries, List.length_append, List.length_append, collected.length]
    rfl
  recorded := by
    intro position other found isOther isFound
    rw [entries] at isFound ⊢
    have inside := (List.getElem?_eq_some_iff.mp isOther).1
    rw [List.length_append, List.length_singleton] at inside
    rcases Nat.lt_succ_iff_lt_or_eq.mp inside with earlier | rfl
    · rw [List.getElem?_append_left earlier] at isOther
      rw [List.getElem?_append_left (by rw [collected.length]; exact earlier)]
        at isFound
      exact (collected.recorded position other found isOther isFound).concat
        earlier item [entry]
    · rw [List.getElem?_concat_length, Option.some.injEq] at isOther
      rw [← collected.length, List.getElem?_concat_length, Option.some.injEq]
        at isFound
      subst isOther
      subst isFound
      exact recorded
  met := by
    intro identity found isMet
    rw [entries]
    rcases met identity found isMet with before | ⟨first, isFile, rfl⟩
    · obtain ⟨first, target, firstMet, isTarget, isFile, rfl⟩ :=
        collected.met identity found before
      have inside := (List.getElem?_eq_some_iff.mp isTarget).1
      refine ⟨first, target, firstMet.concat item, ?_, isFile, rfl⟩
      rw [List.getElem?_append_left inside]
      exact isTarget
    · refine ⟨items.length, entry, first, ?_, isFile, rfl⟩
      rw [← collected.length, List.getElem?_concat_length]
  notMet := by
    intro identity isNone known other member kind
    obtain ⟨before, last⟩ := notMet identity isNone
    rcases List.mem_append.mp member with earlier | isLast
    · exact collected.notMet identity before known other earlier kind
    · obtain rfl := List.mem_singleton.mp isLast
      exact last known kind
  total := by
    rw [total, collected.total, List.map_append, List.sum_append]
    simp

/-- An item that is not a file leaves the files alone. -/
theorem Collected.extend_other
    (collected : Collected json digests items state)
    {item : PackItem}
    (notFile : item.entry.kind ≠ .file)
    {entry : EntryRecord}
    (recorded : RecordedKind json digests (items ++ [item])
      (state.entries ++ [entry]) items.length item entry) :
    Collected json digests (items ++ [item]) (state.push entry) :=
  collected.extend rfl recorded (fun _ _ => Or.inl)
    (fun _ isNone => ⟨isNone, fun _ kind => absurd kind notFile⟩)
    (by simp [Collecting.push, PackItem.countedSize, notFile])

/-- An item that was met before is recorded as a hardlink. -/
theorem Collected.step_hardlink
    (collected : Collected json digests items state)
    {item : PackItem}
    (kind : item.entry.kind = .file)
    {found : UInt64 × UInt64 × Digest}
    (isMet : state.met item.entry.identity = some found)
    {total : UInt64}
    (sum : state.originalTotalSize.toNat + item.size.toNat = total.toNat) :
    Collected json digests (items ++ [item])
      ({ state with originalTotalSize := total }.push
        (item.record (UInt64.ofNat items.length) found.2.1 found.2.2
          (.hardlink found.1))) := by
  obtain ⟨first, entry, firstMet, isTarget, isFile, rfl⟩ :=
    collected.met _ _ isMet
  have inside := (List.getElem?_eq_some_iff.mp isTarget).1
  have entryAt : (state.entries ++ [item.record
      (UInt64.ofNat items.length) entry.size entry.blake3
      (.hardlink (UInt64.ofNat first))])[first]? = some entry := by
    rw [List.getElem?_append_left inside]
    exact isTarget
  refine collected.extend rfl (.hardlink first entry kind
    (by rw [← collected.length]; exact inside) (firstMet.concat item)
    entryAt isFile rfl) (fun _ _ => Or.inl) ?_ ?_
  · intro identity isNone
    refine ⟨isNone, fun _ _ same => ?_⟩
    rw [← same] at isNone
    exact absurd (isNone.symm.trans isMet) (by simp)
  · rw [PackItem.countedSize, if_pos kind, sum]
    rfl

/-- An item that is met first is recorded as a file and remembered. -/
theorem Collected.step_file
    (collected : Collected json digests items state)
    {item : PackItem}
    (kind : item.entry.kind = .file)
    (isMet : state.met item.entry.identity = none)
    {total : UInt64}
    (sum : state.originalTotalSize.toNat + item.size.toNat = total.toNat)
    (files : Files)
    (hash : Digest)
    (groupId : UInt64) :
    Collected json digests (items ++ [item])
      (({ state with
          originalTotalSize := total
          files := files }.remember item.entry.identity
            (UInt64.ofNat items.length, item.size, hash)).push
        (item.record (UInt64.ofNat items.length) item.size hash
          (.file groupId))) := by
  have fresh (known : item.entry.identity.isSome) :=
    collected.notMet _ isMet known
  refine collected.extend (by simp [Collecting.push])
    (.file groupId hash kind ?_ rfl) ?_ ?_ ?_
  · intro earlier other before isOther otherKind known
    rw [List.getElem?_append_left before] at isOther
    exact fresh known other (List.mem_of_getElem? isOther) otherKind
  · intro identity found isFound
    change (Collecting.remember _ _ _).met identity = some found at isFound
    rw [Collecting.met_remember] at isFound
    split at isFound
    next same =>
      obtain ⟨known, rfl⟩ := same
      refine Or.inr ⟨⟨⟨item, List.getElem?_concat_length, kind, rfl⟩, known,
        ?_⟩, rfl, (Option.some.inj isFound).symm⟩
      intro earlier former before isFormer formerKind
      rw [List.getElem?_append_left before] at isFormer
      exact fresh known former (List.mem_of_getElem? isFormer) formerKind
    next => exact Or.inl isFound
  · intro identity isNone
    change (Collecting.remember _ _ _).met identity = none at isNone
    rw [Collecting.met_remember] at isNone
    split at isNone
    next => cases isNone
    next other =>
      exact ⟨isNone, fun known _ same => other ⟨same ▸ known, same.symm⟩⟩
  · rw [PackItem.countedSize, if_pos kind, sum]
    simp [Collecting.push]

/-- One turn of the loop. -/
theorem Collected.step
    (lawful : packFile.Lawful)
    (collected : Collected json digests items state)
    {item : PackItem}
    {next : Collecting Files}
    (stepped : collectItem json digests limits packFile items.length item
      state = .ok next) :
    Collected json digests (items ++ [item]) next := by
  have nextId : state.nextId = UInt64.ofNat items.length := by
    rw [Collecting.nextId, collected.length]
  unfold collectItem at stepped
  rw [nextId, bind_eq_ok] at stepped
  obtain ⟨_, _, stepped⟩ := stepped
  cases kind : item.entry.kind with
  | directory =>
      rw [kind] at stepped
      cases stepped
      exact collected.extend_other (by simp [kind]) (.directory kind rfl)
  | symlink target targetIsDir =>
      rw [kind] at stepped
      cases stepped
      exact collected.extend_other (by simp [kind])
        (.symlink target targetIsDir kind rfl)
  | file =>
      simp only [kind, bind_eq_ok, okOr_eq_ok, checkedAdd_eq_some] at stepped
      obtain ⟨total, sum, _, _, stepped⟩ := stepped
      cases isMet : state.met item.entry.identity with
      | some found =>
          rw [isMet] at stepped
          cases stepped
          exact collected.step_hardlink kind isMet sum
      | none =>
          simp only [isMet, bind_eq_ok] at stepped
          obtain ⟨_, _, ⟨files, size, hash, entryKind⟩, packed, stepped⟩ :=
            stepped
          cases stepped
          obtain ⟨rfl, groupId, rfl⟩ := lawful _ _ _ _ _ _ _ packed
          exact collected.step_file kind isMet sum files hash groupId

/-- What the loop has recorded when it succeeds. -/
theorem collected_of_ok
    (lawful : packFile.Lawful)
    {files : Files}
    (ran : collect json digests limits packFile files items = .ok state) :
    Collected json digests items state := by
  refine forEnum_invariant (Collected json digests) ?_ ?_ ran
  · refine ⟨rfl, by simp, ?_, by simp, rfl⟩
    intro identity found isFound
    cases identity <;> cases isFound
  · exact fun done item state next collected stepped =>
      collected.step lawful stepped

/-- The size of all files stays within its limit. -/
theorem originalTotalSize_le
    {files : Files}
    (ran : collect json digests limits packFile files items = .ok state) :
    state.originalTotalSize ≤ limits.maxOriginalBytes := by
  refine forEnum_invariant (fun _ state =>
    state.originalTotalSize ≤ limits.maxOriginalBytes) UInt64.zero_le ?_ ran
  intro done item state next within stepped
  unfold collectItem at stepped
  rw [bind_eq_ok] at stepped
  obtain ⟨_, _, stepped⟩ := stepped
  cases kind : item.entry.kind with
  | directory | symlink target targetIsDir =>
      rw [kind] at stepped
      cases stepped
      exact within
  | file =>
      simp only [kind, bind_eq_ok, ensure_eq_ok] at stepped
      obtain ⟨total, _, _, bounded, stepped⟩ := stepped
      cases isMet : state.met item.entry.identity with
      | some found =>
          rw [isMet] at stepped
          cases stepped
          exact bounded
      | none =>
          simp only [isMet, bind_eq_ok] at stepped
          obtain ⟨_, _, _, _, stepped⟩ := stepped
          cases stepped
          cases item.entry.identity <;> exact bounded

/-- The file entries with the items they record. -/
def packedFiles (items : List PackItem) (entries : List EntryRecord) :
    List (PackItem × EntryRecord) :=
  (items.zip entries).filter fun pair => pair.2.isFile

/-- The rows of the files are those of all entries. -/
theorem fileRows_packedFiles
    {items : List PackItem}
    {entries : List EntryRecord}
    (sameLength : entries.length = items.length) :
    (packedFiles items entries).filterMap (fun pair => pair.2.fileRow?) =
      entries.filterMap EntryRecord.fileRow? := by
  induction entries generalizing items with
  | nil => simp [packedFiles]
  | cons entry entries inductionHypothesis =>
      cases items with
      | nil => cases sameLength
      | cons item items =>
          have rest := @inductionHypothesis items (Nat.succ.inj sameLength)
          unfold packedFiles at rest ⊢
          rw [List.zip_cons_cons, List.filter_cons, List.filterMap_cons,
            ← rest]
          cases isFile : entry.isFile with
          | false => simp [fileRow?_eq_none.mpr isFile]
          | true => simp [List.filterMap_cons]

theorem packedFiles_concat
    {entries : List EntryRecord}
    (sameLength : entries.length = items.length)
    (item : PackItem)
    (entry : EntryRecord) :
    packedFiles (items ++ [item]) (entries ++ [entry]) =
      packedFiles items entries ++
        if entry.isFile then [(item, entry)] else [] := by
  rw [packedFiles, List.zip_append sameLength.symm, List.filter_append]
  cases isFile : entry.isFile <;> simp [packedFiles, isFile]

/-- The hash is that of bytes that were read from the file of an item, as many
as the scan saw. -/
def PackItem.Hashed
    (digests : Digests)
    (item : PackItem)
    (hash : Digest) : Prop :=
  ∃ bytes, readSourceTurns item.size item.reading.turns [] = .ok bytes ∧
    bytes.length = item.size.toNat ∧ digests.blake3 bytes = hash

/-- The file entries have the hashes of what was read. -/
def FilesHashed
    (digests : Digests)
    (items : List PackItem)
    (entries : List EntryRecord) : Prop :=
  ∀ (position : Nat) (item : PackItem) (entry : EntryRecord),
    items[position]? = some item → entries[position]? = some entry →
    entry.isFile = true → item.Hashed digests entry.blake3

/-- What packing one new file preserves holds of all of them. -/
theorem collect_files
    (lawful : packFile.Lawful)
    (kept : List (PackItem × EntryRecord) → Files → Prop)
    {files : Files}
    (start : kept [] files)
    (packs : ∀ {done files item entryId next size hash kind}, kept done files →
      item.size ≤ limits.maxGroupOutput →
      packFile item entryId files = .ok (next, size, hash, kind) →
      kept (done ++ [(item, item.record entryId size hash kind)]) next)
    (ran : collect json digests limits packFile files items = .ok state) :
    kept (packedFiles items state.entries) state.files := by
  suffices all : state.entries.length = items.length ∧
      kept (packedFiles items state.entries) state.files from all.2
  refine forEnum_invariant (fun done state =>
    state.entries.length = done.length ∧
      kept (packedFiles done state.entries) state.files) ?_ ?_ ran
  · exact ⟨rfl, start⟩
  rintro done item state next ⟨sameLength, isKept⟩ stepped
  unfold collectItem at stepped
  rw [bind_eq_ok] at stepped
  obtain ⟨_, _, stepped⟩ := stepped
  have other {entry : EntryRecord} (notFile : entry.isFile = false) :
      (state.push entry).entries.length = (done ++ [item]).length ∧
        kept (packedFiles (done ++ [item]) (state.push entry).entries)
          (state.push entry).files := by
    refine ⟨by simp [Collecting.push, sameLength], ?_⟩
    rw [Collecting.push, packedFiles_concat sameLength, notFile]
    simpa using isKept
  cases kind : item.entry.kind with
  | directory | symlink target targetIsDir =>
      rw [kind] at stepped
      cases stepped
      exact other rfl
  | file =>
      simp only [kind, bind_eq_ok, ensure_eq_ok] at stepped
      obtain ⟨total, _, _, _, stepped⟩ := stepped
      cases isMet : state.met item.entry.identity with
      | some found =>
          rw [isMet] at stepped
          cases stepped
          exact @other (item.record state.nextId found.2.1 found.2.2
            (.hardlink found.1)) rfl
      | none =>
          simp only [isMet, bind_eq_ok, ensure_eq_ok] at stepped
          obtain ⟨_, small, ⟨nextFiles, size, hash, entryKind⟩, packed,
            stepped⟩ := stepped
          cases stepped
          obtain ⟨_, groupId, rfl⟩ := lawful _ _ _ _ _ _ _ packed
          have isFile : (item.record state.nextId size hash
              (.file groupId)).isFile = true := rfl
          refine ⟨by simp [Collecting.push, sameLength], ?_⟩
          simpa [Collecting.push, packedFiles_concat sameLength, isFile] using
            packs isKept small packed

/-- When a packer hashes what it reads of new files, their entries have these
hashes. -/
theorem collect_hashed
    (lawful : packFile.Lawful)
    (hashes : ∀ {files item entryId next size hash kind},
      packFile item entryId files = .ok (next, size, hash, kind) →
      item.Hashed digests hash)
    {files : Files}
    (ran : collect json digests limits packFile files items = .ok state) :
    FilesHashed digests items state.entries := by
  have all := collect_files lawful (fun done _ => ∀ pair ∈ done,
    PackItem.Hashed digests pair.1 pair.2.blake3)
    (fun _ member => absurd member List.not_mem_nil)
    (fun {done _ item entryId _ size hash kind} earlier _ packed pair
        member => by
      rcases List.mem_append.mp member with before | isLast
      · exact earlier pair before
      · obtain rfl := List.mem_singleton.mp isLast
        exact hashes packed) ran
  intro position item entry isItem isEntry isFile
  refine all (item, entry) (List.mem_filter.mpr ⟨?_, isFile⟩)
  exact List.mem_of_getElem? (List.getElem?_zip_eq_some.mpr ⟨isItem, isEntry⟩)

end Steps

/-! ## The entries of a scan -/

/-- What a scan makes sure of. -/
structure Scanned (limits : DecodeLimits) (items : List PackItem) : Prop where
  count : items.length ≤ limits.maxEntries.toNat
  paths : ∀ item ∈ items, PathOk limits item.entry.archivePath
  sortKeys : (items.map fun item => item.entry.archivePath.sortKey).Nodup
  links : ∀ item ∈ items, ∀ target targetIsDir,
    item.entry.kind = .symlink target targetIsDir →
    target.resolvesWithin item.entry.archivePath

/-- The link targets can be written on the host. -/
def LinksHostable (items : List PackItem) : Prop :=
  ∀ item ∈ items, ∀ target targetIsDir,
    item.entry.kind = .symlink target targetIsDir → target.Hostable

/-- The entries record the items one by one. -/
structure Recorded
    (json : Json)
    (digests : Digests)
    (items : List PackItem)
    (entries : List EntryRecord) : Prop where
  length : entries.length = items.length
  recorded : ∀ (position : Nat) (item : PackItem) (entry : EntryRecord),
    items[position]? = some item → entries[position]? = some entry →
    RecordedKind json digests items entries position item entry

theorem Collected.toRecorded
    {Files : Type}
    {json : Json}
    {digests : Digests}
    {items : List PackItem}
    {state : Collecting Files}
    (collected : Collected json digests items state) :
    Recorded json digests items state.entries :=
  ⟨collected.length, collected.recorded⟩

section Recorded

variable
  {json : Json}
  {digests : Digests}
  {items : List PackItem}
  {entries : List EntryRecord}

namespace RecordedKind

variable
  {position : Nat}
  {item : PackItem}
  {entry : EntryRecord}

theorem entryId_eq
    (recorded : RecordedKind json digests items entries position item entry) :
    entry.entryId = UInt64.ofNat position := by
  cases recorded <;> subst entry <;> rfl

theorem path_eq
    (recorded : RecordedKind json digests items entries position item entry) :
    entry.path = item.entry.archivePath := by
  cases recorded <;> subst entry <;> rfl

theorem mode_eq
    (recorded : RecordedKind json digests items entries position item entry) :
    entry.mode = item.entry.metadata.mode := by
  cases recorded <;> subst entry <;> rfl

end RecordedKind

namespace Recorded

/-- Every entry records an item. -/
theorem exists_item
    (recorded : Recorded json digests items entries)
    {position : Nat}
    {entry : EntryRecord}
    (isEntry : entries[position]? = some entry) :
    ∃ item, items[position]? = some item ∧
      RecordedKind json digests items entries position item entry := by
  have inside := (List.getElem?_eq_some_iff.mp isEntry).1
  rw [recorded.length] at inside
  have isItem := List.getElem?_eq_getElem inside
  exact ⟨_, isItem, recorded.recorded position _ entry isItem isEntry⟩

/-- Every item has an entry. -/
theorem exists_entry
    (recorded : Recorded json digests items entries)
    {position : Nat}
    {item : PackItem}
    (isItem : items[position]? = some item) :
    ∃ entry, entries[position]? = some entry ∧
      RecordedKind json digests items entries position item entry := by
  have inside := (List.getElem?_eq_some_iff.mp isItem).1
  rw [← recorded.length] at inside
  have isEntry := List.getElem?_eq_getElem inside
  exact ⟨_, isEntry, recorded.recorded position item _ isItem isEntry⟩

theorem map_eq
    {Value : Type}
    (recorded : Recorded json digests items entries)
    {ofEntry : EntryRecord → Value}
    {ofItem : PackItem → Value}
    (same : ∀ {position item entry},
      RecordedKind json digests items entries position item entry →
      items[position]? = some item → ofEntry entry = ofItem item) :
    entries.map ofEntry = items.map ofItem := by
  refine List.ext_getElem? fun position => ?_
  rw [List.getElem?_map, List.getElem?_map]
  cases isItem : items[position]? with
  | none =>
      rw [List.getElem?_eq_none_iff, ← recorded.length] at isItem
      rw [List.getElem?_eq_none_iff.mpr isItem]
      rfl
  | some item =>
      obtain ⟨entry, isEntry, kind⟩ := recorded.exists_entry isItem
      rw [isEntry, Option.map_some, Option.map_some, same kind isItem]

/-- The entries of a scan are in order. -/
theorem entriesLaid
    (recorded : Recorded json digests items entries)
    {limits : DecodeLimits}
    (scanned : Scanned limits items)
    (hostable : LinksHostable items) :
    EntriesLaid limits entries := by
  have few : items.length < 2 ^ 64 :=
    Nat.lt_of_le_of_lt scanned.count limits.maxEntries.toNat_lt
  have value {position : Nat} {item : PackItem}
      (isItem : items[position]? = some item) :
      (UInt64.ofNat position).toNat = position := by
    have inside := (List.getElem?_eq_some_iff.mp isItem).1
    exact toNat_ofNat_of_lt (by omega)
  refine ⟨?_, ?_, ?_, ?_⟩
  · intro position entry isEntry
    obtain ⟨item, isItem, kind⟩ := recorded.exists_item isEntry
    rw [kind.entryId_eq, value isItem]
  · intro entry member
    obtain ⟨position, isEntry⟩ := List.mem_iff_getElem?.mp member
    obtain ⟨item, isItem, kind⟩ := recorded.exists_item isEntry
    rw [kind.path_eq]
    exact scanned.paths item (List.mem_of_getElem? isItem)
  · have same : (entries.map fun entry => entry.path.sortKey) =
        items.map fun item => item.entry.archivePath.sortKey :=
      recorded.map_eq fun kind _ => by rw [kind.path_eq]
    rw [same]
    exact scanned.sortKeys
  · intro entry member notFile
    obtain ⟨position, isEntry⟩ := List.mem_iff_getElem?.mp member
    obtain ⟨item, isItem, kind⟩ := recorded.exists_item isEntry
    have isMember := List.mem_of_getElem? isItem
    unfold KindOk
    cases kind with
    | directory itemKind record =>
        subst entry
        rfl
    | symlink target targetIsDir itemKind record =>
        subst entry
        exact ⟨scanned.links item isMember target targetIsDir itemKind,
          hostable item isMember target targetIsDir itemKind⟩
    | hardlink first target itemKind earlier met isTarget targetIsFile
        record =>
        subst entry
        obtain ⟨found, isFound, _⟩ := met.isFile
        refine ⟨?_, target, ?_, targetIsFile, rfl, rfl⟩
        · rw [UInt64.lt_iff_toNat_lt, value isFound]
          exact Nat.lt_of_lt_of_eq earlier (value isItem).symm
        · rw [value isFound]
          exact isTarget
    | file groupId hash itemKind fresh record =>
        subst entry
        cases notFile

end Recorded

end Recorded

end Pithos
