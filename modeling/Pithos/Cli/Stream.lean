import Pithos.Engine.Agreement
import Pithos.Engine.Crates

/-!
# Streaming an entry through the daemon

A client that streams an entry to its standard output asks the daemon for the
list of entries, takes the size of the first one that is listed under the path,
and then asks for the entry range by range.  The list shows paths as text, where
bytes that are not text are replaced; the ranges are read from the entry with
exactly the path.  So the client writes what the standalone extraction writes,
unless a smaller file is listed first under the same text.
-/

namespace Pithos.Cli

open Fallible
open Machine
open Bytes
open HostPath
open Layout
open Utf8

/-! ## The list of entries -/

/-- One entry in the list. -/
structure ArchiveEntrySummary where
  entryId : UInt64
  path : List UInt8
  kind : ArchiveEntryKind
  size : UInt64
  modifiedNs : Int64

/-- An entry as the list shows it. -/
def entrySummary (entry : EntryRecord) : Result ArchiveEntrySummary := do
  let path ← entry.path.toPathBuf
  .ok {
    entryId := entry.entryId
    path := toStringLossy path
    kind := archiveEntryKind entry.kind
    size := entry.size
    modifiedNs := entry.modifiedNs }

/-- List the entries of an archive. -/
def list
    (backends : Backends)
    (file : List UInt8)
    (limits : DecodeLimits) : Result (List ArchiveEntrySummary) := do
  let parsed ← readCatalog backends file limits
  parsed.entries.mapM entrySummary

/-! ## The client -/

/-- Why a command fails. -/
inductive AppError
  | engine (failure : PithosError)
  | quota (message : String)
  | invalid (message : String)
  | outside
  deriving DecidableEq

/-- What the standard output has got, the ranges that were asked for, and what
will go wrong outside: a connection, a job that is refused or cancelled, a file
of the daemon that is not where it should be, the output itself. -/
structure Terminal where
  output : List UInt8
  asked : List (UInt64 × UInt64)
  troubles : List Bool

/-- An action of the client. -/
abbrev Client := StateAction Terminal AppError

/-- A step outside that may go wrong. -/
def trouble : Client Unit := fun terminal =>
  if terminal.troubles.head? = some true then
    (.error .outside, { terminal with troubles := terminal.troubles.tail })
  else (.ok (), { terminal with troubles := terminal.troubles.tail })

/-- Write to the standard output. -/
def write (bytes : List UInt8) : Client Unit := fun terminal =>
  (.ok (), { terminal with output := terminal.output ++ bytes })

/-- Note that a range is asked for. -/
def ask (offset length : UInt64) : Client Unit := fun terminal =>
  (.ok (), { terminal with asked := terminal.asked ++ [(offset, length)] })

/-- What the daemon allows the jobs of the client. -/
structure JobQuota where
  maxReadRange : UInt64
  maxOutput : UInt64
  maxTemp : UInt64
  decode : DecodeLimits

/-- A range as the daemon hands it over. -/
structure Transfer where
  offset : UInt64
  length : UInt64
  blake3 : Digest
  content : List UInt8

/-- The job that lists the entries. -/
def listJob
    (backends : Backends)
    (file : List UInt8)
    (quota : JobQuota) : Client (List ArchiveEntrySummary) := do
  trouble
  StateAction.lift ((list backends file quota.decode).mapError .engine)

/-- What the daemon does to read a range. -/
def rangeTransfer
    (backends : Backends)
    (file : List UInt8)
    (quota : JobQuota)
    (entry : Path)
    (offset length : UInt64) : Except AppError Transfer := do
  ensure (length ≤ quota.maxReadRange) (.quota "range quota exceeded")
  ensure (length ≤ quota.maxOutput) (.quota "output quota")
  ensure (length ≤ quota.maxTemp) (.quota "temporary quota")
  match readRange backends file quota.decode entry offset length [] with
  | (.ok report, content) =>
      .ok {
        offset := report.offset
        length := report.length
        blake3 := report.blake3
        content := content }
  | (.error failure, _) => .error (.engine failure)

/-- The job that reads a range. -/
def readRangeJob
    (backends : Backends)
    (file : List UInt8)
    (quota : JobQuota)
    (entry : Path)
    (offset length : UInt64) : Client Transfer := do
  ask offset length
  trouble
  StateAction.lift (rangeTransfer backends file quota entry offset length)

/-- The text under which a path is listed. -/
def archiveEntrySelector (path : Path) : Except AppError (List UInt8) := do
  let parts ← (HostPath.components path).mapM fun component =>
    match component with
    | .normal part => do
        ensure (isUtf8 part ∧ part ≠ [])
          (AppError.invalid "entry path is not portable")
        .ok part
    | _ => .error (.invalid "entry path must be relative")
  ensure (parts ≠ []) (.invalid "entry path is empty")
  .ok (joinPieces parts)

/-- The bytes of a transfer that has the announced length and hash. -/
def verifiedTransfer (digests : Digests) (transfer : Transfer) :
    Except AppError (List UInt8) := do
  ensure (transfer.content.length = transfer.length.toNat)
    (.invalid "daemon returned a truncated transfer")
  ensure (digests.blake3 transfer.content = transfer.blake3)
    (.invalid "daemon returned a corrupt transfer")
  .ok transfer.content

/-- The largest range that the client asks for. -/
def stdoutRangeBytes : UInt64 := 64 * 1024 * 1024

/-- How far the client has got in an entry. -/
structure Cursor (entrySize : UInt64) where
  offset : UInt64
  inside : offset ≤ entrySize

namespace Cursor

variable {entrySize : UInt64}

/-- The length of the next range. -/
def length (cursor : Cursor entrySize) : UInt64 :=
  if entrySize = 0 then 0
  else min (entrySize - cursor.offset) stdoutRangeBytes

theorem toNat_length (cursor : Cursor entrySize) :
    cursor.length.toNat = min (entrySize.toNat - cursor.offset.toNat)
      stdoutRangeBytes.toNat := by
  have inside := UInt64.le_iff_toNat_le.mp cursor.inside
  have difference := UInt64.toNat_sub_of_le _ _ cursor.inside
  unfold length
  split
  · rename_i empty
    have zero : entrySize.toNat = 0 := by rw [empty]; rfl
    rw [zero, Nat.zero_sub, Nat.zero_min]
    rfl
  · change (if entrySize - cursor.offset ≤ stdoutRangeBytes then
      entrySize - cursor.offset else stdoutRangeBytes).toNat = _
    rw [min_def]
    simp only [UInt64.le_iff_toNat_le, difference]
    split
    · exact difference
    · rfl

/-- The range ends inside the entry. -/
theorem toNat_finish (cursor : Cursor entrySize) :
    (cursor.offset + cursor.length).toNat =
      cursor.offset.toNat + cursor.length.toNat := by
  have inside := UInt64.le_iff_toNat_le.mp cursor.inside
  have bound := entrySize.toNat_lt
  have length := cursor.toNat_length
  rw [UInt64.toNat_add, Nat.mod_eq_of_lt (by omega)]

/-- Behind the next range. -/
def next (cursor : Cursor entrySize) : Cursor entrySize where
  offset := cursor.offset + cursor.length
  inside := by
    have inside := UInt64.le_iff_toNat_le.mp cursor.inside
    rw [UInt64.le_iff_toNat_le, cursor.toNat_finish, cursor.toNat_length]
    omega

/-- The last range ends with the entry. -/
theorem finish_of_last
    (cursor : Cursor entrySize)
    (last : entrySize = 0 ∨ cursor.offset + cursor.length = entrySize) :
    cursor.offset.toNat + cursor.length.toNat = entrySize.toNat := by
  have inside := UInt64.le_iff_toNat_le.mp cursor.inside
  have length := cursor.toNat_length
  rcases last with empty | isEnd
  · have zero : entrySize.toNat = 0 := by rw [empty]; rfl
    omega
  · rw [← cursor.toNat_finish, isEnd]

/-- As long as the end is not reached, the client gets on. -/
theorem rest_lt
    (cursor : Cursor entrySize)
    (more : ¬ (entrySize = 0 ∨ cursor.offset + cursor.length = entrySize)) :
    entrySize.toNat - cursor.next.offset.toNat <
      entrySize.toNat - cursor.offset.toNat := by
  have inside := UInt64.le_iff_toNat_le.mp cursor.inside
  have finish := cursor.toNat_finish
  have length := cursor.toNat_length
  have unfinished : cursor.offset.toNat + cursor.length.toNat ≠
      entrySize.toNat := fun same =>
    more (.inr (UInt64.toNat_inj.mp (finish.trans same)))
  have positive : 0 < stdoutRangeBytes.toNat := by decide
  change entrySize.toNat - (cursor.offset + cursor.length).toNat < _
  omega

end Cursor

/-- Read and write the rest of an entry, range by range. -/
def streamRanges
    (backends : Backends)
    (file : List UInt8)
    (quota : JobQuota)
    (entry : Path)
    {entrySize : UInt64}
    (cursor : Cursor entrySize) : Client Unit := do
  let transfer ← readRangeJob backends file quota entry cursor.offset
    cursor.length
  StateAction.lift (ensure (transfer.offset = cursor.offset ∧
    transfer.length = cursor.length)
    (.invalid "daemon returned a mismatched range"))
  let bytes ← StateAction.lift (verifiedTransfer backends.digests transfer)
  write bytes
  if _ : entrySize = 0 ∨ cursor.offset + cursor.length = entrySize then
    pure ()
  else streamRanges backends file quota entry cursor.next
termination_by entrySize.toNat - cursor.offset.toNat
decreasing_by exact cursor.rest_lt ‹_›

/-- Stream an entry to the standard output. -/
def streamDaemonEntry
    (backends : Backends)
    (file : List UInt8)
    (quota : JobQuota)
    (entry : Path) : Client Unit := do
  trouble
  let entries ← listJob backends file quota
  let selector ← StateAction.lift (archiveEntrySelector entry)
  let selected ← StateAction.lift (okOr
    (entries.find? fun candidate => candidate.path = selector)
    (.invalid "entry not found"))
  StateAction.lift (ensure (selected.kind = .file ∨ selected.kind = .hardlink)
    (.invalid "--stdout requires a file entry"))
  streamRanges backends file quota entry
    (⟨0, UInt64.zero_le⟩ : Cursor selected.size)
  trouble

/-! ## What a run writes -/

section Runs

variable
  {backends : Backends}
  {file : List UInt8}
  {quota : JobQuota}
  {entry : Path}
  {entrySize : UInt64}
  {offset length : UInt64}
  {terminal after : Terminal}
  {transfer : Transfer}
  {bytes : List UInt8}

theorem trouble_eq_ok {result : Unit} (ran : trouble terminal = (.ok result, after)) :
    after.output = terminal.output ∧ after.asked = terminal.asked := by
  unfold trouble at ran
  split at ran
  · cases ran
  · cases ran
    exact ⟨rfl, rfl⟩

theorem rangeTransfer_eq_ok
    (ran : rangeTransfer backends file quota entry offset length =
      .ok transfer) :
    ∃ report, readRange backends file quota.decode entry offset length [] =
      (.ok report, transfer.content) := by
  simp only [rangeTransfer, bind_eq_ok] at ran
  obtain ⟨_, _, _, _, _, _, ran⟩ := ran
  split at ran
  · rename_i report content isRead
    cases ran
    exact ⟨report, isRead⟩
  · cases ran

theorem rangeTransfer_of_readRange
    (range : length ≤ quota.maxReadRange)
    (allowed : length ≤ quota.maxOutput)
    (temporary : length ≤ quota.maxTemp)
    {report : ReadRangeReport}
    {content : List UInt8}
    (isRead : readRange backends file quota.decode entry offset length [] =
      (.ok report, content)) :
    rangeTransfer backends file quota entry offset length =
      .ok ⟨report.offset, report.length, report.blake3, content⟩ := by
  rw [rangeTransfer, ensure_of range, ok_bind, ensure_of allowed, ok_bind,
    ensure_of temporary, ok_bind, isRead]

theorem readRangeJob_eq_ok
    (ran : readRangeJob backends file quota entry offset length terminal =
      (.ok transfer, after)) :
    after.output = terminal.output ∧
      after.asked = terminal.asked ++ [(offset, length)] ∧
      ∃ report, readRange backends file quota.decode entry offset length [] =
        (.ok report, transfer.content) := by
  simp only [readRangeJob, StateAction.bind_eq_ok, StateAction.lift_eq_ok] at ran
  obtain ⟨_, _, asks, _, _, goesOn, isTransfer, rfl⟩ := ran
  cases asks
  obtain ⟨output, asked⟩ := trouble_eq_ok goesOn
  exact ⟨output, asked, rangeTransfer_eq_ok isTransfer⟩

theorem verifiedTransfer_eq_ok
    (ran : verifiedTransfer backends.digests transfer = .ok bytes) :
    bytes = transfer.content := by
  simp only [verifiedTransfer, bind_eq_ok, Except.ok.injEq] at ran
  obtain ⟨_, _, _, _, rfl⟩ := ran
  rfl

/-- A run that goes through writes the bytes from the cursor to the size, in
ranges without gap. -/
theorem streamRanges_eq_ok
    (reads : ∀ offset length report content,
      readRange backends file quota.decode entry offset length [] =
        (.ok report, content) →
      offset.toNat + length.toNat ≤ bytes.length ∧
        content = slice bytes offset.toNat length.toNat)
    (cursor : Cursor entrySize)
    (ran : streamRanges backends file quota entry cursor terminal =
      (.ok (), after)) :
    entrySize.toNat ≤ bytes.length ∧
      after.output = terminal.output ++ slice bytes cursor.offset.toNat
        (entrySize.toNat - cursor.offset.toNat) ∧
      ∃ ranges, after.asked = terminal.asked ++ ranges ∧
        Tiles cursor.offset.toNat (ranges.map rangeSegment) entrySize.toNat ∧
        ∀ range ∈ ranges, range.2 ≤ stdoutRangeBytes := by
  induction left : entrySize.toNat - cursor.offset.toNat using
    Nat.strong_induction_on generalizing cursor terminal with
  | _ left inductionHypothesis =>
      rw [streamRanges] at ran
      simp only [StateAction.bind_eq_ok, StateAction.lift_eq_ok] at ran
      obtain ⟨transfer, _, isJob, _, _, ⟨_, rfl⟩, written, _, ⟨isVerified, rfl⟩,
        _, _, writes, ran⟩ := ran
      obtain ⟨output, asked, report, isRead⟩ := readRangeJob_eq_ok isJob
      obtain ⟨within, content⟩ := reads _ _ _ _ isRead
      obtain rfl := verifiedTransfer_eq_ok isVerified
      have finish := cursor.toNat_finish
      have bounded : cursor.length ≤ stdoutRangeBytes := by
        rw [UInt64.le_iff_toNat_le, cursor.toNat_length]
        exact Nat.min_le_right _ _
      cases writes
      split at ran
      · rename_i isLast
        cases ran
        have isEnd := cursor.finish_of_last isLast
        have rest : entrySize.toNat - cursor.offset.toNat =
            cursor.length.toNat := by omega
        refine ⟨by omega, ?_, [(cursor.offset, cursor.length)], asked, ?_, ?_⟩
        · change _ ++ transfer.content = _
          rw [output, content, ← left, rest]
        · exact ⟨rfl, isEnd⟩
        · simpa using bounded
      · rename_i more
        obtain ⟨size, restOutput, ranges, restAsked, tiles, allBounded⟩ :=
          inductionHypothesis _ (left ▸ cursor.rest_lt more) cursor.next ran rfl
        have behind : cursor.next.offset.toNat =
            cursor.offset.toNat + cursor.length.toNat := finish
        have inside := UInt64.le_iff_toNat_le.mp cursor.next.inside
        refine ⟨size, ?_, (cursor.offset, cursor.length) :: ranges, ?_, ?_, ?_⟩
        · rw [restOutput, behind]
          change _ ++ transfer.content ++ _ = _
          rw [output, content, List.append_assoc, slice_append_slice]
          congr 2
          omega
        · rw [restAsked]
          rw [asked, List.append_assoc]
          rfl
        · refine ⟨rfl, ?_⟩
          change Tiles (cursor.offset.toNat + cursor.length.toNat) _ _
          rwa [← behind]
        · intro range member
          rcases List.mem_cons.mp member with rfl | inRest
          · exact bounded
          · exact allBounded range inRest

/-- Where every range inside the size can be read, nothing stops the client. -/
theorem streamRanges_runs
    (reads : ∀ offset length : UInt64,
      offset.toNat + length.toNat ≤ entrySize.toNat →
      length ≤ stdoutRangeBytes →
      ∃ transfer bytes, rangeTransfer backends file quota entry offset length =
          .ok transfer ∧ transfer.offset = offset ∧ transfer.length = length ∧
        verifiedTransfer backends.digests transfer = .ok bytes)
    (cursor : Cursor entrySize)
    (calm : terminal.troubles = []) :
    ∃ after, streamRanges backends file quota entry cursor terminal =
      (.ok (), after) ∧ after.troubles = [] := by
  induction left : entrySize.toNat - cursor.offset.toNat using
    Nat.strong_induction_on generalizing cursor terminal with
  | _ left inductionHypothesis =>
      have inside := UInt64.le_iff_toNat_le.mp cursor.inside
      have shortened := cursor.toNat_length
      obtain ⟨transfer, bytes, isTransfer, sameOffset, sameLength, isVerified⟩ :=
        reads cursor.offset cursor.length (by omega) (by
          rw [UInt64.le_iff_toNat_le]
          omega)
      have job : readRangeJob backends file quota entry cursor.offset
          cursor.length terminal = (.ok transfer, { terminal with
            asked := terminal.asked ++ [(cursor.offset, cursor.length)] }) := by
        unfold readRangeJob
        rw [isTransfer]
        have goesOn : trouble { terminal with
            asked := terminal.asked ++ [(cursor.offset, cursor.length)] } =
            (.ok (), { terminal with
              asked := terminal.asked ++ [(cursor.offset, cursor.length)] }) := by
          simp [trouble, calm]
        exact (StateAction.bind_of_ok rfl).trans (StateAction.bind_of_ok goesOn)
      rw [streamRanges, StateAction.bind_of_ok job,
        ensure_of ⟨sameOffset, sameLength⟩, StateAction.lift_ok_bind, isVerified,
        StateAction.lift_ok_bind]
      split
      · exact ⟨_, rfl, calm⟩
      · rename_i more
        exact @inductionHypothesis _ (left ▸ cursor.rest_lt more) { terminal with
          output := terminal.output ++ bytes
          asked := terminal.asked ++ [(cursor.offset, cursor.length)] }
          cursor.next calm rfl

end Runs

/-! ## Agreement with the standalone extraction -/

/-- Every run that goes through writes what the standalone extraction writes, and
asks for the entry in ranges without gap or overlap. -/
def StreamAgrees
    (backends : Backends)
    (file : List UInt8)
    (limits : DecodeLimits)
    (parsed : ParsedArchive)
    (entry : Path) : Prop :=
  ∀ quota terminal after,
    streamDaemonEntry backends file quota entry terminal = (.ok (), after) →
    (∃ report, extractToWriter backends file limits entry terminal.output =
      (.ok report, after.output)) ∧
    ∃ selector selected ranges, ArchivePath.fromRelative entry = .ok selector ∧
      selectEntry parsed.entries selector = .ok selected ∧
      after.asked = terminal.asked ++ ranges ∧
      Tiles 0 (ranges.map rangeSegment) selected.size.toNat ∧
      ∀ range ∈ ranges, range.2 ≤ stdoutRangeBytes

/-- The text under which an entry is listed. -/
def listedPath (entry : EntryRecord) : List UInt8 :=
  toStringLossy (joinPieces entry.names)

/-- Under the text of the path, a smaller file is listed before the file that
has the path. -/
def Mislisted (parsed : ParsedArchive) (entry : Path) : Prop :=
  ∃ text listed selector selected,
    archiveEntrySelector entry = .ok text ∧
    parsed.entries.find? (fun candidate => listedPath candidate = text) =
      some listed ∧
    listed.isCounted ∧
    ArchivePath.fromRelative entry = .ok selector ∧
    selectEntry parsed.entries selector = .ok selected ∧
    selected.isCounted ∧
    listed.size < selected.size

section Agreement

variable
  {backends : Backends}
  {file : List UInt8}
  {limits : DecodeLimits}
  {parsed : ParsedArchive}
  {quota : JobQuota}
  {entry : Path}

/-- How a hostable entry is listed. -/
def summaryOf (entry : EntryRecord) : ArchiveEntrySummary where
  entryId := entry.entryId
  path := listedPath entry
  kind := archiveEntryKind entry.kind
  size := entry.size
  modifiedNs := entry.modifiedNs

theorem entrySummary_eq
    {entry : EntryRecord}
    (hostable : entry.path.Hostable) :
    entrySummary entry = .ok (summaryOf entry) := by
  rw [entrySummary, hostable.toPathBuf_eq]
  rfl

theorem isCounted_iff_kind {entry : EntryRecord} :
    entry.isCounted ↔ (summaryOf entry).kind = .file ∨
      (summaryOf entry).kind = .hardlink := by
  unfold EntryRecord.isCounted summaryOf archiveEntryKind
  cases entry.kind <;> simp

/-- The file behind a selected entry of a verified archive. -/
structure Selected
    (backends : Backends)
    (file : List UInt8)
    (limits : DecodeLimits)
    (parsed read : ParsedArchive)
    (selector : ArchivePath)
    (selected source : EntryRecord)
    (groupId : UInt64)
    (group : GroupTableRecord)
    (restore : RestoreMapRecord)
    (decoded bytes : List UInt8) : Prop where
  accepted : readCatalog backends file limits = .ok read
  sameEntries : read.entries = parsed.entries
  isPath : selected.path = selector
  found : selectEntry read.entries selected.path = .ok selected
  hostable : selected.path.Hostable
  behind : SourceRead backends file limits read selected source groupId group
    restore decoded bytes
  size : bytes.length = selected.size.toNat
  limit : selected.size ≤ limits.maxGroupOutput

theorem selected_of_verified
    (verified : verifyOpenFile backends file limits = .ok parsed)
    {selector : ArchivePath}
    {selected : EntryRecord}
    (found : selectEntry parsed.entries selector = .ok selected)
    (isCounted : selected.isCounted) :
    ∃ read source groupId group restore decoded bytes,
      Selected backends file limits parsed read selector selected source groupId
        group restore decoded bytes := by
  obtain ⟨read, header, tables, accepted, ok, groupsVerified, rfl, sameEntries,
    sameGroups, sameRestores⟩ := tables_of_verified verified
  have isFound := okOr_eq_ok.mp found
  have inRead : selected ∈ read.entries := List.mem_of_find?_eq_some isFound
  have isPath : selected.path = selector := by
    simpa using List.find?_some isFound
  have inTables : selected ∈ tables.entries := sameEntries ▸ inRead
  obtain ⟨source, groupId, group, restore, decoded, bytes, behind⟩ :=
    sourceRead_of_tablesOk ok groupsVerified sameEntries sameGroups sameRestores
      inRead isCounted
  have size : bytes.length = selected.size.toNat := by
    rw [behind.read.length_bytes, behind.sameSize]
  have atGroup := behind.read.groupFound
  rw [sameGroups] at atGroup
  have groupLimit := UInt64.le_iff_toNat_le.mp
    (ok.groups _ group atGroup).size.output
  have fits := behind.read.length_le
  exact ⟨read, source, groupId, group, restore, decoded, bytes, {
    accepted := accepted
    sameEntries := rfl
    isPath := isPath
    found := by rw [isPath]; exact found
    hostable := (ok.entries _ selected (ok.getElem?_entryId inTables)).path.hostable
    behind := behind
    size := size
    limit := by
      rw [UInt64.le_iff_toNat_le]
      omega }⟩

/-- What the daemon reads is a slice of the bytes of the entry. -/
theorem Selected.reads
    {read : ParsedArchive}
    {selector : ArchivePath}
    {selected source : EntryRecord}
    {groupId : UInt64}
    {group : GroupTableRecord}
    {restore : RestoreMapRecord}
    {decoded bytes : List UInt8}
    (facts : Selected backends file limits parsed read selector selected source
      groupId group restore decoded bytes)
    (selects : ArchivePath.fromRelative entry = .ok selected.path)
    {otherLimits : DecodeLimits}
    (offset length : UInt64)
    (report : ReadRangeReport)
    (content : List UInt8)
    (isRead : readRange backends file otherLimits entry offset length [] =
      (.ok report, content)) :
    offset.toNat + length.toNat ≤ bytes.length ∧
      content = slice bytes offset.toNat length.toNat := by
  obtain ⟨within, isContent, _⟩ := SourceRead.readRange_of_ok facts.accepted
    selects facts.found facts.behind isRead
  exact ⟨facts.size ▸ within, isContent⟩

/-- What the client finds under a text. -/
theorem find?_map_summaryOf (entries : List EntryRecord) (text : List UInt8) :
    (entries.map summaryOf).find? (fun candidate => candidate.path = text) =
      (entries.find? fun candidate => listedPath candidate = text).map
        summaryOf := by
  rw [List.find?_map]
  rfl

/-- The list of a verified archive shows its entries. -/
theorem mapM_entrySummary_eq
    (verified : verifyOpenFile backends file limits = .ok parsed) :
    parsed.entries.mapM entrySummary = .ok (parsed.entries.map summaryOf) :=
  mapM_eq_ok_map fun entry member => entrySummary_eq
    ((verified_of_verifyOpenFile verified).hostable entry member)

theorem list_of_ok
    (verified : verifyOpenFile backends file limits = .ok parsed)
    {otherLimits : DecodeLimits}
    {entries : List ArchiveEntrySummary}
    (listed : list backends file otherLimits = .ok entries) :
    entries = parsed.entries.map summaryOf := by
  have shown := mapM_entrySummary_eq verified
  obtain ⟨read, accepted, _, rfl⟩ := verifyOpenFile_eq_ok.mp verified
  obtain ⟨other, isOther, mapped⟩ := bind_eq_ok.mp listed
  obtain rfl := readCatalog_unique accepted isOther
  exact Except.ok.inj (mapped.symm.trans shown)

/-- A run that goes through has read the first range. -/
theorem readRange_of_streamRanges
    {entrySize : UInt64}
    {cursor : Cursor entrySize}
    {terminal after : Terminal}
    (ran : streamRanges backends file quota entry cursor terminal =
      (.ok (), after)) :
    ∃ report content, readRange backends file quota.decode entry cursor.offset
      cursor.length [] = (.ok report, content) := by
  rw [streamRanges, StateAction.bind_eq_ok] at ran
  obtain ⟨transfer, _, isJob, _⟩ := ran
  obtain ⟨_, _, report, isRead⟩ := readRangeJob_eq_ok isJob
  exact ⟨report, _, isRead⟩

/-- What a run that goes through has done. -/
theorem streamDaemonEntry_eq_ok
    (verified : verifyOpenFile backends file limits = .ok parsed)
    {terminal after : Terminal}
    (ran : streamDaemonEntry backends file quota entry terminal =
      (.ok (), after)) :
    ∃ text listed before final, archiveEntrySelector entry = .ok text ∧
      parsed.entries.find? (fun candidate => listedPath candidate = text) =
        some listed ∧
      listed.isCounted ∧
      before.output = terminal.output ∧ before.asked = terminal.asked ∧
      streamRanges backends file quota entry
        (⟨0, UInt64.zero_le⟩ : Cursor listed.size) before = (.ok (), final) ∧
      after.output = final.output ∧ after.asked = final.asked := by
  simp only [streamDaemonEntry, listJob, StateAction.bind_eq_ok,
    StateAction.lift_eq_ok, okOr_eq_ok, ensure_eq_ok] at ran
  obtain ⟨_, _, connects, entries, _, ⟨_, _, waits, isList, rfl⟩, text, _,
    ⟨isText, rfl⟩, summary, _, ⟨isFound, rfl⟩, _, _, ⟨isKind, rfl⟩, _, final,
    streams, flushes⟩ := ran
  have listed : list backends file quota.decode = .ok entries := by
    cases shown : list backends file quota.decode with
    | ok other =>
        rw [shown] at isList
        rw [Except.ok.inj isList]
    | error failure =>
        rw [shown] at isList
        cases isList
  obtain rfl := list_of_ok verified listed
  rw [find?_map_summaryOf, Option.map_eq_some_iff] at isFound
  obtain ⟨entryListed, isEntry, rfl⟩ := isFound
  obtain ⟨connectOutput, connectAsked⟩ := trouble_eq_ok connects
  obtain ⟨waitOutput, waitAsked⟩ := trouble_eq_ok waits
  obtain ⟨flushOutput, flushAsked⟩ := trouble_eq_ok flushes
  exact ⟨text, entryListed, _, final, isText, isEntry,
    isCounted_iff_kind.mpr isKind, waitOutput.trans connectOutput,
    waitAsked.trans connectAsked, streams, flushOutput, flushAsked⟩

theorem streamAgrees_of_not_mislisted
    (verified : verifyOpenFile backends file limits = .ok parsed)
    (listedWell : ¬ Mislisted parsed entry) :
    StreamAgrees backends file limits parsed entry := by
  intro quota terminal after ran
  obtain ⟨text, listed, before, final, isText, isListed, listedCounted, output,
    asked, streams, finalOutput, finalAsked⟩ :=
    streamDaemonEntry_eq_ok verified ran
  obtain ⟨report, content, isRead⟩ := readRange_of_streamRanges streams
  obtain ⟨read, accepted, _, sameParsed⟩ := verifyOpenFile_eq_ok.mp verified
  have sameEntries : read.entries = parsed.entries := by rw [sameParsed]; rfl
  obtain ⟨selector, selected, selects, isSelected, isCounted⟩ :=
    selected_of_readRange accepted isRead
  rw [sameEntries] at isSelected
  obtain ⟨read, source, groupId, group, restore, decoded, bytes, facts⟩ :=
    selected_of_verified verified isSelected isCounted
  rw [← facts.isPath] at selects
  obtain ⟨size, written, ranges, isAsked, tiles, bounded⟩ :=
    streamRanges_eq_ok (facts.reads selects) _ streams
  have sameSize : listed.size = selected.size := by
    rw [facts.size, ← UInt64.le_iff_toNat_le] at size
    refine UInt64.le_antisymm size (UInt64.not_lt.mp fun smaller => ?_)
    exact listedWell ⟨text, listed, selected.path, selected, isText, isListed,
      listedCounted, selects, facts.sameEntries ▸ facts.found, isCounted, smaller⟩
  rw [sameSize] at tiles written
  refine ⟨⟨extractReport selected source.size, ?_⟩, selected.path, selected,
    ranges, selects, facts.sameEntries ▸ facts.found, ?_, tiles, bounded⟩
  · rw [SourceRead.extractToWriter_eq facts.accepted selects facts.found
      facts.behind, finalOutput, written, output]
    change _ = (_, _ ++ slice bytes 0 (selected.size.toNat - 0))
    rw [Nat.sub_zero, slice_all facts.size]
  · rw [finalAsked, isAsked, asked]

/-- A quota that allows all ranges of the client. -/
def generous (limits : DecodeLimits) : JobQuota where
  maxReadRange := stdoutRangeBytes
  maxOutput := stdoutRangeBytes
  maxTemp := stdoutRangeBytes
  decode := limits

/-- The daemon hands over every range of an entry. -/
theorem Selected.rangeTransfer_eq
    {read : ParsedArchive}
    {selector : ArchivePath}
    {selected source : EntryRecord}
    {groupId : UInt64}
    {group : GroupTableRecord}
    {restore : RestoreMapRecord}
    {decoded bytes : List UInt8}
    (facts : Selected backends file limits parsed read selector selected source
      groupId group restore decoded bytes)
    (selects : ArchivePath.fromRelative entry = .ok selected.path)
    {offset length : UInt64}
    (within : offset.toNat + length.toNat ≤ selected.size.toNat)
    (allowed : length ≤ stdoutRangeBytes) :
    ∃ transfer content, rangeTransfer backends file (generous limits) entry
        offset length = .ok transfer ∧
      transfer.offset = offset ∧ transfer.length = length ∧
      verifiedTransfer backends.digests transfer = .ok content := by
  have sizeBound := selected.size.toNat_lt
  have limit := UInt64.le_iff_toNat_le.mp facts.limit
  have bounded : length ≤ limits.maxGroupOutput := by
    rw [UInt64.le_iff_toNat_le]
    omega
  have isRead := @SourceRead.readRange_eq backends file limits read selected
    source groupId group restore decoded bytes entry facts.accepted selects
    facts.found facts.hostable facts.behind offset length bounded []
  rw [if_pos ⟨by omega, within⟩, List.nil_append] at isRead
  have whole : (slice bytes offset.toNat length.toNat).length = length.toNat :=
    length_slice (facts.size ▸ within)
  refine ⟨_, slice bytes offset.toNat length.toNat,
    @rangeTransfer_of_readRange backends file (generous limits) entry offset
      length allowed allowed allowed _ _ isRead, rfl, rfl, ?_⟩
  rw [verifiedTransfer, ensure_of whole, ok_bind, ensure_of rfl, ok_bind]

/-- A smaller file that is listed first cuts the output short. -/
theorem not_streamAgrees_of_mislisted
    (verified : verifyOpenFile backends file limits = .ok parsed)
    (mislisted : Mislisted parsed entry) :
    ¬ StreamAgrees backends file limits parsed entry := by
  intro agrees
  obtain ⟨text, listed, selector, selected, isText, isListed, listedCounted,
    selects, isSelected, isCounted, smaller⟩ := mislisted
  obtain ⟨read, source, groupId, group, restore, decoded, bytes, facts⟩ :=
    selected_of_verified verified isSelected isCounted
  rw [← facts.isPath] at selects
  have smallerNat := UInt64.lt_iff_toNat_lt.mp smaller
  have isList : list backends file limits = .ok (parsed.entries.map summaryOf) := by
    rw [list, facts.accepted, ok_bind, facts.sameEntries]
    exact mapM_entrySummary_eq verified
  obtain ⟨after, streams, calm⟩ := @streamRanges_runs backends file
    (generous limits) entry listed.size ⟨[], [], []⟩
    (fun offset length within allowed =>
      facts.rangeTransfer_eq selects (by omega) allowed)
    ⟨0, UInt64.zero_le⟩ rfl
  have goesOn (output : List UInt8) (asked : List (UInt64 × UInt64)) :
      trouble ⟨output, asked, []⟩ = (.ok (), ⟨output, asked, []⟩) := rfl
  have isKind := isCounted_iff_kind.mp listedCounted
  have found : (parsed.entries.map summaryOf).find?
      (fun candidate => candidate.path = text) = some (summaryOf listed) := by
    rw [find?_map_summaryOf, isListed]
    rfl
  have lists : listJob backends file (generous limits) ⟨[], [], []⟩ =
      (.ok (parsed.entries.map summaryOf), ⟨[], [], []⟩) := by
    rw [listJob, StateAction.bind_of_ok (goesOn [] []), generous, isList]
    rfl
  have ran : streamDaemonEntry backends file (generous limits) entry
      ⟨[], [], []⟩ = (.ok (), after) := by
    rw [streamDaemonEntry, StateAction.bind_of_ok (goesOn [] []),
      StateAction.bind_of_ok lists, isText, StateAction.lift_ok_bind, found,
      okOr_some, StateAction.lift_ok_bind, ensure_of isKind,
      StateAction.lift_ok_bind]
    have flushes : trouble after = (.ok (), after) := by
      obtain ⟨output, asked, troubles⟩ := after
      cases calm
      rfl
    exact (StateAction.bind_of_ok streams).trans flushes
  obtain ⟨⟨report, extracted⟩, _⟩ := agrees _ _ _ ran
  rw [SourceRead.extractToWriter_eq facts.accepted selects facts.found
    facts.behind] at extracted
  have whole : bytes = after.output := (Prod.mk.inj extracted).2
  obtain ⟨size, written, _⟩ := streamRanges_eq_ok (facts.reads selects) _ streams
  have short : after.output.length = listed.size.toNat := by
    rw [written]
    change (slice bytes 0 (listed.size.toNat - 0)).length = _
    rw [Nat.sub_zero, length_slice (by omega)]
  rw [← whole, facts.size] at short
  omega

/-- Streaming through the daemon agrees with the standalone extraction exactly
when no smaller file is listed first under the text of the path. -/
theorem streamAgrees_iff
    (verified : verifyOpenFile backends file limits = .ok parsed)
    (entry : Path) :
    StreamAgrees backends file limits parsed entry ↔
      ¬ Mislisted parsed entry :=
  ⟨fun agrees mislisted =>
      not_streamAgrees_of_mislisted verified mislisted agrees,
    streamAgrees_of_not_mislisted verified⟩

end Agreement

/-! ## Two entries under one text -/

theorem digest_nil : Digests.crates.blake3 [] =
    ⟨[0xAF, 0x13, 0x49, 0xB9, 0xF5, 0xF9, 0xA1, 0xA6,
      0xA0, 0x40, 0x4D, 0xEA, 0x36, 0xDC, 0xC9, 0x49,
      0x9B, 0xCB, 0x25, 0xC9, 0xAD, 0xC1, 0x12, 0xB7,
      0xCC, 0x9A, 0x93, 0xCA, 0xE4, 0x1F, 0x32, 0x62], rfl⟩ := by
  change Bytes.takeFixed 32 (Blake3.hash []) = _
  rw [Blake3.hash_nil]
  rfl

/-- The group of one file that is stored as it is. -/
def plainGroup (groupId length payloadOffset : UInt64) (bytes : List UInt8) :
    GroupTableRecord where
  group := {
    version := 1
    flags := 0
    groupId := groupId
    codecChainId := 0
    chunkCount := 1
    uncompressedLen := length
    compressedLen := length
    descriptorLen := 0
    payloadCrc32c := Digests.crates.crc32c bytes }
  payloadOffset := payloadOffset

/-- An empty file `f`, its name given as raw bytes, before a file `f` of one
byte, its name given as text. -/
def twinParts : ArchiveParts where
  entries := [
    { entryId := 0
      path := ⟨[⟨.unixBytes, textBytes "f"⟩]⟩
      size := 0
      modifiedNs := 0
      mode := 0o644
      blake3 := Digests.crates.blake3 []
      kind := .file 0 },
    { entryId := 1
      path := ⟨[utf8Component "f"]⟩
      size := 1
      modifiedNs := 0
      mode := 0o644
      blake3 := Digests.crates.blake3 [0x61]
      kind := .file 1 }]
  groups := [plainGroup 0 0 288 [], plainGroup 1 1 288 [0x61]]
  restoreMap := [
    { entryId := 0
      originalOffset := 0
      length := 0
      groupId := 0
      groupOffset := 0 },
    { entryId := 1
      originalOffset := 0
      length := 1
      groupId := 1
      groupOffset := 0 }]
  registryBytes := none
  payload := [[], [0x61]]
  originalTotalSize := 1

set_option maxRecDepth 100000 in
theorem twinParts_checks : twinParts.catalogChecks .default = .ok () := by
  unfold twinParts
  rw [sampleDigest, digest_nil]
  decide

theorem twinParts_verified :
    verifyOpenFile twinParts.crates twinParts.archive .default =
      .ok (twinParts.parsed twinParts.crates none).withRoot := by
  have isRaw : twinParts.readRegistry = .ok none := by decide
  obtain ⟨registry, isRegistry, verified⟩ :=
    ArchiveParts.verifyOpenFile_of_catalogChecks twinParts_checks (by
      intro registry isRegistry record member
      obtain rfl := Except.ok.inj (isRaw.symm.trans isRegistry)
      rcases List.mem_cons.mp member with rfl | member
      · refine ⟨[], ?_, ?_⟩
        · refine bind_eq_ok.mpr ⟨_, rfl, bind_eq_ok.mpr
            ⟨[], by decide, bind_eq_ok.mpr ⟨(), ensure_of rfl _, by decide⟩⟩⟩
        · intro restore isMapped
          have shown : mappings (twinParts.parsed twinParts.crates
              none).restoreMap 0 = [⟨0, 0, 0, 0, 0⟩] := by decide
          obtain rfl := List.mem_singleton.mp (shown ▸ isMapped)
          exact ⟨_, [], rfl, by decide, rfl⟩
      · obtain rfl := List.mem_singleton.mp member
        refine ⟨[0x61], ?_, ?_⟩
        · refine bind_eq_ok.mpr ⟨_, rfl, bind_eq_ok.mpr
            ⟨[0x61], by decide, bind_eq_ok.mpr ⟨(), ensure_of rfl _, by decide⟩⟩⟩
        · intro restore isMapped
          have shown : mappings (twinParts.parsed twinParts.crates
              none).restoreMap 1 = [⟨1, 0, 1, 1, 0⟩] := by decide
          obtain rfl := List.mem_singleton.mp (shown ▸ isMapped)
          exact ⟨_, [0x61], rfl, by decide, rfl⟩)
  obtain rfl := Except.ok.inj (isRaw.symm.trans isRegistry)
  exact verified

/-- The client asks for the file of one byte, takes the size of the empty one,
and ends without an output. -/
theorem streamDaemonEntry_cuts_short :
    ¬ ∀ backends file limits parsed entry,
      verifyOpenFile backends file limits = .ok parsed →
        StreamAgrees backends file limits parsed entry := by
  intro always
  refine not_streamAgrees_of_mislisted twinParts_verified ?_
    (always _ _ _ _ [102] twinParts_verified)
  exact ⟨[102], _, ⟨[utf8Component "f"]⟩, _, by decide, rfl, rfl, by decide, rfl,
    rfl, by decide⟩

/-- In an archive with one file, the client gets all of it. -/
theorem sampleParts_streamAgrees :
    StreamAgrees sampleParts.crates sampleParts.archive .default
        sampleParts.verified [100, 47, 102] ↔
      ¬ Mislisted sampleParts.verified [100, 47, 102] :=
  streamAgrees_iff sampleParts_verified [100, 47, 102]

end Pithos.Cli
