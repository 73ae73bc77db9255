import Pithos.Engine.Unpack.Placement

/-!
# The bytes that unpacking writes

Links come last, and making them never changes a file, wherever they lead.  So
when unpacking succeeds, every file and hardlink entry holds the bytes of its
file, also in an archive whose links are not flat.
-/

namespace Pithos

open Fallible
open FileTree
open HostPath
open Disk

/-- A file with the given bytes stands at a location. -/
def HoldsFile (disk : Disk) (location : Location) (bytes : List UInt8) : Prop :=
  ∃ inode metadata, disk.look location = some (.file inode) ∧
    disk.inodes[inode]? = some ⟨metadata, bytes⟩

theorem HoldsFile.kept
    {disk after : Disk}
    {location : Location}
    {bytes : List UInt8}
    (holds : HoldsFile disk location bytes)
    (kept : Kept disk after) :
    HoldsFile after location bytes := by
  obtain ⟨inode, metadata, found, content⟩ := holds
  exact ⟨inode, metadata, kept.look _ _ found, kept.inodes _ _ content⟩

section Contents

variable
  {backends : Backends}
  {file : List UInt8}
  {limits : DecodeLimits}
  {maxTempBytes : UInt64}
  {parsed : ParsedArchive}
  {request : UnpackRequest}
  {start disk : Disk}
  {staging : Location}

/-- The files and hardlinks in a staging directory hold their bytes. -/
theorem Staged.holdsFile
    {entries done : List EntryRecord}
    {contents : EntryRecord → List UInt8}
    (staged : Staged contents entries start staging done disk)
    {entry source : EntryRecord}
    (member : entry ∈ done)
    (sourceMember : source ∈ done)
    (sourceFile : source.isOf .file)
    (isSource : fileSourceEntry entry entries = .ok source) :
    HoldsFile disk (staging ++ entry.names) (contents source) := by
  obtain ⟨inode, found, content⟩ := staged.files source sourceMember sourceFile
  refine ⟨inode, _, ?_, content⟩
  unfold fileSourceEntry at isSource
  cases kind : entry.kind with
  | directory => simp [kind] at isSource
  | symlink target targetIsDir => simp [kind] at isSource
  | file groupId =>
      simp only [kind, Except.ok.injEq] at isSource
      rw [isSource, found]
  | hardlink targetEntryId =>
      simp only [kind, okOr_eq_ok] at isSource
      rw [staged.hardlinks entry member targetEntryId source kind isSource,
        found]

/-- What unpacking writes for a file or hardlink entry. -/
theorem Placed.unpack_holdsFile
    (placed : Placed disk request)
    (verified : verifyOpenFile backends file limits = .ok parsed)
    {final : Disk}
    (ran : unpack backends file limits maxTempBytes request disk =
      (.ok (), final))
    {entry source : EntryRecord}
    (member : entry ∈ parsed.entries)
    (notLink : entry.isOf .symlink = false)
    (sourceMember : source ∈ parsed.entries)
    (sourceFile : source.isOf .file)
    (isSource : fileSourceEntry entry parsed.entries = .ok source) :
    HoldsFile final (request.outputDir ++ entry.names)
      (fileBytes backends file limits parsed source) := by
  have preparing := ran
  rw [unpack, StateAction.bind_eq_ok] at preparing
  obtain ⟨read, prepared, preparing, _⟩ := preparing
  obtain ⟨destination, again, fits⟩ := placed.destination preparing
  rw [verified] at again
  cases again
  obtain ⟨other, same, isPrepared⟩ :=
    @Destination.prepareStaging_ok backends file limits maxTempBytes parsed
      request disk destination verified fits
  rw [preparing] at same
  cases same
  obtain ⟨filled, populated, staged, kept, _, _, _, _, moved⟩ :=
    destination.steps_of_unpack_ok preparing isPrepared
      (verified_of_verifyOpenFile verified) ran
  have sourceNotLink : source.isOf .symlink = false := by
    unfold EntryRecord.isOf at sourceFile ⊢
    simp_all
  obtain ⟨inode, metadata, found, content⟩ := (staged.holdsFile
    (mem_beforeLinks.mpr ⟨member, notLink⟩)
    (mem_beforeLinks.mpr ⟨sourceMember, sourceNotLink⟩)
    sourceFile isSource).kept kept
  refine ⟨inode, metadata, (moved.arrived entry.names).trans found, ?_⟩
  rw [moved.inodes, content]

end Contents

end Pithos
