import Pithos.Daemon.Store.Operations
import Pithos.Engine.Guarantees

/-!
# Recovering a published archive

After a restart the daemon compares the archive at the output of an interrupted
pack job with the identity that it recorded.  The identity is that of a verified
archive: its length and its root hash.
-/

namespace Pithos.Daemon

open Fallible
open HostPath
open Bytes

/-- The archives of a file system, verified under some limits. -/
def Archives.ofFiles
    (backends : Backends)
    (limits : DecodeLimits)
    (files : Path → Option (List UInt8)) : Archives where
  isFile path := (files path).isSome
  verifiedIdentity path :=
    match files path with
    | none => .error (internal "pack output verification failed")
    | some file =>
        match verifyOpenFile backends file limits with
        | .error _ => .error (internal "pack output verification failed")
        | .ok verified => .ok verified.identity

/-- A job interrupted after it recorded the identity of the archive at its
output. -/
structure Recorded
    (job : StoredJob)
    (output : Path)
    (identity : ArchiveIdentity) : Prop where
  operation : ∃ inputs profile, job.operation = .pack inputs output profile
  marker : ∃ marker, job.packPublication = some marker ∧
    marker.outputWasAbsent ∧ marker.publishedArchive = some identity

/-- Recovery accepts exactly a verified archive with the recorded identity. -/
theorem Recorded.recoverPackArchive_eq_some
    {job : StoredJob}
    {output : Path}
    {identity : ArchiveIdentity}
    (recorded : Recorded job output identity)
    {backends : Backends}
    {limits : DecodeLimits}
    {files : Path → Option (List UInt8)}
    {recovered : Path × ArchiveIdentity} :
    recoverPackArchive (.ofFiles backends limits files) job =
        some recovered ↔
      recovered = (output, identity) ∧
        ∃ file verified, files output = some file ∧
          verifyOpenFile backends file limits = .ok verified ∧
          verified.identity = identity := by
  obtain ⟨inputs, profile, operation⟩ := recorded.operation
  obtain ⟨marker, isMarker, absent, published⟩ := recorded.marker
  simp only [recoverPackArchive, operation, isMarker, published, absent,
    Archives.ofFiles]
  cases found : files output with
  | none => simp
  | some file =>
      cases verifying : verifyOpenFile backends file limits with
      | error failure => simp [verifying]
      | ok verified =>
          simp only [verifying, Option.isSome_some, true_and,
            Option.some.injEq, Except.ok.injEq, exists_and_left,
            exists_eq_left']
          constructor
          · intro recover
            split at recover
            · rename_i same
              cases recover
              exact ⟨by rw [same], same⟩
            · cases recover
          · rintro ⟨rfl, same⟩
            rw [if_pos same, same]

/-- Two verified files with the same identity are the same file exactly when
their reserved bytes agree; recovery takes either for the other. -/
theorem archiveIdentity_exact_iff
    {backends : Backends}
    {first second : List UInt8}
    (noCollision : backends.digests.NoPrefixCollision
      (first.length - footerLen) first second)
    {limits otherLimits : DecodeLimits}
    {verified otherVerified : ParsedArchive}
    (accepted : verifyOpenFile backends first limits = .ok verified)
    (otherAccepted : verifyOpenFile backends second otherLimits =
      .ok otherVerified)
    (sameIdentity : verified.identity = otherVerified.identity) :
    (first = second ↔ reservedBytes first = reservedBytes second) ∧
      ∀ job output files, Recorded job output verified.identity →
        files output = some second →
        recoverPackArchive (.ofFiles backends otherLimits files) job =
          some (output, verified.identity) := by
  refine ⟨⟨fun same => by rw [same], fun sameReserved => ?_⟩, ?_⟩
  · exact eq_of_reservedBytes_eq noCollision accepted otherAccepted
      sameIdentity sameReserved
  · intro job output files recorded found
    exact recorded.recoverPackArchive_eq_some.mpr
      ⟨rfl, second, otherVerified, found, otherAccepted, sameIdentity.symm⟩

/-- The sample archive with a reserved byte of its footer set. -/
def alteredArchive : List UInt8 :=
  sampleParts.body .crates sampleParts.crates.json ++
    (sampleParts.footer .crates sampleParts.crates.json).encodeTail .crates
      [1, 0, 0, 0]

theorem alteredArchive_verified :
    verifyOpenFile sampleParts.crates alteredArchive .default =
      .ok sampleParts.verified :=
  ArchiveParts.verifyOpenFile_of_checks rfl
    (Footer.length_encodeTail _ _ rfl) (Footer.decode_encodeTail _ _ rfl)
    sampleParts_checks

theorem sampleParts_archive_ne_altered :
    sampleParts.archive ≠ alteredArchive := by
  intro same
  have footers := List.append_cancel_left same
  have tails := List.append_cancel_left footers
  have last := congrArg (List.drop 4) tails
  rw [List.drop_left' (Machine.length_le32 _),
    List.drop_left' (Machine.length_le32 _)] at last
  revert last
  decide

theorem sampleParts_noCollision : sampleParts.crates.digests.NoPrefixCollision
    (sampleParts.archive.length - footerLen) sampleParts.archive
    alteredArchive := by
  intro _
  have length : sampleParts.archive.length - footerLen =
      (sampleParts.body .crates sampleParts.crates.json).length := by
    rw [ArchiveParts.archive, ArchiveParts.assemble, List.length_append,
      Footer.length_encode, Nat.add_sub_cancel]
  rw [length]
  exact List.take_left.trans List.take_left.symm

theorem alteredArchive_exact_iff :
    sampleParts.archive = alteredArchive ↔
      reservedBytes sampleParts.archive = reservedBytes alteredArchive :=
  (@archiveIdentity_exact_iff sampleParts.crates sampleParts.archive
    alteredArchive sampleParts_noCollision _ _ _ _ sampleParts_verified
    alteredArchive_verified rfl).1

/-- Two verified files, one identity, different bytes. -/
theorem alteredArchive_sameIdentity :
    verifyOpenFile sampleParts.crates sampleParts.archive .default =
        .ok sampleParts.verified ∧
      verifyOpenFile sampleParts.crates alteredArchive .default =
        .ok sampleParts.verified ∧
      sampleParts.archive ≠ alteredArchive :=
  ⟨sampleParts_verified, alteredArchive_verified,
    sampleParts_archive_ne_altered⟩

end Pithos.Daemon
