import Pithos.Library.Fallible
import Pithos.Library.Machine
import Pithos.Library.FileTree

/-!
# Core types

The typed errors, the decoder limits and the compression profiles that every
other part of the archiver shares.
-/

namespace Pithos

/-- The typed errors of the archiver. -/
inductive PithosError
  | invalidMagic
  | unsupportedContainerVersion
  | unsupportedCodec
  | invalidRange
  | integerOverflow
  | overlappingSections
  | checksumMismatch
  | hashMismatch
  | dependencyCycle
  | unsafePath
  | invalidPathEncoding
  | invalidMetadata (detail : String)
  | missingSection (detail : String)
  | duplicateSection
  | unsupportedFileType
  | unsafeSymlink
  | outputExists
  | resourceLimit (detail : String)
  | memoryLimit
  | temporarySpaceLimit
  | inputChanged
  | cancelled
  | io (kind : FileTree.IoErrorKind)
  deriving DecidableEq, Repr

/-- Result of a fallible operation of the archiver. -/
abbrev Result := Except PithosError

/-- The official compression profiles. -/
inductive CompressionProfile
  | raw
  | stream
  | random
  | balanced
  | archiveMax
  deriving DecidableEq, Repr

/-- Safety limits that the decoder enforces. -/
structure DecodeLimits where
  maxEntries : UInt64
  maxGroups : UInt64
  maxChunks : UInt64
  maxOriginalBytes : UInt64
  maxGroupOutput : UInt64
  maxExpansionRatio : UInt64
  maxMetadataBytes : UInt64
  maxPathBytes : UInt64
  maxPathComponents : UInt64
  maxSections : UInt32
  deriving DecidableEq, Repr

/-- The limits used when the caller gives none. -/
def DecodeLimits.default : DecodeLimits where
  maxEntries := 10000000
  maxGroups := 1000000
  maxChunks := 50000000
  maxOriginalBytes := 1000000000000
  maxGroupOutput := 1073741824
  maxExpansionRatio := 1000
  maxMetadataBytes := 256 * 1024 * 1024
  maxPathBytes := 32 * 1024
  maxPathComponents := 1024
  maxSections := 64

end Pithos
