import Pithos.Engine.Read

/-!
# Canonical paths

The catalog tells entries apart by their sort keys, and the operations that take
a host path tell them apart by the path that encodes it.  The two agree exactly
on catalogs whose paths are all encoded the way the host encodes them.
-/

namespace Pithos

open Fallible

/-- Every entry stands for its own host path: no two entries share one, each is
encoded back to the path of its entry, and selecting by it finds the entry. -/
structure PathsCanonical (entries : List EntryRecord) : Prop where
  distinct : (entries.map fun entry => entry.path.toPathBuf).Nodup
  encodedBack : ∀ entry ∈ entries, ∃ host, entry.path.toPathBuf = .ok host ∧
    ArchivePath.fromRelative host = .ok entry.path
  selected : ∀ entry ∈ entries, ∃ host selector,
    entry.path.toPathBuf = .ok host ∧
      ArchivePath.fromRelative host = .ok selector ∧
      selectEntry entries selector = .ok entry

section Canonical

variable
  {limits : DecodeLimits}
  {header : GlobalHeader}
  {tables : Tables}

theorem TablesOk.toPathBuf_eq
    (ok : TablesOk limits header tables)
    {entry : EntryRecord}
    (member : entry ∈ tables.entries) :
    ∃ host, entry.path.toPathBuf = .ok host := by
  obtain ⟨position, found⟩ := List.mem_iff_getElem?.mp member
  exact ⟨_, (ok.entries position entry found).path.hostable.toPathBuf_eq⟩

/-- On canonical paths the host path determines the path. -/
theorem TablesOk.path_eq_of_toPathBuf_eq
    (ok : TablesOk limits header tables)
    (canonical : ∀ entry ∈ tables.entries, entry.path.Canonical)
    {first second : EntryRecord}
    (firstMember : first ∈ tables.entries)
    (secondMember : second ∈ tables.entries)
    (same : first.path.toPathBuf = second.path.toPathBuf) :
    first.path = second.path := by
  obtain ⟨host, firstHost⟩ := ok.toPathBuf_eq firstMember
  have secondHost := same.symm.trans firstHost
  have firstBack := (ArchivePath.fromRelative_toPathBuf_iff firstHost).mpr
    (canonical first firstMember)
  have secondBack := (ArchivePath.fromRelative_toPathBuf_iff secondHost).mpr
    (canonical second secondMember)
  exact Except.ok.inj (firstBack.symm.trans secondBack)

theorem TablesOk.pathsCanonical
    (ok : TablesOk limits header tables)
    (canonical : ∀ entry ∈ tables.entries, entry.path.Canonical) :
    PathsCanonical tables.entries where
  distinct := by
    have entriesDistinct : tables.entries.Nodup := List.Nodup.of_map _ ok.sortKeys
    refine entriesDistinct.map_on ?_
    intro first firstMember second secondMember same
    exact ok.eq_of_path_eq firstMember secondMember
      (ok.path_eq_of_toPathBuf_eq canonical firstMember secondMember same)
  encodedBack := by
    intro entry member
    obtain ⟨host, converted⟩ := ok.toPathBuf_eq member
    exact ⟨host, converted, (ArchivePath.fromRelative_toPathBuf_iff
      converted).mpr (canonical entry member)⟩
  selected := by
    intro entry member
    obtain ⟨host, converted⟩ := ok.toPathBuf_eq member
    exact ⟨host, entry.path, converted,
      (ArchivePath.fromRelative_toPathBuf_iff converted).mpr
        (canonical entry member), ok.selectEntry_eq member⟩

end Canonical

end Pithos
