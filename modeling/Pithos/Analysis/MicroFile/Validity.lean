import Pithos.Analysis.Regions
import Pithos.Analysis.MicroFile.Columns

/-!
# Valid micro-file plans

What the validators of packs and plans accept.  An accepted plan keeps all limits,
its files have distinct ids and its packs are tiled by their files.  The paths
are distinct within each pack; the validators do not compare those of different
packs.
-/

namespace Pithos

open Fallible
open Machine
open Layout

/-! ## One pack -/

/-- Where the content of a member stands in its pack. -/
def MicroFilePackMember.span (member : MicroFilePackMember) : Nat × Nat :=
  (member.contentOffset.toNat, member.length.toNat)

/-- What a member and its record both hold. -/
def MicroFileMetadataRecord.member (record : MicroFileMetadataRecord) :
    MicroFilePackMember :=
  ⟨record.entryId, record.contentOffset, record.length⟩

/-- A pack that passes its checks. -/
structure MicroFilePack.Valid
    (pack : MicroFilePack)
    (config : ChunkingConfig) : Prop where
  few : pack.members.length ≤ config.maxChunks.toNat
  nonempty : pack.members ≠ []
  sameCount : pack.members.length = pack.metadata.records.length
  withinTarget : pack.uncompressedLen.toNat ≤ config.microPackTarget.toNat
  withinLimit : pack.uncompressedLen.toNat ≤ config.maxLogicalBytes.toNat
  expands : ∃ paths, pack.metadata.Expands config paths
  agree : pack.members = pack.metadata.records.map (·.member)
  small : ∀ member ∈ pack.members,
    member.length.toNat ≤ config.microFileMax.toNat
  tiles : Tiles 0 (pack.members.map (·.span)) pack.uncompressedLen.toNat

section Pack

variable
  {cdc : FastCdc}
  {config : ChunkingConfig}
  {pack : MicroFilePack}

/-- The members are the ones their records describe, and follow one another. -/
theorem checkMembers_eq_ok
    {position : Nat}
    {rows : List (MicroFilePackMember × MicroFileMetadataRecord)}
    {offset stop : UInt64} :
    forEnum (fun _ => MicroFilePack.checkMember config) position rows offset =
        .ok stop ↔
      (∀ row ∈ rows, row.1 = row.2.member ∧
        row.1.length.toNat ≤ config.microFileMax.toNat) ∧
      Tiles offset.toNat (rows.map (·.1.span)) stop.toNat := by
  induction rows generalizing position offset with
  | nil => simp [UInt64.toNat_inj]
  | cons row rows inductionHypothesis =>
      obtain ⟨member, record⟩ := row
      simp only [forEnum_cons, bind_eq_ok, MicroFilePack.checkMember,
        ensure_eq_ok, exists_const, addU64_eq_ok, inductionHypothesis,
        List.forall_mem_cons, List.map_cons, MicroFilePackMember.span,
        tiles_cons, UInt32.le_iff_toNat_le, UInt32.toNat_toUInt64,
        MicroFileMetadataRecord.member]
      constructor
      · rintro ⟨next, ⟨⟨id, place, length, starts, small⟩, isNext⟩, rest,
          tiles⟩
        refine ⟨⟨⟨?_, small⟩, rest⟩, congrArg UInt64.toNat starts, ?_⟩
        · obtain ⟨memberId, memberOffset, memberLength⟩ := member
          simp only at id place length
          rw [id, place, length]
        · rwa [isNext]
      · rintro ⟨⟨⟨rfl, small⟩, rest⟩, starts, tiles⟩
        simp only at tiles
        have below := tiles.le
        have stopBound := stop.toNat_lt
        have next := @toNat_ofNat_of_lt
          (offset.toNat + record.length.toNat) (by omega)
        refine ⟨UInt64.ofNat (offset.toNat + record.length.toNat),
          ⟨⟨rfl, rfl, rfl, UInt64.toNat_inj.mp starts, small⟩, next.symm⟩,
          rest, ?_⟩
        rwa [next]

/-- The checks of a pack. -/
theorem MicroFilePack.validate_eq_ok
    (valid : config.Valid cdc)
    {done : Unit} :
    pack.validate cdc config = .ok done ↔ pack.Valid config := by
  simp only [MicroFilePack.validate, valid.validate, ok_bind, bind_eq_ok,
    tryU64_eq_ok, ensureChunkCount, ensure_eq_ok, exists_const,
    UInt64.le_iff_toNat_le, UInt32.toNat_toUInt64, expandedPaths_eq_ok valid,
    checkMembers_eq_ok]
  constructor
  · rintro ⟨count, isCount, few, ⟨nonempty, same, withinTarget, withinLimit⟩,
      paths, expands, stop, ⟨checked, tiles⟩, rfl⟩
    have members : (pack.members.zip pack.metadata.records).map (·.1) =
        pack.members := List.map_fst_zip (Nat.le_of_eq same)
    have records : (pack.members.zip pack.metadata.records).map (·.2) =
        pack.metadata.records := List.map_snd_zip (Nat.le_of_eq same.symm)
    refine ⟨isCount ▸ few, nonempty, same, withinTarget, withinLimit,
      ⟨paths, expands⟩, ?_, ?_, ?_⟩
    · conv_lhs => rw [← members]
      conv_rhs => rw [← records]
      rw [List.map_map]
      exact List.map_congr_left fun row member => (checked row member).1
    · rw [← members]
      exact List.forall_mem_map.mpr fun row member => (checked row member).2
    · rw [← members, List.map_map]
      exact tiles
  · intro isValid
    have members : (pack.members.zip pack.metadata.records).map (·.1) =
        pack.members := List.map_fst_zip (Nat.le_of_eq isValid.sameCount)
    have limit := config.maxChunks.toNat_lt
    have few := isValid.few
    have count := @toNat_ofNat_of_lt pack.members.length (by omega)
    obtain ⟨paths, expands⟩ := isValid.expands
    refine ⟨_, count, count.symm ▸ few, ⟨isValid.nonempty, isValid.sameCount,
      isValid.withinTarget, isValid.withinLimit⟩, paths, expands,
      pack.uncompressedLen, ⟨fun row member => ⟨?_, ?_⟩, ?_⟩, rfl⟩
    · have agree := isValid.agree
      obtain ⟨index, bound, isRow⟩ := List.mem_iff_getElem.mp member
      have inside : index < pack.members.length := by
        rw [List.length_zip] at bound
        omega
      subst isRow
      simp only [List.getElem_zip]
      conv_lhs => rw [List.getElem_of_eq agree inside]
      rw [List.getElem_map]
    · exact isValid.small _ (List.of_mem_zip member).1
    · have tiles := isValid.tiles
      rw [← members, List.map_map] at tiles
      exact tiles

end Pack

/-! ## A plan -/

namespace MicroFilePackPlan

/-- How many files are packed. -/
def memberCount (plan : MicroFilePackPlan) : Nat :=
  (plan.packs.map (·.members.length)).sum

/-- How many bytes are packed. -/
def contentBytes (plan : MicroFilePackPlan) : Nat :=
  (plan.packs.map (·.uncompressedLen.toNat)).sum

/-- The ids of all files of a plan. -/
def entryIds (plan : MicroFilePackPlan) : List UInt64 :=
  (plan.packs.flatMap fun pack => pack.members.map (·.entryId)) ++
    plan.excluded.map (·.entryId)

/-- A plan that passes its checks. -/
structure Valid (plan : MicroFilePackPlan) (config : ChunkingConfig) :
    Prop where
  fewPacks : plan.packs.length ≤ config.maxChunks.toNat
  fewFiles : plan.memberCount + plan.excluded.length ≤ config.maxChunks.toNat
  content : plan.contentBytes ≤ config.maxLogicalBytes.toNat
  packIds : ∀ (index : Nat) (pack : MicroFilePack),
    plan.packs[index]? = some pack → pack.packId.toNat = index
  packs : ∀ pack ∈ plan.packs, pack.Valid config
  idsDistinct : plan.entryIds.Nodup

end MicroFilePackPlan

section Plan

variable
  {cdc : FastCdc}
  {config : ChunkingConfig}
  {plan : MicroFilePackPlan}

/-- The packs are counted exactly when the totals are within the limits. -/
theorem countPacks_eq_ok
    {position : Nat}
    {packs : List MicroFilePack}
    {totals result : UInt64 × UInt64}
    (fewer : totals.1.toNat ≤ config.maxChunks.toNat)
    (less : totals.2.toNat ≤ config.maxLogicalBytes.toNat) :
    forEnum (fun _ => MicroFilePackPlan.countPack config) position packs
        totals = .ok result ↔
      (result.1.toNat =
          totals.1.toNat + (packs.map (·.members.length)).sum ∧
        result.1.toNat ≤ config.maxChunks.toNat) ∧
      result.2.toNat =
          totals.2.toNat + (packs.map (·.uncompressedLen.toNat)).sum ∧
        result.2.toNat ≤ config.maxLogicalBytes.toNat := by
  induction packs generalizing position totals with
  | nil =>
      simp only [forEnum_nil, Except.ok.injEq, List.map_nil, List.sum_nil,
        Nat.add_zero, UInt64.toNat_inj]
      constructor
      · rintro rfl
        exact ⟨⟨rfl, fewer⟩, rfl, less⟩
      · rintro ⟨⟨members, _⟩, content, _⟩
        exact Prod.ext members.symm content.symm
  | cons pack packs inductionHypothesis =>
      simp only [forEnum_cons, bind_eq_ok, MicroFilePackPlan.countPack,
        ensureChunkCount, ensureLogicalSize, ensure_eq_ok, exists_const,
        tryU64_eq_ok, addU64_eq_ok, Except.ok.injEq, UInt64.le_iff_toNat_le,
        List.map_cons, List.sum_cons]
      constructor
      · rintro ⟨next, ⟨count, isCount, members, isMembers, few, content,
          isContent, inside, rfl⟩, ran⟩
        obtain ⟨⟨allMembers, allFew⟩, allContent, allInside⟩ :=
          (inductionHypothesis few inside).mp ran
        simp only at allMembers allContent
        exact ⟨⟨by omega, allFew⟩, by omega, allInside⟩
      · rintro ⟨⟨allMembers, allFew⟩, allContent, allInside⟩
        have chunkBound := config.maxChunks.toNat_lt
        have byteBound := config.maxLogicalBytes.toNat_lt
        have count := @toNat_ofNat_of_lt pack.members.length (by omega)
        have members := @toNat_ofNat_of_lt
          (totals.1.toNat + pack.members.length) (by omega)
        have content := @toNat_ofNat_of_lt
          (totals.2.toNat + pack.uncompressedLen.toNat) (by omega)
        refine ⟨(UInt64.ofNat (totals.1.toNat + pack.members.length),
          UInt64.ofNat (totals.2.toNat + pack.uncompressedLen.toNat)),
          ⟨_, count, _, by rw [count, members], by omega, _, content.symm,
            by omega, rfl⟩, ?_⟩
        refine (inductionHypothesis (by simp only; omega)
          (by simp only; omega)).mpr ⟨⟨?_, allFew⟩, ?_, allInside⟩
        · simp only
          omega
        · simp only
          omega

/-- The packs are checked exactly when each is valid and numbered by its
position. -/
theorem checkPacks_eq_ok
    (valid : config.Valid cdc)
    {position : Nat}
    {packs : List MicroFilePack}
    {ids result : List UInt64}
    (small : position + packs.length ≤ 2 ^ 64) :
    forEnum (MicroFilePackPlan.checkPack cdc config) position packs ids =
        .ok result ↔
      (∀ index pack, packs[index]? = some pack →
        pack.packId.toNat = position + index) ∧
      (∀ pack ∈ packs, pack.Valid config) ∧
      result = ids ++ packs.flatMap fun pack =>
        pack.members.map (·.entryId) := by
  induction packs generalizing position ids with
  | nil => simp [eq_comm]
  | cons pack packs inductionHypothesis =>
      rw [List.length_cons] at small
      have later (ids : List UInt64) := @inductionHypothesis (position + 1) ids
        (by omega)
      have number : (UInt64.ofNat position).toNat = position :=
        toNat_ofNat_of_lt (by omega)
      simp only [forEnum_cons, bind_eq_ok, MicroFilePackPlan.checkPack,
        ensure_eq_ok, exists_const, tryU64_eq_ok, Except.ok.injEq, later,
        MicroFilePack.validate_eq_ok valid, List.forall_mem_cons,
        List.flatMap_cons]
      constructor
      · rintro ⟨_, ⟨word, isWord, isId, packValid, rfl⟩, ids, packsValid, rfl⟩
        refine ⟨fun index other found => ?_, ⟨packValid, packsValid⟩,
          List.append_assoc _ _ _⟩
        cases index with
        | zero =>
            cases found
            rw [isId, isWord, Nat.add_zero]
        | succ index =>
            rw [ids index other found]
            omega
      · rintro ⟨ids, ⟨packValid, packsValid⟩, rfl⟩
        refine ⟨_, ⟨_, number, ?_, packValid, rfl⟩, fun index other found => ?_,
          packsValid, (List.append_assoc _ _ _).symm⟩
        · rw [← UInt64.toNat_inj, number]
          exact ids 0 pack rfl
        · rw [ids (index + 1) other found]
          omega

/-- The checks of a plan. -/
theorem MicroFilePackPlan.validate_eq_ok
    (valid : config.Valid cdc)
    {done : Unit} :
    plan.validate cdc config = .ok done ↔ plan.Valid config := by
  have zero : (0 : UInt64).toNat = 0 := rfl
  have chunkBound := config.maxChunks.toNat_lt
  have counted (result : UInt64 × UInt64) := @countPacks_eq_ok config 0
    plan.packs (0, 0) result (Nat.zero_le _) (Nat.zero_le _)
  simp only [zero] at counted
  simp only [MicroFilePackPlan.validate, valid.validate, ok_bind, bind_eq_ok,
    tryU64_eq_ok, addU64_eq_ok, ensureChunkCount, ensure_eq_ok, exists_const,
    UInt64.le_iff_toNat_le, ensureUniqueIds_eq_ok, Prod.exists,
    counted, Nat.zero_add]
  constructor
  · rintro ⟨count, isCount, few, members, content, ⟨⟨isMembers, _⟩, isContent,
      inside⟩, excluded, isExcluded, total, isTotal, fewFiles, ids, checked,
      distinct⟩
    obtain ⟨packIds, packs, rfl⟩ :=
      (checkPacks_eq_ok valid (by omega)).mp checked
    refine ⟨isCount ▸ few, ?_, ?_, ?_, packs, ?_⟩
    · rw [MicroFilePackPlan.memberCount]
      omega
    · rw [MicroFilePackPlan.contentBytes]
      omega
    · intro index pack found
      rw [packIds index pack found, Nat.zero_add]
    · exact distinct
  · intro isValid
    have fewPacks := isValid.fewPacks
    have fewFiles := isValid.fewFiles
    have bytes := isValid.content
    have byteBound := config.maxLogicalBytes.toNat_lt
    rw [MicroFilePackPlan.memberCount] at fewFiles
    rw [MicroFilePackPlan.contentBytes] at bytes
    have count := @toNat_ofNat_of_lt plan.packs.length (by omega)
    have members := @toNat_ofNat_of_lt
      (plan.packs.map (·.members.length)).sum (by omega)
    have content := @toNat_ofNat_of_lt
      (plan.packs.map (·.uncompressedLen.toNat)).sum (by omega)
    have excluded := @toNat_ofNat_of_lt plan.excluded.length (by omega)
    have total := @toNat_ofNat_of_lt ((plan.packs.map
      (·.members.length)).sum + plan.excluded.length) (by omega)
    refine ⟨_, count, count.symm ▸ fewPacks, _, _, ⟨⟨members, by omega⟩,
      content, by omega⟩, _, excluded, UInt64.ofNat ((plan.packs.map
        (·.members.length)).sum + plan.excluded.length), by omega, by omega, _,
      (checkPacks_eq_ok valid (by omega)).mpr ⟨fun index pack found => ?_,
        isValid.packs, rfl⟩, isValid.idsDistinct⟩
    rw [isValid.packIds index pack found, Nat.zero_add]

end Plan

/-! ## Soundness -/

/-- The paths of a pack whose columns are accepted. -/
def MicroFilePack.paths
    (cdc : FastCdc)
    (config : ChunkingConfig)
    (pack : MicroFilePack) : List (List UInt8) :=
  match pack.metadata.expandedPaths cdc config with
  | .ok paths => paths
  | .error _ => []

/-- What holds of a pack on its own: its paths can be read and are within the
limit, members and records agree, the members tile the content, and the modes
and times of all records are valid. -/
structure MicroFilePack.Sound
    (cdc : FastCdc)
    (config : ChunkingConfig)
    (pack : MicroFilePack) : Prop where
  expanded : pack.metadata.expandedPaths cdc config =
    .ok (pack.paths cdc config)
  pathCount : (pack.paths cdc config).length = pack.members.length
  deltaCount : pack.metadata.modifiedNsDeltas.length = pack.members.length
  pathsFit : ∀ path ∈ pack.paths cdc config,
    path ≠ [] ∧ path.length ≤ config.maxPathBytes.toNat
  agree : pack.members = pack.metadata.records.map (·.member)
  tiles : Tiles 0 (pack.members.map (·.span)) pack.uncompressedLen.toNat
  small : ∀ member ∈ pack.members,
    member.length.toNat ≤ config.microFileMax.toNat
  withinTarget : pack.uncompressedLen.toNat ≤ config.microPackTarget.toNat
  modes : ∀ record ∈ pack.metadata.records,
    record.modeIndex.toNat < pack.metadata.modeDictionary.length
  times : ∀ delta ∈ pack.metadata.modifiedNsDeltas, ∃ time : Int64,
    time.toInt = pack.metadata.baseModifiedNs.toInt + delta.toNat

/-- What holds of a plan: every pack is sound, neither ids nor paths repeat, and
the totals are within the limits. -/
structure MicroFilePackPlan.Sound
    (cdc : FastCdc)
    (config : ChunkingConfig)
    (plan : MicroFilePackPlan) : Prop where
  idsDistinct : plan.entryIds.Nodup
  pathsDistinct : (plan.packs.flatMap (·.paths cdc config)).Nodup
  packs : ∀ pack ∈ plan.packs, pack.Sound cdc config
  fewFiles : plan.memberCount + plan.excluded.length ≤ config.maxChunks.toNat
  content : plan.contentBytes ≤ config.maxLogicalBytes.toNat

section Soundness

variable
  {cdc : FastCdc}
  {config : ChunkingConfig}
  {pack : MicroFilePack}
  {plan : MicroFilePackPlan}

/-- The paths of a valid pack. -/
theorem MicroFilePack.Valid.expands_paths
    (isValid : pack.Valid config)
    (valid : config.Valid cdc) :
    pack.metadata.Expands config (pack.paths cdc config) := by
  obtain ⟨paths, expands⟩ := isValid.expands
  have isPaths : pack.paths cdc config = paths := by
    rw [MicroFilePack.paths, (expandedPaths_eq_ok valid).mpr expands]
  rwa [isPaths]

/-- A valid pack is sound. -/
theorem MicroFilePack.Valid.sound
    (isValid : pack.Valid config)
    (valid : config.Valid cdc) :
    pack.Sound cdc config := by
  have expands := isValid.expands_paths valid
  refine ⟨(expandedPaths_eq_ok valid).mpr expands, ?_,
    expands.sameDeltas.trans isValid.sameCount.symm, expands.pathsFit,
    isValid.agree, isValid.tiles, isValid.small, isValid.withinTarget,
    expands.modes, fun delta member => ?_⟩
  · have length := FrontCoding.length_of_decode expands.decodes
    rw [List.length_map] at length
    rw [length, expands.samePaths, isValid.sameCount]
  · have early := pack.metadata.baseModifiedNs.le_toInt
    have late := expands.times delta member
    exact ⟨.ofInt (pack.metadata.baseModifiedNs.toInt + delta.toNat),
      Int64.toInt_ofInt_of_le (by omega) late⟩

/-- A plan is validated only with a valid configuration. -/
theorem MicroFilePackPlan.valid_of_validate
    (accepted : plan.validate cdc config = .ok ()) :
    config.Valid cdc := by
  rw [MicroFilePackPlan.validate, bind_eq_ok] at accepted
  obtain ⟨_, checked, _⟩ := accepted
  exact ChunkingConfig.validate_eq_ok.mp checked

/-- Soundness of plan validation.  A plan of any origin that validation accepts
is sound exactly when no two of its packs share a path: everything but this is
checked. -/
theorem validatedPlan_sound_iff
    (accepted : plan.validate cdc config = .ok ()) :
    plan.Sound cdc config ↔ plan.packs.Pairwise fun left right =>
      (left.paths cdc config).Disjoint (right.paths cdc config) := by
  have valid := MicroFilePackPlan.valid_of_validate accepted
  have isValid := (MicroFilePackPlan.validate_eq_ok valid).mp accepted
  have eachDistinct (pack : MicroFilePack) (member : pack ∈ plan.packs) :
      (pack.paths cdc config).Nodup :=
    ((isValid.packs pack member).expands_paths valid).pathsDistinct
  constructor
  · intro sound
    exact (List.nodup_flatMap.mp sound.pathsDistinct).2
  · intro apart
    exact ⟨isValid.idsDistinct, List.nodup_flatMap.mpr ⟨eachDistinct, apart⟩,
      fun pack member => (isValid.packs pack member).sound valid,
      isValid.fewFiles, isValid.content⟩

end Soundness

/-- A pack of the one file `a` with one byte. -/
def MicroFilePack.single (packId entryId : UInt64) : MicroFilePack where
  packId := packId
  members := [⟨entryId, 0, 1⟩]
  uncompressedLen := 1
  metadata := {
    paths := [⟨0, [97]⟩]
    baseModifiedNs := 0
    modifiedNsDeltas := [0]
    modeDictionary := [420]
    records := [⟨entryId, 0, 0, 1, Bytes.zeros 32⟩] }

theorem MicroFilePack.single_expands (packId entryId : UInt64) :
    (single packId entryId).metadata.Expands .default [[97]] where
  samePaths := rfl
  sameDeltas := rfl
  few := (by decide : 1 ≤ ChunkingConfig.default.maxChunks.toNat)
  someModes := by simp [single]
  fewModes := Nat.le_refl _
  modesIncrease := List.isChain_singleton _
  decodes := rfl
  bytes := (by decide : 1 * 72 + 1 * 4 + 1 + 1 ≤
    ChunkingConfig.default.maxMetadataBytes.toNat)
  pathsFit := by simp; decide
  times := by simp [single]
  modes := by simp [single]
  tiles := ⟨1, by simp [single, MicroFileMetadataRecord.span], by decide⟩
  idsDistinct := by simp [single]
  pathsDistinct := by simp

theorem MicroFilePack.single_valid (packId entryId : UInt64) :
    (single packId entryId).Valid .default where
  few := (by decide : 1 ≤ ChunkingConfig.default.maxChunks.toNat)
  nonempty := nofun
  sameCount := rfl
  withinTarget := (by decide :
    1 ≤ ChunkingConfig.default.microPackTarget.toNat)
  withinLimit := (by decide :
    1 ≤ ChunkingConfig.default.maxLogicalBytes.toNat)
  expands := ⟨_, single_expands packId entryId⟩
  agree := rfl
  small := by simp [single]; decide
  tiles := by simp [single, MicroFilePackMember.span]

theorem MicroFilePack.single_paths (packId entryId : UInt64) :
    (single packId entryId).paths .ofMinimum .default = [[97]] := by
  rw [paths, (expandedPaths_eq_ok ChunkingConfig.default_valid).mpr
    (single_expands packId entryId)]

/-- Two packs that hold different files of the same path are accepted. -/
theorem shared_path_accepted :
    let plan : MicroFilePackPlan := ⟨[.single 0 1, .single 1 2], []⟩
    plan.validate .ofMinimum .default = .ok () ∧
      ¬plan.Sound .ofMinimum .default := by
  refine ⟨(MicroFilePackPlan.validate_eq_ok
    ChunkingConfig.default_valid).mpr ⟨by decide, by decide, by decide,
      fun index pack found => ?_, ?_, by decide⟩, fun sound => ?_⟩
  · match index with
    | 0 =>
        cases found
        rfl
    | 1 =>
        cases found
        rfl
    | index + 2 => cases found
  · simp [MicroFilePack.single_valid]
  · have distinct := sound.pathsDistinct
    simp [MicroFilePack.single_paths] at distinct

/-! ## A plan of two packs -/

/-- A pack of three files: `d/a` with three bytes, `d/ab` with none and `d/b`
with two, of two times and two modes. -/
def MicroFilePack.sample : MicroFilePack where
  packId := 0
  members := [⟨2, 0, 3⟩, ⟨3, 3, 0⟩, ⟨5, 3, 2⟩]
  uncompressedLen := 5
  metadata := {
    paths := [⟨0, [100, 47, 97]⟩, ⟨3, [98]⟩, ⟨2, [98]⟩]
    baseModifiedNs := -10
    modifiedNsDeltas := [0, 50, 50]
    modeDictionary := [420, 493]
    records := [⟨2, 0, 0, 3, Bytes.zeros 32⟩, ⟨3, 0, 3, 0, Bytes.zeros 32⟩,
      ⟨5, 1, 3, 2, Bytes.zeros 32⟩] }

/-- A second pack, of the files `d` and `d/c`. -/
def MicroFilePack.another : MicroFilePack where
  packId := 1
  members := [⟨7, 0, 1⟩, ⟨6, 1, 4⟩]
  uncompressedLen := 5
  metadata := {
    paths := [⟨0, [100]⟩, ⟨1, [47, 99]⟩]
    baseModifiedNs := 8
    modifiedNsDeltas := [1, 0]
    modeDictionary := [420]
    records := [⟨7, 0, 0, 1, Bytes.zeros 32⟩, ⟨6, 0, 1, 4, Bytes.zeros 32⟩] }

/-- Both packs, and a file that is in none. -/
def MicroFilePackPlan.sample : MicroFilePackPlan where
  packs := [.sample, .another]
  excluded := [⟨9, .requiresIsolatedAccess⟩]

theorem MicroFilePack.sample_expands :
    sample.metadata.Expands .default
      [[100, 47, 97], [100, 47, 97, 98], [100, 47, 98]] where
  samePaths := rfl
  sameDeltas := rfl
  few := by decide
  someModes := by decide
  fewModes := by decide
  modesIncrease := by decide
  decodes := rfl
  bytes := by decide
  pathsFit := by decide
  times := by
    refine List.forall_mem_cons.mpr ⟨by decide, ?_⟩
    refine List.forall_mem_cons.mpr ⟨by decide, ?_⟩
    exact List.forall_mem_singleton.mpr (by decide)
  modes := by decide
  tiles := ⟨5, ⟨rfl, rfl, rfl, rfl⟩, by decide⟩
  idsDistinct := by decide
  pathsDistinct := by decide

theorem MicroFilePack.another_expands :
    another.metadata.Expands .default [[100], [100, 47, 99]] where
  samePaths := rfl
  sameDeltas := rfl
  few := by decide
  someModes := by decide
  fewModes := by decide
  modesIncrease := by decide
  decodes := rfl
  bytes := by decide
  pathsFit := by decide
  times := by
    refine List.forall_mem_cons.mpr ⟨by decide, ?_⟩
    refine List.forall_mem_cons.mpr ⟨by decide, ?_⟩
    exact List.forall_mem_nil _
  modes := by decide
  tiles := ⟨5, ⟨rfl, rfl, rfl⟩, by decide⟩
  idsDistinct := by decide
  pathsDistinct := by decide

theorem MicroFilePack.sample_valid : sample.Valid .default where
  few := by decide
  nonempty := by decide
  sameCount := rfl
  withinTarget := by decide
  withinLimit := by decide
  expands := ⟨_, sample_expands⟩
  agree := rfl
  small := by decide
  tiles := ⟨rfl, rfl, rfl, rfl⟩

theorem MicroFilePack.another_valid : another.Valid .default where
  few := by decide
  nonempty := by decide
  sameCount := rfl
  withinTarget := by decide
  withinLimit := by decide
  expands := ⟨_, another_expands⟩
  agree := rfl
  small := by decide
  tiles := ⟨rfl, rfl, rfl⟩

theorem MicroFilePack.sample_paths :
    sample.paths .ofMinimum .default =
      [[100, 47, 97], [100, 47, 97, 98], [100, 47, 98]] := by
  rw [paths, (expandedPaths_eq_ok ChunkingConfig.default_valid).mpr
    sample_expands]

theorem MicroFilePack.another_paths :
    another.paths .ofMinimum .default = [[100], [100, 47, 99]] := by
  rw [paths, (expandedPaths_eq_ok ChunkingConfig.default_valid).mpr
    another_expands]

/-- The plan is accepted. -/
theorem MicroFilePackPlan.sample_accepted :
    sample.validate .ofMinimum .default = .ok () := by
  refine (MicroFilePackPlan.validate_eq_ok
    ChunkingConfig.default_valid).mpr ⟨by decide, by decide, by decide,
      fun index pack found => ?_, ?_, by decide⟩
  · match index with
    | 0 =>
        cases found
        rfl
    | 1 =>
        cases found
        rfl
    | index + 2 => cases found
  · simp [sample, MicroFilePack.sample_valid, MicroFilePack.another_valid]

/-- No file of the first pack has the path of a file of the second. -/
theorem samplePlan_sound :
    MicroFilePackPlan.Sound .ofMinimum .default .sample :=
  (validatedPlan_sound_iff MicroFilePackPlan.sample_accepted).mpr (by
    simp [MicroFilePackPlan.sample, MicroFilePack.sample_paths,
      MicroFilePack.another_paths])

end Pithos
