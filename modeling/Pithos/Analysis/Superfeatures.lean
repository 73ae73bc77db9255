import Pithos.Library.Crc32c
import Pithos.Library.Blake3
import Pithos.Library.RollingHash
import Pithos.Analysis.Fingerprint
import Mathlib.Data.UInt

/-!
# What superfeatures are

The regions of a chunk are balanced and partition its bytes.  The value that is
kept of a region is the largest polynomial hash of its windows, and a
superfeature is the hash of the values of some neighbouring regions.  The rolling
accumulator finds them, in whatever pieces the bytes come.
-/

namespace Pithos

open Fallible
open Machine
open Lists
open RollingHash
open scoped UInt64.CommRing

/-! ## Hashes of windows -/

/-- The polynomial hash of a window, modulo the size of a word. -/
def windowValue (window : List UInt8) : Nat :=
  (∑ index : Fin window.length, (window[index].toNat + 1) *
    rollingBase.toNat ^ (window.length - 1 - index)) % 2 ^ 64

/-- The hash that the code computes of a window. -/
noncomputable def windowHash (window : List UInt8) : UInt64 :=
  polyHash rollingBase (window.map fun byte => byte.toUInt64 + 1)

theorem toNat_windowHash (window : List UInt8) :
    (windowHash window).toNat = windowValue window := by
  have isCast (value : Nat) : (value : UInt64) = UInt64.ofNat value := rfl
  have base : Nat.castRingHom UInt64 rollingBase.toNat = rollingBase := by
    rw [Nat.coe_castRingHom, isCast, UInt64.ofNat_toNat]
  have digits : (window.map fun byte => byte.toNat + 1).map
      (Nat.castRingHom UInt64) =
        window.map fun byte => byte.toUInt64 + 1 := by
    rw [List.map_map]
    refine List.map_congr_left fun byte _ => ?_
    rw [Function.comp_apply, Nat.coe_castRingHom, Nat.cast_add, Nat.cast_one,
      isCast, UInt64.ofNat_uInt8ToNat]
  have carried := polyHash_map (Nat.castRingHom UInt64) rollingBase.toNat
    (window.map fun byte => byte.toNat + 1)
  rw [base, digits] at carried
  rw [windowHash, carried, windowValue, polyHash_eq_sum, Nat.coe_castRingHom,
    isCast, UInt64.toNat_ofNat']

theorem windowHash_concat (window : List UInt8) (byte : UInt8) :
    windowHash (window ++ [byte]) =
      windowHash window * rollingBase + (byte.toUInt64 + 1) := by
  rw [windowHash, List.map_append, List.map_singleton, polyHash_concat]
  rfl

theorem windowHash_roll (first last : UInt8) (middle : List UInt8) :
    windowHash (middle ++ [last]) =
      windowHash (first :: middle) * rollingBase + (last.toUInt64 + 1) -
        (first.toUInt64 + 1) * rollingBase ^ (middle.length + 1) := by
  have rolled := polyHash_roll rollingBase (first.toUInt64 + 1)
    (last.toUInt64 + 1) (middle.map fun byte => byte.toUInt64 + 1)
  rw [List.length_map] at rolled
  rw [windowHash, List.map_append, List.map_singleton]
  exact rolled

/-! ## One region -/

namespace RollingRegion

/-- The region has taken in some bytes. -/
structure Seen
    (region : RollingRegion)
    (expected window : Nat)
    (seen : List UInt8) : Prop where
  isWindow : region.window = window
  isExpected : region.expected.toNat = expected
  basePower : region.basePower = rollingBase ^ window
  bytesSeen : region.bytesSeen.toNat = seen.length
  length : region.ring.length = min window seen.length
  filling : seen.length < window → region.cursor = 0
  cursor : 0 < window → region.cursor < window
  held : contents region.ring region.cursor = lastItems window seen
  hash : region.hash = windowHash (lastItems window seen)
  maximum : region.maximum.toNat =
    largest ((windows window seen).map windowValue)

theorem seen_new (expected : UInt64) (configuredWindow : UInt16) :
    Seen (new expected configuredWindow) expected.toNat
      (min expected.toNat configuredWindow.toNat) [] where
  isWindow := rfl
  isExpected := rfl
  basePower := rfl
  bytesSeen := rfl
  length := (Nat.min_zero _).symm
  filling := fun _ => rfl
  cursor := id
  held := by simp [new, lastItems]
  hash := by simp [new, lastItems, windowHash]
  maximum := by
    rcases Nat.eq_zero_or_pos (min expected.toNat configuredWindow.toNat) with
      none | some
    · rw [none]
      rfl
    · rw [windows_of_lt some]
      rfl

/-- The values of the windows once one more byte makes another window. -/
theorem largest_windows_concat
    {window : Nat}
    {seen : List UInt8}
    (full : window ≤ seen.length + 1)
    (byte : UInt8) :
    largest ((windows window (seen ++ [byte])).map windowValue) =
      max (largest ((windows window seen).map windowValue))
        (windowHash (lastItems window (seen ++ [byte]))).toNat := by
  rw [windows_concat full, List.map_append, List.map_singleton,
    largest_concat, toNat_windowHash]

/-- A region takes in one more byte, as long as it expects more. -/
theorem Seen.push
    {region : RollingRegion}
    {expected window : Nat}
    {seen : List UInt8}
    (isSeen : Seen region expected window seen)
    (positive : 0 < window)
    (more : seen.length < expected)
    (byte : UInt8) :
    ∃ next, region.push byte = .ok next ∧
      Seen next expected window (seen ++ [byte]) := by
  obtain ⟨isWindow, isExpected, basePower, bytesSeen, length, filling, cursor,
    held, hash, maximum⟩ := isSeen
  have expectedBound := region.expected.toNat_lt
  have guard : region.bytesSeen < region.expected ∧ region.window ≠ 0 := by
    rw [UInt64.lt_iff_toNat_lt]
    omega
  obtain ⟨count, isCount⟩ := @exists_addU64_eq_ok region.bytesSeen 1 |>.mpr (by
    have one : (1 : UInt64).toNat = 1 := rfl
    omega)
  have countValue : region.bytesSeen.toNat + 1 = count.toNat :=
    addU64_eq_ok.mp isCount
  have counted : count.toNat = (seen ++ [byte]).length := by
    rw [List.length_append, List.length_singleton]
    omega
  simp only [RollingRegion.push, ensure_of guard, isCount, ok_bind]
  by_cases short : region.ring.length < region.window
  · -- the ring is not full yet
    have fewer : seen.length < window := by omega
    obtain ⟨same, next⟩ := @lastItems_concat_of_lt _ seen window byte fewer
    have isRing : region.ring = seen := by
      rw [filling fewer, contents_zero, same] at held
      exact held
    have isHash : region.hash * rollingBase + (byte.toUInt64 + 1) =
        windowHash (lastItems window (seen ++ [byte])) := by
      rw [hash, same, next, windowHash_concat]
    have before : largest ((windows window seen).map windowValue) = 0 := by
      rw [windows_of_lt fewer]
      rfl
    refine ⟨_, if_pos short, isWindow, isExpected, basePower, counted, ?_, ?_,
      cursor, ?_, isHash, ?_⟩
    · rw [isRing, List.length_append, List.length_singleton]
      omega
    · exact fun _ => filling fewer
    · rw [filling fewer, contents_zero, next, isRing]
    · dsimp only
      rw [isRing, isWindow, List.length_append, List.length_singleton, isHash]
      by_cases full : seen.length + 1 = window
      · rw [if_pos full, largest_windows_concat (by omega), before,
          Nat.zero_max]
      · rw [if_neg full, maximum, before, windows_of_lt (by
          rw [List.length_append, List.length_singleton]
          omega)]
        rfl
  · -- the oldest byte leaves the window
    have full : window ≤ seen.length := by omega
    obtain ⟨first, middle, isFirst, middleLength, isContents, moved⟩ :=
      contents_replace (show region.ring.length = window by omega)
        (cursor positive) byte
    have oldest : lastItems window seen = first :: middle :=
      held.symm.trans isContents
    have next := @lastItems_concat _ seen window byte first middle oldest full
    have removed : region.ring.getD region.cursor 0 = first := by
      rw [List.getD_eq_getElem?_getD, isFirst, Option.getD_some]
    have isHash : region.hash * rollingBase + (byte.toUInt64 + 1) -
        (first.toUInt64 + 1) * region.basePower =
          windowHash (lastItems window (seen ++ [byte])) := by
      rw [hash, oldest, next, windowHash_roll first, middleLength, basePower]
    refine ⟨_, if_neg short, isWindow, isExpected, basePower, counted, ?_, ?_,
      ?_, ?_, ?_, ?_⟩
    · rw [List.length_set, List.length_append, List.length_singleton]
      omega
    · intro fewer
      rw [List.length_append] at fewer
      omega
    · intro _
      dsimp only
      rw [isWindow]
      exact Nat.mod_lt _ positive
    · rw [isWindow, moved, next]
    · rw [removed, isHash]
    · dsimp only
      rw [removed, isHash, toNat_larger, largest_windows_concat (by omega),
        maximum]

end RollingRegion

/-! ## The regions of a chunk -/

/-- Where the balanced region of an index starts. -/
def regionStart (length count index : Nat) : Nat := index * length / count

/-- The bytes of a region. -/
def regionBytes (bytes : List UInt8) (count index : Nat) : List UInt8 :=
  between bytes (regionStart bytes.length count index)
    (regionStart bytes.length count (index + 1))

theorem regionStart_zero (length count : Nat) :
    regionStart length count 0 = 0 := by
  rw [regionStart, Nat.zero_mul, Nat.zero_div]

theorem regionStart_self
    {count : Nat}
    (positive : 0 < count)
    (length : Nat) :
    regionStart length count count = length :=
  Nat.mul_div_cancel_left length positive

theorem regionStart_mono
    (length count : Nat)
    {first second : Nat}
    (before : first ≤ second) :
    regionStart length count first ≤ regionStart length count second :=
  Nat.div_le_div_right (Nat.mul_le_mul_right length before)

theorem regionStart_le_length
    {length count index : Nat}
    (positive : 0 < count)
    (within : index ≤ count) :
    regionStart length count index ≤ length :=
  (regionStart_mono length count within).trans
    (regionStart_self positive length).le

/-- The regions partition the bytes. -/
theorem flatMap_regionBytes
    {count : Nat}
    (positive : 0 < count)
    (bytes : List UInt8) :
    (List.range count).flatMap (regionBytes bytes count) = bytes := by
  have parts := flatMap_between
    (fun index => regionStart_mono bytes.length count (Nat.le_succ index))
    (regionStart_zero bytes.length count) bytes count
  rw [regionStart_self positive, List.take_length] at parts
  exact parts

namespace SuperfeatureAccumulator

/-- The bound of a region is found when the product it divides fits a word. -/
theorem regionBound_eq
    {totalLen : UInt64}
    {subchunkCount : UInt8}
    {index : Nat}
    (positive : 0 < subchunkCount.toNat)
    (small : index ≤ subchunkCount.toNat)
    (fits : totalLen.toNat * subchunkCount.toNat < 2 ^ 64) :
    regionBound totalLen subchunkCount index =
      .ok (UInt64.ofNat
        (regionStart totalLen.toNat subchunkCount.toNat index)) := by
  have countBound := subchunkCount.toNat_lt
  have indexValue := @toNat_ofNat_of_lt index (by omega)
  have productFits : totalLen.toNat * index < 2 ^ 64 :=
    (Nat.mul_le_mul_left totalLen.toNat small).trans_lt fits
  have someCount : subchunkCount ≠ 0 := by
    rintro rfl
    exact absurd positive (Nat.lt_irrefl 0)
  obtain ⟨product, isProduct⟩ : ∃ product,
      checkedMul totalLen (UInt64.ofNat index) = some product := by
    unfold checkedMul
    rw [indexValue, if_pos productFits]
    exact ⟨_, rfl⟩
  have productValue := checkedMul_eq_some.mp isProduct
  rw [indexValue] at productValue
  rw [regionBound, isProduct, okOr_some, ok_bind, ensure_of someCount, ok_bind,
    Except.ok.injEq, ← UInt64.toNat_inj, UInt64.toNat_div,
    UInt8.toNat_toUInt64, ← productValue, Nat.mul_comm, regionStart,
    toNat_ofNat_of_lt]
  exact (Nat.div_le_self _ _).trans_lt (by rwa [Nat.mul_comm])

/-- Where the first regions end. -/
def regionStops
    (totalLen : UInt64)
    (config : FingerprintConfig)
    (count : Nat) : List UInt64 :=
  (List.range count).map fun index => UInt64.ofNat
    (regionStart totalLen.toNat config.subchunkCount.toNat (index + 1))

/-- The number of bytes of a region. -/
def regionLength
    (totalLen : UInt64)
    (config : FingerprintConfig)
    (index : Nat) : UInt64 :=
  UInt64.ofNat
      (regionStart totalLen.toNat config.subchunkCount.toNat (index + 1)) -
    UInt64.ofNat
      (regionStart totalLen.toNat config.subchunkCount.toNat index)

/-- The first regions before they take in anything. -/
def freshRegions
    (totalLen : UInt64)
    (config : FingerprintConfig)
    (count : Nat) : List RollingRegion :=
  (List.range count).map fun index =>
    RollingRegion.new (regionLength totalLen config index)
      config.rollingWindow

theorem toNat_regionLength
    {totalLen : UInt64}
    {config : FingerprintConfig}
    {index : Nat}
    (positive : 0 < config.subchunkCount.toNat)
    (inside : index < config.subchunkCount.toNat) :
    (regionLength totalLen config index).toNat =
      regionStart totalLen.toNat config.subchunkCount.toNat (index + 1) -
        regionStart totalLen.toNat config.subchunkCount.toNat index := by
  have stopBound := @regionStart_le_length totalLen.toNat
    config.subchunkCount.toNat (index + 1) positive inside
  have ordered := regionStart_mono totalLen.toNat config.subchunkCount.toNat
    (show index ≤ index + 1 from Nat.le_succ index)
  have wordBound := totalLen.toNat_lt
  have startValue := @toNat_ofNat_of_lt (regionStart totalLen.toNat
    config.subchunkCount.toNat index) (by omega)
  have stopValue := @toNat_ofNat_of_lt (regionStart totalLen.toNat
    config.subchunkCount.toNat (index + 1)) (by omega)
  rw [regionLength, UInt64.toNat_sub_of_le, startValue, stopValue]
  rw [UInt64.le_iff_toNat_le, startValue, stopValue]
  exact ordered

/-- The accumulator has taken in some bytes of a chunk. -/
structure Seen
    (accumulator : SuperfeatureAccumulator)
    (config : FingerprintConfig)
    (totalLen : UInt64)
    (seen : List UInt8) : Prop where
  isTotal : accumulator.totalLen = totalLen
  position : accumulator.position.toNat = seen.length
  ends : accumulator.regionEnds =
    regionStops totalLen config config.subchunkCount.toNat
  count : accumulator.regions.length = config.subchunkCount.toNat
  regions : ∀ (index : Nat) region,
    accumulator.regions[index]? = some region →
      let start := regionStart totalLen.toNat config.subchunkCount.toNat index
      let stop := regionStart totalLen.toNat config.subchunkCount.toNat (index + 1)
      region.Seen (stop - start)
        (min (stop - start) config.rollingWindow.toNat)
        (between seen start stop)
  current : accumulator.currentRegion ≤ config.subchunkCount.toNat
  passed : ∀ index < accumulator.currentRegion,
    regionStart totalLen.toNat config.subchunkCount.toNat (index + 1) ≤ seen.length

section Run

variable
  {config : FingerprintConfig}
  {totalLen : UInt64}
  {seen : List UInt8}
  {accumulator : SuperfeatureAccumulator}

/-- An accumulator is made when the product of the length and the number of
regions fits a word. -/
theorem new_eq
    (positive : 0 < config.subchunkCount.toNat)
    (fits : totalLen.toNat * config.subchunkCount.toNat < 2 ^ 64) :
    new totalLen config = .ok {
      totalLen := totalLen
      position := 0
      regionEnds := regionStops totalLen config config.subchunkCount.toNat
      regions := freshRegions totalLen config config.subchunkCount.toNat
      currentRegion := 0 } := by
  refine bind_eq_ok.mpr ⟨_, forEnum_range_eq_ok (fun count =>
    (regionStops totalLen config count, freshRegions totalLen config count)) ?_,
    rfl⟩
  intro index inside
  rw [regionBound_eq positive (Nat.le_of_lt inside) fits, ok_bind,
    regionBound_eq positive inside fits, ok_bind]
  unfold regionStops freshRegions
  rw [List.range_succ, List.map_append, List.map_append]
  rfl

/-- A new accumulator has taken in nothing. -/
theorem exists_new
    (positive : 0 < config.subchunkCount.toNat)
    (fits : totalLen.toNat * config.subchunkCount.toNat < 2 ^ 64) :
    ∃ accumulator, new totalLen config = .ok accumulator ∧
      Seen accumulator config totalLen [] := by
  refine ⟨_, new_eq positive fits, rfl, rfl, rfl,
    by rw [freshRegions, List.length_map, List.length_range], ?_,
    Nat.zero_le _, fun index before => absurd before (Nat.not_lt_zero index)⟩
  intro index region found
  rw [freshRegions, List.getElem?_map, Option.map_eq_some_iff] at found
  obtain ⟨_, isIndex, rfl⟩ := found
  obtain ⟨inside, rfl⟩ := List.getElem?_eq_some_iff.mp isIndex
  rw [List.length_range] at inside
  dsimp only
  rw [List.getElem_range, between_of_length_le (Nat.zero_le _),
    ← toNat_regionLength positive inside]
  exact RollingRegion.seen_new _ _

/-- The end of a region as the accumulator knows it. -/
theorem Seen.getElem?_regionEnds
    (isSeen : Seen accumulator config totalLen seen)
    (positive : 0 < config.subchunkCount.toNat)
    {index : Nat}
    {stop : UInt64} :
    accumulator.regionEnds[index]? = some stop ↔
      index < config.subchunkCount.toNat ∧
        regionStart totalLen.toNat config.subchunkCount.toNat (index + 1) =
          stop.toNat := by
  rw [isSeen.ends, regionStops, List.getElem?_map]
  by_cases inside : index < config.subchunkCount.toNat
  · have stopBound := @regionStart_le_length totalLen.toNat
      config.subchunkCount.toNat (index + 1) positive inside
    have wordBound := totalLen.toNat_lt
    have value := @toNat_ofNat_of_lt (regionStart totalLen.toNat
      config.subchunkCount.toNat (index + 1)) (by omega)
    rw [List.getElem?_range inside, Option.map_some, Option.some.injEq,
      ← UInt64.toNat_inj, value, and_iff_right inside]
  · rw [List.getElem?_eq_none (by rw [List.length_range]; omega)]
    simp [inside]

/-- The next byte falls in the region that the accumulator goes on to. -/
theorem Seen.next_region
    (isSeen : Seen accumulator config totalLen seen)
    (positive : 0 < config.subchunkCount.toNat)
    (more : seen.length < totalLen.toNat) :
    let index := advance accumulator.regionEnds accumulator.position
      accumulator.currentRegion
    index < config.subchunkCount.toNat ∧
      seen.length <
        regionStart totalLen.toNat config.subchunkCount.toNat (index + 1) ∧
      ∀ earlier < index,
        regionStart totalLen.toNat config.subchunkCount.toNat (earlier + 1) ≤
          seen.length := by
  have few := isSeen.current
  have position := isSeen.position
  have whole := regionStart_self positive totalLen.toNat
  -- the last region ends behind the byte, so the search ends
  have last : ∃ stop ∈ accumulator.regionEnds.drop accumulator.currentRegion,
      decide (stop ≤ accumulator.position) = false := by
    have notDone : accumulator.currentRegion <
        config.subchunkCount.toNat := by
      refine Nat.lt_of_le_of_ne few fun done => ?_
      have all := isSeen.passed (config.subchunkCount.toNat - 1) (by omega)
      rw [Nat.sub_add_cancel positive, whole] at all
      omega
    have found := (isSeen.getElem?_regionEnds positive).mpr
      ⟨Nat.sub_one_lt (by omega), (by
        rw [Nat.sub_add_cancel positive, whole] :
          regionStart totalLen.toNat config.subchunkCount.toNat
            (config.subchunkCount.toNat - 1 + 1) = totalLen.toNat)⟩
    refine ⟨totalLen, ?_, ?_⟩
    · refine List.mem_of_getElem?
        (i := config.subchunkCount.toNat - 1 - accumulator.currentRegion) ?_
      rw [List.getElem?_drop, show accumulator.currentRegion +
        (config.subchunkCount.toNat - 1 - accumulator.currentRegion) =
          config.subchunkCount.toNat - 1 by omega]
      exact found
    · rw [decide_eq_false_iff_not, UInt64.le_iff_toNat_le]
      omega
  obtain ⟨⟨stop, isStop, fails⟩, before⟩ := exists_after_takeWhile last
  rw [List.getElem?_drop] at isStop
  obtain ⟨inside, stopValue⟩ :=
    (isSeen.getElem?_regionEnds positive).mp isStop
  rw [decide_eq_false_iff_not, UInt64.le_iff_toNat_le] at fails
  refine ⟨inside, by unfold SuperfeatureAccumulator.advance; omega, ?_⟩
  intro earlier isEarlier
  by_cases old : earlier < accumulator.currentRegion
  · exact isSeen.passed earlier old
  · obtain ⟨offset, rfl⟩ := Nat.exists_eq_add_of_le (Nat.not_lt.mp old)
    have endsLength : accumulator.regionEnds.length =
        config.subchunkCount.toNat := by
      rw [isSeen.ends, regionStops, List.length_map, List.length_range]
    have within : offset < ((accumulator.regionEnds.drop
        accumulator.currentRegion).takeWhile
          (· ≤ accumulator.position)).length := by
      unfold SuperfeatureAccumulator.advance at isEarlier
      omega
    have isPassed := List.getElem?_eq_getElem (show
      accumulator.currentRegion + offset < accumulator.regionEnds.length by
        omega)
    have passes := before offset within _
      ((List.getElem?_drop ..).trans isPassed)
    rw [decide_eq_true_iff, UInt64.le_iff_toNat_le] at passes
    have isValue := ((isSeen.getElem?_regionEnds positive).mp isPassed).2
    omega

/-- One more byte of the chunk is taken in. -/
theorem Seen.push
    (isSeen : Seen accumulator config totalLen seen)
    (positive : 0 < config.subchunkCount.toNat)
    (someWindow : 0 < config.rollingWindow.toNat)
    (more : seen.length < totalLen.toNat)
    (byte : UInt8) :
    ∃ next, accumulator.push byte = .ok next ∧
      Seen next config totalLen (seen ++ [byte]) := by
  obtain ⟨inside, before, passed⟩ := isSeen.next_region positive more
  have count := isSeen.count
  have position := isSeen.position
  have wordBound := totalLen.toNat_lt
  unfold SuperfeatureAccumulator.push
  generalize advance accumulator.regionEnds accumulator.position
    accumulator.currentRegion = current at *
  dsimp only
  have ordered := regionStart_mono totalLen.toNat config.subchunkCount.toNat
    (show current ≤ current + 1 from Nat.le_succ current)
  have started : regionStart totalLen.toNat config.subchunkCount.toNat
      current ≤ seen.length := by
    cases current with
    | zero =>
        rw [regionStart_zero]
        exact Nat.zero_le _
    | succ earlier => exact passed earlier (Nat.lt_succ_self earlier)
  have found := List.getElem?_eq_getElem
    (show current < accumulator.regions.length by omega)
  have regionSeen := isSeen.regions current _ found
  dsimp only at regionSeen
  obtain ⟨region, isRegion, regionNext⟩ := regionSeen.push (by omega) (by
    rw [between, List.length_take, List.length_drop]
    omega) byte
  rw [← between_concat started before] at regionNext
  obtain ⟨next, isNext⟩ :=
    (@exists_addU64_eq_ok accumulator.position 1).mpr (by
      have one : (1 : UInt64).toNat = 1 := rfl
      omega)
  have nextValue : accumulator.position.toNat + 1 = next.toNat :=
    addU64_eq_ok.mp isNext
  rw [found, okOr_some, ok_bind, isRegion, ok_bind, isNext, ok_bind]
  refine ⟨_, rfl, isSeen.isTotal, ?_, isSeen.ends, ?_, ?_,
    Nat.le_of_lt inside, ?_⟩
  · dsimp only
    rw [List.length_append, List.length_singleton]
    omega
  · rw [List.length_set, count]
  · intro index other isOther
    dsimp only at isOther ⊢
    rw [List.getElem?_set] at isOther
    split at isOther
    · rename_i same
      subst same
      rw [if_pos (by omega)] at isOther
      cases isOther
      exact regionNext
    · -- the other regions have taken in nothing new
      rename_i different
      have same : between (seen ++ [byte])
          (regionStart totalLen.toNat config.subchunkCount.toNat index)
          (regionStart totalLen.toNat config.subchunkCount.toNat
            (index + 1)) =
          between seen
            (regionStart totalLen.toNat config.subchunkCount.toNat index)
            (regionStart totalLen.toNat config.subchunkCount.toNat
              (index + 1)) := by
        rcases Nat.lt_or_ge index current with earlier | later
        · exact between_append_left (passed index earlier)
        · have behind := regionStart_mono totalLen.toNat
            config.subchunkCount.toNat (show current + 1 ≤ index by omega)
          rw [between_of_length_le (by
              rw [List.length_append, List.length_singleton]
              omega),
            between_of_length_le (by omega)]
      rw [same]
      exact isSeen.regions index other isOther
  · intro index isEarlier
    rw [List.length_append]
    exact (passed index isEarlier).trans (Nat.le_add_right _ _)

/-- The bytes of an update are taken in. -/
theorem Seen.update
    (isSeen : Seen accumulator config totalLen seen)
    (positive : 0 < config.subchunkCount.toNat)
    (someWindow : 0 < config.rollingWindow.toNat)
    {bytes : List UInt8}
    (room : seen.length + bytes.length ≤ totalLen.toNat) :
    ∃ next, accumulator.update bytes = .ok next ∧
      Seen next config totalLen (seen ++ bytes) := by
  refine forEnum_progress
    (fun done reached => Seen reached config totalLen (seen ++ done))
    (by rwa [List.append_nil]) ?_
  rintro before byte after reached rfl isReached
  rw [List.length_append, List.length_cons] at room
  have pushed := isReached.push positive someWindow (by
    rw [List.length_append]
    omega) byte
  rwa [List.append_assoc] at pushed

/-- The pieces of a chunk are taken in. -/
theorem Seen.updates
    (isSeen : Seen accumulator config totalLen seen)
    (positive : 0 < config.subchunkCount.toNat)
    (someWindow : 0 < config.rollingWindow.toNat)
    {pieces : List (List UInt8)}
    (room : seen.length + pieces.flatten.length ≤ totalLen.toNat) :
    ∃ next, pieces.foldlM (·.update ·) accumulator = .ok next ∧
      Seen next config totalLen (seen ++ pieces.flatten) := by
  induction pieces generalizing accumulator seen with
  | nil =>
      rw [List.flatten_nil, List.append_nil]
      exact ⟨accumulator, rfl, isSeen⟩
  | cons piece pieces induction =>
      rw [List.flatten_cons, List.length_append] at room
      obtain ⟨next, isNext, nextSeen⟩ :=
        @Seen.update config totalLen seen accumulator isSeen positive
          someWindow piece (by omega)
      obtain ⟨last, isLast, lastSeen⟩ := induction nextSeen (by
        rw [List.length_append]
        omega)
      rw [List.append_assoc] at lastSeen
      refine ⟨last, ?_, lastSeen⟩
      rw [List.foldlM_cons, isNext]
      exact isLast

end Run

end SuperfeatureAccumulator

/-! ## Superfeatures -/

/-- The value of a region: the largest of the values of its windows, which are
as wide as configured but no wider than the region.  An empty region has the
value zero. -/
def IsRegionMaximum
    (configuredWindow : Nat)
    (bytes : List UInt8)
    (maximum : UInt64) : Prop :=
  if bytes = [] then maximum = 0
  else IsGreatest
    {value | ∃ start,
      start + min configuredWindow bytes.length ≤ bytes.length ∧
        value = windowValue (between bytes start
          (start + min configuredWindow bytes.length))} maximum.toNat

/-- The hashes of the balanced groups of the values of the regions. -/
def groupHashes
    (hashes : FingerprintHashes)
    (groupCount : Nat)
    (maxima : List UInt64) : List UInt64 :=
  (List.range groupCount).map fun group =>
    hashes.xxh3 ((between maxima (group * maxima.length / groupCount)
      ((group + 1) * maxima.length / groupCount)).flatMap le64)

/-- The superfeatures of a chunk whose bytes come in pieces. -/
def superfeaturesOfPieces
    (hashes : FingerprintHashes)
    (config : FingerprintConfig)
    (totalLen : UInt64)
    (pieces : List (List UInt8)) : Result (List UInt64) := do
  let accumulator ← SuperfeatureAccumulator.new totalLen config
  let accumulator ← pieces.foldlM (·.update ·) accumulator
  accumulator.finish hashes config

/-- A region that has seen all its bytes has the value of the region. -/
theorem RollingRegion.Seen.isRegionMaximum
    {region : RollingRegion}
    {configuredWindow : Nat}
    {bytes : List UInt8}
    (isSeen : region.Seen bytes.length (min bytes.length configuredWindow)
      bytes) :
    IsRegionMaximum configuredWindow bytes region.maximum := by
  unfold IsRegionMaximum
  split
  · rename_i empty
    subst empty
    rw [← UInt64.toNat_inj, isSeen.maximum, List.length_nil, Nat.zero_min]
    rfl
  · rename_i nonempty
    have someWindow : (windows (min bytes.length configuredWindow)
        bytes).map windowValue ≠ [] := by
      have positive := List.length_pos_iff.mpr nonempty
      unfold windows
      rw [ne_eq, List.map_eq_nil_iff, List.map_eq_nil_iff,
        List.range_eq_nil]
      omega
    have isWindow (value : Nat) : value ∈
        (windows (min bytes.length configuredWindow) bytes).map windowValue ↔
          ∃ start, start + min configuredWindow bytes.length ≤ bytes.length ∧
            value = windowValue (between bytes start
              (start + min configuredWindow bytes.length)) := by
      rw [List.mem_map, Nat.min_comm configuredWindow]
      constructor
      · rintro ⟨window, member, rfl⟩
        obtain ⟨start, inside, rfl⟩ := mem_windows.mp member
        exact ⟨start, inside, rfl⟩
      · rintro ⟨start, inside, rfl⟩
        exact ⟨_, mem_windows.mpr ⟨start, inside, rfl⟩, rfl⟩
    obtain ⟨member, bound⟩ := isGreatest_largest someWindow
    rw [← isSeen.maximum] at member bound
    exact ⟨(isWindow _).mp member,
      fun value isValue => bound ((isWindow value).mpr isValue)⟩

/-- A region has one value. -/
theorem IsRegionMaximum.unique
    {configuredWindow : Nat}
    {bytes : List UInt8}
    {first second : UInt64}
    (isFirst : IsRegionMaximum configuredWindow bytes first)
    (isSecond : IsRegionMaximum configuredWindow bytes second) :
    first = second := by
  unfold IsRegionMaximum at isFirst isSecond
  split at isFirst
  · rename_i empty
    rw [if_pos empty] at isSecond
    rw [isFirst, isSecond]
  · rename_i nonempty
    rw [if_neg nonempty] at isSecond
    exact UInt64.toNat_inj.mp (isFirst.unique isSecond)

/-- The values of the regions of a chunk. -/
structure IsMaxima
    (config : FingerprintConfig)
    (bytes : List UInt8)
    (maxima : List UInt64) : Prop where
  count : maxima.length = config.subchunkCount.toNat
  each : ∀ (index : Nat) maximum, maxima[index]? = some maximum →
    IsRegionMaximum config.rollingWindow.toNat
      (regionBytes bytes config.subchunkCount.toNat index) maximum

theorem IsMaxima.unique
    {config : FingerprintConfig}
    {bytes : List UInt8}
    {first second : List UInt64}
    (isFirst : IsMaxima config bytes first)
    (isSecond : IsMaxima config bytes second) :
    first = second := by
  refine List.ext_getElem (isFirst.count.trans isSecond.count.symm) ?_
  intro index inFirst inSecond
  exact (isFirst.each index _ (List.getElem?_eq_getElem inFirst)).unique
    (isSecond.each index _ (List.getElem?_eq_getElem inSecond))

namespace SuperfeatureAccumulator

variable
  {hashes : FingerprintHashes}
  {config : FingerprintConfig}
  {totalLen : UInt64}
  {bytes : List UInt8}
  {accumulator : SuperfeatureAccumulator}

/-- The regions of an accumulator that has taken in all bytes have the values of
the regions of the chunk. -/
theorem Seen.isMaxima
    (isSeen : Seen accumulator config totalLen bytes)
    (positive : 0 < config.subchunkCount.toNat)
    (all : bytes.length = totalLen.toNat) :
    IsMaxima config bytes (accumulator.regions.map (·.maximum)) where
  count := by rw [List.length_map, isSeen.count]
  each := by
    intro index maximum found
    rw [List.getElem?_map, Option.map_eq_some_iff] at found
    obtain ⟨region, isRegion, rfl⟩ := found
    have inside := (List.getElem?_eq_some_iff.mp isRegion).1
    rw [isSeen.count] at inside
    have stopBound := @regionStart_le_length totalLen.toNat
      config.subchunkCount.toNat (index + 1) positive inside
    have regionSeen := isSeen.regions index region isRegion
    rw [← all] at stopBound
    simp only [← all] at regionSeen
    rw [← length_between stopBound] at regionSeen
    exact regionSeen.isRegionMaximum

/-- What an accumulator that has taken in all bytes ends with. -/
theorem Seen.finish_eq
    (isSeen : Seen accumulator config totalLen bytes)
    (all : bytes.length = totalLen.toNat) :
    accumulator.finish hashes config = .ok (if bytes = [] then [] else
      groupHashes hashes config.superfeatureCount.toNat
        (accumulator.regions.map (·.maximum))) := by
  have isTotal := isSeen.isTotal
  have position := isSeen.position
  have complete : accumulator.position = accumulator.totalLen := by
    rw [← UInt64.toNat_inj, isTotal]
    omega
  have isEmpty : accumulator.totalLen = 0 ↔ bytes = [] := by
    rw [isTotal, ← List.length_eq_zero_iff, all, ← UInt64.toNat_inj]
    rfl
  rw [finish, ensure_of complete, ok_bind]
  by_cases empty : bytes = []
  · rw [if_pos empty, if_pos (isEmpty.mpr empty)]
  · rw [if_neg empty, if_neg (empty ∘ isEmpty.mp)]
    unfold groupHashes
    simp only [List.length_map, between, ← List.map_drop, ← List.map_take,
      List.flatMap_map, List.drop_take]

end SuperfeatureAccumulator

/-- The parts of a valid configuration that the accumulators rely on. -/
theorem FingerprintConfig.validate_eq_ok
    {config : FingerprintConfig}
    (valid : config.validate = .ok ()) :
    0 < config.subchunkCount.toNat ∧ 0 < config.rollingWindow.toNat ∧
      0 < config.parallelism.toNat ∧ config.subchunkCount.toNat ≤ 64 ∧
      config.maxChunkBytes.toNat ≤ 4 * 1024 * 1024 := by
  rw [FingerprintConfig.validate, ensure_eq_ok] at valid
  obtain ⟨someRegion, fewRegions, _, _, someWindow, _, _, smallChunk, _, _, _,
    _, someWorker, _⟩ := valid
  rw [UInt8.le_iff_toNat_le] at someRegion fewRegions
  rw [UInt16.le_iff_toNat_le] at someWindow someWorker
  rw [UInt64.le_iff_toNat_le] at smallChunk
  have four : (4 : UInt8).toNat = 4 := rfl
  have sixtyFour : (64 : UInt8).toNat = 64 := rfl
  have one : (1 : UInt16).toNat = 1 := rfl
  have limit : (4 * mib).toNat = 4 * 1024 * 1024 := by decide
  omega

/-- The accumulator of a chunk takes in its pieces and ends with the hashes of
the groups of the values of its regions. -/
theorem exists_superfeatures
    (hashes : FingerprintHashes)
    {config : FingerprintConfig}
    {bytes : List UInt8}
    (valid : config.validate = .ok ())
    (fits : bytes.length * config.subchunkCount.toNat < 2 ^ 64)
    {pieces : List (List UInt8)}
    (cut : pieces.flatten = bytes) :
    ∃ new last maxima,
      SuperfeatureAccumulator.new (UInt64.ofNat bytes.length) config =
        .ok new ∧
      pieces.foldlM (·.update ·) new = .ok last ∧
      last.totalLen = UInt64.ofNat bytes.length ∧
      IsMaxima config bytes maxima ∧
      last.finish hashes config = .ok (if bytes = [] then [] else
        groupHashes hashes config.superfeatureCount.toNat maxima) := by
  obtain ⟨positive, someWindow, _⟩ := FingerprintConfig.validate_eq_ok valid
  have isLength : (UInt64.ofNat bytes.length).toNat = bytes.length :=
    toNat_ofNat_of_lt
      ((Nat.le_mul_of_pos_right bytes.length positive).trans_lt fits)
  obtain ⟨new, isNew, newSeen⟩ :=
    @SuperfeatureAccumulator.exists_new config (UInt64.ofNat bytes.length)
      positive (by rwa [isLength])
  obtain ⟨last, isLast, lastSeen⟩ :=
    @SuperfeatureAccumulator.Seen.updates config (UInt64.ofNat bytes.length)
      [] new newSeen positive someWindow pieces
      (by rw [List.length_nil, Nat.zero_add, cut, isLength])
  rw [List.nil_append, cut] at lastSeen
  exact ⟨new, last, _, isNew, isLast, lastSeen.isTotal,
    lastSeen.isMaxima positive isLength.symm, lastSeen.finish_eq isLength.symm⟩

/-- The superfeatures of a chunk are the hashes of the groups of the values of
its regions, in whatever pieces its bytes come.  The regions partition the bytes.
The product of the length and the number of regions, which a new accumulator
checks, fits a word for every chunk that is small enough for a fingerprint. -/
theorem superfeatures_eq
    (hashes : FingerprintHashes)
    (config : FingerprintConfig)
    (bytes : List UInt8)
    (valid : config.validate = .ok ())
    (fits : bytes.length * config.subchunkCount.toNat < 2 ^ 64) :
    (List.range config.subchunkCount.toNat).flatMap
        (regionBytes bytes config.subchunkCount.toNat) = bytes ∧
    ∃ maxima, IsMaxima config bytes maxima ∧
      ∀ pieces : List (List UInt8), pieces.flatten = bytes →
        superfeaturesOfPieces hashes config (UInt64.ofNat bytes.length)
          pieces =
            .ok (if bytes = [] then [] else groupHashes hashes
              config.superfeatureCount.toNat maxima) := by
  obtain ⟨positive, _⟩ := FingerprintConfig.validate_eq_ok valid
  obtain ⟨_, _, maxima, _, _, _, isMaxima, _⟩ :=
    @exists_superfeatures hashes config bytes valid fits [bytes] (by simp)
  refine ⟨flatMap_regionBytes positive bytes, maxima, isMaxima, ?_⟩
  intro pieces cut
  obtain ⟨new, last, others, isNew, isLast, _, isOthers, finished⟩ :=
    exists_superfeatures hashes valid fits cut
  rw [superfeaturesOfPieces, isNew, ok_bind, isLast, ok_bind, finished,
    isMaxima.unique isOthers]

/-- Regions of two hundred bytes, over which the window moves, in three pieces
that do not end where the regions do, with checksums in the place of XXH3. -/
theorem superfeatures_eq_steps :
    let hashes : FingerprintHashes := ⟨⟨Crc32c.checksum, Crc32c.append,
      fun bytes => Bytes.takeFixed 32 (Blake3.hash bytes)⟩,
      fun bytes => (Crc32c.checksum bytes).toUInt64⟩
    let bytes := (List.range 2400).map UInt8.ofNat
    ∃ maxima, IsMaxima .default bytes maxima ∧
      superfeaturesOfPieces hashes .default 2400
          [bytes.take 7, (bytes.drop 7).take 1000, (bytes.drop 7).drop 1000] =
        .ok (groupHashes hashes 4 maxima) := by
  intro hashes bytes
  have isLength : bytes.length = 2400 := by
    rw [List.length_map, List.length_range]
  have nonempty : bytes ≠ [] :=
    List.ne_nil_of_length_pos (by rw [isLength]; decide)
  obtain ⟨_, maxima, isMaxima, same⟩ :=
    superfeatures_eq hashes .default bytes (by decide) (by
      rw [isLength]
      decide)
  refine ⟨maxima, isMaxima, ?_⟩
  have cut : [bytes.take 7, (bytes.drop 7).take 1000,
      (bytes.drop 7).drop 1000].flatten = bytes := by
    simp only [List.flatten_cons, List.flatten_nil, List.append_nil,
      List.take_append_drop]
  have inPieces := same _ cut
  rw [if_neg nonempty, isLength] at inPieces
  exact inPieces

end Pithos
