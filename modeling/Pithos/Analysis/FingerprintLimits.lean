import Pithos.Analysis.Superfeatures
import Mathlib.Algebra.Order.BigOperators.Group.List

/-!
# Memory limits of fingerprints

The memory check of a batch as an inequality between natural numbers: it never
wraps, and it allows a batch exactly when what the batch needs is within the
limits.  The rings of the regions of one worker are within the ring term of the
estimate, whichever chunk of the batch the worker has.
-/

namespace Pithos

open Fallible
open Machine

/-! ## What the estimate counts -/

namespace FingerprintSizes

variable (sizes : FingerprintSizes)

/-- The bytes that are counted for each chunk of a batch. -/
def perChunk : Nat :=
  sizes.inputReference.toNat + sizes.resultSlot.toNat +
    sizes.chunkFingerprint.toNat + sizes.collisionCandidate.toNat +
    sizes.bool.toNat + fingerprintPerChunkMarginBytes.toNat

/-- The bytes that are counted for the structures of one region. -/
def perRegion : Nat :=
  sizes.rollingRegion.toNat + sizes.word.toNat +
    fingerprintPerChunkMarginBytes.toNat

end FingerprintSizes

namespace FingerprintConfig

variable (config : FingerprintConfig)

/-- The bytes that are counted for the rings of one worker. -/
def ringBytes (length : Nat) : Nat :=
  min (config.subchunkCount.toNat * config.rollingWindow.toNat) length

/-- The bytes that are counted for one worker. -/
def workerScratch (sizes : FingerprintSizes) (length : Nat) : Nat :=
  config.ringBytes length + sizes.perRegion * config.subchunkCount.toNat +
    sizes.accumulator.toNat + fingerprintWorkerMarginBytes.toNat

/-- The number of workers of a batch. -/
def workers (count : Nat) : Nat := min count config.parallelism.toNat

/-- The working memory that is counted for a batch. -/
def workingBytes (sizes : FingerprintSizes) (count largestChunk : Nat) : Nat :=
  count * sizes.perChunk +
    config.workers count * config.workerScratch sizes largestChunk +
    fingerprintFixedWorkingBytes.toNat

end FingerprintConfig

section Estimate

variable
  {sizes : FingerprintSizes}
  {config : FingerprintConfig}

theorem okOr_checkedMul_eq_ok
    {left right product : UInt64}
    {failure : PithosError} :
    okOr (checkedMul left right) failure = .ok product ↔
      left.toNat * right.toNat = product.toNat := by
  rw [okOr_eq_ok, checkedMul_eq_some]

theorem exists_toNat_eq {value : Nat} (fits : value < 2 ^ 64) :
    ∃ word : UInt64, value = word.toNat :=
  ⟨UInt64.ofNat value, (toNat_ofNat_of_lt fits).symm⟩

theorem toNat_pos {word : UInt64} (some : word ≠ 0) : 0 < word.toNat := by
  refine Nat.pos_of_ne_zero fun isZero => some ?_
  rw [← UInt64.toNat_inj, isZero]
  rfl

/-- The scratch of a worker is the sum of its parts, or an overflow. -/
theorem fingerprintWorkerScratchBytes_eq_ok
    (someRegion : 0 < config.subchunkCount.toNat)
    {length scratch : UInt64} :
    fingerprintWorkerScratchBytes sizes length config = .ok scratch ↔
      config.workerScratch sizes length.toNat = scratch.toNat := by
  have scratchBound := scratch.toNat_lt
  unfold fingerprintWorkerScratchBytes
  simp only [bind_eq_ok, okOr_checkedMul_eq_ok, addU64_eq_ok,
    UInt8.toNat_toUInt64, UInt16.toNat_toUInt64, toNat_smaller,
    FingerprintConfig.workerScratch, FingerprintConfig.ringBytes,
    FingerprintSizes.perRegion]
  simp only [exists_toNat_iff, UInt64.toNat_ofNatLT, exists_prop]
  have smallCapacity : config.subchunkCount.toNat *
      config.rollingWindow.toNat < 2 ^ 8 * 2 ^ 16 :=
    Nat.mul_lt_mul'' config.subchunkCount.toNat_lt
      config.rollingWindow.toNat_lt
  have fewer := Nat.le_mul_of_pos_right (sizes.rollingRegion.toNat +
    sizes.word.toNat + fingerprintPerChunkMarginBytes.toNat) someRegion
  omega

/-- A batch is allowed exactly when what is counted for it, in natural numbers,
is within the limits. -/
theorem ensureBatchMemoryLimits_eq_ok
    (someRegion : 0 < config.subchunkCount.toNat)
    (someWorker : 0 < config.parallelism.toNat)
    {count largestChunk : UInt64} :
    ensureBatchMemoryLimits sizes count largestChunk config = .ok () ↔
      count = 0 ∨
        count.toNat * sizes.chunkFingerprint.toNat ≤
            config.maxMetadataBytes.toNat ∧
          config.workingBytes sizes count.toNat largestChunk.toNat ≤
            config.maxWorkingBytes.toNat := by
  by_cases none : count = 0
  · rw [ensureBatchMemoryLimits, if_pos none]
    exact iff_of_true rfl (Or.inl none)
  · have positive : 0 < count.toNat := toNat_pos none
    have metadataBound := config.maxMetadataBytes.toNat_lt
    have workingBound := config.maxWorkingBytes.toNat_lt
    rw [ensureBatchMemoryLimits, if_neg none, or_iff_right none]
    simp only [bind_eq_ok, ensure_eq_ok, okOr_checkedMul_eq_ok, addU64_eq_ok,
      fingerprintWorkerScratchBytes_eq_ok someRegion, toNat_smaller,
      UInt16.toNat_toUInt64, exists_const]
    simp only [UInt64.le_iff_toNat_le]
    unfold FingerprintConfig.workingBytes FingerprintConfig.workers
      FingerprintSizes.perChunk
    simp only [exists_toNat_iff, UInt64.toNat_ofNatLT, exists_prop]
    have chunkBound := Nat.le_mul_of_pos_left (sizes.inputReference.toNat +
      sizes.resultSlot.toNat + sizes.chunkFingerprint.toNat +
      sizes.collisionCandidate.toNat + sizes.bool.toNat +
      fingerprintPerChunkMarginBytes.toNat) positive
    have scratchBound := Nat.le_mul_of_pos_left
      (config.workerScratch sizes largestChunk.toNat)
      (show 0 < min count.toNat config.parallelism.toNat by omega)
    omega

/-- What is counted grows with the batch and with its largest chunk. -/
theorem FingerprintConfig.workingBytes_mono
    {count larger length longer : Nat}
    (few : count ≤ larger)
    (short : length ≤ longer) :
    config.workingBytes sizes count length ≤
      config.workingBytes sizes larger longer := by
  have scratch : config.workerScratch sizes length ≤
      config.workerScratch sizes longer := by
    unfold FingerprintConfig.workerScratch FingerprintConfig.ringBytes
    omega
  have chunks := Nat.mul_le_mul_right sizes.perChunk few
  have workers : config.workers count ≤ config.workers larger := by
    unfold FingerprintConfig.workers
    omega
  have scratches := Nat.mul_le_mul workers scratch
  unfold FingerprintConfig.workingBytes
  omega

end Estimate

/-! ## The rings of one worker -/

/-- The windows of balanced regions together are at most as wide as so many
windows, and as what is divided. -/
theorem sum_windows_le (length count window taken : Nat) :
    ((List.range taken).map fun index =>
      min (regionStart length count (index + 1) -
        regionStart length count index) window).sum ≤
      min (taken * window) (regionStart length count taken) := by
  induction taken with
  | zero => simp
  | succ taken induction =>
      have ordered := regionStart_mono length count
        (show taken ≤ taken + 1 from Nat.le_succ taken)
      rw [List.range_succ, List.map_append, List.sum_append,
        List.map_singleton, List.sum_singleton, Nat.succ_mul]
      omega

namespace SuperfeatureAccumulator

variable
  {config : FingerprintConfig}
  {totalLen : UInt64}
  {accumulator : SuperfeatureAccumulator}

/-- An accumulator is made only when the product of the length and the number of
regions fits a word. -/
theorem fits_of_new
    (positive : 0 < config.subchunkCount.toNat)
    (made : new totalLen config = .ok accumulator) :
    totalLen.toNat * config.subchunkCount.toNat < 2 ^ 64 := by
  obtain ⟨⟨ends, regions⟩, ran, _⟩ := bind_eq_ok.mp made
  have bounds := forEnum_invariant
    (fun (done : List Nat) (_ : List UInt64 × List RollingRegion) =>
      done ≠ [] → ∃ bound,
        regionBound totalLen config.subchunkCount done.length = .ok bound)
    (absurd rfl) (by
      intro done item state next _ step _
      obtain ⟨start, _, rest⟩ := bind_eq_ok.mp step
      obtain ⟨stop, isStop, _⟩ := bind_eq_ok.mp rest
      rw [List.length_append, List.length_singleton]
      exact ⟨stop, isStop⟩) ran
  obtain ⟨bound, isBound⟩ := bounds (by
    rw [ne_eq, List.range_eq_nil]
    omega)
  rw [List.length_range] at isBound
  obtain ⟨product, isProduct, _⟩ := bind_eq_ok.mp isBound
  rw [okOr_checkedMul_eq_ok, toNat_ofNat_of_lt
    (config.subchunkCount.toNat_lt.trans (by decide))] at isProduct
  rw [isProduct]
  exact product.toNat_lt

/-- The rings of the regions of one accumulator. -/
theorem sum_rings_le
    (positive : 0 < config.subchunkCount.toNat)
    (made : new totalLen config = .ok accumulator) :
    (accumulator.regions.map (·.window)).sum ≤
      config.ringBytes totalLen.toNat := by
  have fits := fits_of_new positive made
  rw [new_eq positive fits] at made
  cases made
  have windows : (freshRegions totalLen config
      config.subchunkCount.toNat).map (·.window) =
        (List.range config.subchunkCount.toNat).map fun index =>
          min (regionStart totalLen.toNat config.subchunkCount.toNat
              (index + 1) -
            regionStart totalLen.toNat config.subchunkCount.toNat index)
            config.rollingWindow.toNat := by
    rw [freshRegions, List.map_map]
    refine List.map_congr_left fun index member => ?_
    rw [← toNat_regionLength positive (List.mem_range.mp member)]
    rfl
  have bound := sum_windows_le totalLen.toNat config.subchunkCount.toNat
    config.rollingWindow.toNat config.subchunkCount.toNat
  rw [regionStart_self positive] at bound
  rw [windows]
  exact bound

end SuperfeatureAccumulator

/-- An allowed batch: the rings that the regions of a worker reserve are within
the ring term of the estimate for the largest chunk, whichever chunk the worker
has; the estimate of a worker does not wrap; and the workers' scratch and the
terms for each chunk are together within the limit. -/
theorem rings_within_limits
    (sizes : FingerprintSizes)
    (config : FingerprintConfig)
    (count largestChunk : UInt64)
    (valid : config.validate = .ok ())
    (allowed : ensureBatchMemoryLimits sizes count largestChunk config =
      .ok ()) :
    (∀ length accumulator, length ≤ largestChunk →
      SuperfeatureAccumulator.new length config = .ok accumulator →
      (accumulator.regions.map (·.window)).sum ≤
        config.ringBytes largestChunk.toNat) ∧
    (count ≠ 0 → ∃ scratch,
      fingerprintWorkerScratchBytes sizes largestChunk config =
          .ok scratch ∧
        scratch.toNat = config.workerScratch sizes largestChunk.toNat) ∧
    config.workers count.toNat *
          config.workerScratch sizes largestChunk.toNat +
        count.toNat * sizes.perChunk ≤
      config.maxWorkingBytes.toNat := by
  obtain ⟨someRegion, _, someWorker, _⟩ :=
    FingerprintConfig.validate_eq_ok valid
  rw [ensureBatchMemoryLimits_eq_ok someRegion someWorker] at allowed
  refine ⟨?_, ?_, ?_⟩
  · intro length accumulator within made
    have bound := SuperfeatureAccumulator.sum_rings_le someRegion made
    rw [UInt64.le_iff_toNat_le] at within
    unfold FingerprintConfig.ringBytes at *
    omega
  · intro some
    obtain ⟨_, fits⟩ := allowed.resolve_left some
    have positive : 0 < count.toNat := toNat_pos some
    have workingBound := config.maxWorkingBytes.toNat_lt
    have scratchBound := Nat.le_mul_of_pos_left
      (config.workerScratch sizes largestChunk.toNat)
      (show 0 < config.workers count.toNat by
        unfold FingerprintConfig.workers
        omega)
    unfold FingerprintConfig.workingBytes at fits
    obtain ⟨scratch, isScratch⟩ := @exists_toNat_eq
      (config.workerScratch sizes largestChunk.toNat) (by omega)
    exact ⟨scratch,
      (fingerprintWorkerScratchBytes_eq_ok someRegion).mpr isScratch,
      isScratch.symm⟩
  · rcases allowed with rfl | ⟨_, fits⟩
    · unfold FingerprintConfig.workers
      simp
    · unfold FingerprintConfig.workingBytes at fits
      omega

/-- Two chunks, the larger of a hundred bytes, with the type sizes of a 64-bit
machine. -/
theorem rings_within_limits_two :
    let sizes : FingerprintSizes := ⟨136, 8, 144, 48, 1, 80, 8, 2400⟩
    ensureBatchMemoryLimits sizes 2 100 .default = .ok () ∧
    FingerprintConfig.default.workers 2 *
          FingerprintConfig.default.workerScratch sizes 100 +
        2 * sizes.perChunk ≤
      FingerprintConfig.default.maxWorkingBytes.toNat := by
  intro sizes
  have allowed : ensureBatchMemoryLimits sizes 2 100 .default = .ok () := by
    rw [ensureBatchMemoryLimits_eq_ok (by decide) (by decide)]
    exact Or.inr (by decide)
  exact ⟨allowed,
    (rings_within_limits sizes .default 2 100 (by decide) allowed).2.2⟩

end Pithos
