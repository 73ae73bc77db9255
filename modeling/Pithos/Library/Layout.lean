import Mathlib.Algebra.BigOperators.Group.List.Basic
import Mathlib.Algebra.GroupWithZero.Nat
import Mathlib.Data.List.Basic
import Mathlib.Tactic.Common
import Pithos.Library.Bytes

/-!
# Pieces laid one after the other

Pieces of given lengths are laid out from a start, so that each begins where the
one before it ends.  A list of spans, each a start and a length, tiles a range
exactly when it is such a layout and ends where the range does, and then the
slices over the spans concatenate to the slice over the range.
-/

namespace Layout

/-- The spans of pieces of the given lengths, from a start on. -/
def layOut : Nat → List Nat → List (Nat × Nat)
  | _, [] => []
  | start, length :: lengths =>
      (start, length) :: layOut (start + length) lengths

/-- The spans follow one another from `start` and end at `stop`. -/
def Tiles : Nat → List (Nat × Nat) → Nat → Prop
  | start, [], stop => start = stop
  | start, span :: spans, stop =>
      span.1 = start ∧ Tiles (start + span.2) spans stop

@[simp] theorem layOut_nil (start : Nat) : layOut start [] = [] := rfl

@[simp] theorem layOut_cons (start length : Nat) (lengths : List Nat) :
    layOut start (length :: lengths) =
      (start, length) :: layOut (start + length) lengths := rfl

@[simp] theorem tiles_nil {start stop : Nat} :
    Tiles start [] stop ↔ start = stop := Iff.rfl

@[simp] theorem tiles_cons
    {start stop : Nat}
    {span : Nat × Nat}
    {spans : List (Nat × Nat)} :
    Tiles start (span :: spans) stop ↔
      span.1 = start ∧ Tiles (start + span.2) spans stop := Iff.rfl

theorem layOut_append (start : Nat) (first second : List Nat) :
    layOut start (first ++ second) =
      layOut start first ++ layOut (start + first.sum) second := by
  induction first generalizing start with
  | nil => simp
  | cons length first inductionHypothesis =>
      simp [inductionHypothesis, Nat.add_assoc]

@[simp] theorem map_snd_layOut (start : Nat) (lengths : List Nat) :
    (layOut start lengths).map (·.2) = lengths := by
  induction lengths generalizing start with
  | nil => rfl
  | cons length lengths inductionHypothesis => simp [inductionHypothesis]

@[simp] theorem length_layOut (start : Nat) (lengths : List Nat) :
    (layOut start lengths).length = lengths.length := by
  rw [← List.length_map (f := Prod.snd), map_snd_layOut]

/-- Laying the pieces out further on moves every span. -/
theorem layOut_add (start shift : Nat) (lengths : List Nat) :
    layOut (start + shift) lengths =
      (layOut start lengths).map fun span => (span.1 + shift, span.2) := by
  induction lengths generalizing start with
  | nil => rfl
  | cons length lengths inductionHypothesis =>
      rw [layOut_cons, layOut_cons, List.map_cons, ← inductionHypothesis,
        Nat.add_right_comm]

/-- A list of spans tiles a range exactly when it is the layout of its lengths
and ends with the range. -/
theorem tiles_iff
    {start stop : Nat}
    {spans : List (Nat × Nat)} :
    Tiles start spans stop ↔
      spans = layOut start (spans.map (·.2)) ∧
        stop = start + (spans.map (·.2)).sum := by
  induction spans generalizing start with
  | nil => simp [eq_comm]
  | cons span spans inductionHypothesis =>
      obtain ⟨offset, length⟩ := span
      rw [tiles_cons, inductionHypothesis]
      simp only [List.map_cons, layOut_cons, List.cons.injEq, Prod.mk.injEq,
        and_true, List.sum_cons, Nat.add_assoc, and_assoc]

theorem tiles_layOut (start : Nat) (lengths : List Nat) :
    Tiles start (layOut start lengths) (start + lengths.sum) := by
  rw [tiles_iff]
  simp

theorem Tiles.le
    {start stop : Nat}
    {spans : List (Nat × Nat)}
    (tiles : Tiles start spans stop) :
    start ≤ stop := by
  rw [(tiles_iff.mp tiles).2]
  exact Nat.le_add_right _ _

/-- Every span of a tiling is inside the range. -/
theorem Tiles.inside
    {start stop : Nat}
    {spans : List (Nat × Nat)}
    {span : Nat × Nat}
    (tiles : Tiles start spans stop)
    (member : span ∈ spans) :
    start ≤ span.1 ∧ span.1 + span.2 ≤ stop := by
  induction spans generalizing start with
  | nil => cases member
  | cons first spans inductionHypothesis =>
      obtain ⟨starts, rest⟩ := tiles
      rcases List.mem_cons.mp member with rfl | later
      · exact ⟨Nat.le_of_eq starts.symm, starts ▸ rest.le⟩
      · obtain ⟨after, before⟩ := inductionHypothesis rest later
        exact ⟨by omega, before⟩

theorem tiles_append
    {start stop : Nat}
    {first second : List (Nat × Nat)} :
    Tiles start (first ++ second) stop ↔
      ∃ middle, Tiles start first middle ∧ Tiles middle second stop := by
  induction first generalizing start with
  | nil => simp
  | cons span first inductionHypothesis =>
      simp only [List.cons_append, tiles_cons, inductionHypothesis, and_assoc,
        exists_and_left]

/-- The spans of a tiling follow each other. -/
theorem Tiles.pairwise
    {start stop : Nat}
    {spans : List (Nat × Nat)}
    (tiles : Tiles start spans stop) :
    spans.Pairwise fun left right => left.1 + left.2 ≤ right.1 := by
  induction spans generalizing start with
  | nil => exact List.Pairwise.nil
  | cons first spans inductionHypothesis =>
      obtain ⟨atStart, rest⟩ := tiles
      refine List.Pairwise.cons ?_ (inductionHypothesis rest)
      intro later member
      have := rest.inside member
      omega

/-- The slices over the spans of a tiling concatenate to the slice over the
whole interval. -/
theorem Tiles.flatMap_slice
    {start stop : Nat}
    {spans : List (Nat × Nat)}
    (tiles : Tiles start spans stop)
    (buffer : List UInt8) :
    (spans.flatMap fun span =>
        Bytes.slice buffer span.1 span.2) =
      Bytes.slice buffer start (stop - start) := by
  induction spans generalizing start with
  | nil =>
      cases tiles
      simp
  | cons first spans inductionHypothesis =>
      obtain ⟨atStart, rest⟩ := tiles
      have bound := rest.le
      rw [List.flatMap_cons, inductionHypothesis rest, atStart,
        Bytes.slice_append_slice]
      congr 1
      omega

/-! ## Cuts of a layout -/

/-- Where some of the pieces end, no span crosses. -/
theorem apart_of_mem_layOut
    {start : Nat}
    {first second : List Nat}
    {span : Nat × Nat}
    (member : span ∈ layOut start (first ++ second)) :
    span.1 + span.2 ≤ start + first.sum ∨ start + first.sum ≤ span.1 := by
  rw [layOut_append, List.mem_append] at member
  rcases member with before | after
  · exact .inl ((tiles_layOut start first).inside before).2
  · exact .inr ((tiles_layOut (start + first.sum) second).inside after).1

/-- Some span ends where a nonempty front of the pieces does. -/
theorem exists_ends_of_layOut
    {start : Nat}
    {first : List Nat}
    (second : List Nat)
    (nonempty : first ≠ []) :
    ∃ span ∈ layOut start (first ++ second),
      span.1 + span.2 = start + first.sum := by
  obtain ⟨front, last, rfl⟩ :=
    (List.eq_nil_or_concat first).resolve_left nonempty
  refine ⟨(start + front.sum, last), ?_, by simp [Nat.add_assoc]⟩
  simp [layOut_append]

/-! ## Blocks of one length -/

/-- As many blocks as there are whole ones, and what is left over. -/
def blocks (block total : Nat) : List Nat :=
  List.replicate (total / block) block ++
    if total % block = 0 then [] else [total % block]

@[simp] theorem sum_blocks (block total : Nat) :
    (blocks block total).sum = total := by
  have whole := Nat.div_add_mod' total block
  rw [blocks, List.sum_append, List.sum_replicate_nat]
  split <;> simp <;> omega

@[simp] theorem blocks_zero (block : Nat) : blocks block 0 = [] := by
  simp [blocks]

/-- Nothing more than a block is one piece. -/
theorem blocks_of_le
    {block total : Nat}
    (positive : 0 < total)
    (small : total ≤ block) :
    blocks block total = [total] := by
  rcases Nat.eq_or_lt_of_le small with rfl | less
  · simp [blocks, Nat.div_self positive]
  · simp [blocks, Nat.div_eq_of_lt less, Nat.mod_eq_of_lt less,
      Nat.ne_of_gt positive]

/-- More than a block begins with a whole one. -/
theorem blocks_add
    {block : Nat}
    (positive : 0 < block)
    (total : Nat) :
    blocks block (block + total) = block :: blocks block total := by
  simp [blocks, Nat.add_div_left _ positive, List.replicate_succ]

/-- The blocks are as many as are needed. -/
theorem length_blocks
    {block total : Nat}
    (positive : 0 < block) :
    (blocks block total).length = (total + block - 1) / block := by
  have whole := Nat.div_add_mod total block
  have below := Nat.mod_lt total positive
  rw [blocks, List.length_append, List.length_replicate]
  split
  · rename_i exact
    rw [List.length_nil, Nat.add_zero]
    refine (Nat.div_eq_of_lt_le ?_ ?_).symm
    · rw [Nat.mul_comm]
      omega
    · rw [Nat.succ_mul, Nat.mul_comm]
      omega
  · rename_i more
    rw [List.length_singleton]
    refine (Nat.div_eq_of_lt_le ?_ ?_).symm
    · rw [Nat.succ_mul, Nat.mul_comm]
      omega
    · rw [Nat.succ_mul, Nat.succ_mul, Nat.mul_comm]
      omega

theorem le_of_mem_blocks
    {block total length : Nat}
    (positive : 0 < block)
    (member : length ∈ blocks block total) :
    0 < length ∧ length ≤ block := by
  rw [blocks, List.mem_append] at member
  rcases member with whole | rest
  · rw [List.eq_of_mem_replicate whole]
    exact ⟨positive, Nat.le_refl _⟩
  · split at rest
    · cases rest
    · rename_i more
      rw [List.mem_singleton.mp rest]
      exact ⟨Nat.pos_of_ne_zero more, Nat.le_of_lt (Nat.mod_lt _ positive)⟩

/-- Every block but the last is whole. -/
theorem eq_of_mem_dropLast_blocks
    {block total length : Nat}
    (member : length ∈ (blocks block total).dropLast) :
    length = block := by
  rw [blocks] at member
  split at member
  · rw [List.append_nil] at member
    exact List.eq_of_mem_replicate (List.dropLast_subset _ member)
  · rw [List.dropLast_concat] at member
    exact List.eq_of_mem_replicate member

end Layout
