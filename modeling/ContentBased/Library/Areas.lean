import ContentBased.Library.Wrapping

/-! The areas of a buffer that are written. -/
namespace Areas

/-- So many bytes from an offset on. -/
structure Area where
  start : Int
  size : Nat
deriving DecidableEq, Repr

structure Buffer where
  capacity : Int
  areas : List Area

def Area.offsets (area : Area) : Set Int := Set.Ico area.start (area.start + area.size)

/-- Every byte that is written is in the buffer. -/
def Buffer.Fits (buffer : Buffer) : Prop := ∀ area ∈ buffer.areas, area.offsets ⊆ Set.Ico 0 buffer.capacity

/-- The `size_t` that an `int` is converted to. -/
def sizeT (n : Int32) : Nat := n.toInt64.toUInt64.toNat

theorem sizeT_of_nonneg {n : Int32} (nonneg : 0 ≤ n.toInt) : (sizeT n : Int) = n.toInt :=
  Wrapping.toNat_toUInt64_of_nonneg nonneg

/-- A size below 0 is above that of every buffer. -/
theorem sizeT_of_neg {n : Int32} (negative : n.toInt < 0) : 2 ^ 63 ≤ sizeT n := by
  have low := n.le_toInt
  have same : n.toInt64.toInt = (n.toInt64.toUInt64.toNat : Int).bmod (2 ^ 64) := by
    rw [← Int64.toNat_toBitVec]
    exact BitVec.toInt_eq_toNat_bmod _
  have small := n.toInt64.toUInt64.toNat_lt
  rw [Int32.toInt_toInt64] at same
  unfold sizeT
  by_contra less
  rw [Int.bmod_eq_of_le_mul_two (by omega) (by omega)] at same
  omega

section Fits
variable {capacity start : Int} {area : Area} {areas : List Area}

theorem area_fits_iff {size : Nat} (positive : 0 < size) :
    (⟨start, size⟩ : Area).offsets ⊆ Set.Ico 0 capacity ↔ 0 ≤ start ∧ start + size ≤ capacity :=
  Set.Ico_subset_Ico_iff (by simpa using positive)

/-- An area whose start is in the buffer or at its end. -/
theorem area_fits_iff_of_start {size : Nat} (low : 0 ≤ start) (high : start ≤ capacity) :
    (⟨start, size⟩ : Area).offsets ⊆ Set.Ico 0 capacity ↔ start + size ≤ capacity := by
  rcases Nat.eq_zero_or_pos size with rfl | positive
  · simp [Area.offsets, high]
  · rw [area_fits_iff positive]
    exact and_iff_right low

/-- A copy of an `int` of bytes. -/
theorem copy_fits_iff {n : Int32} (low : 0 ≤ start) (high : start ≤ capacity) (small : capacity < 2 ^ 31) :
    (⟨start, sizeT n⟩ : Area).offsets ⊆ Set.Ico 0 capacity ↔ 0 ≤ n.toInt ∧ start + n.toInt ≤ capacity := by
  rw [area_fits_iff_of_start low high]
  rcases lt_or_ge n.toInt 0 with negative | nonneg
  · have huge := sizeT_of_neg negative
    exact iff_of_false (by omega) fun fine => by omega
  · rw [sizeT_of_nonneg nonneg]
    exact (and_iff_right nonneg).symm

@[simp]
theorem fits_nil : (⟨capacity, []⟩ : Buffer).Fits := fun _ member => by cases member

@[simp]
theorem fits_cons : (⟨capacity, area :: areas⟩ : Buffer).Fits ↔
    area.offsets ⊆ Set.Ico 0 capacity ∧ (⟨capacity, areas⟩ : Buffer).Fits :=
  List.forall_mem_cons

end Fits

end Areas
