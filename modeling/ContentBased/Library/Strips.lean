import Mathlib

/-! Strips of one width, each a step away from the one before it. -/
namespace Strips
variable {α : Type*} [CommRing α] [LinearOrder α] [IsStrictOrderedRing α]

def strip (start step width : α) (i : Nat) : Set α := Set.Ico (start + i * step) (start + i * step + width)

/-- Strips that meet or overlap leave no gap, in whichever direction they go. -/
theorem exists_mem_strip_iff {start step width : α} (touch : |step| ≤ width) (n : Nat) (x : α) :
    (∃ i ≤ n, x ∈ strip start step width i) ↔
      x ∈ Set.Ico (start + min 0 (n * step)) (start + max 0 (n * step) + width) := by
  induction n with
  | zero => simp [strip]
  | succ n ih =>
    have split : (∃ i ≤ n + 1, x ∈ strip start step width i) ↔
        (∃ i ≤ n, x ∈ strip start step width i) ∨ x ∈ strip start step width (n + 1) := by
      constructor
      · rintro ⟨i, bound, inside⟩
        rcases Nat.le_succ_iff.mp bound with earlier | rfl
        · exact .inl ⟨i, earlier, inside⟩
        · exact .inr inside
      · rintro (⟨i, bound, inside⟩ | inside)
        · exact ⟨i, Nat.le_succ_of_le bound, inside⟩
        · exact ⟨n + 1, le_rfl, inside⟩
    have count : (0 : α) ≤ n := n.cast_nonneg
    have next : ((n + 1 : Nat) : α) * step = n * step + step := by
      push_cast
      ring
    rw [split, ih, strip, next]
    simp only [Set.mem_Ico]
    -- The strips so far reach as far as the next one, on the side to which they go.
    rcases le_total 0 step with up | down
    · have width_ : step ≤ width := (le_abs_self step).trans touch
      have far : 0 ≤ n * step := mul_nonneg count up
      rw [min_eq_left far, max_eq_right far, min_eq_left (by linarith), max_eq_right (by linarith)]
      constructor
      · rintro (⟨low, high⟩ | ⟨low, high⟩) <;> constructor <;> linarith
      · rintro ⟨low, high⟩
        rcases lt_or_ge x (start + n * step + width) with before | behind
        · exact .inl ⟨low, before⟩
        · exact .inr ⟨by linarith, by linarith⟩
    · have width_ : -step ≤ width := (neg_le_abs step).trans touch
      have far : n * step ≤ 0 := mul_nonpos_of_nonneg_of_nonpos count down
      rw [min_eq_right far, max_eq_left far, min_eq_right (by linarith), max_eq_left (by linarith)]
      constructor
      · rintro (⟨low, high⟩ | ⟨low, high⟩) <;> constructor <;> linarith
      · rintro ⟨low, high⟩
        rcases lt_or_ge x (start + n * step) with behind | before
        · exact .inr ⟨by linarith, by linarith⟩
        · exact .inl ⟨by linarith, by linarith⟩

/-- What is apart from every strip is below the lowest, beyond the highest or empty. -/
theorem disjoint_strips_iff {start step width : α} (touch : |step| ≤ width) (n : Nat) (low high : α) :
    (∀ i ≤ n, Disjoint (Set.Ico low high) (strip start step width i)) ↔
      min high (start + max 0 (n * step) + width) ≤ max low (start + min 0 (n * step)) := by
  rw [← Set.Ico_disjoint_Ico]
  constructor
  · intro apart
    rw [Set.disjoint_left]
    intro x inside covered
    obtain ⟨i, bound, inStrip⟩ := (exists_mem_strip_iff touch n x).mpr covered
    exact Set.disjoint_left.mp (apart i bound) inside inStrip
  · intro apart i bound
    rw [Set.disjoint_left]
    intro x inside inStrip
    exact Set.disjoint_left.mp apart inside ((exists_mem_strip_iff touch n x).mp ⟨i, bound, inStrip⟩)

end Strips
