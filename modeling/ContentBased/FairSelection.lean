import ContentBased.Selecting

namespace ContentBased.Marshaler
open Finset

instance (flags mask : List Int) (i : Nat) : Decidable (Excluded flags mask i) := inferInstanceAs (Decidable (_ ∨ _))

/-- The places that are left to select from. -/
def remaining (interests : VectorPair) (flags mask : List Int) : Finset Nat :=
  (range interests.length).filter fun i => ¬ Excluded flags mask i

/-- What is left to select from, by its weight. -/
def remainingWeight (interests : VectorPair) (flags mask : List Int) : ℚ :=
  ∑ i ∈ remaining interests flags mask, weightAt interests i

/-- The draws that select a place. -/
def drawsOf (interests : VectorPair) (flags mask : List Int) (i : Nat) : Finset (Fin 100) :=
  univ.filter fun draw => selectInteresting interests flags mask draw = .ok i

/-- What is asked of a selection: where a weight is left, every draw selects a place that is left and has one, and each of
them by its share of the draws; where none is left, nothing is selected. -/
structure SelectsFairly (interests : VectorPair) (flags mask : List Int) : Prop where
  selects : 0 < remainingWeight interests flags mask → ∀ draw, ∃ i ∈ remaining interests flags mask,
    0 < weightAt interests i ∧ selectInteresting interests flags mask draw = .ok i
  fair : 0 < remainingWeight interests flags mask → ∀ i ∈ remaining interests flags mask,
    |((drawsOf interests flags mask i).card : ℚ) - 100 * weightAt interests i / remainingWeight interests flags mask| < 1
  nothing : remainingWeight interests flags mask = 0 → ∀ draw, selectInteresting interests flags mask draw = .ok (-1)

theorem card_filter_fin (n : Nat) (p : Nat → Prop) [DecidablePred p] :
    (univ.filter fun i : Fin n => p i).card = ((range n).filter p).card := by
  rw [← card_map Fin.valEmbedding]
  congr 1
  ext i
  simp only [mem_map, mem_filter, mem_univ, true_and, Fin.valEmbedding_apply, mem_range]
  constructor
  · rintro ⟨place, holds, rfl⟩
    exact ⟨place.isLt, holds⟩
  · rintro ⟨small, holds⟩
    exact ⟨⟨i, small⟩, holds, rfl⟩

theorem returned_zero_eq_iff (stop : Option Nat) (i : Nat) : returned 0 stop = i ↔ stop = some i := by
  cases stop with
  | none =>
    refine iff_of_false (fun same => ?_) (by simp)
    rw [returned] at same
    omega
  | some j =>
    rw [returned, Nat.zero_add, Nat.cast_inj, Option.some.injEq]

section
variable {interests : VectorPair} {flags mask : List Int}

/-- The places that are not left. -/
def excluded (interests : VectorPair) (flags mask : List Int) : Finset Nat :=
  (range interests.length).filter (Excluded flags mask)

theorem mem_excluded (length : flags.length = interests.length)
    (inRange : ∀ place ∈ mask, 0 ≤ place ∧ place < interests.length) (i : Nat) :
    i ∈ excluded interests flags mask ↔ Excluded flags mask i := by
  rw [excluded, mem_filter, mem_range]
  refine ⟨And.right, fun out => ⟨?_, out⟩⟩
  rcases out with flagged | masked
  · rw [← length]
    exact (List.getElem?_eq_some_iff.mp flagged).1
  · exact_mod_cast (inRange i masked).2

/-- The weights on the wheel are those that are left. -/
theorem sum_freeWeights_excluded (interests : VectorPair) (flags mask : List Int) :
    (freeWeights interests (excluded interests flags mask)).sum = remainingWeight interests flags mask := by
  have inside : excluded interests flags mask ⊆ range interests.length := filter_subset _ _
  have left : remaining interests flags mask = range interests.length \ excluded interests flags mask := by
    ext i
    rw [remaining, excluded, mem_filter, mem_sdiff, mem_filter]
    tauto
  rw [sum_freeWeights inside, ← sum_weightAt, remainingWeight, left, sub_eq_iff_eq_add]
  exact (sum_sdiff inside).symm

/-- Every draw spins the same wheel. -/
theorem selectInteresting_eq (normalized : Normalized interests) (small : interests.length ≤ 100)
    (length : flags.length = interests.length) (bits : ∀ flag ∈ flags, flag = 0 ∨ flag = 1)
    (inRange : ∀ place ∈ mask, 0 ≤ place ∧ place < interests.length) (draw : Fin 100) :
    selectInteresting interests flags mask draw = .ok (returned 0 (Roulette.spin ((draw.val : ℚ) / 100) 0
      (Roulette.shares (freeWeights interests (excluded interests flags mask))))) := by
  obtain ⟨marked, same, run⟩ := selectInteresting_spin normalized small length bits inRange draw
  have all : marked = excluded interests flags mask := by
    ext i
    rw [same, mem_excluded length inRange]
  rw [run, all]

/-- A selection is fair, whatever is flagged and masked. -/
theorem selectInteresting_fair (normalized : Normalized interests) (small : interests.length ≤ 100)
    (length : flags.length = interests.length) (bits : ∀ flag ∈ flags, flag = 0 ∨ flag = 1)
    (inRange : ∀ place ∈ mask, 0 ≤ place ∧ place < interests.length) : SelectsFairly interests flags mask := by
  have nonneg := freeWeights_nonneg normalized (excluded interests flags mask)
  have whole := sum_freeWeights_excluded interests flags mask
  refine ⟨fun some_ draw => ?_, fun some_ i member => ?_, fun zero draw => ?_⟩
  · obtain ⟨target, run, ⟨-, none_⟩ | ⟨i, rfl, below, free, positive⟩⟩ :=
      selectInteresting_ok normalized small length bits inRange draw
    · refine absurd (sum_eq_zero fun i member => ?_) some_.ne'
      obtain ⟨below, free⟩ := mem_filter.mp member
      exact (none_ i (mem_range.mp below)).resolve_left free
    · exact ⟨i, mem_filter.mpr ⟨mem_range.mpr below, free⟩, positive, run⟩
  · obtain ⟨below, free⟩ := mem_filter.mp member
    have onWheel : (freeWeights interests (excluded interests flags mask))[i]? = some (weightAt interests i) := by
      rw [freeWeights_of_lt _ (mem_range.mp below), if_neg fun out => free ((mem_excluded length inRange i).mp out)]
    have stops (draw : Fin 100) : selectInteresting interests flags mask draw = .ok i ↔
        Roulette.spin ((draw.val : ℚ) / (100 : Nat)) 0
          (Roulette.shares (freeWeights interests (excluded interests flags mask))) = some i := by
      rw [selectInteresting_eq normalized small length bits inRange, Except.ok.injEq, returned_zero_eq_iff]
      rfl
    have close := Roulette.abs_card_spin_lt (n := 100) nonneg (by rw [whole]; exact some_) onWheel
    rw [drawsOf]
    simp only [stops]
    rw [card_filter_fin 100 fun draw => Roulette.spin ((draw : ℚ) / (100 : Nat)) 0
      (Roulette.shares (freeWeights interests (excluded interests flags mask))) = some i, mul_div_assoc, ← whole]
    exact_mod_cast close
  · have empty : Roulette.spin ((draw.val : ℚ) / 100) 0
        (Roulette.shares (freeWeights interests (excluded interests flags mask))) = none := by
      have below : (draw.val : ℚ) / 100 < 1 := by
        have bound : (draw.val : ℚ) < 100 := by exact_mod_cast draw.isLt
        linarith
      rw [Roulette.shares_none_iff nonneg (by positivity) below]
      exact fun weight inside => List.all_zero_of_le_zero_le_of_sum_eq_zero nonneg (whole.trans zero) inside
    rw [selectInteresting_eq normalized small length bits inRange, empty]
    rfl

end

/-- Three interests, the first of which is flagged and in the mask twice. -/
theorem selectInteresting_fair_three :
    SelectsFairly [(1, 1 / 2), (2, 1 / 3), (3, 1 / 6)] [1, 0, 0] [0, 0] := by
  refine selectInteresting_fair ⟨?_, ?_⟩ (by decide) rfl (by decide) (by decide)
  · intro trend member
    simp only [List.mem_cons, List.not_mem_nil, or_false] at member
    rcases member with rfl | rfl | rfl <;> norm_num
  · norm_num

end ContentBased.Marshaler
