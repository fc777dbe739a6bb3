import Mathlib

namespace Roulette
variable {K : Type*} [Field K] [LinearOrder K] [IsStrictOrderedRing K]

/-- The first place at which the running total of the weights exceeds the point. -/
def spin (point : K) : K → List K → Option Nat
  | _, [] => none
  | total, weight :: weights =>
    if point < total + weight then some 0 else (spin point (total + weight) weights).map (· + 1)

/-- The wheel stops only where the total grows. -/
theorem spin_pos {point total : K} {weights : List K} {i : Nat} (below : total ≤ point)
    (stops : spin point total weights = some i) : ∃ weight, weights[i]? = some weight ∧ 0 < weight := by
  induction weights generalizing total i with
  | nil => cases stops
  | cons weight weights ih =>
    rw [spin] at stops
    by_cases here : point < total + weight
    · rw [if_pos here] at stops
      obtain rfl := Option.some.inj stops
      exact ⟨weight, rfl, by linarith⟩
    · rw [if_neg here] at stops
      obtain ⟨j, later, rfl⟩ := Option.map_eq_some_iff.mp stops
      exact ih (not_lt.mp here) later

/-- Where the wheel stops: the point is beyond the weights before the place, and not beyond the one there. -/
theorem spin_eq_some_iff {point total : K} {weights : List K} (nonneg : ∀ weight ∈ weights, 0 ≤ weight)
    (below : total ≤ point) (i : Nat) : spin point total weights = some i ↔ ∃ weight, weights[i]? = some weight ∧
      total + (weights.take i).sum ≤ point ∧ point < total + (weights.take i).sum + weight := by
  induction weights generalizing total i with
  | nil => simp [spin]
  | cons weight weights ih =>
    have nonneg' : ∀ weight ∈ weights, 0 ≤ weight := fun other member => nonneg other (List.mem_cons_of_mem _ member)
    rw [spin]
    by_cases here : point < total + weight
    · rw [if_pos here]
      cases i with
      | zero => simp [here, below]
      | succ i =>
        have earlier : 0 ≤ (weights.take i).sum :=
          List.sum_nonneg fun other member => nonneg' other (List.mem_of_mem_take member)
        refine iff_of_false (by simp) ?_
        rintro ⟨other, -, beyond, -⟩
        rw [List.take_succ_cons, List.sum_cons] at beyond
        linarith
    · rw [if_neg here]
      cases i with
      | zero => simp [here]
      | succ i =>
        have shift : (spin point (total + weight) weights).map (· + 1) = some (i + 1) ↔
            spin point (total + weight) weights = some i := by
          cases spin point (total + weight) weights <;> simp
        rw [shift, ih nonneg' (not_lt.mp here) i, List.getElem?_cons_succ, List.take_succ_cons, List.sum_cons, ← add_assoc]

theorem sum_le_of_spin_none {point total : K} {weights : List K} (below : total ≤ point)
    (passes : spin point total weights = none) : total + weights.sum ≤ point := by
  induction weights generalizing total with
  | nil => simpa using below
  | cons weight weights ih =>
    rw [spin] at passes
    by_cases here : point < total + weight
    · rw [if_pos here] at passes
      cases passes
    · rw [if_neg here, Option.map_eq_none_iff] at passes
      have rest := ih (not_lt.mp here) passes
      rw [List.sum_cons]
      linarith

/-- The part of the whole that each weight is. -/
def shares (weights : List K) : List K := weights.map (· / weights.sum)

omit [LinearOrder K] [IsStrictOrderedRing K] in
theorem sum_shares (weights : List K) : (shares weights).sum = weights.sum / weights.sum := by
  have scaled := List.sum_map_mul_right weights id weights.sum⁻¹
  simpa only [shares, div_eq_mul_inv, List.map_id, id] using scaled

theorem shares_pos {weights : List K} {point : K} {i : Nat} (nonneg : ∀ weight ∈ weights, 0 ≤ weight)
    (start : 0 ≤ point) (stops : spin point 0 (shares weights) = some i) :
    ∃ weight, weights[i]? = some weight ∧ 0 < weight := by
  obtain ⟨share, at_, positive⟩ := spin_pos start stops
  rw [shares, List.getElem?_map] at at_
  obtain ⟨weight, present, rfl⟩ := Option.map_eq_some_iff.mp at_
  refine ⟨weight, present, lt_of_le_of_ne (nonneg weight (List.mem_of_getElem? present)) fun zero => ?_⟩
  rw [← zero, zero_div] at positive
  exact positive.false

/-- With a point inside the wheel it stops at one of the weights, unless all of them are zero. -/
theorem shares_none_iff {weights : List K} {point : K} (nonneg : ∀ weight ∈ weights, 0 ≤ weight)
    (start : 0 ≤ point) (inside : point < 1) :
    spin point 0 (shares weights) = none ↔ ∀ weight ∈ weights, weight = 0 := by
  constructor
  · intro passes weight member
    have whole := sum_le_of_spin_none start passes
    rw [sum_shares, zero_add] at whole
    have empty : weights.sum = 0 := by
      by_contra some_
      rw [div_self some_] at whole
      linarith
    exact List.all_zero_of_le_zero_le_of_sum_eq_zero nonneg empty member
  · intro zero
    cases stops : spin point 0 (shares weights) with
    | none => rfl
    | some i =>
      obtain ⟨weight, at_, positive⟩ := shares_pos nonneg start stops
      exact absurd (zero weight (List.mem_of_getElem? at_)) positive.ne'

section Draws
open Finset

/-- Numbers below `n` between two bounds are as many as the bounds are apart, but for a part of one. -/
theorem abs_card_between_lt {low high : K} [FloorSemiring K] {n : Nat} (start : 0 ≤ low) (order : low ≤ high)
    (inside : high ≤ n) : |(((range n).filter fun r : Nat => low ≤ r ∧ (r : K) < high).card : K) - (high - low)| < 1 := by
  have between : ((range n).filter fun r : Nat => low ≤ r ∧ (r : K) < high) = Ico ⌈low⌉₊ ⌈high⌉₊ := by
    ext r
    rw [mem_filter, mem_range, mem_Ico, Nat.ceil_le, Nat.lt_ceil]
    exact ⟨And.right, fun both => ⟨by exact_mod_cast both.2.trans_le inside, both⟩⟩
  have ordered : ⌈low⌉₊ ≤ ⌈high⌉₊ := Nat.ceil_le_ceil order
  have lowAbove := Nat.le_ceil low
  have lowBelow := Nat.ceil_lt_add_one start
  have highAbove := Nat.le_ceil high
  have highBelow := Nat.ceil_lt_add_one (start.trans order)
  rw [between, Nat.card_Ico, Nat.cast_sub ordered, abs_lt]
  constructor <;> linarith

/-- Of `n` points at equal distances, as many stop at a place as its share of them, but for a part of one. -/
theorem abs_card_spin_lt [FloorSemiring K] {weights : List K} {n i : Nat} {weight : K}
    (nonneg : ∀ weight ∈ weights, 0 ≤ weight) (some_ : 0 < weights.sum) (at_ : weights[i]? = some weight) :
    |(((range n).filter fun r : Nat => spin ((r : K) / n) 0 (shares weights) = some i).card : K) - n * (weight / weights.sum)| < 1 := by
  rcases Nat.eq_zero_or_pos n with rfl | positive
  · simp
  have scale : (0 : K) < n := by exact_mod_cast positive
  have shares_nonneg : ∀ share ∈ shares weights, 0 ≤ share := by
    intro share member
    obtain ⟨weight, inside, rfl⟩ := List.mem_map.mp member
    exact div_nonneg (nonneg weight inside) some_.le
  have share_at : (shares weights)[i]? = some (weight / weights.sum) := by
    rw [shares, List.getElem?_map, at_, Option.map_some]
  have whole : (shares weights).sum = 1 := by rw [sum_shares, div_self some_.ne']
  have before : 0 ≤ ((shares weights).take i).sum :=
    List.sum_nonneg fun share member => shares_nonneg share (List.mem_of_mem_take member)
  have part : 0 ≤ weight / weights.sum := shares_nonneg _ (List.mem_of_getElem? share_at)
  have upTo : ((shares weights).take i).sum + weight / weights.sum ≤ 1 := by
    have split : (shares weights).sum = ((shares weights).take (i + 1)).sum + ((shares weights).drop (i + 1)).sum := by
      rw [← List.sum_append, List.take_append_drop]
    have rest : 0 ≤ ((shares weights).drop (i + 1)).sum :=
      List.sum_nonneg fun share member => shares_nonneg share (List.mem_of_mem_drop member)
    rw [List.take_add_one, share_at, Option.toList_some, List.sum_append, List.sum_singleton, whole] at split
    linarith
  have stops (r : Nat) : spin ((r : K) / n) 0 (shares weights) = some i ↔
      n * ((shares weights).take i).sum ≤ (r : K) ∧ (r : K) < n * (((shares weights).take i).sum + weight / weights.sum) := by
    rw [spin_eq_some_iff shares_nonneg (div_nonneg r.cast_nonneg scale.le), share_at]
    simp only [Option.some.injEq, exists_eq_left', zero_add]
    rw [le_div_iff₀ scale, div_lt_iff₀ scale, mul_comm, mul_comm (_ + _)]
  have between := abs_card_between_lt (n := n) (mul_nonneg scale.le before)
    (mul_le_mul_of_nonneg_left (le_add_of_nonneg_right part) scale.le) (mul_le_of_le_one_right scale.le upTo)
  simp only [stops]
  rwa [← mul_sub, add_sub_cancel_left] at between

end Draws

end Roulette
