import ContentBased.CombineTask
import ContentBased.Library.Strips

namespace ContentBased.QueryProcessor

/-- The sizes that `init` divides the block by. -/
structure CalcSizes where
  fwCalcSendSize : Int32
  fwCalcRecvSize : Int32
  fwCalcResultSize : Int32
  fwCalcNum : Int32

namespace CalcSizes
variable (sizes : CalcSizes)

def oneRecvSize : Int32 := 4 + sizes.fwCalcRecvSize
def offsetRecv : Int32 := 4 + sizes.fwCalcSendSize
def offsetResult : Int32 := sizes.offsetRecv + sizes.oneRecvSize * sizes.fwCalcNum

/-- The log file, the request, the replies and the result. -/
def memSize : Int32 :=
  8 + (4 + sizes.fwCalcSendSize) + sizes.fwCalcNum * sizes.oneRecvSize + (4 + sizes.fwCalcResultSize)

/-- The addresses of the request, counted from behind the log file. -/
def sendArea : Set Int := Set.Ico 0 (4 + sizes.fwCalcSendSize.toInt)

/-- The addresses of a slot, which `combine_task` reaches by one addition for each slot before it. -/
def slotArea (i : Nat) : Set Int :=
  Strips.strip sizes.offsetRecv.toInt sizes.oneRecvSize.toInt (4 + sizes.fwCalcRecvSize.toInt) i

def resultArea : Set Int :=
  Set.Ico sizes.offsetResult.toInt (sizes.offsetResult.toInt + (4 + sizes.fwCalcResultSize.toInt))

/-- The addresses of a sum. -/
def sumArea (j : Nat) : Set Int :=
  Set.Ico (sizes.offsetResult.toInt + (8 + 4 * j)) (sizes.offsetResult.toInt + (12 + 4 * j))

/-- Where the areas would end in numbers that do not wrap. -/
def total : Int :=
  4 + sizes.fwCalcSendSize.toInt + sizes.fwCalcNum.toInt * (4 + sizes.fwCalcRecvSize.toInt)

/-- Room for the result beside the request, and below or beyond the slots. -/
def Clear : Prop :=
  let result := sizes.offsetResult.toInt
  let resultEnd := result + (4 + sizes.fwCalcResultSize.toInt)
  let reach := (sizes.fwCalcNum.toInt - 1) * sizes.oneRecvSize.toInt
  resultEnd ≤ result ∨
    (4 + sizes.fwCalcSendSize.toInt ≤ max 0 result ∨ resultEnd ≤ 0) ∧
      (sizes.offsetRecv.toInt + max 0 reach + (4 + sizes.fwCalcRecvSize.toInt) ≤ result ∨
        resultEnd ≤ sizes.offsetRecv.toInt + min 0 reach)

/-- Where the sizes put the result apart: when the areas before it end below 2^31, when it is empty, or when it comes to end
before them. A request or a reply of 2^31 bytes wraps by itself. -/
def Placed : Prop :=
  if sizes.fwCalcSendSize.toInt < 2147483644 ∧ sizes.fwCalcRecvSize.toInt < 2147483644 then
    sizes.fwCalcResultSize.toInt ≤ -4 ∨ sizes.total < 2147483648 ∨
      sizes.total.bmod (2 ^ 32) + (4 + sizes.fwCalcResultSize.toInt) ≤ min 0 (4 + sizes.fwCalcSendSize.toInt)
  else sizes.Clear

instance : Decidable sizes.Clear := inferInstanceAs (Decidable (_ ∨ _ ∧ _))
instance : Decidable sizes.Placed := inferInstanceAs (Decidable (ite _ _ _))

end CalcSizes

/-- A block of an accepted configuration: at most 64 machines, and the memory is there. -/
structure Block (allocates : Int32 → Bool) extends CalcSizes where
  machines : toCalcSizes.fwCalcNum ≤ 64
  memory : allocates toCalcSizes.memSize = true

/-- A reply in a slot of its own, which has room for it. -/
structure Stored (sizes : CalcSizes) where
  slot : Nat
  ofMachine : (slot : Int) < sizes.fwCalcNum.toInt
  answer : Answer
  received : 0 ≤ answer.length.toInt
  fits : answer.length.toInt + 4 ≤ sizes.fwCalcRecvSize.toInt

namespace Answer

/-- The length of a reply that passes the tests, when the product in the last of them does not wrap. -/
theorem length_of_passed {answer : Answer} (passed : ¬ answer.Refused) (nonneg : 0 ≤ answer.length.toInt)
    (positive : 0 < answer.count.toInt) (below : answer.count.toInt < 1073741824) :
    answer.length.toInt = 4 * (answer.count.toInt + 1) := by
  have something : answer.length.toInt ≠ 0 := fun zero => passed (.inr (.inl (Int32.toInt_inj.mp zero)))
  obtain ⟨turns, length⟩ := exists_turns_of_passed passed (by omega)
  have bounds := Wrapping.bounds answer.length
  omega

end Answer

namespace Stored
variable {sizes : CalcSizes} (stored : Stored sizes)

def start : Int := sizes.offsetRecv.toInt + stored.slot * sizes.oneRecvSize.toInt

/-- The addresses of the bytes that were received. -/
def receivedArea : Set Int := Set.Ico (stored.start + 4) (stored.start + (4 + stored.answer.length.toInt))

/-- The addresses of a power. -/
def powerArea (j : Nat) : Set Int := Set.Ico (stored.start + (8 + 4 * j)) (stored.start + (12 + 4 * j))

/-- The loop of `combine_task` over the powers of a reply stays inside its areas. -/
structure Inside : Prop where
  powers : ∀ j : Nat, (j : Int) < stored.answer.count.toInt → stored.powerArea j ⊆ stored.receivedArea
  sums : ∀ j : Nat, (j : Int) < stored.answer.count.toInt → sizes.sumArea j ⊆ sizes.resultArea
  send : Disjoint sizes.resultArea sizes.sendArea
  slots : ∀ i : Nat, (i : Int) < sizes.fwCalcNum.toInt → Disjoint sizes.resultArea (sizes.slotArea i)

/-- A reply without a power reads nothing, and a product that does not wrap makes the length and the count agree. -/
theorem powers_iff (passed : ¬ stored.answer.Refused) :
    (∀ j : Nat, (j : Int) < stored.answer.count.toInt → stored.powerArea j ⊆ stored.receivedArea) ↔
      stored.answer.count.toInt < 1073741824 := by
  have bounds := Wrapping.bounds stored.answer.length
  constructor
  · intro inside
    by_contra above
    have last := inside (stored.answer.count.toInt - 1).toNat (by omega)
    rw [powerArea, receivedArea, Set.Ico_subset_Ico_iff (by omega)] at last
    omega
  · intro below j early
    have product := Answer.length_of_passed passed stored.received (by omega) below
    rw [powerArea, receivedArea, Set.Ico_subset_Ico_iff (by omega)]
    omega

theorem sums_iff :
    (∀ j : Nat, (j : Int) < stored.answer.count.toInt → sizes.sumArea j ⊆ sizes.resultArea) ↔
      stored.answer.count.toInt ≤ 0 ∨ 4 + 4 * stored.answer.count.toInt ≤ sizes.fwCalcResultSize.toInt := by
  constructor
  · intro inside
    by_cases empty : stored.answer.count.toInt ≤ 0
    · exact .inl empty
    · have last := inside (stored.answer.count.toInt - 1).toNat (by omega)
      rw [CalcSizes.sumArea, CalcSizes.resultArea, Set.Ico_subset_Ico_iff (by omega)] at last
      exact .inr (by omega)
  · intro room j early
    rw [CalcSizes.sumArea, CalcSizes.resultArea, Set.Ico_subset_Ico_iff (by omega)]
    omega

end Stored

section Apart
variable {sizes : CalcSizes}

theorem sendArea_disjoint_iff :
    Disjoint sizes.resultArea sizes.sendArea ↔
      sizes.fwCalcResultSize.toInt ≤ -4 ∨ 4 + sizes.fwCalcSendSize.toInt ≤ max 0 sizes.offsetResult.toInt ∨
        sizes.offsetResult.toInt + (4 + sizes.fwCalcResultSize.toInt) ≤ 0 := by
  rw [CalcSizes.resultArea, CalcSizes.sendArea, Set.Ico_disjoint_Ico]
  omega

/-- The slots have no gap between them, since a step is as long as a slot or goes back by less. -/
theorem slotArea_disjoint_iff (some_ : 0 < sizes.fwCalcNum.toInt) (holds : 0 ≤ sizes.fwCalcRecvSize.toInt) :
    (∀ i : Nat, (i : Int) < sizes.fwCalcNum.toInt → Disjoint sizes.resultArea (sizes.slotArea i)) ↔
      min (sizes.offsetResult.toInt + (4 + sizes.fwCalcResultSize.toInt))
          (sizes.offsetRecv.toInt + max 0 ((sizes.fwCalcNum.toInt - 1) * sizes.oneRecvSize.toInt) +
            (4 + sizes.fwCalcRecvSize.toInt)) ≤
        max sizes.offsetResult.toInt
          (sizes.offsetRecv.toInt + min 0 ((sizes.fwCalcNum.toInt - 1) * sizes.oneRecvSize.toInt)) := by
  have four : (4 : Int32).toInt = 4 := rfl
  have touch : |sizes.oneRecvSize.toInt| ≤ 4 + sizes.fwCalcRecvSize.toInt := by
    obtain ⟨turns, step⟩ := Wrapping.toInt_add 4 sizes.fwCalcRecvSize
    have bounds := Wrapping.bounds (4 + sizes.fwCalcRecvSize)
    have bounds' := Wrapping.bounds sizes.fwCalcRecvSize
    rw [four] at step
    rw [CalcSizes.oneRecvSize, abs_le]
    omega
  obtain ⟨n, count⟩ : ∃ n : Nat, sizes.fwCalcNum.toInt = n + 1 := ⟨(sizes.fwCalcNum.toInt - 1).toNat, by omega⟩
  rw [count, add_sub_cancel_right, ← Strips.disjoint_strips_iff touch n]
  constructor
  · intro apart i bound
    exact apart i (by omega)
  · intro apart i bound
    exact apart i (by omega)

theorem apart_iff_clear (some_ : 0 < sizes.fwCalcNum.toInt) (holds : 0 ≤ sizes.fwCalcRecvSize.toInt) :
    (Disjoint sizes.resultArea sizes.sendArea ∧
        ∀ i : Nat, (i : Int) < sizes.fwCalcNum.toInt → Disjoint sizes.resultArea (sizes.slotArea i)) ↔ sizes.Clear := by
  rw [sendArea_disjoint_iff, slotArea_disjoint_iff some_ holds, CalcSizes.Clear]
  generalize (sizes.fwCalcNum.toInt - 1) * sizes.oneRecvSize.toInt = reach
  omega

/-- Offsets that do not wrap put the slots behind the request, and the result behind them or 2^32 before. -/
theorem clear_iff (some_ : 0 < sizes.fwCalcNum.toInt) (holds : 0 ≤ sizes.fwCalcRecvSize.toInt)
    (send : sizes.fwCalcSendSize.toInt < 2147483644) (recv : sizes.fwCalcRecvSize.toInt < 2147483644) :
    sizes.Clear ↔ sizes.fwCalcResultSize.toInt ≤ -4 ∨ sizes.total < 2147483648 ∨
      sizes.total.bmod (2 ^ 32) + (4 + sizes.fwCalcResultSize.toInt) ≤ min 0 (4 + sizes.fwCalcSendSize.toInt) := by
  have four : (4 : Int32).toInt = 4 := rfl
  have sendBounds := Wrapping.bounds sizes.fwCalcSendSize
  have step : sizes.oneRecvSize.toInt = 4 + sizes.fwCalcRecvSize.toInt := by
    rw [CalcSizes.oneRecvSize, Wrapping.toInt_add_of_fits (by omega) (by omega), four]
  have first : sizes.offsetRecv.toInt = 4 + sizes.fwCalcSendSize.toInt := by
    rw [CalcSizes.offsetRecv, Wrapping.toInt_add_of_fits (by omega) (by omega), four]
  have behind : sizes.offsetResult.toInt = sizes.total.bmod (2 ^ 32) := by
    rw [CalcSizes.offsetResult, Int32.toInt_add, Int32.toInt_mul, Int.add_bmod_bmod, first, step, CalcSizes.total, mul_comm]
  have reach : 0 ≤ (sizes.fwCalcNum.toInt - 1) * (4 + sizes.fwCalcRecvSize.toInt) :=
    mul_nonneg (by omega) (by omega)
  have last : sizes.total = 4 + sizes.fwCalcSendSize.toInt +
      (sizes.fwCalcNum.toInt - 1) * (4 + sizes.fwCalcRecvSize.toInt) + (4 + sizes.fwCalcRecvSize.toInt) := by
    rw [CalcSizes.total]
    ring
  have resultBounds := Wrapping.bounds sizes.offsetResult
  obtain ⟨turns, wraps⟩ := Wrapping.bmod_eq sizes.total
  simp only [CalcSizes.Clear, step, first]
  rw [behind] at resultBounds ⊢
  generalize (sizes.fwCalcNum.toInt - 1) * (4 + sizes.fwCalcRecvSize.toInt) = reached at *
  generalize sizes.total.bmod (2 ^ 32) = result at *
  omega

/-- The areas are apart when the sizes put them apart. -/
theorem apart_iff (some_ : 0 < sizes.fwCalcNum.toInt) (holds : 0 ≤ sizes.fwCalcRecvSize.toInt) :
    (Disjoint sizes.resultArea sizes.sendArea ∧
        ∀ i : Nat, (i : Int) < sizes.fwCalcNum.toInt → Disjoint sizes.resultArea (sizes.slotArea i)) ↔ sizes.Placed := by
  rw [apart_iff_clear some_ holds, CalcSizes.Placed]
  split
  · rename_i small
    exact clear_iff some_ holds small.1 small.2
  · exact Iff.rfl

end Apart

/-- A reply that passes the tests stays inside its slot, and its sums inside the result, exactly when its count is below
2^30, the result has room for so many sums and the sizes put it apart. -/
theorem inside_iff {allocates : Int32 → Bool} (block : Block allocates) (stored : Stored block.toCalcSizes) :
    (¬ stored.answer.Refused → stored.Inside) ↔
      (¬ stored.answer.Refused → stored.answer.count.toInt < 1073741824 ∧
        (stored.answer.count.toInt ≤ 0 ∨ 4 + 4 * stored.answer.count.toInt ≤ block.fwCalcResultSize.toInt) ∧
        block.Placed) := by
  have some_ : 0 < block.fwCalcNum.toInt := by
    have := stored.ofMachine
    omega
  have holds : 0 ≤ block.fwCalcRecvSize.toInt := by
    have := stored.received
    have := stored.fits
    omega
  refine forall_congr' fun passed => ?_
  rw [← stored.powers_iff passed, ← stored.sums_iff, ← apart_iff some_ holds]
  exact ⟨fun ⟨powers, sums, send, slots⟩ => ⟨powers, sums, send, slots⟩,
    fun ⟨powers, sums, send, slots⟩ => ⟨powers, sums, send, slots⟩⟩

/-- A reply of eight bytes whose count is 2^30 + 1. -/
def oversized : Answer where
  length := 8
  bytes := fun offset => [1, 0, 0, 64][offset]?.getD 0

/-- A block for one calculator, with 100 bytes each for the request, the reply and the result. -/
def smallBlock : Block fun _ => true where
  fwCalcSendSize := 100
  fwCalcRecvSize := 100
  fwCalcResultSize := 100
  fwCalcNum := 1
  machines := by decide
  memory := rfl

theorem product_wraps_past_the_slot :
    ¬ ∀ (block : Block fun _ => true) (stored : Stored block.toCalcSizes), ¬ stored.answer.Refused → stored.Inside := by
  intro inside
  have passed : ¬ oversized.Refused := by decide
  have all := (inside smallBlock ⟨0, by decide, oversized, by decide, by decide⟩ passed).powers 1 (by decide)
  have first := (Set.Ico_subset_Ico_iff (by omega)).mp all
  have length : oversized.length.toInt = 8 := by decide
  change _ ≤ _ ∧ _ ≤ _ + (4 + oversized.length.toInt) at first
  omega

end ContentBased.QueryProcessor
