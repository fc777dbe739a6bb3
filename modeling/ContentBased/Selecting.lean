import ContentBased.Marshaler
import ContentBased.Library.Roulette

namespace ContentBased.Marshaler
open Finset

/-- The trend at a place of the vector. -/
def trendAt (trends : VectorPair) (i : Nat) : Int32 × ℚ := trends.getD i (0, 0)

def weightAt (trends : VectorPair) (i : Nat) : ℚ := (trendAt trends i).2

theorem getElem?_trendAt {trends : VectorPair} {i : Nat} (inside : i < trends.length) :
    trends[i]? = some (trendAt trends i) := by
  rw [trendAt, List.getD_eq_getElem?_getD, List.getElem?_eq_getElem inside, Option.getD_some]

theorem fetch_trendAt {trends : VectorPair} {i : Nat} (inside : i < trends.length) :
    fetch trends i = .ok (trendAt trends i) := by
  simp only [fetch, getElem?_trendAt inside]

theorem store_ok {α : Type} {xs : List α} {i : Nat} (inside : i < xs.length) (x : α) :
    store xs i x = .ok (xs.set i x) := if_pos inside

/-- The weights are not negative and add up to one. -/
structure Normalized (trends : VectorPair) : Prop where
  nonneg : ∀ trend ∈ trends, 0 ≤ trend.2
  total : (trends.map Prod.snd).sum = 1

theorem sum_weightAt (trends : VectorPair) :
    ∑ i ∈ range trends.length, weightAt trends i = (trends.map Prod.snd).sum := by
  have same : trends.map Prod.snd = (List.range trends.length).map (weightAt trends) := by
    refine List.ext_getElem? fun i => ?_
    by_cases inside : i < trends.length
    · simp only [List.getElem?_map, getElem?_trendAt inside, List.getElem?_range inside, Option.map_some, weightAt]
    · simp only [List.getElem?_map, List.getElem?_eq_none (not_lt.mp inside), Option.map_none,
        List.getElem?_eq_none (show (List.range trends.length).length ≤ i by simpa using inside)]
  rw [same]
  rfl

/-- The first `bound` flags say which places are marked, and `tw` is the weight of these. -/
structure Marked (interests : VectorPair) (bound : Nat) (totalFlags : List (Option Int)) (tw : ℚ)
    (marked : Finset Nat) : Prop where
  size : totalFlags.length = 100
  flag : ∀ i < bound, totalFlags[i]? = some (some (if i ∈ marked then 1 else 0))
  inside : marked ⊆ range bound
  weight : tw = ∑ i ∈ marked, weightAt interests i

section
variable {interests : VectorPair} {bound : Nat} {totalFlags : List (Option Int)} {tw : ℚ} {marked : Finset Nat}

theorem Marked.fetchCell_eq (holds : Marked interests bound totalFlags tw marked) {i : Nat} (below : i < bound) :
    fetchCell totalFlags i = .ok (if i ∈ marked then 1 else 0) := by
  simp only [fetchCell, fetch, holds.flag i below]
  rfl

theorem Marked.set_flag (holds : Marked interests bound totalFlags tw marked) {i : Nat} (small : bound ≤ 100)
    (below : i < bound) : Marked interests bound (totalFlags.set i (some 1)) (∑ j ∈ insert i marked, weightAt interests j)
      (insert i marked) where
  size := by rw [List.length_set, holds.size]
  flag j under := by
    by_cases same : j = i
    · subst same
      rw [List.getElem?_set_self (by rw [holds.size]; omega), if_pos (mem_insert_self j marked)]
    · rw [List.getElem?_set_ne (Ne.symm same), holds.flag j under]
      simp only [mem_insert, same, false_or]
  inside := insert_subset (mem_range.mpr below) holds.inside
  weight := rfl

/-- One more flag is copied. -/
theorem Marked.extend (holds : Marked interests bound totalFlags tw marked) (room : bound < 100) {flag : Int}
    (bit : flag = 0 ∨ flag = 1) : Marked interests (bound + 1) (totalFlags.set bound (some flag))
      (if flag = 1 then tw + weightAt interests bound else tw) (if flag = 1 then insert bound marked else marked) := by
  have fresh : bound ∉ marked := fun member => absurd (mem_range.mp (holds.inside member)) (lt_irrefl bound)
  refine ⟨by rw [List.length_set, holds.size], fun j under => ?_, fun j member => ?_, ?_⟩
  · by_cases same : j = bound
    · subst same
      rw [List.getElem?_set_self (by rw [holds.size]; omega)]
      rcases bit with rfl | rfl
      · simp [fresh]
      · simp
    · rw [List.getElem?_set_ne (Ne.symm same), holds.flag j (by omega)]
      rcases bit with rfl | rfl
      · simp
      · simp [same]
  · have older : j ∈ marked → j < bound := fun member => mem_range.mp (holds.inside member)
    rw [mem_range]
    split at member
    · rcases mem_insert.mp member with rfl | member
      · omega
      · have := older member
        omega
    · have := older member
      omega
  · split
    · rw [sum_insert fresh, holds.weight, add_comm]
    · exact holds.weight

theorem copyFlags_ok (holds : Marked interests bound totalFlags tw marked) (flags : List Int)
    (bits : ∀ flag ∈ flags, flag = 0 ∨ flag = 1) (length : bound + flags.length = interests.length)
    (small : interests.length ≤ 100) :
    ∃ totalFlags' tw' marked', copyFlags interests flags bound totalFlags tw = .ok (totalFlags', tw') ∧
      Marked interests interests.length totalFlags' tw' marked' ∧
      ∀ i, i ∈ marked' ↔ i ∈ marked ∨ bound ≤ i ∧ flags[i - bound]? = some 1 := by
  induction flags generalizing bound totalFlags tw marked with
  | nil =>
    obtain rfl : bound = interests.length := by simpa using length
    exact ⟨totalFlags, tw, marked, rfl, holds, by simp⟩
  | cons flag flags ih =>
    rw [List.length_cons] at length
    have bit := bits flag List.mem_cons_self
    obtain ⟨totalFlags', tw', marked', run, holds', same⟩ := ih (holds.extend (by omega) bit)
      (fun flag member => bits flag (List.mem_cons_of_mem _ member)) (by omega)
    refine ⟨totalFlags', tw', marked', ?_, holds', fun i => ?_⟩
    · have room : bound < totalFlags.length := by rw [holds.size]; omega
      simp only [copyFlags, store_ok room, fetch_trendAt (show bound < interests.length by omega), bind, Except.bind]
      rcases bit with rfl | rfl
      · exact run
      · exact run
    · rw [same]
      rcases Nat.lt_trichotomy i bound with older | rfl | newer
      · have before : ¬ bound ≤ i ∧ ¬ bound + 1 ≤ i ∧ i ≠ bound := by omega
        rcases bit with rfl | rfl <;> simp [before]
      · rcases bit with rfl | rfl <;> simp
      · have after : bound ≤ i ∧ bound + 1 ≤ i ∧ i ≠ bound := by omega
        have shift : i - bound = i - (bound + 1) + 1 := by omega
        rcases bit with rfl | rfl <;> simp [after, shift]

theorem copyMask_ok (holds : Marked interests interests.length totalFlags tw marked) (mask : List Int)
    (inRange : ∀ place ∈ mask, 0 ≤ place ∧ place < interests.length) (small : interests.length ≤ 100) :
    ∃ totalFlags' tw' marked', copyMask interests mask totalFlags tw = .ok (totalFlags', tw') ∧
      Marked interests interests.length totalFlags' tw' marked' ∧
      ∀ i : Nat, i ∈ marked' ↔ i ∈ marked ∨ (i : Int) ∈ mask := by
  induction mask generalizing totalFlags tw marked with
  | nil => exact ⟨totalFlags, tw, marked, rfl, holds, by simp⟩
  | cons place mask ih =>
    obtain ⟨nonneg, below⟩ := inRange place List.mem_cons_self
    have inRange' := fun place member => inRange place (List.mem_cons_of_mem _ member)
    have inside : place.toNat < interests.length := by omega
    have isPlace (i : Nat) : (i : Int) = place ↔ i = place.toNat := by omega
    by_cases old : place.toNat ∈ marked
    · obtain ⟨totalFlags', tw', marked', run, holds', same⟩ := ih holds inRange'
      refine ⟨totalFlags', tw', marked', ?_, holds', fun i => ?_⟩
      · simp only [copyMask, nonneg, holds.fetchCell_eq inside, old, bind, Except.bind, if_true, one_ne_zero, if_false]
        exact run
      · rw [same, List.mem_cons, isPlace]
        constructor
        · exact fun member => member.imp_right .inr
        · rintro (member | rfl | member)
          · exact .inl member
          · exact .inl old
          · exact .inr member
    · obtain ⟨totalFlags', tw', marked', run, holds', same⟩ := ih (holds.set_flag small inside) inRange'
      rw [sum_insert old, ← holds.weight, add_comm] at run
      refine ⟨totalFlags', tw', marked', ?_, holds', fun i => ?_⟩
      · have room : place.toNat < totalFlags.length := by rw [holds.size]; omega
        simp only [copyMask, nonneg, holds.fetchCell_eq inside, old, bind, Except.bind, if_true, if_false,
          store_ok room, fetch_trendAt inside]
        exact run
      · rw [same, List.mem_cons, isPlace, mem_insert]
        tauto

/-- The weights that can still be drawn. -/
def freeWeights (interests : VectorPair) (marked : Finset Nat) : List ℚ :=
  (interests.zipIdx 0).map fun p => if p.2 ∈ marked then 0 else p.1.2

theorem getElem?_freeWeights (interests : VectorPair) (marked : Finset Nat) (i : Nat) :
    (freeWeights interests marked)[i]? = interests[i]?.map fun p => if i ∈ marked then 0 else p.2 := by
  rw [freeWeights, List.getElem?_map, List.getElem?_zipIdx, Option.map_map, Nat.zero_add]
  rfl

theorem freeWeights_of_lt {i : Nat} (marked : Finset Nat) (below : i < interests.length) :
    (freeWeights interests marked)[i]? = some (if i ∈ marked then 0 else weightAt interests i) := by
  rw [getElem?_freeWeights, getElem?_trendAt below]
  rfl

theorem freeWeights_nonneg (normalized : Normalized interests) (marked : Finset Nat) :
    ∀ weight ∈ freeWeights interests marked, 0 ≤ weight := by
  intro weight member
  obtain ⟨p, present, rfl⟩ := List.mem_map.mp member
  split
  · exact le_rfl
  · exact normalized.nonneg _ (List.fst_mem_of_mem_zipIdx present)

theorem sum_freeWeights (inside : marked ⊆ range interests.length) :
    (freeWeights interests marked).sum = (interests.map Prod.snd).sum - ∑ i ∈ marked, weightAt interests i := by
  have same : freeWeights interests marked =
      (List.range interests.length).map fun i => if i ∈ marked then 0 else weightAt interests i := by
    refine List.ext_getElem? fun i => ?_
    rw [getElem?_freeWeights, List.getElem?_map]
    by_cases below : i < interests.length
    · rw [getElem?_trendAt below, List.getElem?_range below]
      rfl
    · rw [List.getElem?_eq_none (not_lt.mp below), List.getElem?_eq_none (by simpa using below)]
      rfl
  have split := sum_sdiff inside (f := weightAt interests)
  have free : (freeWeights interests marked).sum = ∑ i ∈ range interests.length \ marked, weightAt interests i := by
    rw [same]
    change ∑ i ∈ range interests.length, (if i ∈ marked then 0 else weightAt interests i) = _
    rw [sdiff_eq_filter, sum_filter]
    exact sum_congr rfl fun i _ => by by_cases member : i ∈ marked <;> simp [member]
  rw [free, ← sum_weightAt, ← split]
  ring

/-- What `stopAt` returns for the place `j` counted from `i`. -/
def returned (i : Nat) : Option Nat → Int
  | none => -1
  | some j => (i + j : Nat)

theorem returned_succ (i : Nat) (stop : Option Nat) : returned i (stop.map (· + 1)) = returned (i + 1) stop := by
  cases stop with
  | none => rfl
  | some j =>
    simp only [returned, Option.map_some]
    omega

theorem stopAt_eq (holds : Marked interests interests.length totalFlags tw marked) {remaining r v : ℚ} {i : Nat}
    (rest : VectorPair) (fits : i + rest.length ≤ interests.length) (below : v * 100 ≤ r) :
    stopAt totalFlags remaining r rest i v = .ok (returned i (Roulette.spin (r / 100) v
      ((rest.zipIdx i).map fun p => (if p.2 ∈ marked then 0 else p.1.2) / remaining))) := by
  have exceeded (x : ℚ) : r / 100 < x ↔ r < x * 100 := div_lt_iff₀ (by norm_num)
  induction rest generalizing i v with
  | nil => rfl
  | cons interest rest ih =>
    rw [List.length_cons] at fits
    simp only [stopAt, holds.fetchCell_eq (show i < interests.length by omega), bind, Except.bind,
      List.zipIdx_cons, List.map_cons, Roulette.spin, exceeded]
    by_cases member : i ∈ marked
    · simp only [member, if_true, zero_div, add_zero, if_neg (not_lt.mpr below), returned_succ]
      exact ih (by omega) below
    · simp only [member, if_false, zero_ne_one]
      by_cases here : r < (v + interest.2 / remaining) * 100
      · rw [if_pos here, if_pos here]
        rfl
      · rw [if_neg here, if_neg here, returned_succ]
        exact ih (by omega) (not_lt.mp here)

end

/-- The place is left out by its flag or by the mask. -/
def Excluded (flags mask : List Int) (i : Nat) : Prop := flags[i]? = some 1 ∨ (i : Int) ∈ mask

/-- A draw spins the roulette of the weights that are not excluded. -/
theorem selectInteresting_spin {interests : VectorPair} {flags mask : List Int} (normalized : Normalized interests)
    (small : interests.length ≤ 100) (length : flags.length = interests.length)
    (bits : ∀ flag ∈ flags, flag = 0 ∨ flag = 1)
    (inRange : ∀ place ∈ mask, 0 ≤ place ∧ place < interests.length) (draw : Fin 100) :
    ∃ marked : Finset Nat, (∀ i, i ∈ marked ↔ Excluded flags mask i) ∧ selectInteresting interests flags mask draw =
      .ok (returned 0 (Roulette.spin ((draw.val : ℚ) / 100) 0 (Roulette.shares (freeWeights interests marked)))) := by
  have start : Marked interests 0 (List.replicate 100 none) 0 ∅ :=
    ⟨List.length_replicate, fun i below => absurd below (Nat.not_lt_zero i), Finset.Subset.refl _, rfl⟩
  obtain ⟨copied, tw₁, set₁, run₁, holds₁, same₁⟩ := copyFlags_ok start flags bits (by omega) small
  obtain ⟨masked, tw₂, set₂, run₂, holds₂, same₂⟩ := copyMask_ok holds₁ mask inRange small
  have remaining : 1 - tw₂ = (freeWeights interests set₂).sum := by
    rw [sum_freeWeights holds₂.inside, normalized.total, holds₂.weight]
  refine ⟨set₂, fun i => ?_, ?_⟩
  · rw [same₂, same₁, Excluded]
    simp
  · simp only [selectInteresting, run₁, run₂, bind, Except.bind]
    rw [stopAt_eq holds₂ interests (by omega) (by rw [zero_mul]; positivity), remaining, Roulette.shares, freeWeights,
      List.map_map]
    rfl

/-- A draw goes to an interest that is not excluded and has a positive weight; it goes to none only
when there is no such interest. -/
theorem selectInteresting_ok {interests : VectorPair} {flags mask : List Int} (normalized : Normalized interests)
    (small : interests.length ≤ 100) (length : flags.length = interests.length)
    (bits : ∀ flag ∈ flags, flag = 0 ∨ flag = 1)
    (inRange : ∀ place ∈ mask, 0 ≤ place ∧ place < interests.length) (draw : Fin 100) :
    ∃ target, selectInteresting interests flags mask draw = .ok target ∧
      (target = -1 ∧ (∀ i < interests.length, Excluded flags mask i ∨ weightAt interests i = 0) ∨
        ∃ i : Nat, target = i ∧ i < interests.length ∧ ¬ Excluded flags mask i ∧ 0 < weightAt interests i) := by
  obtain ⟨marked, excluded, run⟩ := selectInteresting_spin normalized small length bits inRange draw
  have nonneg := freeWeights_nonneg normalized marked
  have draw_nonneg : (0 : ℚ) ≤ draw.val / 100 := by positivity
  have draw_lt : (draw.val : ℚ) / 100 < 1 := by
    have bound : (draw.val : ℚ) < 100 := by exact_mod_cast draw.isLt
    linarith
  refine ⟨_, run, ?_⟩
  cases stop : Roulette.spin ((draw.val : ℚ) / 100) 0 (Roulette.shares (freeWeights interests marked)) with
  | none =>
    refine .inl ⟨rfl, fun i below => ?_⟩
    have zero := (Roulette.shares_none_iff nonneg draw_nonneg draw_lt).mp stop _
      (List.mem_of_getElem? (freeWeights_of_lt marked below))
    by_cases member : i ∈ marked
    · exact .inl ((excluded i).mp member)
    · rw [if_neg member] at zero
      exact .inr zero
  | some i =>
    obtain ⟨weight, at_, positive⟩ := Roulette.shares_pos nonneg draw_nonneg stop
    have below : i < interests.length := by
      have bound := (List.getElem?_eq_some_iff.mp at_).1
      simpa [freeWeights] using bound
    rw [freeWeights_of_lt marked below] at at_
    obtain rfl := Option.some.inj at_
    have member : i ∉ marked := fun member => by simp [member] at positive
    rw [if_neg member] at positive
    exact .inr ⟨i, by rw [returned, Nat.zero_add], below, fun out => member ((excluded i).mpr out), positive⟩

end ContentBased.Marshaler
