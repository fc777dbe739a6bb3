import ContentBased.Shuffling

namespace ContentBased.Marshaler

/-- The weight of the first `m` trends. -/
def weightOfFirst (trends : VectorPair) (m : Nat) : ℚ := ((trends.take m).map Prod.snd).sum

/-- As many of the first trends as both `marshaler_topt` and `marshaler_r1` want reserved. -/
def Enough (options : ModelOptions) (trends : VectorPair) (m : Nat) : Prop :=
  1 ≤ m ∧ asSize options.marshalerTopt ≤ m ∧ options.marshalerR1 < weightOfFirst trends m

/-- The value of `TOPT` that the first loop runs to. -/
def reserved (options : ModelOptions) (trends : VectorPair) : Nat :=
  atLeast (exceeds options.marshalerR1 trends 0 0) options.marshalerTopt

def blockSize (options : ModelOptions) (trends : VectorPair) : Nat :=
  atLeast (exceeds options.marshalerR2 trends 0 0) options.marshalerP

theorem atLeast_le_iff {i m : Nat} {option : Int32} : atLeast i option ≤ m ↔ i + 1 ≤ m ∧ asSize option ≤ m := by
  rw [atLeast]
  split <;> omega

theorem atLeast_pos (i : Nat) (option : Int32) : 0 < atLeast i option := by
  rw [atLeast]
  split <;> omega

theorem le_exceeds (r : ℚ) (trends : VectorPair) (i : Nat) (pr : ℚ) : i ≤ exceeds r trends i pr := by
  induction trends generalizing i pr with
  | nil => exact le_rfl
  | cons trend trends ih =>
    rw [exceeds]
    split
    · exact le_rfl
    · have later := ih (i + 1) (pr + trend.2)
      omega

theorem weightOfFirst_nonneg {trends : VectorPair} (nonneg : ∀ trend ∈ trends, 0 ≤ trend.2) (m : Nat) :
    0 ≤ weightOfFirst trends m := by
  refine List.sum_nonneg fun weight member => ?_
  obtain ⟨trend, picked, rfl⟩ := List.mem_map.mp member
  exact nonneg trend (List.mem_of_mem_take picked)

theorem weightOfFirst_length {trends : VectorPair} (normalized : Normalized trends) {m : Nat}
    (whole : trends.length ≤ m) : weightOfFirst trends m = 1 := by
  rw [weightOfFirst, List.take_of_length_le whole, normalized.total]

/-- The place is before the end of the first `m` when these weigh more than `r`. -/
theorem exceeds_lt_iff (r pr : ℚ) (i : Nat) {trends : VectorPair} {m : Nat} (nonneg : ∀ trend ∈ trends, 0 ≤ trend.2)
    (inside : m ≤ trends.length) (start : 1 ≤ m ∨ pr ≤ r) :
    exceeds r trends i pr < i + m ↔ r < pr + weightOfFirst trends m := by
  induction trends generalizing i pr m with
  | nil =>
    obtain rfl : m = 0 := by simpa using inside
    have below : pr ≤ r := by simpa using start
    simpa [exceeds, weightOfFirst] using below
  | cons trend trends ih =>
    have rest := fun trend member => nonneg trend (List.mem_cons_of_mem _ member)
    cases m with
    | zero =>
      have from_ := le_exceeds r (trend :: trends) i pr
      have below : pr ≤ r := by simpa using start
      simp only [weightOfFirst, List.take_zero, List.map_nil, List.sum_nil, add_zero]
      constructor
      · intro less
        omega
      · intro less
        exact absurd below (not_le.mpr less)
    | succ m =>
      have split : pr + weightOfFirst (trend :: trends) (m + 1) = pr + trend.2 + weightOfFirst trends m := by
        simp only [weightOfFirst, List.take_succ_cons, List.map_cons, List.sum_cons, add_assoc]
      rw [split, exceeds]
      by_cases here : r < pr + trend.2
      · have grows := weightOfFirst_nonneg rest m
        rw [if_pos here]
        exact iff_of_true (by omega) (by linarith)
      · rw [if_neg here, ← ih (pr + trend.2) (i + 1) rest (by simpa using inside) (.inr (not_lt.mp here)),
          show i + 1 + m = i + (m + 1) by omega]

section
variable {options : ModelOptions} {trends : VectorPair}

theorem reserved_pos (options : ModelOptions) (trends : VectorPair) : 0 < reserved options trends := atLeast_pos _ _

theorem reserved_le_iff (normalized : Normalized trends) {m : Nat} (inside : m ≤ trends.length) :
    reserved options trends ≤ m ↔ Enough options trends m := by
  rw [reserved, atLeast_le_iff, Enough]
  by_cases some_ : 1 ≤ m
  · have place := exceeds_lt_iff options.marshalerR1 0 0 normalized.nonneg inside (.inl some_)
    rw [zero_add, zero_add] at place
    rw [← place, Nat.succ_le_iff]
    exact ⟨fun both => ⟨some_, both.2, both.1⟩, fun all => ⟨all.2.2, all.2.1⟩⟩
  · exact iff_of_false (by omega) fun all => some_ all.1

theorem Normalized.length_pos (normalized : Normalized trends) : 0 < trends.length := by
  refine List.length_pos_iff.mpr fun empty => ?_
  have total := normalized.total
  rw [empty] at total
  simp at total

theorem reserved_le_length_iff (normalized : Normalized trends) :
    reserved options trends ≤ trends.length ↔
      asSize options.marshalerTopt ≤ trends.length ∧ options.marshalerR1 < 1 := by
  have some_ := normalized.length_pos
  rw [reserved_le_iff normalized le_rfl, Enough, weightOfFirst_length normalized le_rfl]
  exact ⟨fun all => all.2, fun both => ⟨some_, both⟩⟩

theorem enough_iff (normalized : Normalized trends) (inside : reserved options trends ≤ trends.length) {m : Nat} :
    Enough options trends m ↔ reserved options trends ≤ m := by
  by_cases within : m ≤ trends.length
  · exact (reserved_le_iff normalized within).symm
  · obtain ⟨topt, light⟩ := (reserved_le_length_iff normalized).mp inside
    refine iff_of_true ⟨by omega, by omega, ?_⟩ (by omega)
    rwa [weightOfFirst_length normalized (by omega)]

theorem isLeast_reserved (normalized : Normalized trends) (inside : reserved options trends ≤ trends.length) :
    IsLeast {m | Enough options trends m} (reserved options trends) :=
  ⟨(enough_iff normalized inside).mpr le_rfl, fun _ enough => (enough_iff normalized inside).mp enough⟩

/-- When there are enough trends, `marshal` comes to its second loop. -/
theorem marshal_eq (gap : 0 < options.marshalerN.toInt) (inside : reserved options trends ≤ trends.length) :
    ∃ shuffle, Filled trends options.marshalerN (reserved options trends) shuffle [] ∧
      shuffle.results.length = reserved options trends ∧ ∀ T draws turns, marshal options trends T [] draws turns =
        (fill trends (blockSize options trends) options.marshalerN T turns draws shuffle).map
          (Option.map fun final => (.ok (), final.results)) := by
  obtain ⟨shuffle, run, holds⟩ := reserve_ok gap (reserved options trends) (.start trends options.marshalerN)
    (by rwa [Nat.zero_add])
  rw [Nat.zero_add] at holds
  have filled : Filled trends options.marshalerN (reserved options trends)
      { shuffle with trendFlags := List.replicate trends.length 0, k := 0 } [] := by
    refine ⟨?_, by simp⟩
    rw [List.append_nil]
    exact holds.withFlags 0 List.length_replicate (replicate_bits _)
  refine ⟨_, filled, filled.length_results, fun T draws turns => ?_⟩
  · have start : reserve trends options.marshalerN
        (atLeast (exceeds options.marshalerR1 trends 0 0) options.marshalerTopt - ([] : VectorPair).length)
        ⟨[], List.replicate options.marshalerN.toInt.toNat 0, List.replicate trends.length 0, 0, 0⟩ = .ok shuffle := run
    simp only [marshal, if_neg (not_lt.mpr gap.le), start, bind, Except.bind]
    rfl

/-- A ring of no places cannot be written to. -/
theorem marshal_zeroDivisor (empty : options.marshalerN.toInt = 0) (some_ : 0 < trends.length) (T : Nat)
    (draws : Nat → Fin 100) (turns : Nat) : marshal options trends T [] draws turns = .error .zeroDivisor := by
  have divisor : asSize options.marshalerN = 0 := by rw [asSize, empty]; rfl
  obtain ⟨more, turns_eq⟩ := Nat.exists_eq_succ_of_ne_zero (reserved_pos options trends).ne'
  rw [reserved] at turns_eq
  have nonneg : ¬ options.marshalerN.toInt < 0 := by omega
  simp only [marshal, if_neg nonneg, turns_eq, List.length_nil, Nat.sub_zero, Nat.succ_eq_add_one, reserve,
    fetch_trendAt some_, modulo, divisor, if_true, bind, Except.bind]

theorem marshal_trap (gap : 0 < options.marshalerN.toInt) (beyond : trends.length < reserved options trends) (T : Nat)
    (draws : Nat → Fin 100) (turns : Nat) : marshal options trends T [] draws turns = .error .outOfRange := by
  have overrun := reserve_trap gap (reserved options trends) (.start trends options.marshalerN)
    (by rwa [Nat.zero_add]) (Nat.zero_le _)
  rw [reserved] at overrun
  simp only [marshal, if_neg (not_lt.mpr gap.le), List.length_nil, Nat.sub_zero, overrun, bind, Except.bind]

theorem marshal_lengthError (negative : options.marshalerN.toInt < 0) (T : Nat) (draws : Nat → Fin 100) (turns : Nat) :
    marshal options trends T [] draws turns = .error .lengthError := by
  simp only [marshal, if_pos negative]

theorem fits (normalized : Normalized trends) (small : trends.length ≤ 100) (gap : 0 < options.marshalerN.toInt) :
    Fits trends options.marshalerN (reserved options trends) (blockSize options trends) :=
  ⟨normalized, small, gap, reserved_pos options trends, atLeast_pos _ _⟩

/-- No more places are asked for than the trends that are reserved anyway. -/
def OnlyReserved (options : ModelOptions) (trends : VectorPair) (T : Nat) : Prop :=
  T ≤ 1 ∨ T ≤ asSize options.marshalerTopt ∨ weightOfFirst trends (T - 1) ≤ options.marshalerR1

theorem onlyReserved_iff (normalized : Normalized trends) (inside : reserved options trends ≤ trends.length) {T : Nat} :
    OnlyReserved options trends T ↔ T ≤ reserved options trends := by
  have notEnough : OnlyReserved options trends T ↔ ¬ Enough options trends (T - 1) := by
    rw [OnlyReserved, Enough, not_and_or, not_and_or, not_lt]
    by_cases light : weightOfFirst trends (T - 1) ≤ options.marshalerR1
    · simp only [light, or_true]
    · simp only [light, or_false]
      omega
  have some_ := reserved_pos options trends
  rw [notEnough, enough_iff normalized inside]
  omega

/-- What the results are when `marshal` returns. -/
theorem marshal_inv (normalized : Normalized trends) {T : Nat} {draws : Nat → Fin 100} {turns : Nat}
    {status : Status} {results : VectorPair}
    (returned : marshal options trends T [] draws turns = .ok (some (status, results))) :
    0 < options.marshalerN.toInt ∧ reserved options trends ≤ trends.length ∧
      (trends.length ≤ 100 ∨ T ≤ reserved options trends) ∧ status = .ok () ∧
      ∃ final all, Filled trends options.marshalerN (reserved options trends) final all ∧ results = final.results ∧
        reserved options trends + all.length = max T (reserved options trends) := by
  rcases lt_trichotomy options.marshalerN.toInt 0 with negative | empty | gap
  · rw [marshal_lengthError negative] at returned
    cases returned
  · rw [marshal_zeroDivisor empty normalized.length_pos] at returned
    cases returned
  by_cases inside : reserved options trends ≤ trends.length
  · obtain ⟨shuffle, holds, length, run⟩ := marshal_eq gap inside
    rw [run] at returned
    refine ⟨gap, inside, ?_⟩
    by_cases done : T ≤ shuffle.results.length
    · rw [fill_done done] at returned
      cases returned
      exact ⟨.inr (by omega), rfl, shuffle, [], holds, rfl, by rw [List.length_nil]; omega⟩
    by_cases small : trends.length ≤ 100
    · obtain ⟨filled, ran, ended⟩ := fill_ok holds (fits normalized small gap) T turns draws
      rw [ran] at returned
      cases filled with
      | none => cases returned
      | some final =>
        obtain ⟨all, holds', total⟩ := ended final rfl
        cases returned
        exact ⟨.inl small, rfl, final, all, holds', rfl, by simpa using total⟩
    · cases turns with
      | zero =>
        rw [fill_zero (not_le.mp done)] at returned
        cases returned
      | succ turns =>
        rw [fill_trap holds.shuffled (not_le.mp small) (not_le.mp done)] at returned
        cases returned
  · rw [marshal_trap gap (not_le.mp inside)] at returned
    cases returned

/-- An access leaves its vector or a divisor is zero exactly when the ring has no place, when more
trends are wanted reserved than there are, or when a hundred and more trends come to be drawn from. -/
theorem marshal_safe_iff (normalized : Normalized trends) (T : Nat) (draws : Nat → Fin 100) :
    (∀ turns trap, marshal options trends T [] draws turns = .error trap → trap = .lengthError) ↔
      options.marshalerN.toInt < 0 ∨ 0 < options.marshalerN.toInt ∧
        asSize options.marshalerTopt ≤ trends.length ∧ options.marshalerR1 < 1 ∧
          (trends.length ≤ 100 ∨ OnlyReserved options trends T) := by
  rcases lt_trichotomy options.marshalerN.toInt 0 with negative | empty | gap
  · refine iff_of_true (fun turns trap trapped => ?_) (.inl negative)
    rw [marshal_lengthError negative] at trapped
    exact (Except.error.inj trapped).symm
  · refine iff_of_false (fun safe => ?_) (by omega)
    cases safe 0 _ (marshal_zeroDivisor empty normalized.length_pos T draws 0)
  by_cases inside : reserved options trends ≤ trends.length
  · obtain ⟨shuffle, holds, length, run⟩ := marshal_eq gap inside
    have allowed := (reserved_le_length_iff normalized).mp inside
    rw [onlyReserved_iff normalized inside]
    constructor
    · intro safe
      refine .inr ⟨gap, allowed.1, allowed.2, ?_⟩
      by_contra unfit
      rw [not_or, not_le, not_le] at unfit
      have overflow := run T draws 1
      rw [fill_trap holds.shuffled unfit.1 (by omega)] at overflow
      cases safe 1 _ overflow
    · rintro (negative | ⟨-, -, -, fitting⟩) turns trap trapped
      · omega
      rw [run] at trapped
      by_cases done : T ≤ shuffle.results.length
      · rw [fill_done done] at trapped
        cases trapped
      · have small : trends.length ≤ 100 := fitting.resolve_right (by omega)
        obtain ⟨filled, ran, _⟩ := fill_ok holds (fits normalized small gap) T turns draws
        rw [ran] at trapped
        cases trapped
  · refine iff_of_false (fun safe => ?_) fun allowed => ?_
    · cases safe 0 _ (marshal_trap gap (not_le.mp inside) T draws 0)
    · rcases allowed with negative | ⟨-, topt, light, -⟩
      · omega
      · exact inside ((reserved_le_length_iff normalized).mpr ⟨topt, light⟩)

end

theorem normalized_pair : Normalized [(1, 3 / 4), (2, 1 / 4)] := by
  refine ⟨fun trend member => ?_, by norm_num⟩
  simp only [List.mem_cons, List.not_mem_nil, or_false] at member
  rcases member with rfl | rfl <;> norm_num

theorem marshal_safe_pair : Normalized [(1, 3 / 4), (2, 1 / 4)] ∧ ∀ turns trap,
    marshal { workPath := "", marshalerTopt := 1 } [(1, 3 / 4), (2, 1 / 4)] 5 [] (fun _ => 0) turns = .error trap →
      trap = .lengthError :=
  ⟨normalized_pair,
    (marshal_safe_iff normalized_pair 5 fun _ => 0).mpr (.inr ⟨by decide, by decide, by norm_num, .inl (by decide)⟩)⟩

/-- With the options as they come, two trends are fewer than the three to be reserved. -/
theorem marshal_unsafe_pair : Normalized [(1, 3 / 4), (2, 1 / 4)] ∧
    marshal { workPath := "" } [(1, 3 / 4), (2, 1 / 4)] 2 [] (fun _ => 0) 0 = .error .outOfRange :=
  ⟨normalized_pair, marshal_trap (by decide) (not_le.mp fun inside => absurd (atLeast_le_iff.mp inside).2 (by decide))
    2 _ 0⟩

end ContentBased.Marshaler
