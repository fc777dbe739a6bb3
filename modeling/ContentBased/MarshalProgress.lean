import ContentBased.MarshalSafety

namespace ContentBased.Marshaler
open Finset

/-- The places of positive weight outside the reserved ones that are still among the last `gap`
results after `j` draws. -/
def freePlaces (trends : VectorPair) (gap t j : Nat) : Finset Nat :=
  {i ∈ range trends.length | 0 < weightAt trends i ∧ (i + gap < t + j ∨ t ≤ i)}

section
variable {trends : VectorPair} {N : Int32} {shuffle : Shuffle} {t P : Nat} {drawn : List Nat}

theorem mem_recent_range {gap i : Nat} (few : drawn.length ≤ gap) :
    i ∈ Ring.recent gap (List.range t ++ drawn) ↔ i < t ∧ t + drawn.length ≤ i + gap ∨ i ∈ drawn := by
  rw [Ring.mem_recent]
  simp only [List.length_append, List.length_range]
  constructor
  · rintro ⟨p, at_, late⟩
    by_cases first : p < t
    · rw [List.getElem?_append_left (by rwa [List.length_range]), List.getElem?_range first] at at_
      obtain rfl := Option.some.inj at_
      exact .inl ⟨first, late⟩
    · rw [List.getElem?_append_right (by rw [List.length_range]; omega)] at at_
      exact .inr (List.mem_of_getElem? at_)
  · rintro (⟨first, late⟩ | member)
    · refine ⟨i, ?_, late⟩
      rw [List.getElem?_append_left (by rwa [List.length_range]), List.getElem?_range first]
    · obtain ⟨p, at_⟩ := List.mem_iff_getElem?.mp member
      refine ⟨t + p, ?_, by omega⟩
      rw [List.getElem?_append_right (by rw [List.length_range]; omega), List.length_range,
        show t + p - t = p by omega]
      exact at_

theorem Filled.nodup (holds : Filled trends N t shuffle drawn) (few : drawn.length ≤ N.toInt.toNat) :
    drawn.Nodup := by
  have window := holds.shuffled.spaced.nodup_window t
  rw [List.drop_append_of_le_length (by rw [List.length_range]), List.drop_of_length_le (by rw [List.length_range]),
    List.nil_append, List.take_of_length_le (few.trans (Nat.le_succ _))] at window
  exact window

/-- What is drawn was free. -/
theorem Filled.mem_freePlaces (holds : Filled trends N t shuffle drawn) {i : Nat}
    (member : i ∈ drawn) : i ∈ freePlaces trends N.toInt.toNat t drawn.length := by
  have inside := holds.shuffled.inside i (List.mem_append_right _ member)
  refine mem_filter.mpr ⟨mem_range.mpr inside, holds.weights i member, ?_⟩
  by_contra late
  rw [not_or, not_lt, not_le] at late
  obtain ⟨p, at_⟩ := List.mem_iff_getElem?.mp member
  have below := (List.getElem?_eq_some_iff.mp at_).1
  refine holds.shuffled.spaced i (t + p) i (by omega) (by omega) ?_ ?_
  · rw [List.getElem?_append_left (by rw [List.length_range]; exact late.2), List.getElem?_range late.2]
  · rw [List.getElem?_append_right (by rw [List.length_range]; omega), List.length_range,
      show t + p - t = p by omega]
    exact at_

theorem free_iff (few : drawn.length ≤ N.toInt.toNat) {i : Nat} :
    Free trends N.toInt.toNat (List.range t ++ drawn) i ↔
      i ∈ freePlaces trends N.toInt.toNat t drawn.length ∧ i ∉ drawn := by
  rw [Free, mem_recent_range few, freePlaces, mem_filter, mem_range]
  constructor
  · rintro ⟨inside, fresh, weight⟩
    rw [not_or] at fresh
    exact ⟨⟨inside, weight, by omega⟩, fresh.2⟩
  · rintro ⟨⟨inside, weight, early⟩, fresh⟩
    refine ⟨inside, ?_, weight⟩
    rintro (⟨first, late⟩ | member)
    · omega
    · exact fresh member

/-- A place is left to draw as long as fewer have been drawn than were free. -/
theorem Filled.exists_free_iff (holds : Filled trends N t shuffle drawn) (few : drawn.length ≤ N.toInt.toNat) :
    (∃ i, Free trends N.toInt.toNat (List.range t ++ drawn) i) ↔
      drawn.length < (freePlaces trends N.toInt.toNat t drawn.length).card := by
  have inside : drawn.toFinset ⊆ freePlaces trends N.toInt.toNat t drawn.length := fun i member =>
    holds.mem_freePlaces (List.mem_toFinset.mp member)
  have card : drawn.toFinset.card = drawn.length := List.toFinset_card_of_nodup (holds.nodup few)
  simp only [free_iff few]
  constructor
  · rintro ⟨i, free, fresh⟩
    have less := card_lt_card ((ssubset_iff_of_subset inside).mpr
      ⟨i, free, fun member => fresh (List.mem_toFinset.mp member)⟩)
    rwa [card] at less
  · intro more
    obtain ⟨i, free, fresh⟩ := exists_mem_notMem_of_card_lt_card (card.trans_lt more)
    exact ⟨i, free, fun member => fresh (List.mem_toFinset.mpr member)⟩

/-- With more places of positive weight than the ring has, one is always left. -/
theorem exists_free_of_many (many : N.toInt.toNat < (freePlaces trends N.toInt.toNat t N.toInt.toNat).card) :
    ∃ i, Free trends N.toInt.toNat (List.range t ++ drawn) i := by
  have few : (Ring.recent N.toInt.toNat (List.range t ++ drawn)).toFinset.card ≤ N.toInt.toNat := by
    refine (List.toFinset_card_le _).trans ?_
    rw [Ring.length_recent]
    exact min_le_left _ _
  obtain ⟨i, free, fresh⟩ := exists_mem_notMem_of_card_lt_card (few.trans_lt many)
  have found := mem_filter.mp free
  exact ⟨i, mem_range.mp found.1, fun member => fresh (List.mem_toFinset.mpr member), found.2.1⟩

/-- At each of the first places after the reserved ones a trend is left to draw. -/
def Supplied (trends : VectorPair) (gap t T : Nat) : Prop :=
  ∀ j ≤ gap, t + j < T → j < (freePlaces trends gap t j).card

theorem Filled.exists_free {T : Nat} (holds : Filled trends N t shuffle drawn)
    (supplied : Supplied trends N.toInt.toNat t T) (short : t + drawn.length < T) :
    ∃ i, Free trends N.toInt.toNat (List.range t ++ drawn) i := by
  by_cases few : drawn.length ≤ N.toInt.toNat
  · exact (holds.exists_free_iff few).mpr (supplied _ few short)
  · exact exists_free_of_many (supplied _ le_rfl (by omega))

/-- Two turns at most make the results longer, the first of them by clearing the flags. -/
theorem fill_ends {T : Nat} (holds : Filled trends N t shuffle drawn) (fits : Fits trends N t P)
    (supplied : Supplied trends N.toInt.toNat t T) (left : Nat) (enough : T ≤ t + drawn.length + left)
    (draws : Nat → Fin 100) : ∃ turns final, fill trends P N T turns draws shuffle = .ok (some final) := by
  induction left generalizing shuffle drawn draws with
  | zero =>
    have length := holds.length_results
    exact ⟨0, shuffle, fill_done (by omega) 0 draws⟩
  | succ left ih =>
    have pick {next : Shuffle} {i : Nat} (pushed : Filled trends N t next (drawn ++ [i])) (draws : Nat → Fin 100) :
        ∃ turns final, fill trends P N T turns draws next = .ok (some final) := by
      refine ih pushed ?_ draws
      rw [List.length_append, List.length_singleton]
      omega
    have cleared (shuffle : Shuffle) (draws : Nat → Fin 100) (holds : Filled trends N t shuffle drawn)
        (flags : shuffle.trendFlags = List.replicate trends.length 0) :
        ∃ turns final, fill trends P N T turns draws shuffle = .ok (some final) := by
      have length := holds.length_results
      by_cases done : T ≤ shuffle.results.length
      · exact ⟨0, shuffle, fill_done done 0 draws⟩
      obtain ⟨next, run, ⟨i, _, pushed⟩ | ⟨none, _⟩⟩ := holds.turn_cases fits (draws 0)
      · obtain ⟨turns, final, rest⟩ := pick pushed fun i => draws (i + 1)
        exact ⟨turns + 1, final, (fill_succ (not_le.mp done) run).trans rest⟩
      · obtain ⟨i, free⟩ := holds.exists_free supplied (by omega)
        have flagged := none i free
        rw [flags] at flagged
        exact absurd (List.eq_of_mem_replicate (List.mem_of_getElem? flagged)) one_ne_zero
    by_cases done : T ≤ shuffle.results.length
    · exact ⟨0, shuffle, fill_done done 0 draws⟩
    obtain ⟨next, run, ⟨i, _, pushed⟩ | ⟨_, same, flags⟩⟩ := holds.turn_cases fits (draws 0)
    · obtain ⟨turns, final, rest⟩ := pick pushed fun i => draws (i + 1)
      exact ⟨turns + 1, final, (fill_succ (not_le.mp done) run).trans rest⟩
    · obtain ⟨turns, final, rest⟩ := cleared next (fun i => draws (i + 1)) same flags
      exact ⟨turns + 1, final, (fill_succ (not_le.mp done) run).trans rest⟩

/-- Where no trend is left to draw the loop turns for ever. -/
theorem fill_stuck {T j : Nat} (holds : Filled trends N t shuffle drawn) (fits : Fits trends N t P)
    (few : j ≤ N.toInt.toNat) (short : t + j < T) (starved : (freePlaces trends N.toInt.toNat t j).card ≤ j)
    (before : drawn.length ≤ j) (turns : Nat) (draws : Nat → Fin 100) :
    fill trends P N T turns draws shuffle = .ok none := by
  induction turns generalizing shuffle drawn draws with
  | zero =>
    have length := holds.length_results
    exact fill_zero (by omega) draws
  | succ turns ih =>
    have length := holds.length_results
    obtain ⟨next, run, outcome⟩ := holds.turn_cases fits (draws 0)
    rw [fill_succ (by omega) run]
    rcases outcome with ⟨i, free, pushed⟩ | ⟨_, same, _⟩
    · refine ih pushed ?_ _
      rw [List.length_append, List.length_singleton]
      by_contra reached
      obtain rfl : drawn.length = j := by omega
      exact absurd ((holds.exists_free_iff few).mp ⟨i, free⟩) (not_lt.mpr starved)
    · exact ih same before _

end

theorem marshal_stuck {options : ModelOptions} {trends : VectorPair} (normalized : Normalized trends)
    (small : trends.length ≤ 100) (gap : 0 < options.marshalerN.toInt) (inside : reserved options trends ≤ trends.length)
    {T j : Nat} (few : j ≤ options.marshalerN.toInt.toNat) (short : reserved options trends + j < T)
    (starved : (freePlaces trends options.marshalerN.toInt.toNat (reserved options trends) j).card ≤ j)
    (draws : Nat → Fin 100) (turns : Nat) : marshal options trends T [] draws turns = .ok none := by
  obtain ⟨shuffle, holds, -, run⟩ := marshal_eq gap inside
  rw [run, fill_stuck holds (fits normalized small gap) few short starved (Nat.zero_le j)]
  rfl

/-- `marshal` returns exactly when its accesses are good and, after the places `t` that it reserves,
each of the first `N + 1` results still asked for has a trend to be drawn from. -/
theorem marshal_terminates_iff {options : ModelOptions} {trends : VectorPair} (normalized : Normalized trends)
    (gap : 1 ≤ options.marshalerN.toInt) (T : Nat) (draws : Nat → Fin 100) :
    (∃ turns results, marshal options trends T [] draws turns = .ok (some (.ok (), results))) ↔
      asSize options.marshalerTopt ≤ trends.length ∧ options.marshalerR1 < 1 ∧
        (trends.length ≤ 100 ∨ OnlyReserved options trends T) ∧
          ∀ t, IsLeast {m | Enough options trends m} t → Supplied trends options.marshalerN.toInt.toNat t T := by
  constructor
  · rintro ⟨turns, results, returned⟩
    obtain ⟨-, inside, fitting, -⟩ := marshal_inv normalized returned
    obtain ⟨topt, light⟩ := (reserved_le_length_iff normalized).mp inside
    rw [onlyReserved_iff normalized inside]
    refine ⟨topt, light, fitting, fun t least j few short => ?_⟩
    obtain rfl := least.unique (isLeast_reserved normalized inside)
    by_contra starved
    have small : trends.length ≤ 100 := fitting.resolve_right (by omega)
    rw [marshal_stuck normalized small gap inside few short (not_lt.mp starved)] at returned
    cases returned
  · rintro ⟨topt, light, fitting, supplied⟩
    have inside := (reserved_le_length_iff normalized).mpr ⟨topt, light⟩
    obtain ⟨shuffle, holds, length, run⟩ := marshal_eq gap inside
    rw [onlyReserved_iff normalized inside] at fitting
    by_cases done : T ≤ shuffle.results.length
    · refine ⟨0, shuffle.results, ?_⟩
      rw [run, fill_done done]
      rfl
    · have small : trends.length ≤ 100 := fitting.resolve_right (by omega)
      obtain ⟨turns, final, ended⟩ := fill_ends holds (fits normalized small gap)
        (supplied _ (isLeast_reserved normalized inside)) T (Nat.le_add_left _ _) draws
      refine ⟨turns, final.results, ?_⟩
      rw [run, ended]
      rfl

theorem normalized_single : Normalized [(1, 1)] := by
  refine ⟨fun trend member => ?_, by norm_num⟩
  obtain rfl := List.mem_singleton.mp member
  norm_num

theorem marshal_terminates_single :
    ∃ turns results, marshal { workPath := "", marshalerTopt := 1 } [(1, 1)] 1 [] (fun _ => 0) turns =
      .ok (some (.ok (), results)) := by
  refine (marshal_terminates_iff normalized_single (by decide) 1 fun _ => 0).mpr
    ⟨by decide, by norm_num, .inl (by decide), fun t least j few short => ?_⟩
  have some_ : 1 ≤ t := least.1.1
  omega

/-- The only category is in the ring when a second result is asked for. -/
theorem marshal_stuck_single : Normalized [(1, 1)] ∧ ∀ turns,
    marshal { workPath := "", marshalerTopt := 1 } [(1, 1)] 2 [] (fun _ => 0) turns = .ok none := by
  refine ⟨normalized_single, fun turns => ?_⟩
  have inside : reserved { workPath := "", marshalerTopt := 1 } [(1, 1)] ≤ 1 :=
    (reserved_le_length_iff normalized_single).mpr ⟨by decide, by norm_num⟩
  have one : reserved { workPath := "", marshalerTopt := 1 } [(1, 1)] = 1 := le_antisymm inside (reserved_pos _ _)
  refine marshal_stuck normalized_single (by decide) (by decide) inside (j := 0) (Nat.zero_le _) ?_ ?_ _ turns
  · rw [one]
    decide
  · rw [one]
    decide +kernel

end ContentBased.Marshaler
