import ContentBased.Selecting
import ContentBased.Library.Ring

namespace ContentBased.Marshaler

theorem asSize_of_nonneg {value : Int32} (nonneg : 0 ≤ value.toInt) : asSize value = value.toInt.toNat := by
  have bound := value.toInt_lt
  rw [asSize, Int.emod_eq_of_lt nonneg (by omega)]

theorem modulo_ok {divisor : Int32} (positive : 0 < divisor.toInt) (g : Nat) :
    modulo g divisor = .ok (g % divisor.toInt.toNat) := by
  rw [modulo, asSize_of_nonneg positive.le, if_neg (by omega)]

/-- The variables after these places of the trends were put into the results. -/
structure Shuffled (trends : VectorPair) (N : Int32) (shuffle : Shuffle) (picks : List Nat) : Prop where
  results : shuffle.results = picks.map (trendAt trends)
  inside : ∀ i ∈ picks, i < trends.length
  size : shuffle.mask.length = N.toInt.toNat
  mask : Ring.Holds 0 shuffle.mask (picks.map Nat.cast)
  flags : shuffle.trendFlags.length = trends.length
  bits : ∀ flag ∈ shuffle.trendFlags, flag = 0 ∨ flag = 1
  written : shuffle.g = picks.length
  spaced : Ring.Spaced N.toInt.toNat picks

section
variable {trends : VectorPair} {N : Int32} {shuffle : Shuffle} {picks : List Nat}

theorem Shuffled.length_results (holds : Shuffled trends N shuffle picks) : shuffle.results.length = picks.length := by
  rw [holds.results, List.length_map]

theorem Shuffled.start (trends : VectorPair) (N : Int32) :
    Shuffled trends N ⟨[], List.replicate N.toInt.toNat 0, List.replicate trends.length 0, 0, 0⟩ [] where
  results := rfl
  inside _ member := absurd member List.not_mem_nil
  size := List.length_replicate
  mask := .start 0 _
  flags := List.length_replicate
  bits _ member := .inl (List.eq_of_mem_replicate member)
  written := rfl
  spaced := .of_nodup List.nodup_nil

/-- The flags and the counter `k` may be set to anything. -/
theorem Shuffled.withFlags (holds : Shuffled trends N shuffle picks) {flags : List Int} (k : Nat)
    (length : flags.length = trends.length) (bits : ∀ flag ∈ flags, flag = 0 ∨ flag = 1) :
    Shuffled trends N { shuffle with trendFlags := flags, k := k } picks :=
  { holds with flags := length, bits := bits }

theorem replicate_bits (n : Nat) : ∀ flag ∈ List.replicate n (0 : Int), flag = 0 ∨ flag = 1 :=
  fun _ member => .inl (List.eq_of_mem_replicate member)

theorem set_bits {flags : List Int} (bits : ∀ flag ∈ flags, flag = 0 ∨ flag = 1) (i : Nat) :
    ∀ flag ∈ flags.set i 1, flag = 0 ∨ flag = 1 := by
  intro flag member
  rcases List.mem_or_eq_of_mem_set member with old | rfl
  · exact bits flag old
  · exact .inr rfl

/-- A place that is not among the last ones is put into the results. -/
theorem Shuffled.push (holds : Shuffled trends N shuffle picks) (positive : 0 < N.toInt) {i : Nat}
    (inside : i < trends.length) (fresh : i ∉ Ring.recent N.toInt.toNat picks) (flags : List Int) (k : Nat)
    (length : flags.length = trends.length) (bits : ∀ flag ∈ flags, flag = 0 ∨ flag = 1) :
    Shuffled trends N ⟨shuffle.results ++ [trendAt trends i],
      shuffle.mask.set (shuffle.g % N.toInt.toNat) i, flags, k, shuffle.g + 1⟩ (picks ++ [i]) where
  results := by rw [holds.results, List.map_append, List.map_singleton]
  inside j member := by
    rcases List.mem_append.mp member with old | new
    · exact holds.inside j old
    · rwa [List.mem_singleton.mp new]
  size := by rw [List.length_set, holds.size]
  mask := by
    have written := holds.mask.push (by rw [holds.size]; omega) i
    rwa [List.length_map, ← holds.written, holds.size, ← List.map_singleton, ← List.map_append] at written
  flags := length
  bits := bits
  written := by rw [holds.written, List.length_append, List.length_singleton]
  spaced := holds.spaced.push fresh

/-- A turn of the first loop takes the next trend. -/
theorem reserve_succ (positive : 0 < N.toInt) (turns : Nat) (holds : Shuffled trends N shuffle (List.range shuffle.k))
    (inside : shuffle.k < trends.length) :
    ∃ next, reserve trends N (turns + 1) shuffle = reserve trends N turns next ∧
      Shuffled trends N next (List.range next.k) ∧ next.k = shuffle.k + 1 := by
  have fresh : shuffle.k ∉ Ring.recent N.toInt.toNat (List.range shuffle.k) := fun member =>
    absurd (List.mem_range.mp (Ring.recent_subset _ _ member)) (lt_irrefl _)
  have pushed := holds.push positive inside fresh (shuffle.trendFlags.set shuffle.k 1) (shuffle.k + 1)
    (by rw [List.length_set, holds.flags]) (set_bits holds.bits shuffle.k)
  rw [← List.range_succ] at pushed
  refine ⟨_, ?_, pushed, rfl⟩
  have room : shuffle.g % N.toInt.toNat < shuffle.mask.length := by
    rw [holds.size]
    exact Nat.mod_lt _ (by omega)
  have flagged : shuffle.k < shuffle.trendFlags.length := by rwa [holds.flags]
  simp only [reserve, fetch_trendAt inside, modulo_ok positive, store_ok room, store_ok flagged, bind, Except.bind]

/-- The first loop takes the trends one after another as long as there are enough of them. -/
theorem reserve_ok (positive : 0 < N.toInt) (turns : Nat) (holds : Shuffled trends N shuffle (List.range shuffle.k))
    (enough : shuffle.k + turns ≤ trends.length) :
    ∃ reserved, reserve trends N turns shuffle = .ok reserved ∧
      Shuffled trends N reserved (List.range (shuffle.k + turns)) := by
  induction turns generalizing shuffle with
  | zero => exact ⟨shuffle, rfl, holds⟩
  | succ turns ih =>
    obtain ⟨next, step, holds', count⟩ := reserve_succ positive turns holds (by omega)
    obtain ⟨reserved, run, last⟩ := ih holds' (by omega)
    refine ⟨reserved, step.trans run, ?_⟩
    rwa [show shuffle.k + (turns + 1) = next.k + turns by omega]

/-- Otherwise it reads past their end. -/
theorem reserve_trap (positive : 0 < N.toInt) (turns : Nat) (holds : Shuffled trends N shuffle (List.range shuffle.k))
    (short : trends.length < shuffle.k + turns) (inside : shuffle.k ≤ trends.length) :
    reserve trends N turns shuffle = .error .outOfRange := by
  induction turns generalizing shuffle with
  | zero => omega
  | succ turns ih =>
    by_cases more : shuffle.k < trends.length
    · obtain ⟨next, step, holds', count⟩ := reserve_succ positive turns holds more
      exact step.trans (ih holds' (by omega) (by omega))
    · have past : trends[shuffle.k]? = none := List.getElem?_eq_none (by omega)
      simp only [reserve, fetch, past, bind, Except.bind]

/-- The places that a draw may go to. -/
def Free (trends : VectorPair) (gap : Nat) (picks : List Nat) (i : Nat) : Prop :=
  i < trends.length ∧ i ∉ Ring.recent gap picks ∧ 0 < weightAt trends i

/-- The mask excludes exactly the last places. -/
theorem Shuffled.mem_mask (holds : Shuffled trends N shuffle picks) (first : 0 ∈ picks) {i : Nat} :
    (i : Int) ∈ shuffle.mask ↔ i ∈ Ring.recent N.toInt.toNat picks := by
  have recent : (i : Int) ∈ Ring.recent N.toInt.toNat (picks.map Nat.cast) ↔ i ∈ Ring.recent N.toInt.toNat picks := by
    rw [Ring.recent, Ring.recent, List.length_map, ← List.map_drop]
    exact List.mem_map_of_injective Nat.cast_injective
  rw [holds.mask.mem_iff, holds.size, recent, List.length_map]
  constructor
  · rintro (member | ⟨short, zero⟩)
    · exact member
    · obtain rfl : i = 0 := by omega
      rwa [Ring.recent_of_le short.le]
  · exact .inl

theorem Shuffled.mask_inRange (holds : Shuffled trends N shuffle picks) (first : 0 ∈ picks) :
    ∀ place ∈ shuffle.mask, 0 ≤ place ∧ place < trends.length := by
  intro place member
  rcases holds.mask.mem_iff.mp member with old | ⟨_, rfl⟩
  · obtain ⟨i, picked, rfl⟩ := List.mem_map.mp (Ring.recent_subset _ _ old)
    have below := holds.inside i picked
    omega
  · have below := holds.inside 0 first
    omega

/-- A turn of the second loop puts a free place into the results, or it finds none that has no flag
and clears the flags. -/
theorem Shuffled.turn_cases (holds : Shuffled trends N shuffle picks) (normalized : Normalized trends)
    (small : trends.length ≤ 100) (positive : 0 < N.toInt) (first : 0 ∈ picks) {P : Nat} (block : 0 < P)
    (draw : Fin 100) :
    ∃ next, turn trends P N draw shuffle = .ok next ∧
      ((∃ i, Free trends N.toInt.toNat picks i ∧ Shuffled trends N next (picks ++ [i])) ∨
        (∀ i, Free trends N.toInt.toNat picks i → shuffle.trendFlags[i]? = some 1) ∧
          Shuffled trends N next picks ∧ next.trendFlags = List.replicate trends.length 0) := by
  have cleared := replicate_bits shuffle.trendFlags.length
  obtain ⟨target, run, outcome⟩ := selectInteresting_ok normalized small holds.flags holds.bits
    (holds.mask_inRange first) draw
  rcases outcome with ⟨rfl, none⟩ | ⟨i, rfl, inside, notExcluded, weight⟩
  · refine ⟨{ shuffle with trendFlags := List.replicate shuffle.trendFlags.length 0 }, ?_, .inr ⟨?_, ?_, ?_⟩⟩
    · simp only [turn, run, bind, Except.bind]
      rfl
    · rintro i ⟨inside, fresh, weight⟩
      rcases none i inside with (flagged | masked) | zero
      · exact flagged
      · exact absurd ((holds.mem_mask first).mp masked) fresh
      · exact absurd zero weight.ne'
    · exact holds.withFlags shuffle.k (by rw [List.length_replicate, holds.flags]) cleared
    · simp only [holds.flags]
  · have fresh : i ∉ Ring.recent N.toInt.toNat picks := fun member =>
      notExcluded (.inr ((holds.mem_mask first).mpr member))
    have room : shuffle.g % N.toInt.toNat < shuffle.mask.length := by
      rw [holds.size]
      exact Nat.mod_lt _ (by omega)
    have flagged : i < shuffle.trendFlags.length := by rwa [holds.flags]
    have picked : (-1 : Int) ≠ i := by omega
    refine ⟨_, ?_, .inl ⟨i, ⟨inside, fresh, weight⟩, holds.push positive inside fresh
      (if (shuffle.k + 1) % P = 0 then List.replicate shuffle.trendFlags.length 0 else shuffle.trendFlags.set i 1)
      (shuffle.k + 1) ?_ ?_⟩⟩
    · simp only [turn, run, bind, Except.bind, if_pos picked, Int.toNat_natCast, fetch_trendAt inside,
        store_ok flagged, modulo_ok positive, store_ok room, if_neg block.ne']
      rfl
    · split
      · rw [List.length_replicate, holds.flags]
      · rw [List.length_set, holds.flags]
    · split
      · exact cleared
      · exact set_bits holds.bits i

/-- More than a hundred trends do not fit into the array of flags. -/
theorem copyFlags_trap (interests : VectorPair) (flags : List Int) (i : Nat) (totalFlags : List (Option Int)) (tw : ℚ)
    (size : totalFlags.length = 100) (many : 100 < i + flags.length) (before : i ≤ 100)
    (length : i + flags.length ≤ interests.length) :
    copyFlags interests flags i totalFlags tw = .error .outOfRange := by
  induction flags generalizing i totalFlags tw with
  | nil =>
    rw [List.length_nil] at many
    omega
  | cons flag flags ih =>
    rw [List.length_cons] at many length
    by_cases room : i < totalFlags.length
    · have rest (tw : ℚ) := ih (i + 1) (totalFlags.set i (some flag)) tw (by rw [List.length_set, size]) (by omega)
        (by omega) (by omega)
      simp only [copyFlags, store_ok room, fetch_trendAt (show i < interests.length by omega), bind, Except.bind, rest,
        ite_self]
    · simp only [copyFlags, store, if_neg room, bind, Except.bind]

theorem Shuffled.turn_trap (holds : Shuffled trends N shuffle picks) (large : 100 < trends.length) (P : Nat) (draw : Fin 100) :
    turn trends P N draw shuffle = .error .outOfRange := by
  have overflow := copyFlags_trap trends shuffle.trendFlags 0 (List.replicate 100 none) 0 List.length_replicate
    (by rw [holds.flags]; omega) (by omega) (by rw [holds.flags]; omega)
  simp only [turn, selectInteresting, overflow, bind, Except.bind]

/-- The places put into the results: the first `t`, then those drawn, each of a positive weight. -/
structure Filled (trends : VectorPair) (N : Int32) (t : Nat) (shuffle : Shuffle) (drawn : List Nat) : Prop where
  shuffled : Shuffled trends N shuffle (List.range t ++ drawn)
  weights : ∀ i ∈ drawn, 0 < weightAt trends i

end

section
variable {trends : VectorPair} {N : Int32} {shuffle : Shuffle} {t P : Nat} {drawn : List Nat}

theorem Filled.length_results (holds : Filled trends N t shuffle drawn) :
    shuffle.results.length = t + drawn.length := by
  rw [holds.shuffled.length_results, List.length_append, List.length_range]

theorem Filled.push {next : Shuffle} {i : Nat} (holds : Filled trends N t shuffle drawn) (weight : 0 < weightAt trends i)
    (pushed : Shuffled trends N next (List.range t ++ drawn ++ [i])) : Filled trends N t next (drawn ++ [i]) where
  shuffled := by rwa [← List.append_assoc]
  weights j member := by
    rcases List.mem_append.mp member with old | new
    · exact holds.weights j old
    · rwa [List.mem_singleton.mp new]

/-- What lets every turn of the second loop go through. -/
structure Fits (trends : VectorPair) (N : Int32) (t P : Nat) : Prop where
  normalized : Normalized trends
  small : trends.length ≤ 100
  gap : 0 < N.toInt
  reserved : 0 < t
  block : 0 < P

theorem Filled.turn_cases (holds : Filled trends N t shuffle drawn) (fits : Fits trends N t P) (draw : Fin 100) :
    ∃ next, turn trends P N draw shuffle = .ok next ∧
      ((∃ i, Free trends N.toInt.toNat (List.range t ++ drawn) i ∧ Filled trends N t next (drawn ++ [i])) ∨
        (∀ i, Free trends N.toInt.toNat (List.range t ++ drawn) i → shuffle.trendFlags[i]? = some 1) ∧
          Filled trends N t next drawn ∧ next.trendFlags = List.replicate trends.length 0) := by
  have first : 0 ∈ List.range t ++ drawn := List.mem_append_left _ (List.mem_range.mpr fits.reserved)
  obtain ⟨next, run, outcome⟩ := holds.shuffled.turn_cases fits.normalized fits.small fits.gap first fits.block draw
  refine ⟨next, run, ?_⟩
  rcases outcome with ⟨i, free, pushed⟩ | ⟨none, same, cleared⟩
  · exact .inl ⟨i, free, holds.push free.2.2 pushed⟩
  · exact .inr ⟨none, ⟨same, holds.weights⟩, cleared⟩

theorem fill_done {T : Nat} (done : T ≤ shuffle.results.length) (turns : Nat) (draws : Nat → Fin 100) :
    fill trends P N T turns draws shuffle = .ok (some shuffle) := by
  cases turns with
  | zero => simp only [fill, if_neg (not_lt.mpr done)]; rfl
  | succ turns => simp only [fill, if_neg (not_lt.mpr done)]; rfl

theorem fill_succ {T turns : Nat} {draws : Nat → Fin 100} {next : Shuffle} (short : shuffle.results.length < T)
    (run : turn trends P N (draws 0) shuffle = .ok next) :
    fill trends P N T (turns + 1) draws shuffle = fill trends P N T turns (fun i => draws (i + 1)) next := by
  simp only [fill, if_pos short, run, bind, Except.bind]

theorem fill_trap {picks : List Nat} {T : Nat} (holds : Shuffled trends N shuffle picks) (large : 100 < trends.length)
    (short : shuffle.results.length < T) (turns : Nat) (draws : Nat → Fin 100) :
    fill trends P N T (turns + 1) draws shuffle = .error .outOfRange := by
  simp only [fill, if_pos short, holds.turn_trap large, bind, Except.bind]

theorem fill_zero {T : Nat} (short : shuffle.results.length < T) (draws : Nat → Fin 100) :
    fill trends P N T 0 draws shuffle = .ok none := by
  simp only [fill, if_pos short]
  rfl

/-- The second loop never goes wrong, and when it ends it has drawn as many places as were asked for. -/
theorem fill_ok (holds : Filled trends N t shuffle drawn) (fits : Fits trends N t P) (T turns : Nat)
    (draws : Nat → Fin 100) :
    ∃ filled, fill trends P N T turns draws shuffle = .ok filled ∧ ∀ final, filled = some final →
      ∃ all, Filled trends N t final all ∧ t + all.length = max T (t + drawn.length) := by
  induction turns generalizing shuffle drawn draws with
  | zero =>
    have length := holds.length_results
    by_cases done : T ≤ shuffle.results.length
    · refine ⟨_, fill_done done 0 draws, fun final ended => ⟨drawn, ?_⟩⟩
      obtain rfl := Option.some.inj ended
      exact ⟨holds, by omega⟩
    · exact ⟨none, fill_zero (not_le.mp done) draws, fun final ended => nomatch ended⟩
  | succ turns ih =>
    have length := holds.length_results
    by_cases done : T ≤ shuffle.results.length
    · refine ⟨_, fill_done done (turns + 1) draws, fun final ended => ⟨drawn, ?_⟩⟩
      obtain rfl := Option.some.inj ended
      exact ⟨holds, by omega⟩
    · obtain ⟨next, run, outcome⟩ := holds.turn_cases fits (draws 0)
      rw [fill_succ (not_le.mp done) run]
      rcases outcome with ⟨i, _, pushed⟩ | ⟨_, same, _⟩
      · obtain ⟨filled, rest, ended⟩ := ih pushed (fun i => draws (i + 1))
        refine ⟨filled, rest, fun final last => ?_⟩
        obtain ⟨all, holds', total⟩ := ended final last
        rw [List.length_append, List.length_singleton] at total
        exact ⟨all, holds', by omega⟩
      · exact ih same (fun i => draws (i + 1))

end

end ContentBased.Marshaler
