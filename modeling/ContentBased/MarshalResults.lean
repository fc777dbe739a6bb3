import ContentBased.MarshalSafety
import ContentBased.Prediction

namespace ContentBased.Marshaler

section
variable {options : ModelOptions} {trends : VectorPair}

theorem trendAt_mem {i : Nat} (inside : i < trends.length) : trendAt trends i ∈ trends :=
  List.mem_of_getElem? (getElem?_trendAt inside)

/-- A category stands at one place. -/
theorem trendAt_inj (distinct : (trends.map Prod.fst).Nodup) {i j : Nat} (first : i < trends.length)
    (second : j < trends.length) (same : (trendAt trends i).1 = (trendAt trends j).1) : i = j := by
  refine (List.getElem?_inj (by rwa [List.length_map]) distinct).mp ?_
  rw [List.getElem?_map, List.getElem?_map, getElem?_trendAt first, getElem?_trendAt second, Option.map_some,
    Option.map_some, same]

/-- Of any `N + 1` results in a row no two have the same category. -/
theorem marshal_spaced (normalized : Normalized trends) (distinct : (trends.map Prod.fst).Nodup) {T : Nat}
    {draws : Nat → Fin 100} {turns : Nat} {status : Status} {results : VectorPair}
    (returned : marshal options trends T [] draws turns = .ok (some (status, results))) (start : Nat) :
    (((results.map Prod.fst).drop start).take (options.marshalerN.toInt.toNat + 1)).Nodup := by
  obtain ⟨-, -, -, -, final, all, holds, rfl, -⟩ := marshal_inv normalized returned
  have window := holds.shuffled.spaced.nodup_window start
  have inside : ∀ i ∈ ((List.range (reserved options trends) ++ all).drop start).take
      (options.marshalerN.toInt.toNat + 1), i < trends.length := fun i member =>
    holds.shuffled.inside i (List.mem_of_mem_drop (List.mem_of_mem_take member))
  rw [holds.shuffled.results, List.map_map, ← List.map_drop, ← List.map_take]
  exact window.map_on fun i first j second same => trendAt_inj distinct (inside i first) (inside j second) same

/-- Every result is a trend, and there are as many as are asked for or reserved. -/
theorem marshal_results (normalized : Normalized trends) {T : Nat} {draws : Nat → Fin 100} {turns : Nat}
    {status : Status} {results : VectorPair}
    (returned : marshal options trends T [] draws turns = .ok (some (status, results))) :
    (∀ result ∈ results, result ∈ trends) ∧ (results.length = T ↔ Enough options trends T) := by
  obtain ⟨-, inside, -, -, final, all, holds, rfl, total⟩ := marshal_inv normalized returned
  constructor
  · intro result member
    rw [holds.shuffled.results] at member
    obtain ⟨i, picked, rfl⟩ := List.mem_map.mp member
    exact trendAt_mem (holds.shuffled.inside i picked)
  · rw [holds.length_results, total, enough_iff normalized inside]
    omega

/-- What the service answers is what the marshaler gave it. -/
theorem marshalUserInterests_inv {υ ι : Type} {order : TrendsSort} {model : Model υ ι Trends} {category : Category}
    (predicted : model.predictUserInterests order options category.userId [] = (.ok (), trends))
    {draws : Nat → Fin 100} {turns : Nat} {answer : List Int32}
    (answered : model.marshalUserInterests order options category [] draws turns = .ok (some (.ok (), answer))) :
    0 ≤ category.requestNum.toInt ∧ ∃ results,
      marshal options trends (asSize category.requestNum) [] draws turns = .ok (some (.ok (), results)) ∧
        answer = results.map Prod.fst := by
  simp only [Model.marshalUserInterests, predicted] at answered
  by_cases negative : category.requestNum.toInt < 0
  · rw [if_pos negative] at answered
    cases answered
  · rw [if_neg negative] at answered
    obtain ⟨marshaled, run, outcome⟩ := Except.bind_inv answered
    refine ⟨not_lt.mp negative, ?_⟩
    cases marshaled with
    | none => cases outcome
    | some returned =>
      obtain ⟨failure | _, results⟩ := returned
      · cases outcome
      · cases outcome
        exact ⟨results, run, rfl⟩

/-- As many trends come back as are asked for, and so as many categories, exactly when the number is
one that might be reserved. -/
theorem requested_size_iff (υ ι : Type) (normalized : Normalized trends) (draws : Nat → Fin 100) (turns : Nat) :
    (∀ T status results, marshal options trends T [] draws turns = .ok (some (status, results)) →
      (results.length = T ∧ (∀ result ∈ results, result ∈ trends) ↔ Enough options trends T)) ∧
      ∀ (order : TrendsSort) (model : Model υ ι Trends) (category : Category) (answer : List Int32),
        model.predictUserInterests order options category.userId [] = (.ok (), trends) →
          model.marshalUserInterests order options category [] draws turns = .ok (some (.ok (), answer)) →
            (answer.length = category.requestNum.toInt ↔ Enough options trends category.requestNum.toInt.toNat) := by
  constructor
  · intro T status results returned
    obtain ⟨members, length⟩ := marshal_results normalized returned
    rw [and_iff_left members]
    exact length
  · intro order model category answer predicted answered
    obtain ⟨nonneg, results, returned, rfl⟩ := marshalUserInterests_inv predicted answered
    rw [asSize_of_nonneg nonneg] at returned
    rw [← (marshal_results normalized returned).2, List.length_map]
    omega

end

theorem marshal_pair : marshal { workPath := "", marshalerTopt := 1, marshalerN := 1 } [(1, 3 / 4), (2, 1 / 4)] 4 []
    (fun _ => 50) 6 = .ok (some (.ok (), [(1, 3 / 4), (2, 1 / 4), (1, 3 / 4), (2, 1 / 4)])) := by
  decide +kernel

theorem marshal_spaced_pair :
    (((([(1, 3 / 4), (2, 1 / 4), (1, 3 / 4), (2, 1 / 4)] : VectorPair).map Prod.fst).drop 2).take 2).Nodup :=
  marshal_spaced normalized_pair (by decide) marshal_pair 2

theorem requested_size_pair : (4 = 4 ∧ (∀ result ∈ [(1, 3 / 4), (2, 1 / 4), (1, 3 / 4), (2, 1 / 4)],
      result ∈ ([(1, 3 / 4), (2, 1 / 4)] : VectorPair)) ↔
    Enough { workPath := "", marshalerTopt := 1, marshalerN := 1 } [(1, 3 / 4), (2, 1 / 4)] 4) :=
  (requested_size_iff Unit Unit normalized_pair (fun _ => 50) 6).1 4 _ _ marshal_pair

theorem normalized_quarters : Normalized [(1, 1 / 4), (2, 1 / 4), (3, 1 / 4), (4, 1 / 4)] := by
  refine ⟨fun trend member => ?_, by norm_num⟩
  simp only [List.mem_cons, List.not_mem_nil, or_false] at member
  rcases member with rfl | rfl | rfl | rfl <;> norm_num

/-- With the options as they come, one category is asked for and three are answered. -/
theorem requested_one_returned_three : Normalized [(1, 1 / 4), (2, 1 / 4), (3, 1 / 4), (4, 1 / 4)] ∧
    marshal { workPath := "" } [(1, 1 / 4), (2, 1 / 4), (3, 1 / 4), (4, 1 / 4)] 1 [] (fun _ => 0) 0 =
      .ok (some (.ok (), [(1, 1 / 4), (2, 1 / 4), (3, 1 / 4)])) :=
  ⟨normalized_quarters, by decide +kernel⟩

end ContentBased.Marshaler
