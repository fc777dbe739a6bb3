import ContentBased.Ranking

namespace ContentBased.Model
open Std (ExtTreeMap)
variable {υ ι : Type} {itemDb : ItemDB ι} {items : ι} {userDist : VectorPair}

/-- The weights that a user gives to the categories of an item; an unknown item has none. -/
def WeightOf (itemDb : ItemDB ι) (items : ι) (userDist : VectorPair) (itemId : UInt64) (weight : ℚ) : Prop :=
  ∃ keys, itemDb.fetchItemBelongsTo items itemId = .ok keys ∧
    ∃ key ∈ keys, (itemDb.typeId key).type = .category ∧ ((itemDb.typeId key).id, weight) ∈ userDist

/-- The largest weight of an item, or 0 if it has none. -/
def LargestWeight (itemDb : ItemDB ι) (items : ι) (userDist : VectorPair) (itemId : UInt64) (weight : ℚ) : Prop :=
  IsGreatest {weight | WeightOf itemDb items userDist itemId weight} weight ∨
    (∀ weight, ¬ WeightOf itemDb items userDist itemId weight) ∧ weight = 0

/-- The map that a user's weights are looked up in. -/
def distMap (userDist : VectorPair) : Tally Int32 :=
  userDist.foldl (fun map entry => map.insertIfNew entry.1 entry.2) ∅

theorem distMap_eq_some_iff (distinct : (userDist.map Prod.fst).Nodup) {category : Int32} {weight : ℚ} :
    (distMap userDist)[category]? = some weight ↔ (category, weight) ∈ userDist := by
  rw [distMap, ExtTreeMap.getElem?_foldl_insertIfNew Prod.fst Prod.snd, ExtTreeMap.getElem?_empty, Option.none_or,
    Option.map_eq_some_iff]
  constructor
  · rintro ⟨entry, found, rfl⟩
    have same : entry.1 = category := by simpa using List.find?_some found
    rw [← same]
    exact List.mem_of_find?_eq_some found
  · intro member
    cases found : userDist.find? fun entry => entry.1 = category with
    | none =>
      have missing := List.find?_eq_none.mp found _ member
      simp at missing
    | some entry =>
      have same : entry.1 = category := by simpa using List.find?_some found
      have only := List.inj_on_of_nodup_map distinct (List.mem_of_find?_eq_some found) member same
      exact ⟨entry, rfl, by rw [only]⟩

/-- The weight that is found for a key of an item. -/
def keyWeight (itemDb : ItemDB ι) (map : Tally Int32) (key : Int) : Option ℚ :=
  if (itemDb.typeId key).type = .category then map[(itemDb.typeId key).id]? else none

theorem maxPower_eq (map : Tally Int32) (keys : List Int) :
    maxPower itemDb map keys = max 0 ((keys.filterMap (keyWeight itemDb map)).max?.getD 0) := by
  rw [← List.foldl_max, maxPower]
  generalize (0 : ℚ) = start
  induction keys generalizing start with
  | nil => rfl
  | cons key keys ih =>
    rw [List.foldl_cons, ih]
    by_cases category : (itemDb.typeId key).type = .category
    · cases here : map[(itemDb.typeId key).id]? with
      | none => simp [keyWeight, category, here]
      | some weight => simp [keyWeight, category, here, max_def_lt]
    · simp [keyWeight, category]

/-- What an item adds to the powers. -/
def itemPower (itemDb : ItemDB ι) (items : ι) (userDist : VectorPair) (itemId : UInt64) : ℚ :=
  match itemDb.fetchItemBelongsTo items itemId with
  | .error _ => 0
  | .ok keys => maxPower itemDb (distMap userDist) keys

theorem weightOf_iff (distinct : (userDist.map Prod.fst).Nodup) {itemId : UInt64} {keys : List Int}
    (known : itemDb.fetchItemBelongsTo items itemId = .ok keys) {weight : ℚ} :
    WeightOf itemDb items userDist itemId weight ↔ weight ∈ keys.filterMap (keyWeight itemDb (distMap userDist)) := by
  rw [List.mem_filterMap, WeightOf]
  constructor
  · rintro ⟨keys', same, key, member, category, here⟩
    cases known.symm.trans same
    exact ⟨key, member, by rw [keyWeight, if_pos category, distMap_eq_some_iff distinct]; exact here⟩
  · rintro ⟨key, member, here⟩
    rw [keyWeight] at here
    split at here
    · rename_i category
      exact ⟨keys, known, key, member, category, (distMap_eq_some_iff distinct).mp here⟩
    · cases here

/-- The loop over the keys of an item finds its largest weight. -/
theorem largestWeight_itemPower (distinct : (userDist.map Prod.fst).Nodup) (nonneg : ∀ entry ∈ userDist, 0 ≤ entry.2)
    (itemId : UInt64) : LargestWeight itemDb items userDist itemId (itemPower itemDb items userDist itemId) := by
  rw [itemPower]
  cases known : itemDb.fetchItemBelongsTo items itemId with
  | error failure =>
    refine .inr ⟨fun weight given => ?_, rfl⟩
    obtain ⟨keys, same, -⟩ := given
    cases known.symm.trans same
  | ok keys =>
    have given {weight : ℚ} := @weightOf_iff ι itemDb items userDist distinct itemId keys known weight
    dsimp only
    rw [maxPower_eq]
    cases greatest : (keys.filterMap (keyWeight itemDb (distMap userDist))).max? with
    | none =>
      rw [List.max?_eq_none_iff] at greatest
      refine .inr ⟨fun weight here => ?_, max_self 0⟩
      rw [given, greatest] at here
      cases here
    | some weight =>
      obtain ⟨member, above⟩ := List.max?_eq_some_iff.mp greatest
      have here := given.mpr member
      obtain ⟨-, -, key, -, -, entry⟩ := here
      rw [Option.getD_some, max_eq_right (nonneg _ entry)]
      exact .inl ⟨given.mpr member, fun other there => above other (given.mp there)⟩

/-- The loop over the items appends what each of them adds, and sums it up. -/
theorem foldl_addPower (itemIds : List UInt64) (powers : List ℚ × ℚ) :
    itemIds.foldl (addPower itemDb items (distMap userDist)) powers =
      (powers.1 ++ itemIds.map (itemPower itemDb items userDist),
        powers.2 + (itemIds.map (itemPower itemDb items userDist)).sum) := by
  induction itemIds generalizing powers with
  | nil => simp
  | cons itemId itemIds ih =>
    have one : addPower itemDb items (distMap userDist) powers itemId =
        (powers.1 ++ [itemPower itemDb items userDist itemId], powers.2 + itemPower itemDb items userDist itemId) := by
      rw [addPower, itemPower]
      cases itemDb.fetchItemBelongsTo items itemId with
      | error failure => simp
      | ok keys => rfl
    rw [List.foldl_cons, ih, one, List.map_cons, List.sum_cons, List.append_assoc, List.singleton_append, add_assoc]

theorem itemPower_nonneg (itemId : UInt64) : 0 ≤ itemPower itemDb items userDist itemId := by
  rw [itemPower]
  split
  · exact le_rfl
  · rw [maxPower_eq]
    exact le_max_left _ _

theorem itemPowers_nonneg (itemIds : List UInt64) : ∀ power ∈ itemIds.map (itemPower itemDb items userDist), 0 ≤ power := by
  intro power member
  obtain ⟨itemId, -, rfl⟩ := List.mem_map.mp member
  exact itemPower_nonneg itemId

section
variable {model : Model υ ι Trends} {order : TrendsSort} {options : ModelOptions} {userId : UInt64}

theorem queryCategoryWeight_eq (predicted : model.predictUserInterests order options userId [] = (.ok (), userDist))
    (itemIds : List UInt64) :
    model.queryCategoryWeight itemDb order options ⟨userId, itemIds⟩ [] = (.ok (), itemIds.map fun itemId =>
      itemPower itemDb model.itemDb userDist itemId / (itemIds.map (itemPower itemDb model.itemDb userDist)).sum) := by
  have powers := @foldl_addPower ι itemDb model.itemDb userDist itemIds ([], 0)
  rw [List.nil_append, zero_add] at powers
  simp only [queryCategoryWeight, predicted]
  change (Except.ok (), ((itemIds.foldl (addPower itemDb model.itemDb (distMap userDist)) ([], 0)).1).map
    (· / if (itemIds.foldl (addPower itemDb model.itemDb (distMap userDist)) ([], 0)).2 ≤ 0 then 1
      else (itemIds.foldl (addPower itemDb model.itemDb (distMap userDist)) ([], 0)).2)) = _
  rw [powers, List.map_map]
  refine congrArg (Prod.mk _) (List.map_congr_left fun itemId member => ?_)
  rw [Function.comp_apply]
  split
  · rename_i none_
    have own := (List.single_le_sum (itemPowers_nonneg itemIds) _ (List.mem_map_of_mem member)).trans none_
    rw [own.antisymm (itemPower_nonneg itemId), zero_div, zero_div]
  · rfl

/-- Each item gets its largest weight's part of the sum, wherever it stands in the request. -/
theorem candidate_powers (itemDb : ItemDB ι)
    (predicted : model.predictUserInterests order options userId [] = (.ok (), userDist))
    (nonneg : ∀ entry ∈ userDist, 0 ≤ entry.2) :
    ∃ largest : UInt64 → ℚ, (∀ itemId, LargestWeight itemDb model.itemDb userDist itemId (largest itemId)) ∧
      ∀ itemIds, let share := fun itemId => largest itemId / (itemIds.map largest).sum
        model.queryCategoryWeight itemDb order options ⟨userId, itemIds⟩ [] = (.ok (), itemIds.map share) ∧
          (∀ itemId ∈ itemIds, 0 ≤ share itemId ∧ share itemId ≤ 1) ∧
          ((itemIds.map share).sum = 1 ∨ ∀ itemId ∈ itemIds, share itemId = 0) ∧
          ∀ other, other.Perm itemIds →
            model.queryCategoryWeight itemDb order options ⟨userId, other⟩ [] = (.ok (), other.map share) := by
  have distinct := predicted_distinct predicted
  refine ⟨itemPower itemDb model.itemDb userDist, largestWeight_itemPower distinct nonneg, fun itemIds => ?_⟩
  have powers := @itemPowers_nonneg ι itemDb model.itemDb userDist itemIds
  refine ⟨queryCategoryWeight_eq predicted itemIds, fun itemId member => ⟨?_, ?_⟩, ?_, fun other same => ?_⟩
  · exact div_nonneg (itemPower_nonneg itemId) (List.sum_nonneg powers)
  · exact div_le_one_of_le₀ (List.single_le_sum powers _ (List.mem_map_of_mem member)) (List.sum_nonneg powers)
  · by_cases none_ : (itemIds.map (itemPower itemDb model.itemDb userDist)).sum = 0
    · refine .inr fun itemId member => ?_
      dsimp only
      rw [none_, div_zero]
    · refine .inl ?_
      simp only [div_eq_mul_inv]
      rw [List.sum_map_mul_right itemIds (itemPower itemDb model.itemDb userDist), mul_inv_cancel₀ none_]
  · rw [queryCategoryWeight_eq predicted, (same.map _).sum_eq]

/-- An item table in which item 5 alone is known, with the categories 1 and 2. -/
def oneItem : ItemDB Unit where
  fetchItemBelongsTo _ itemId := if itemId = 5 then .ok [1, 2] else .error ⟨.notFound, ""⟩
  typeId key := ⟨.category, Int32.ofInt key⟩
  addItem items _ := (.ok (), items)
  eliminate items := (.ok (), items)
  flushTable items := (.ok (), items)

theorem candidate_powers_two : ∃ largest : UInt64 → ℚ,
    (∀ itemId, LargestWeight oneItem () [(2, 3 / 4), (1, 1 / 4)] itemId (largest itemId)) ∧
      (remembered [(1, 1), (2, 3)]).queryCategoryWeight oneItem insertedTrends { workPath := "" } ⟨1, [5, 6]⟩ [] =
        (.ok (), [5, 6].map fun itemId => largest itemId / ([5, 6].map largest).sum) := by
  have predicted : (remembered [(1, 1), (2, 3)]).predictUserInterests insertedTrends { workPath := "" } 1 [] =
    (.ok (), [(2, 3 / 4), (1, 1 / 4)]) := by decide +kernel
  obtain ⟨largest, are, powers⟩ := candidate_powers oneItem predicted (by decide +kernel)
  exact ⟨largest, are, (powers [5, 6]).1⟩

end

end ContentBased.Model
