import ContentBased.FailedAction
import ContentBased.Library.Run

namespace ContentBased
open RecordDisk
open Std (ExtTreeMap)

section
variable {υ ι ν : Type}

/-- A call of `updateItem`, with the disk and the faults it meets. -/
structure Delivery where
  item : Item
  world : World FileName Bytes Failure

/-- The model, and the categories with which each item was last accepted by the item table. -/
structure ItemState (υ ι ν : Type) where
  model : Model υ ι ν
  stored : ExtTreeMap UInt64 (List Int32)

namespace ItemState

/-- The items that carry a category. -/
def carriers (state : ItemState υ ι ν) (category : Int32) : Finset UInt64 :=
  state.stored.keys.toFinset.filter fun itemId => category ∈ state.stored.getD itemId []

/-- Each category has been counted once for each item that carries it. -/
def CountsItems (state : ItemState υ ι ν) : Prop :=
  ∀ category, state.model.userInterests.fields.currentDist.getD category 0 = (state.carriers category).card

end ItemState

/-- A call inside the window that returns. -/
structure Delivers (items : ItemDB ι) (before : ItemState υ ι ν) (delivery : Delivery) (after : ItemState υ ι ν) : Prop where
  inside : before.model.userInterests.fields.currentDay < delivery.item.publishTime.toInt
  returned : ∃ status world,
    Model.updateItem items before.model delivery.item delivery.world = .ok ((status, after.model), world)
  stored : after.stored =
    if (items.addItem before.model.itemDb delivery.item).1 = .ok () then
      before.stored.insert delivery.item.itemId delivery.item.category
    else before.stored

/-- The categories that the loop comes to: those up to the first one whose write does not succeed. -/
def triedCategories (writer : Option WALWriter) : List (Fault Failure) → List Int32 → List Int32
  | _, [] => []
  | faults, category :: rest =>
    match writeOutcome writer faults with
    | some (.ok later) => category :: triedCategories writer later rest
    | _ => [category]

/-- If the item table accepts the item, the loop comes to those of its categories once that it did not carry before, and
to no others, and the item keeps the categories that it had. -/
def Fresh (items : ItemDB ι) (state : ItemState υ ι ν) (delivery : Delivery) : Prop :=
  (items.addItem state.model.itemDb delivery.item).1 = .ok () → ∀ category,
    (triedCategories state.model.userInterests.periodicLog.writer delivery.world.faults delivery.item.category).count category +
        (if category ∈ state.stored.getD delivery.item.itemId [] then 1 else 0) =
      if category ∈ delivery.item.category then 1 else 0

theorem UserInterests.addItem_outcome (table : UserInterests) (item : CategoryItem)
    (world : World FileName Bytes Failure) :
    let counted : UserInterests := { table with fields := (Interests.recoveryItem item table.fields).2 }
    match writeOutcome table.periodicLog.writer world.faults with
    | none => ∃ disk, UserInterests.addItem table item world = .error disk
    | some (.error ()) => ∃ failure world',
        UserInterests.addItem table item world = .ok ((.error failure, counted), world')
    | some (.ok faults) => ∃ disk, UserInterests.addItem table item world = .ok ((.ok (), counted), ⟨disk, faults⟩) := by
  intro counted
  have written := counted.periodicLog.write_return_outcome (LogEvent.item item).record counted world
  rw [← counted.add_eq_write (.item item)] at written
  exact written

/-- An item inside the window counts once for its category. -/
theorem Interests.recoveryItem_inside (item : CategoryItem) {fields : Interests}
    (prior : fields.options.userInterestsPriorProbType = 1) (inside : fields.currentDay < item.publishTime.toInt) :
    (recoveryItem item fields).2 = fields.trainCategory item.categoryId 1 := by
  rw [recoveryItem, trainItem, if_pos inside, if_pos prior.symm]

/-- The loop counts each category that it comes to once. -/
theorem Model.addItems_counts (item : CategoryItem) (categories : List Int32) {model after : Model υ ι ν}
    {world world' : World FileName Bytes Failure} {status : Status}
    (prior : model.userInterests.fields.options.userInterestsPriorProbType = 1)
    (inside : model.userInterests.fields.currentDay < item.publishTime.toInt)
    (run : addItems item categories model world = .ok ((status, after), world')) :
    after.userInterests.fields.options = model.userInterests.fields.options ∧
      ∀ category, after.userInterests.fields.currentDist.getD category 0 =
        model.userInterests.fields.currentDist.getD category 0 +
          (triedCategories model.userInterests.periodicLog.writer world.faults categories).count category := by
  induction categories generalizing item model world with
  | nil =>
    cases run
    exact ⟨rfl, fun category => by simp [triedCategories]⟩
  | cons categoryId rest ih =>
    let message := { item with categoryId }
    let table := model.userInterests
    have counted := Interests.recoveryItem_inside message prior inside
    have raised (category : Int32) := Tally.getD_raise table.fields.currentDist categoryId category 1
    have outcome := UserInterests.addItem_outcome table message world
    rw [counted] at outcome
    rw [addItems] at run
    rcases written : writeOutcome table.periodicLog.writer world.faults with _ | ⟨_ | faults⟩
    · simp only [written] at outcome
      obtain ⟨disk, added⟩ := outcome
      rw [bind_of_error added] at run
      cases run
    · simp only [written] at outcome
      obtain ⟨failure, later, added⟩ := outcome
      rw [bind_of_ok added] at run
      cases run
      refine ⟨rfl, fun category => (raised category).trans ?_⟩
      rw [triedCategories, written, List.count_singleton]
      by_cases same : categoryId = category <;> simp [table, same]
    · simp only [written] at outcome
      obtain ⟨disk, added⟩ := outcome
      rw [bind_of_ok added] at run
      let next : Model υ ι ν :=
        { model with userInterests := { table with fields := table.fields.trainCategory categoryId 1 } }
      obtain ⟨options, counts⟩ := @ih message next ⟨disk, faults⟩ prior inside run
      refine ⟨options, fun category => (counts category).trans ?_⟩
      rw [triedCategories, written, List.count_cons]
      refine (congrArg (· + _) (raised category)).trans ?_
      by_cases same : categoryId = category <;> simp [next, table, same, add_assoc, add_comm]

theorem Delivers.counts {items : ItemDB ι} {before after : ItemState υ ι ν} {delivery : Delivery}
    (delivers : Delivers items before delivery after)
    (prior : before.model.userInterests.fields.options.userInterestsPriorProbType = 1) :
    after.model.userInterests.fields.options = before.model.userInterests.fields.options ∧
      ∀ category, after.model.userInterests.fields.currentDist.getD category 0 =
        before.model.userInterests.fields.currentDist.getD category 0 +
          if (items.addItem before.model.itemDb delivery.item).1 = .ok () then
            (triedCategories before.model.userInterests.periodicLog.writer delivery.world.faults
              delivery.item.category).count category
          else 0 := by
  obtain ⟨model, stored⟩ := after
  obtain ⟨status, world, run⟩ := delivers.returned
  rw [Model.updateItem] at run
  rcases accepted : items.addItem before.model.itemDb delivery.item with ⟨failure | _, itemDb⟩
  · rw [accepted] at run
    cases run
    simp
  · rw [accepted] at run
    have counted := @Model.addItems_counts υ ι ν ⟨delivery.item.itemId, 0, delivery.item.publishTime⟩
      delivery.item.category { before.model with itemDb } model delivery.world world status prior delivers.inside run
    simpa using counted

namespace ItemState
variable {before after : ItemState υ ι ν}

theorem mem_carriers {state : ItemState υ ι ν} {category : Int32} {itemId : UInt64} :
    itemId ∈ state.carriers category ↔ category ∈ state.stored.getD itemId [] := by
  rw [carriers, Finset.mem_filter, List.mem_toFinset, ExtTreeMap.mem_keys]
  refine and_iff_right_of_imp fun carried => ?_
  by_contra absent
  rw [ExtTreeMap.getD_eq_fallback absent] at carried
  cases carried

/-- An item that is stored carries its new categories in place of the old ones. -/
theorem card_carriers {itemId : UInt64} {categories : List Int32}
    (stored : after.stored = before.stored.insert itemId categories) (category : Int32) :
    (after.carriers category).card + (if category ∈ before.stored.getD itemId [] then 1 else 0) =
      (before.carriers category).card + if category ∈ categories then 1 else 0 := by
  have here : itemId ∈ before.carriers category ↔ category ∈ before.stored.getD itemId [] := mem_carriers
  have changed : after.carriers category =
      if category ∈ categories then insert itemId (before.carriers category)
      else (before.carriers category).erase itemId := by
    ext other
    rw [mem_carriers, stored, ExtTreeMap.getD_insert]
    by_cases same : itemId = other
    · subst same
      by_cases carries : category ∈ categories <;> simp [carries]
    · by_cases carries : category ∈ categories <;> simp [carries, same, Ne.symm same, mem_carriers]
  simp only [changed, ← here]
  by_cases carries : category ∈ categories
  · by_cases carried : itemId ∈ before.carriers category <;> simp [carries, carried]
  · by_cases carried : itemId ∈ before.carriers category
    · have positive := Finset.card_pos.mpr ⟨itemId, carried⟩
      simp only [carries, carried, if_true, if_false, Finset.card_erase_of_mem]
      omega
    · simp [carries, carried]

end ItemState

/-- From a state in which each item is counted once for each of its categories, a call leads to such a state exactly
when it is fresh. -/
theorem Delivers.countsItems_iff {items : ItemDB ι} {before after : ItemState υ ι ν} {delivery : Delivery}
    (delivers : Delivers items before delivery after)
    (prior : before.model.userInterests.fields.options.userInterestsPriorProbType = 1) (counts : before.CountsItems) :
    after.CountsItems ↔ Fresh items before delivery := by
  obtain ⟨-, counted⟩ := delivers.counts prior
  have stored := delivers.stored
  by_cases accepted : (items.addItem before.model.itemDb delivery.item).1 = .ok ()
  · rw [if_pos accepted] at stored
    simp only [if_pos accepted] at counted
    simp only [Fresh, accepted, true_implies]
    refine forall_congr' fun category => ?_
    have card := ItemState.card_carriers stored category
    rw [counted, counts category, ← Nat.cast_add, Nat.cast_inj]
    omega
  · rw [if_neg accepted] at stored
    simp only [if_neg accepted] at counted
    refine iff_of_true (fun category => ?_) fun accepted' => absurd accepted' accepted
    rw [counted, Nat.cast_zero, add_zero, counts category, ItemState.carriers, ItemState.carriers, stored]

/-- Over a run of calls each item stays counted once for each category that it carries exactly when every call is fresh. -/
theorem deliveries_count_items_iff {items : ItemDB ι} {start final : ItemState υ ι ν}
    {calls : List (ItemState υ ι ν × Delivery)}
    (prior : start.model.userInterests.fields.options.userInterestsPriorProbType = 1) (counts : start.CountsItems)
    (run : Run.Traced (Delivers items) start calls final) :
    (∀ state ∈ calls.map Prod.fst ++ [final], state.CountsItems) ↔ ∀ call ∈ calls, Fresh items call.1 call.2 := by
  have throughout := @Run.holds_throughout_iff _ _ (Delivers items) start
    (fun state => state.model.userInterests.fields.options.userInterestsPriorProbType = 1) ItemState.CountsItems (Fresh items)
  refine (throughout (fun state delivery after delivers prior => ?_)
    (fun state delivery after delivers prior counts => delivers.countsItems_iff prior counts) prior counts run).2
  rw [(delivers.counts prior).1, prior]

end

/-- A model that counts items, whose logs have been opened. -/
def itemModel (dist : Tally Int32) (stored : ExtTreeMap UInt64 (List Int32)) :
    ItemState (List (UInt64 × UInt64)) Unit Unit where
  model := { openedModel with
    userInterests := { UserInterests.new { workPath := ".", userInterestsPriorProbType := 1 } 100000 with
      periodicLog := (PeriodicLog.new "." "user-interests").opened 0
      fields := ⟨{ workPath := ".", userInterestsPriorProbType := 1 }, 13600, dist, ∅, ∅, ∅⟩ } }
  stored

/-- The item 5 of the categories 3 and 4. -/
def delivery : Delivery := ⟨⟨5, 90000, [3, 4]⟩, ⟨fun _ => none, []⟩⟩

theorem itemModel_countsItems : (itemModel ∅ ∅).CountsItems := by
  intro category
  simp [itemModel, ItemState.carriers]

theorem itemModel_delivers (dist : Tally Int32) (stored : ExtTreeMap UInt64 (List Int32)) :
    Delivers oneItem (itemModel dist stored) delivery
      (itemModel ((dist.raise 3 1).raise 4 1) (stored.insert 5 [3, 4])) :=
  ⟨show (13600 : Int) < (90000 : Int32).toInt by decide, ⟨.ok (), _, rfl⟩, rfl⟩

theorem item_is_counted : ∃ state, Run.Traced (Delivers oneItem) (itemModel ∅ ∅) [(itemModel ∅ ∅, delivery)] state ∧
    state.stored.getD 5 [] = [3, 4] ∧ state.CountsItems := by
  have run : Run.Traced (Delivers oneItem) (itemModel ∅ ∅) ([] ++ [(itemModel ∅ ∅, delivery)]) _ :=
    .next .start ⟨rfl, itemModel_delivers ∅ ∅⟩
  have counts := (deliveries_count_items_iff rfl itemModel_countsItems run).mpr fun call member _ category => ?_
  · exact ⟨_, run, by decide, counts _ (by simp)⟩
  · obtain rfl := List.mem_singleton.mp member
    have tried : triedCategories (itemModel ∅ ∅).model.userInterests.periodicLog.writer delivery.world.faults
      delivery.item.category = [3, 4] := rfl
    rw [tried]
    by_cases three : 3 = category
    · subst three
      decide
    · by_cases four : 4 = category
      · subst four
        decide
      · simp [itemModel, delivery, three, four, Ne.symm three, Ne.symm four]

/-- The item is delivered twice and counted twice. -/
theorem item_is_counted_again : ∃ once twice : ItemState (List (UInt64 × UInt64)) Unit Unit,
    Run.Traced (Delivers oneItem) (itemModel ∅ ∅) [(itemModel ∅ ∅, delivery), (once, delivery)] twice ∧
      once.stored.getD 5 [] = [3, 4] ∧ ¬ twice.CountsItems := by
  refine ⟨_, _, .next (.next .start ⟨rfl, itemModel_delivers ∅ ∅⟩) ⟨rfl, itemModel_delivers _ _⟩, by decide, ?_⟩
  intro counts
  have twice := counts 3
  revert twice
  decide +kernel

end ContentBased
