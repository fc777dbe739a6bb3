import ContentBased.ContentModel
import ContentBased.TableLog

namespace ContentBased
open RecordDisk

/-- The actions that `updateAction` does not pass over. -/
def ActionType.Counted : ActionType → Prop
  | .other _ => False
  | _ => True

section
variable {υ ι ν : Type}

/-- The user has the item marked as read. -/
def UserDB.Marked (users : UserDB υ) (userDb : υ) (userId itemId : UInt64) : Prop :=
  ∃ lastModified, users.findUserReaded userDb userId itemId = some lastModified ∧ 0 < lastModified

/-- After an update that succeeds the item is marked. -/
def UserDB.MarksUpdated (users : UserDB υ) : Prop :=
  ∀ userDb action, (users.updateAction userDb action).1 = .ok () →
    users.Marked (users.updateAction userDb action).2 action.userId action.itemId

/-- What comes of a write by this writer, as far as the environment tells: the process dies,
or the write fails, or it succeeds and leaves these faults to come. -/
def writeOutcome : Option WALWriter → List (Fault Failure) → Option (Except Unit (List (Fault Failure)))
  | none, _ => none
  | some writer, faults =>
    if writer.opened then
      match faults with
      | .crash _ :: _ => none
      | .fail _ :: _ => some (.error ())
      | _ => some (.ok faults.tail)
    else some (.error ())

/-- No write by these writers, one after the other, fails unless the process dies before. -/
def WritesPass : List (Option WALWriter) → List (Fault Failure) → Prop
  | [], _ => True
  | writer :: rest, faults =>
    match writeOutcome writer faults with
    | none => True
    | some (.error ()) => False
    | some (.ok later) => WritesPass rest later

/-- The writers of the two logs, once for each category among these keys. -/
def clickWriters (items : ItemDB ι) (model : Model υ ι ν) (belongsTo : List Int) : List (Option WALWriter) :=
  (belongsTo.filter fun key => (items.typeId key).type = .category).flatMap
    fun _ => [model.newsTrends.periodicLog.writer, model.userInterests.periodicLog.writer]

/-- If the action fails, the read marks, the logs and the counts are what they were before. -/
def LeavesNothing (users : UserDB υ) (items : ItemDB ι) (model : Model υ ι ν) (action : Action)
    (world : World FileName Bytes Failure) : Prop :=
  ∀ failure after world', Model.updateAction users items model action world = .ok ((.error failure, after), world') →
    (∀ userId itemId, users.findUserReaded after.userDb userId itemId =
        users.findUserReaded model.userDb userId itemId) ∧
      world'.disk = world.disk ∧
      after.userInterests.fields.currentDist = model.userInterests.fields.currentDist ∧
      after.userInterests.fields.currentUserDist = model.userInterests.fields.currentUserDist

/-- The rest of `updateAction` from each of its calls on. -/
def Model.fromInterests (items : ItemDB ι) (click : CategoryClick) (rest : List Int) (model : Model υ ι ν) :
    Program (Status × Model υ ι ν) := do
  match ← UserInterests.addClick model.userInterests click with
  | (.error failure, userInterests) => return (.error failure, { model with userInterests })
  | (.ok (), userInterests) => addClicks items click rest { model with userInterests }

def Model.fromNews (items : ItemDB ι) (click : CategoryClick) (rest : List Int) (model : Model υ ι ν) :
    Program (Status × Model υ ι ν) := do
  match ← model.newsTrends.addClick click with
  | .error failure => return (.error failure, model)
  | .ok () => fromInterests items click rest model

def Model.fromFetch (items : ItemDB ι) (action : Action) (model : Model υ ι ν) : Program (Status × Model υ ι ν) :=
  match items.fetchItemBelongsTo model.itemDb action.itemId with
  | .error failure => return (.error failure, model)
  | .ok belongsTo => addClicks items ⟨action.userId, 0, action.clickTime⟩ belongsTo model

def Model.fromMark (users : UserDB υ) (items : ItemDB ι) (action : Action) (model : Model υ ι ν) :
    Program (Status × Model υ ι ν) :=
  match users.updateAction model.userDb action with
  | (.error failure, userDb) => return (.error failure, { model with userDb })
  | (.ok (), userDb) => fromFetch items action { model with userDb }

theorem PeriodicLog.write_outcome (log : PeriodicLog) (data : Bytes) (world : World FileName Bytes Failure) :
    match writeOutcome log.writer world.faults with
    | none => ∃ disk, log.write data world = .error disk
    | some (.error ()) => ∃ failure world', log.write data world = .ok (.error failure, world')
    | some (.ok faults) => ∃ disk, log.write data world = .ok (.ok (), ⟨disk, faults⟩) := by
  obtain ⟨disk, faults⟩ := world
  unfold PeriodicLog.write writeOutcome
  cases log.writer with
  | none => exact ⟨_, rfl⟩
  | some writer =>
    by_cases opened : writer.opened = true
    · simp only [opened, if_true, WALWriter.append]
      cases faults with
      | nil => exact ⟨_, rfl⟩
      | cons fault rest =>
        cases fault with
        | pass => exact ⟨_, rfl⟩
        | fail error => exact ⟨_, _, rfl⟩
        | crash kept => exact ⟨_, rfl⟩
    · simp only [opened, if_false, WALWriter.append, Bool.false_eq_true]
      exact ⟨_, _, rfl⟩

/-- A write whose status is returned together with a value. -/
theorem PeriodicLog.write_return_outcome {α : Type} (log : PeriodicLog) (data : Bytes) (value : α)
    (world : World FileName Bytes Failure) :
    match writeOutcome log.writer world.faults with
    | none => ∃ disk, (log.write data >>= fun status => pure (status, value)) world = .error disk
    | some (.error ()) => ∃ failure world',
        (log.write data >>= fun status => pure (status, value)) world = .ok ((.error failure, value), world')
    | some (.ok faults) => ∃ disk,
        (log.write data >>= fun status => pure (status, value)) world = .ok ((.ok (), value), ⟨disk, faults⟩) := by
  have written := log.write_outcome data world
  rcases outcome : writeOutcome log.writer world.faults with _ | ⟨_ | faults⟩
  · simp only [outcome] at written
    obtain ⟨disk, run⟩ := written
    exact ⟨disk, bind_of_error run⟩
  · simp only [outcome] at written
    obtain ⟨failure, world', run⟩ := written
    exact ⟨failure, world', bind_of_ok run⟩
  · simp only [outcome] at written
    obtain ⟨disk, run⟩ := written
    exact ⟨disk, bind_of_ok run⟩

theorem UserInterests.addClick_outcome (table : UserInterests) (click : CategoryClick)
    (world : World FileName Bytes Failure) :
    let counted : UserInterests := { table with fields := (Interests.recoveryClick click table.fields).2 }
    match writeOutcome table.periodicLog.writer world.faults with
    | none => ∃ disk, UserInterests.addClick table click world = .error disk
    | some (.error ()) => ∃ failure world',
        UserInterests.addClick table click world = .ok ((.error failure, counted), world')
    | some (.ok faults) => ∃ disk, UserInterests.addClick table click world = .ok ((.ok (), counted), ⟨disk, faults⟩) := by
  intro counted
  have written := counted.periodicLog.write_return_outcome (LogEvent.click click).record counted world
  rw [← counted.add_eq_write (.click click)] at written
  exact written

theorem Model.addClicks_category (items : ItemDB ι) (click : CategoryClick) {key : Int} (rest : List Int)
    (model : Model υ ι ν) (category : (items.typeId key).type = .category) :
    addClicks items click (key :: rest) model =
      fromNews items { click with categoryId := (items.typeId key).id } rest model := by
  refine (if_neg (not_not_intro category)).trans ?_
  refine congrArg (model.newsTrends.addClick _ >>= ·) (funext fun status => ?_)
  cases status with
  | error failure => rfl
  | ok _ =>
    refine congrArg (UserInterests.addClick model.userInterests _ >>= ·) (funext fun result => ?_)
    rcases result with ⟨_ | _, userInterests⟩ <;> rfl

/-- The loop reports a failure exactly when one of its writes fails. -/
theorem Model.addClicks_outcome (items : ItemDB ι) (click : CategoryClick) (belongsTo : List Int)
    (model : Model υ ι ν) (world : World FileName Bytes Failure) :
    WritesPass (clickWriters items model belongsTo) world.faults ∧
        (∃ disk, addClicks items click belongsTo model world = .error disk) ∨
      WritesPass (clickWriters items model belongsTo) world.faults ∧
        (∃ after world', addClicks items click belongsTo model world = .ok ((.ok (), after), world')) ∨
      ¬ WritesPass (clickWriters items model belongsTo) world.faults ∧
        ∃ failure after world', addClicks items click belongsTo model world = .ok ((.error failure, after), world') ∧
          after.userDb = model.userDb := by
  induction belongsTo generalizing click model world with
  | nil => exact Or.inr (Or.inl ⟨trivial, _, _, rfl⟩)
  | cons key rest ih =>
    by_cases category : (items.typeId key).type = .category
    · have writers : clickWriters items model (key :: rest) = model.newsTrends.periodicLog.writer ::
          model.userInterests.periodicLog.writer :: clickWriters items model rest := by
        simp [clickWriters, category]
      let message := { click with categoryId := (items.typeId key).id }
      have news := PeriodicLog.write_outcome model.newsTrends.periodicLog (LogEvent.click message).record world
      rw [← show DistTable.addClick model.newsTrends message = _ from model.newsTrends.add_eq_write (.click message)]
        at news
      rw [writers, WritesPass, addClicks_category items click rest model category]
      split at news
      · obtain ⟨disk, run⟩ := news
        exact Or.inl ⟨trivial, disk, bind_of_error run⟩
      · obtain ⟨failure, world', run⟩ := news
        exact Or.inr (Or.inr ⟨id, failure, model, world', bind_of_ok run, rfl⟩)
      · rename_i faults _
        obtain ⟨disk, run⟩ := news
        have written : fromNews items message rest model world = fromInterests items message rest model ⟨disk, faults⟩ :=
          bind_of_ok run
        have interests := UserInterests.addClick_outcome model.userInterests message ⟨disk, faults⟩
        rw [written, WritesPass]
        simp only at interests
        split at interests
        · obtain ⟨disk, run⟩ := interests
          exact Or.inl ⟨trivial, disk, bind_of_error run⟩
        · obtain ⟨failure, world', run⟩ := interests
          exact Or.inr (Or.inr ⟨id, failure, _, world', bind_of_ok run, rfl⟩)
        · rename_i later _
          obtain ⟨disk', run⟩ := interests
          let fields := (Interests.recoveryClick message model.userInterests.fields).2
          have continued : fromInterests items message rest model ⟨disk, faults⟩ =
              addClicks items message rest { model with userInterests := { model.userInterests with fields } } ⟨disk', later⟩ :=
            bind_of_ok run
          rw [continued]
          exact ih message { model with userInterests := { model.userInterests with fields } } ⟨disk', later⟩
    · have writers : clickWriters items model (key :: rest) = clickWriters items model rest := by
        simp [clickWriters, category]
      rw [writers, addClicks, if_pos category]
      exact ih click model world

theorem UserDB.marked_iff (users : UserDB υ) (userDb : υ) (userId itemId : UInt64) :
    users.Marked userDb userId itemId ↔ (users.findUserReaded userDb userId itemId).isSome ∧
      0 < (users.findUserReaded userDb userId itemId).getD 0 := by
  unfold Marked
  cases users.findUserReaded userDb userId itemId <;> simp

theorem ActionType.counted_iff (action : ActionType) :
    action.Counted ↔ ¬ (action ≠ .click ∧ action ≠ .like ∧ action ≠ .comment ∧ action ≠ .favorite ∧ action ≠ .share) := by
  cases action <;> simp [Counted]

/-- A repeated action is passed over. -/
theorem Model.updateAction_marked (users : UserDB υ) (items : ItemDB ι) (model : Model υ ι ν) {action : Action}
    (marked : users.Marked model.userDb action.userId action.itemId) :
    updateAction users items model action = return (.ok (), model) := by
  rw [users.marked_iff] at marked
  unfold updateAction
  split
  · rfl
  · exact if_pos marked

theorem Model.updateAction_fresh (users : UserDB υ) (items : ItemDB ι) (model : Model υ ι ν) {action : Action}
    (counted : action.action.Counted) (fresh : ¬ users.Marked model.userDb action.userId action.itemId) :
    updateAction users items model action = fromMark users items action model := by
  rw [ActionType.counted_iff] at counted
  rw [users.marked_iff] at fresh
  exact (if_neg counted).trans (if_neg fresh)

/-- An action that fails once the item is marked leaves the mark. -/
theorem not_leavesNothing (users : UserDB υ) (items : ItemDB ι) {model after : Model υ ι ν} {action : Action}
    {world world' : World FileName Bytes Failure} {failure : Failure}
    (fresh : ¬ users.Marked model.userDb action.userId action.itemId)
    (run : Model.updateAction users items model action world = .ok ((.error failure, after), world'))
    (marked : users.Marked after.userDb action.userId action.itemId) :
    ¬ LeavesNothing users items model action world := by
  intro nothing
  obtain ⟨lastModified, found, positive⟩ := marked
  have before := (nothing failure after world' run).1 action.userId action.itemId
  rw [found] at before
  exact fresh ⟨lastModified, before.symm, positive⟩

/-- A failed action leaves nothing behind exactly when it does not come to fail after the user
table has marked the item: it is marked already, or the user table refuses it and keeps its
marks, or neither the item nor one of the writes fails. -/
theorem leavesNothing_iff (users : UserDB υ) (items : ItemDB ι) (marks : users.MarksUpdated) (model : Model υ ι ν)
    (action : Action) (counted : action.action.Counted) (world : World FileName Bytes Failure) :
    LeavesNothing users items model action world ↔
      users.Marked model.userDb action.userId action.itemId ∨
      ((users.updateAction model.userDb action).1 ≠ .ok () ∧
        ∀ userId itemId, users.findUserReaded (users.updateAction model.userDb action).2 userId itemId =
          users.findUserReaded model.userDb userId itemId) ∨
      ((users.updateAction model.userDb action).1 = .ok () ∧
        ∃ belongsTo, items.fetchItemBelongsTo model.itemDb action.itemId = .ok belongsTo ∧
          WritesPass (clickWriters items model belongsTo) world.faults) := by
  by_cases fresh : users.Marked model.userDb action.userId action.itemId
  · refine iff_of_true ?_ (Or.inl fresh)
    intro failure after world' run
    rw [Model.updateAction_marked users items model fresh] at run
    cases run
  have marked := marks model.userDb action
  have going := Model.updateAction_fresh users items model counted fresh
  simp only [fresh, false_or]
  rcases updated : users.updateAction model.userDb action with ⟨failure | _, userDb⟩
  · have run : Model.updateAction users items model action world =
        .ok ((.error failure, { model with userDb }), world) := by
      rw [going, Model.fromMark, updated]
      rfl
    simp only [ne_eq, reduceCtorEq, not_false_eq_true, true_and, false_and, or_false]
    constructor
    · intro nothing
      exact (nothing _ _ _ run).1
    · intro same failure' after world' run'
      rw [run] at run'
      cases run'
      exact ⟨same, rfl, rfl, rfl⟩
  · simp only [updated, true_implies] at marked
    simp only [ne_eq, not_true_eq_false, false_and, true_and, false_or]
    have reached : Model.updateAction users items model action = Model.fromFetch items action { model with userDb } := by
      rw [going, Model.fromMark, updated]
    cases fetched : items.fetchItemBelongsTo model.itemDb action.itemId with
    | error failure =>
      have run : Model.updateAction users items model action world =
          .ok ((.error failure, { model with userDb }), world) := by
        rw [reached, Model.fromFetch, fetched]
        rfl
      exact iff_of_false (not_leavesNothing users items fresh run marked) (by simp)
    | ok belongsTo =>
      have looped : Model.updateAction users items model action =
          Model.addClicks items ⟨action.userId, 0, action.clickTime⟩ belongsTo { model with userDb } := by
        rw [reached, Model.fromFetch, fetched]
      simp only [Except.ok.injEq, exists_eq_left']
      rcases Model.addClicks_outcome items ⟨action.userId, 0, action.clickTime⟩ belongsTo { model with userDb } world
        with ⟨pass, disk, run⟩ | ⟨pass, done, world', run⟩ | ⟨fail, failure, after, world', run, same⟩ <;>
      rw [← looped] at run
      · refine iff_of_true ?_ pass
        intro failure after world' failed
        rw [run] at failed
        cases failed
      · refine iff_of_true ?_ pass
        intro failure after world' failed
        rw [run] at failed
        cases failed
      · have kept : after.userDb = userDb := same
        rw [← kept] at marked
        exact iff_of_false (not_leavesNothing users items fresh run marked) fail

end

/-- A user table that is the list of the pairs it has been told of. -/
def readPairs : UserDB (List (UInt64 × UInt64)) where
  findUserReaded pairs userId itemId := if (userId, itemId) ∈ pairs then some 1 else none
  updateAction pairs action := (.ok (), (action.userId, action.itemId) :: pairs)
  eliminate pairs := (.ok (), pairs)
  flushTable pairs := (.ok (), pairs)

/-- An item table with the item 5 of category 3 and no other. -/
def oneItem : ItemDB Unit where
  fetchItemBelongsTo _ itemId := if itemId = 5 then .ok [3] else .error ⟨.notFound, "item"⟩
  typeId key := ⟨.category, Int32.ofInt key⟩
  addItem items _ := (.ok (), items)
  eliminate items := (.ok (), items)
  flushTable items := (.ok (), items)

/-- A model whose logs have been opened and whose user table is empty. -/
def openedModel : Model (List (UInt64 × UInt64)) Unit Unit where
  categoryTableName := "category.dat"
  category := ∅
  isCategoryModified := false
  userDb := []
  itemDb := ()
  newsTrends := { DistTable.new "." "news-trends" "news-trends.dat" 48 () with
    periodicLog := (PeriodicLog.new "." "news-trends").opened 0 }
  userInterests := { UserInterests.new { workPath := "." } 100000 with
    periodicLog := (PeriodicLog.new "." "user-interests").opened 0 }

theorem readPairs_marksUpdated : readPairs.MarksUpdated := by
  intro pairs action _
  exact ⟨1, if_pos List.mem_cons_self, by decide⟩

theorem first_click_leaves_nothing :
    LeavesNothing readPairs oneItem openedModel ⟨7, 5, .click, 90000⟩ ⟨fun _ => none, [.pass, .pass]⟩ :=
  (leavesNothing_iff readPairs oneItem readPairs_marksUpdated openedModel ⟨7, 5, .click, 90000⟩ trivial _).mpr
    (Or.inr (Or.inr ⟨rfl, [3], rfl, trivial⟩))

/-- The click on an item that is not there fails, but the user has it marked from now on, so
that the same click is passed over once the item is there. -/
theorem unknown_item_stays_marked :
    ¬ LeavesNothing readPairs oneItem openedModel ⟨7, 6, .click, 90000⟩ ⟨fun _ => none, []⟩ := by
  intro nothing
  have marks := (nothing _ _ _ rfl).1 7 6
  cases marks

end ContentBased
