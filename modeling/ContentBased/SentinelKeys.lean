import ContentBased.PassedEvents
import ContentBased.Divisors
import ContentBased.FailedAction
import ContentBased.ReloadAtomic
import ContentBased.Library.Run

namespace ContentBased
open RecordDisk PeriodicLog DistTable

/-- The user ids that the maps of users set apart: `set_empty_key` and `set_deleted_key` are called with them. -/
def emptyKey : UInt64 := 0

def deletedKey : UInt64 := -1

namespace Interests

/-- The user id is a key of one of the maps of users. -/
def UsesKey (fields : Interests) (userId : UInt64) : Prop :=
  userId ∈ fields.currentUserDist ∨ userId ∈ fields.userDistBak ∨ userId ∈ fields.userDist

def NoSentinelKeys (fields : Interests) : Prop :=
  ∀ userId, fields.UsesKey userId → userId ≠ emptyKey ∧ userId ≠ deletedKey

theorem adjust_frame (event : LogEvent) (count : Int) (fields : Interests) :
    (adjust event count fields).currentDay = fields.currentDay ∧
      (adjust event count fields).userDistBak = fields.userDistBak ∧
      (adjust event count fields).userDist = fields.userDist := by
  unfold adjust
  cases event.category fields.options.userInterestsPriorProbType <;> cases event.userCategory <;> exact ⟨rfl, rfl, rfl⟩

theorem adjust_usesKey {event : LogEvent} {count : Int} {fields : Interests} {userId : UInt64} :
    (adjust event count fields).UsesKey userId ↔
      (∃ click, event = .click click ∧ click.userId = userId) ∨ fields.UsesKey userId := by
  obtain ⟨-, bak, dist⟩ := adjust_frame event count fields
  rw [UsesKey, UsesKey, bak, dist, (adjust_adjusts event count fields).users, or_assoc]
  cases event <;> simp [LogEvent.userCategory]

/-- A fold over events makes the users of the clicks that are counted to keys. -/
theorem foldl_usesKey {handle : Interests → LogEvent → Interests} {counts : Int → Int → Prop} [DecidableRel counts]
    {count : Int} (same : ∀ fields event, handle fields event =
      if counts fields.currentDay event.publishTime then adjust event count fields else fields)
    (events : List LogEvent) {fields : Interests} {userId : UInt64} :
    (events.foldl handle fields).UsesKey userId ↔
      (∃ click, .click click ∈ events ∧ counts fields.currentDay click.publishTime.toInt ∧ click.userId = userId) ∨
        fields.UsesKey userId := by
  induction events generalizing fields with
  | nil => simp
  | cons event events ih =>
    rw [List.foldl_cons, ih, same]
    by_cases counted : counts fields.currentDay event.publishTime
    · rw [if_pos counted, (adjust_frame event count fields).1, adjust_usesKey, ← or_assoc, or_comm (b := ∃ click, _ = _ ∧ _)]
      refine or_congr_left ?_
      simp only [List.mem_cons, or_and_right, exists_or]
      refine or_congr_left (exists_congr fun click => ?_)
      constructor
      · rintro ⟨rfl, user⟩
        exact ⟨rfl, counted, user⟩
      · exact fun ⟨here, _, user⟩ => ⟨here.symm, user⟩
    · rw [if_neg counted]
      refine or_congr_left (exists_congr fun click => ?_)
      refine and_congr_left fun ⟨counted', _⟩ => ?_
      rw [List.mem_cons, or_iff_right]
      rintro rfl
      exact counted counted'

theorem foldl_train_usesKey (events : List LogEvent) {fields : Interests} {userId : UInt64} :
    (events.foldl (LogEvent.handle trainClick trainItem) fields).UsesKey userId ↔
      (∃ click, .click click ∈ events ∧ fields.currentDay < click.publishTime.toInt ∧ click.userId = userId) ∨
        fields.UsesKey userId :=
  @foldl_usesKey _ (· < ·) _ 1 (fun fields event => train_eq_adjust event fields) events fields userId

theorem foldl_eliminate_usesKey (events : List LogEvent) {fields : Interests} {userId : UInt64} :
    (events.foldl (LogEvent.handle eliminateClick eliminateItem) fields).UsesKey userId ↔
      (∃ click, .click click ∈ events ∧ click.publishTime.toInt ≤ fields.currentDay ∧ click.userId = userId) ∨
        fields.UsesKey userId :=
  @foldl_usesKey _ (fun day time => time ≤ day) _ (-1) (fun fields event => eliminate_eq_adjust event fields) events fields
    userId

theorem load_users (fields : Interests) (dists : List CategoryDistribution) :
    (load virtual fields dists).currentUserDist = fields.currentUserDist ∧
      (load virtual fields dists).userDist = fields.userDist ∧
      ∀ userId, userId ∈ (load virtual fields dists).userDistBak ↔
        (∃ dist ∈ dists, dist.userId = userId) ∨ userId ∈ fields.userDistBak := by
  induction dists generalizing fields with
  | nil => exact ⟨rfl, rfl, fun userId => by simp [load]⟩
  | cons dist dists ih =>
    obtain ⟨current, served, loaded⟩ := ih (loadDistribution dist fields).2
    refine ⟨current, served, fun userId => (loaded userId).trans ?_⟩
    simp only [loadDistribution, Std.ExtTreeMap.mem_insertIfNew, List.exists_mem_cons_iff, Std.LawfulEqCmp.compare_eq_iff_eq]
    rw [or_left_comm, or_assoc]

theorem load_usesKey {fields : Interests} {dists : List CategoryDistribution} {userId : UInt64} :
    (load virtual (reloadBefore fields).2 dists).UsesKey userId ↔
      (∃ dist ∈ dists, dist.userId = userId) ∨ userId ∈ fields.currentUserDist ∨ userId ∈ fields.userDist := by
  obtain ⟨current, served, loaded⟩ := load_users (reloadBefore fields).2 dists
  rw [UsesKey, current, served, loaded]
  simp only [reloadBefore, Std.ExtTreeMap.not_mem_empty, or_false]
  exact or_left_comm

/-- Completing a reload swaps two of the maps. -/
theorem reloadCompleted_usesKey {fields : Interests} {userId : UInt64} :
    (reloadCompleted fields).2.UsesKey userId ↔ fields.UsesKey userId :=
  or_congr_right or_comm

end Interests

/-- The calls that bring user ids into the maps. A recovery is the first open of a table that has been constructed with
these options at this time. -/
inductive UserCall where
  | update (action : Action)
  | recover (opts : ModelOptions) (ctime : Int)
  | train
  | eliminate (now : Int)
  | reload

section
variable {υ ι ν : Type} (users : UserDB υ) (items : ItemDB ι) (format : ItemTagFormat)

def UserCall.run (model : Model υ ι ν) : UserCall → Program (Status × Model υ ι ν)
  | .update action => Model.updateAction users items model action
  | .recover opts ctime => do
    let (status, userInterests) ← DistTable.init Interests.virtual (UserInterests.new opts ctime)
    return (status, { model with userInterests })
  | .train => do
    let (status, userInterests) ← UserInterests.train model.userInterests
    return (status, { model with userInterests })
  | .eliminate now => do
    let (status, userInterests) ← UserInterests.eliminate now model.userInterests
    return (status, { model with userInterests })
  | .reload => do
    let (status, userInterests) ← UserInterests.reload format model.userInterests
    return (status, { model with userInterests })

/-- The user ids that a call brings into the maps: that of an action that is counted, those of the clicks that recovery and
training read inside the window and that elimination reads outside of it, and those of the table that a reload loads. -/
inductive Enters (model : Model υ ι ν) (world : World FileName Bytes Failure) : UserCall → UInt64 → Prop
  | update {action : Action} {belongsTo : List Int} {faults : List (Fault Failure)} : action.action.Counted →
      ¬ users.Marked model.userDb action.userId action.itemId → (users.updateAction model.userDb action).1 = .ok () →
      items.fetchItemBelongsTo model.itemDb action.itemId = .ok belongsTo →
      (∃ key ∈ belongsTo, (items.typeId key).type = .category) →
      writeOutcome model.newsTrends.periodicLog.writer world.faults = some (.ok faults) →
      model.userInterests.fields.currentDay < action.clickTime.toInt → Enters model world (.update action) action.userId
  | recover {opts : ModelOptions} {ctime : Int} {click : CategoryClick} :
      .click click ∈ recoveredEvents opts.workPath opts.userInterestsLogPrefix world →
      windowStart ctime opts.userInterestsTimeWindow < click.publishTime.toInt →
      Enters model world (.recover opts ctime) click.userId
  | train {click : CategoryClick} : .click click ∈ (gathered world.disk model.userInterests.timeWindowSize.toNat
        model.userInterests.periodicLog.getIterator world.faults).1 →
      model.userInterests.fields.currentDay < click.publishTime.toInt → Enters model world .train click.userId
  | eliminate {now : Int} {click : CategoryClick} : .click click ∈ eliminatedEvents Interests.virtual
        model.userInterests.timeWindowSize.toNat model.userInterests.periodicLog.getIterator
        (Interests.eliminateBefore now model.userInterests.fields).2 world →
      click.publishTime.toInt ≤ windowStart now model.userInterests.fields.options.userInterestsTimeWindow →
      Enters model world (.eliminate now) click.userId
  | reload {file : File Bytes} {i : Nat} {dists : List CategoryDistribution} {dist : CategoryDistribution} :
      world.disk (.table model.userInterests.workPath model.userInterests.tableName) = some file →
      ¬ FailsAt world.faults 0 → (∀ j < i, ¬ FailsAt world.faults (j + 1)) →
      Parses format ((records file).take i) dists → dist ∈ dists → Enters model world .reload dist.userId

/-- The keys that are there after a call were there before or have come from it, and what comes from it is there. -/
structure Accounts (before after : Interests) (enters : UInt64 → Prop) : Prop where
  known : ∀ userId, after.UsesKey userId → before.UsesKey userId ∨ enters userId
  entered : ∀ userId, enters userId → after.UsesKey userId

theorem Accounts.same {fields : Interests} {enters : UInt64 → Prop} (none_ : ∀ userId, ¬ enters userId) :
    Accounts fields fields enters :=
  ⟨fun _ uses => .inl uses, fun userId entered => absurd entered (none_ userId)⟩

variable {users items format} {model after : Model υ ι ν} {world world' : World FileName Bytes Failure} {status : Status}

theorem recover_accounts {opts : ModelOptions} {ctime : Int}
    (returned : UserCall.run users items format model (.recover opts ctime) world = .ok ((status, after), world')) :
    Accounts model.userInterests.fields after.userInterests.fields
      (Enters users items format model world (.recover opts ctime)) := by
  obtain ⟨⟨status', table⟩, middle, inits, rest⟩ := bind_inv returned
  cases rest
  have recovered : table.fields = (recoveredEvents opts.workPath opts.userInterestsLogPrefix world).foldl
      (LogEvent.handle Interests.trainClick Interests.trainItem) (UserInterests.new opts ctime).fields := init_recovers rfl inits
  refine ⟨fun userId uses => ?_, fun userId enters => ?_⟩
  · rw [recovered, Interests.foldl_train_usesKey] at uses
    rcases uses with ⟨click, read, inside, rfl⟩ | empty
    · exact .inr (.recover read inside)
    · simp [Interests.UsesKey, UserInterests.new, DistTable.new] at empty
  · cases enters with
    | recover read inside =>
      rw [recovered, Interests.foldl_train_usesKey]
      exact .inl ⟨_, read, inside, rfl⟩

theorem train_accounts
    (returned : UserCall.run users items format model .train world = .ok ((status, after), world')) :
    Accounts model.userInterests.fields after.userInterests.fields (Enters users items format model world .train) := by
  obtain ⟨⟨status', table⟩, middle, trains, rest⟩ := bind_inv returned
  cases rest
  have trained : table.fields = (gathered world.disk model.userInterests.timeWindowSize.toNat
      model.userInterests.periodicLog.getIterator world.faults).1.foldl
      (LogEvent.handle Interests.trainClick Interests.trainItem) (Interests.trainBefore model.userInterests.fields).2 := by
    obtain ⟨⟨outcome, gathered⟩, middle', reads, rest⟩ := bind_inv trains
    obtain ⟨rfl, rfl, -⟩ := trainPeriodicLog_gathers reads
    cases rest
    rfl
  refine ⟨fun userId uses => ?_, fun userId enters => ?_⟩
  · rw [trained, Interests.foldl_train_usesKey] at uses
    rcases uses with ⟨click, read, inside, rfl⟩ | kept
    · exact .inr (.train read inside)
    · refine .inl (kept.imp_left fun none_ => ?_)
      simp [Interests.trainBefore] at none_
  · cases enters with
    | train read inside =>
      rw [trained, Interests.foldl_train_usesKey]
      exact .inl ⟨_, read, inside, rfl⟩

theorem eliminate_accounts {now : Int}
    (returned : UserCall.run users items format model (.eliminate now) world = .ok ((status, after), world')) :
    Accounts model.userInterests.fields after.userInterests.fields
      (Enters users items format model world (.eliminate now)) := by
  obtain ⟨⟨status', table⟩, middle, eliminates, rest⟩ := bind_inv returned
  cases rest
  have eliminated : table.fields = (eliminatedEvents Interests.virtual model.userInterests.timeWindowSize.toNat
      model.userInterests.periodicLog.getIterator (Interests.eliminateBefore now model.userInterests.fields).2 world).foldl
      (LogEvent.handle Interests.eliminateClick Interests.eliminateItem)
      (Interests.eliminateBefore now model.userInterests.fields).2 := eliminate_passes rfl (fun _ => rfl) eliminates
  refine ⟨fun userId uses => ?_, fun userId enters => ?_⟩
  · rw [eliminated, Interests.foldl_eliminate_usesKey] at uses
    rcases uses with ⟨click, read, expired, rfl⟩ | kept
    · exact .inr (.eliminate read expired)
    · exact .inl kept
  · cases enters with
    | eliminate read expired =>
      rw [eliminated, Interests.foldl_eliminate_usesKey]
      exact .inl ⟨_, read, expired, rfl⟩

/-- What a reload loads is all that it can read before a record that does not parse. -/
theorem DistTable.Parses.loaded {recs : List Bytes} {faults : List (Fault Failure)} {k i : Nat} {dists dists' : List CategoryDistribution}
    (parses : Parses format (recs.take k) dists) (parses' : Parses format (recs.take i) dists')
    (reads : ∀ j < i, ¬ FailsAt faults (j + 1))
    (ended : k = recs.length ∨ FailsAt faults (k + 1) ∨
      ∃ record, recs[k]? = some record ∧ CategoryDistribution.parseFromString format record = none) :
    dists' = dists.take i := by
  have first : (recs.take k).take i = recs.take i := by
    rw [List.take_take]
    rcases ended with whole | fails | ⟨record, here, unparsed⟩
    · rw [whole, ← List.take_take, List.take_length]
    · rw [min_eq_left (Nat.le_of_not_lt fun less => reads k less fails)]
    · rw [min_eq_left (Nat.le_of_not_lt fun less => ?_)]
      exact parses'.parsed (by rw [List.getElem?_take_of_lt less, here]) unparsed
  refine parses'.unique ?_
  rw [← first, Parses, List.map_take, parses, List.map_take]

/-- Whether a reload completes or not, the keys are those of what it has loaded. -/
theorem reload_loads {table table' : UserInterests}
    (returned : UserInterests.reload format table world = .ok ((status, table'), world')) :
    ∃ dists, (∀ userId, table'.fields.UsesKey userId ↔
        (load Interests.virtual (Interests.reloadBefore table.fields).2 dists).UsesKey userId) ∧
      ∀ dist, dist ∈ dists ↔ ∃ file i first, world.disk (.table table.workPath table.tableName) = some file ∧
        ¬ FailsAt world.faults 0 ∧ (∀ j < i, ¬ FailsAt world.faults (j + 1)) ∧
        Parses format ((records file).take i) first ∧ dist ∈ first := by
  obtain ⟨opened, middle, ran, rest⟩ := bind_inv returned
  cases present : world.disk (.table table.workPath table.tableName) with
  | none =>
    cases opened with
    | error error =>
      cases rest
      exact ⟨[], fun _ => Iff.rfl, by simp⟩
    | ok contents =>
      have effected := step_ok_inv ran
      simp only [present] at effected
      cases effected
  | some file =>
    obtain ⟨faults, -, ⟨fails, error, rfl⟩ | ⟨opens, rfl⟩⟩ := openReader_inv present ran
    · cases rest
      exact ⟨[], fun _ => Iff.rfl, by simp [fails]⟩
    · obtain ⟨⟨outcome, fields⟩, here, looped, rest⟩ := bind_inv rest
      obtain ⟨-, k, dists, reads, parses, rfl, ended⟩ := records_inv faults looped
      refine ⟨dists, ?_, fun dist => ⟨fun member => ⟨file, k, dists, rfl, opens, reads, parses, member⟩, ?_⟩⟩
      · cases outcome with
        | error failure =>
          cases rest
          exact fun _ => Iff.rfl
        | ok _ =>
          cases rest
          exact fun _ => Interests.reloadCompleted_usesKey
      · rintro ⟨file', i, first, same, -, reads', parses', member⟩
        cases same
        have part := parses.loaded parses' reads' (by
          rcases ended with ⟨-, whole | ⟨-, fails⟩⟩ | ⟨-, record, at_, -, unparsed⟩
          · exact .inl whole
          · exact .inr (.inl fails)
          · exact .inr (.inr ⟨record, at_, unparsed⟩))
        rw [part] at member
        exact List.mem_of_mem_take member

theorem reload_accounts
    (returned : UserCall.run users items format model .reload world = .ok ((status, after), world')) :
    Accounts model.userInterests.fields after.userInterests.fields (Enters users items format model world .reload) := by
  obtain ⟨⟨status', table⟩, middle, reloads, rest⟩ := bind_inv returned
  cases rest
  obtain ⟨dists, keys, loaded⟩ := reload_loads reloads
  refine ⟨fun userId uses => ?_, fun userId enters => ?_⟩
  · rw [keys, Interests.load_usesKey] at uses
    rcases uses with ⟨dist, member, rfl⟩ | current | served
    · obtain ⟨file, i, first, present, opens, reads, parses, member⟩ := (loaded dist).mp member
      exact .inr (.reload present opens reads parses member)
    · exact .inl (.inl current)
    · exact .inl (.inr (.inr served))
  · cases enters with
    | @reload file i first dist present opens reads parses member =>
      rw [keys, Interests.load_usesKey]
      exact .inl ⟨dist, (loaded dist).mpr ⟨file, i, first, present, opens, reads, parses, member⟩, rfl⟩

theorem click_usesKey {click : CategoryClick} {fields : Interests} {userId : UInt64} :
    (Interests.recoveryClick click fields).2.UsesKey userId ↔
      fields.currentDay < click.publishTime.toInt ∧ click.userId = userId ∨ fields.UsesKey userId := by
  refine (@Interests.foldl_train_usesKey [.click click] fields userId).trans (or_congr_left ?_)
  simp

theorem recoveryClick_currentDay (click : CategoryClick) (fields : Interests) :
    (Interests.recoveryClick click fields).2.currentDay = fields.currentDay := by
  refine (congrArg Interests.currentDay (Interests.train_eq_adjust (.click click) fields)).trans ?_
  split
  · exact (Interests.adjust_frame _ _ _).1
  · rfl

/-- What the loop does for a key of a category: the write to the news log comes first, then the click is counted. -/
theorem addClicks_category_inv {click : CategoryClick} {key : Int} {rest : List Int}
    (category : (items.typeId key).type = .category)
    (returned : Model.addClicks items click (key :: rest) model world = .ok ((status, after), world')) :
    let message := { click with categoryId := (items.typeId key).id }
    let counted : Model υ ι ν := { model with userInterests := { model.userInterests with
      fields := (Interests.recoveryClick message model.userInterests.fields).2 } }
    writeOutcome model.newsTrends.periodicLog.writer world.faults = some (.error ()) ∧ after = model ∨
      ∃ faults, writeOutcome model.newsTrends.periodicLog.writer world.faults = some (.ok faults) ∧
        (after = counted ∨ ∃ later, Model.addClicks items message rest counted later = .ok ((status, after), world')) := by
  intro message counted
  have news := PeriodicLog.write_outcome model.newsTrends.periodicLog (LogEvent.click message).record world
  rw [← show DistTable.addClick model.newsTrends message = _ from model.newsTrends.add_eq_write (.click message)] at news
  rw [Model.addClicks_category items click rest model category] at returned
  rcases outcome : writeOutcome model.newsTrends.periodicLog.writer world.faults with _ | ⟨_ | faults⟩
  · simp only [outcome] at news
    obtain ⟨disk, run⟩ := news
    cases (bind_of_error run).symm.trans returned
  · simp only [outcome] at news
    obtain ⟨failure, later, run⟩ := news
    cases (bind_of_ok run).symm.trans returned
    exact .inl ⟨rfl, rfl⟩
  · simp only [outcome] at news
    obtain ⟨disk, run⟩ := news
    have interests : Model.fromInterests items message rest model ⟨disk, faults⟩ = .ok ((status, after), world') :=
      (bind_of_ok run).symm.trans returned
    refine .inr ⟨faults, rfl, ?_⟩
    have written := UserInterests.addClick_outcome model.userInterests message ⟨disk, faults⟩
    rcases outcome' : writeOutcome model.userInterests.periodicLog.writer faults with _ | ⟨_ | later⟩
    · simp only [outcome'] at written
      obtain ⟨disk', run'⟩ := written
      cases (bind_of_error run').symm.trans interests
    · simp only [outcome'] at written
      obtain ⟨failure, world'', run'⟩ := written
      cases (bind_of_ok run').symm.trans interests
      exact .inl rfl
    · simp only [outcome'] at written
      obtain ⟨disk', run'⟩ := written
      exact .inr ⟨⟨disk', later⟩, (bind_of_ok run').symm.trans interests⟩

/-- The loop over the keys of an item makes the user to a key as soon as a click has been written to the other log. -/
theorem addClicks_usesKey (click : CategoryClick) (belongsTo : List Int)
    (returned : Model.addClicks items click belongsTo model world = .ok ((status, after), world')) (userId : UInt64) :
    after.userInterests.fields.UsesKey userId ↔
      ((∃ key ∈ belongsTo, (items.typeId key).type = .category) ∧
        (∃ faults, writeOutcome model.newsTrends.periodicLog.writer world.faults = some (.ok faults)) ∧
        model.userInterests.fields.currentDay < click.publishTime.toInt ∧ click.userId = userId) ∨
      model.userInterests.fields.UsesKey userId := by
  induction belongsTo generalizing click model world with
  | nil =>
    cases returned
    simp
  | cons key rest ih =>
    by_cases category : (items.typeId key).type = .category
    · simp only [List.exists_mem_cons_iff, category, true_or, true_and]
      let message := { click with categoryId := (items.typeId key).id }
      have counted := @click_usesKey message model.userInterests.fields userId
      rcases addClicks_category_inv category returned with ⟨failed, rfl⟩ | ⟨faults, written, rfl | ⟨later, looped⟩⟩
      · simp [failed]
      · simpa [written] using counted
      · have more := ih message looped
        rw [recoveryClick_currentDay] at more
        rw [more, written]
        constructor
        · rintro (⟨-, -, inside, user⟩ | there)
          · exact .inl ⟨⟨faults, rfl⟩, inside, user⟩
          · exact (counted.mp there).imp_left fun entered => ⟨⟨faults, rfl⟩, entered⟩
        · rintro (⟨-, entered⟩ | there)
          · exact .inr (counted.mpr (.inl entered))
          · exact .inr (counted.mpr (.inr there))
    · simp only [List.exists_mem_cons_iff, category, false_or]
      rw [Model.addClicks, if_pos category] at returned
      exact ih click returned

theorem update_accounts {action : Action}
    (returned : UserCall.run users items format model (.update action) world = .ok ((status, after), world')) :
    Accounts model.userInterests.fields after.userInterests.fields
      (Enters users items format model world (.update action)) := by
  change Model.updateAction users items model action world = _ at returned
  by_cases counted : action.action.Counted
  · by_cases marked : users.Marked model.userDb action.userId action.itemId
    · rw [Model.updateAction_marked users items model marked] at returned
      cases returned
      refine .same fun userId enters => ?_
      cases enters with
      | update _ fresh _ _ _ _ _ => exact fresh marked
    · rw [Model.updateAction_fresh users items model counted marked, Model.fromMark] at returned
      rcases updated : users.updateAction model.userDb action with ⟨failure | _, userDb⟩
      · rw [updated] at returned
        cases returned
        refine .same fun userId enters => ?_
        cases enters with
        | update _ _ ok _ _ _ _ => rw [updated] at ok; cases ok
      · rw [updated] at returned
        change Model.fromFetch items action { model with userDb } world = _ at returned
        cases fetched : items.fetchItemBelongsTo model.itemDb action.itemId with
        | error failure =>
          rw [Model.fromFetch, fetched] at returned
          cases returned
          refine .same fun userId enters => ?_
          cases enters with
          | update _ _ _ found _ _ _ => cases fetched.symm.trans found
        | ok belongsTo =>
          rw [Model.fromFetch, fetched] at returned
          have keys := addClicks_usesKey ⟨action.userId, 0, action.clickTime⟩ belongsTo returned
          refine ⟨fun userId uses => ?_, fun userId enters => ?_⟩
          · rcases (keys userId).mp uses with ⟨category, ⟨faults, written⟩, inside, rfl⟩ | there
            · exact .inr (.update counted marked (by rw [updated]) fetched category written inside)
            · exact .inl there
          · cases enters with
            | @update _ belongsTo' faults _ _ _ found category written inside =>
              cases fetched.symm.trans found
              exact (keys _).mpr (.inl ⟨category, ⟨faults, written⟩, inside, rfl⟩)
  · have passed : Model.updateAction users items model action = return (.ok (), model) :=
      if_pos (not_not.mp (mt (ActionType.counted_iff action.action).mpr counted))
    rw [passed] at returned
    cases returned
    refine .same fun userId enters => ?_
    cases enters with
    | update counted' _ _ _ _ _ _ => exact counted counted'

theorem UserCall.accounts {call : UserCall}
    (returned : call.run users items format model world = .ok ((status, after), world')) :
    Accounts model.userInterests.fields after.userInterests.fields (Enters users items format model world call) := by
  cases call with
  | update action => exact update_accounts returned
  | recover opts ctime => exact recover_accounts returned
  | train => exact train_accounts returned
  | eliminate now => exact eliminate_accounts returned
  | reload => exact reload_accounts returned

/-- A call that returns, with the disk and the faults that it meets. -/
def UserStep (users : UserDB υ) (items : ItemDB ι) (format : ItemTagFormat) (before : Model υ ι ν)
    (call : UserCall × World FileName Bytes Failure) (after : Model υ ι ν) : Prop :=
  ∃ status world', call.1.run users items format before call.2 = .ok ((status, after), world')

theorem Accounts.noSentinelKeys_iff {before after : Interests} {enters : UInt64 → Prop}
    (accounts : Accounts before after enters) (none_ : before.NoSentinelKeys) :
    after.NoSentinelKeys ↔ ∀ userId, enters userId → userId ≠ emptyKey ∧ userId ≠ deletedKey := by
  constructor
  · intro still userId entered
    exact still userId (accounts.entered userId entered)
  · intro proper userId uses
    exact (accounts.known userId uses).elim (none_ userId) (proper userId)

/-- Over a run of calls no map ever has one of the keys that are set apart exactly when no call brings one in. -/
theorem no_sentinel_keys_iff {start final : Model υ ι ν} {calls : List (Model υ ι ν × UserCall × World FileName Bytes Failure)}
    (none_ : start.userInterests.fields.NoSentinelKeys) (run : Run.Traced (UserStep users items format) start calls final) :
    (∀ model ∈ calls.map Prod.fst ++ [final], model.userInterests.fields.NoSentinelKeys) ↔
      ∀ call ∈ calls, ∀ userId, Enters users items format call.1 call.2.2 call.2.1 userId →
        userId ≠ emptyKey ∧ userId ≠ deletedKey := by
  have throughout := @Run.holds_throughout_iff _ _ (UserStep users items format) start (fun _ => True)
    (fun model => model.userInterests.fields.NoSentinelKeys)
    (fun model call => ∀ userId, Enters users items format model call.2 call.1 userId →
      userId ≠ emptyKey ∧ userId ≠ deletedKey)
  refine (throughout (fun _ _ _ _ _ => trivial) (fun model call after taken _ none_ => ?_) trivial none_ run).2
  obtain ⟨status, world', returned⟩ := taken
  exact (UserCall.accounts returned).noSentinelKeys_iff none_

end

/-- A click of this user on the item 5, which no file step fails for. -/
def clickOf (userId : UInt64) : UserCall × World FileName Bytes Failure :=
  (.update ⟨userId, 5, .click, 90000⟩, ⟨fun _ => none, []⟩)

theorem openedModel_noSentinelKeys : openedModel.userInterests.fields.NoSentinelKeys := by
  intro userId uses
  simp [Interests.UsesKey, openedModel, UserInterests.new, DistTable.new] at uses

theorem clickOf_step (userId : UInt64) : ∃ after, UserStep readPairs oneItem noTags openedModel (clickOf userId) after :=
  ⟨_, .ok (), _, rfl⟩

theorem no_sentinel_keys_seven : ∃ after,
    Run.Traced (UserStep readPairs oneItem noTags) openedModel [(openedModel, clickOf 7)] after ∧
      after.userInterests.fields.NoSentinelKeys := by
  obtain ⟨after, taken⟩ := clickOf_step 7
  have run : Run.Traced (UserStep readPairs oneItem noTags) openedModel ([] ++ [(openedModel, clickOf 7)]) after :=
    .next .start ⟨rfl, taken⟩
  refine ⟨after, run, (no_sentinel_keys_iff openedModel_noSentinelKeys run).mpr (fun call member userId enters => ?_) after
    (by simp)⟩
  obtain rfl := List.mem_singleton.mp member
  cases enters with
  | update => decide

/-- Nothing looks at the id of the user. -/
theorem empty_key_is_used : ∃ after,
    Run.Traced (UserStep readPairs oneItem noTags) openedModel [(openedModel, clickOf 0)] after ∧
      after.userInterests.fields.UsesKey emptyKey := by
  obtain ⟨after, taken⟩ := clickOf_step 0
  refine ⟨after, .next .start ⟨rfl, taken⟩, ?_⟩
  obtain ⟨status, world', returned⟩ := taken
  have fresh : ¬ readPairs.Marked openedModel.userDb 0 5 := by
    rintro ⟨lastModified, found, -⟩
    cases found
  have enters : Enters readPairs oneItem noTags openedModel ⟨fun _ => none, []⟩ (clickOf 0).1 0 :=
    .update trivial fresh rfl rfl ⟨3, by simp, rfl⟩ rfl (by decide)
  exact (UserCall.accounts returned).entered 0 enters

end ContentBased
