import ContentBased.Library.Owed
import ContentBased.Restart

namespace ContentBased
open RecordDisk PeriodicLog Owed Std

/-- A count that is raised under the lock of the counts. -/
inductive Part where
  | category (categoryId : Int32)
  | user (userId : UInt64) (categoryId : Int32)

namespace Interests

def raise (part : Part) (fields : Interests) : Interests :=
  match part with
  | .category categoryId => fields.trainCategory categoryId 1
  | .user userId categoryId => fields.trainUserCategory userId categoryId 1

/-- The counts that an event raises, in this order. -/
def parts (fields : Interests) : LogEvent → List Part
  | .click message =>
    if fields.currentDay < message.publishTime.toInt then
      (if 0 = fields.options.userInterestsPriorProbType then [.category message.categoryId] else []) ++
        [.user message.userId message.categoryId]
    else []
  | .item message =>
    if fields.currentDay < message.publishTime.toInt then
      if 1 = fields.options.userInterestsPriorProbType then [.category message.categoryId] else []
    else []

/-- Training raises the counts one after the other. -/
theorem handle_eq_foldl (fields : Interests) (event : LogEvent) : event.handle trainClick trainItem fields =
    (fields.parts event).foldl (fun fields part => fields.raise part) fields := by
  rw [train_eq_adjust]
  cases event with
  | click message =>
    rw [adjust_click, parts, LogEvent.publishTime]
    split
    · split <;> rfl
    · rfl
  | item message =>
    rw [adjust_item, parts, LogEvent.publishTime]
    split
    · split <;> rfl
    · rfl

/-- What the count of a user becomes. -/
def raisedCount (old : Option ℚ) : ℚ :=
  match old with
  | some value => if value + (1 : Int) < 0 then 0 else value + (1 : Int)
  | none => if (1 : Int) < 0 then 0 else (1 : Int)

/-- What the counts of a user become. -/
def raisedRow (categoryId : Int32) (old : Option (Tally Int32)) : Tally Int32 :=
  (old.getD ∅).insert categoryId (raisedCount (old.getD ∅)[categoryId]?)

theorem raise_user (userId : UInt64) (categoryId : Int32) (fields : Interests) :
    fields.raise (.user userId categoryId) = { fields with
      currentUserDist := fields.currentUserDist.insert userId (raisedRow categoryId fields.currentUserDist[userId]?) } := by
  rw [raise, trainUserCategory, ExtTreeMap.getD_eq_getD_getElem?]
  rfl

theorem raise_category (categoryId : Int32) (fields : Interests) :
    fields.raise (.category categoryId) = { fields with
      currentDist := fields.currentDist.insert categoryId ((fields.currentDist[categoryId]?).elim 1 (· + 1)) } := by
  rw [raise, trainCategory, Tally.raise]
  cases fields.currentDist[categoryId]? <;> simp

theorem raise_comm (first second : Part) (fields : Interests) :
    (fields.raise second).raise first = (fields.raise first).raise second := by
  cases first with
  | category categoryId =>
    cases second with
    | category categoryId' =>
      simp only [raise_category]
      rw [ExtTreeMap.insert_insert_comm (f := fun old => old.elim 1 (· + 1)) (g := fun old => old.elim 1 (· + 1)) _
        fun _ _ => rfl]
    | user => rfl
  | user userId categoryId =>
    cases second with
    | category => rfl
    | user userId' categoryId' =>
      simp only [raise_user]
      rw [ExtTreeMap.insert_insert_comm (f := raisedRow categoryId) (g := raisedRow categoryId') _ fun _ old => ?_]
      exact ExtTreeMap.insert_insert_comm (f := raisedCount) (g := raisedCount) _ fun _ _ => rfl

instance : LeftCommutative raise := ⟨raise_comm⟩

theorem raise_options (part : Part) (fields : Interests) : (fields.raise part).options = fields.options := by
  cases part <;> rfl

theorem raise_currentDay (part : Part) (fields : Interests) : (fields.raise part).currentDay = fields.currentDay := by
  cases part <;> rfl

def movedTo (day : Int) (fields : Interests) : Interests := { fields with currentDay := day }

theorem raise_movedTo (day : Int) (part : Part) (fields : Interests) :
    (fields.raise part).movedTo day = (fields.movedTo day).raise part := by
  cases part <;> rfl

/-- What an event counts for depends on whether it is inside the window. -/
theorem parts_of_iff {left right : Interests} {event : LogEvent} (options : left.options = right.options)
    (inside : left.currentDay < event.publishTime ↔ right.currentDay < event.publishTime) :
    left.parts event = right.parts event := by
  cases event with
  | click message =>
    have inside : left.currentDay < message.publishTime.toInt ↔ right.currentDay < message.publishTime.toInt := inside
    simp only [parts, options, inside]
  | item message =>
    have inside : left.currentDay < message.publishTime.toInt ↔ right.currentDay < message.publishTime.toInt := inside
    simp only [parts, options, inside]

theorem parts_congr {left right : Interests} (options : left.options = right.options)
    (day : left.currentDay = right.currentDay) (event : LogEvent) : left.parts event = right.parts event :=
  parts_of_iff options (by rw [day])

end Interests

/-- The table and its files, and the adds that have begun and are not yet written, each with the counts it still raises. -/
structure Adding where
  table : UserInterests
  disk : Files
  threads : Multiset (LogEvent × List Part)

/-- A step of a thread between two locks, for file operations that all succeed: an add raises its counts and then writes
itself to the log, or the log is rolled over, or the window moves on. -/
inductive AddingStep : Adding → Option InterestsCall → Adding → Prop
  | begin {table disk threads event} :
      AddingStep ⟨table, disk, threads⟩ none ⟨table, disk, (event, table.fields.parts event) ::ₘ threads⟩
  | raise {table disk threads event part rest} :
      AddingStep ⟨table, disk, (event, part :: rest) ::ₘ threads⟩ none
        ⟨{ table with fields := table.fields.raise part }, disk, (event, rest) ::ₘ threads⟩
  | write {table disk threads event status after} (run : Completes (DistTable.add table event) disk status after) :
      AddingStep ⟨table, disk, (event, []) ::ₘ threads⟩ (some (.add event)) ⟨table, after, threads⟩
  | rollover {table table' disk threads status after}
      (run : Completes (DistTable.rollover table) disk (status, table') after) :
      AddingStep ⟨table, disk, threads⟩ (some .rollover) ⟨table', after, threads⟩
  | eliminate {table table' disk threads now after}
      (run : Completes (UserInterests.eliminate now table) disk (.ok (), table') after) :
      AddingStep ⟨table, disk, threads⟩ (some (.eliminate now)) ⟨table', after, threads⟩

/-- What the adds that have begun still count. -/
def owed (threads : Multiset (LogEvent × List Part)) : Multiset Part := threads.bind fun thread => thread.2

namespace Interests

/-- What the adds that have begun count as a whole. -/
def whole (fields : Interests) (threads : Multiset (LogEvent × List Part)) : Multiset Part :=
  threads.bind fun thread => fields.parts thread.1

variable {left right fields : Interests} {threads : Multiset (LogEvent × List Part)} {thread : LogEvent × List Part}

theorem owed_cons : owed (thread ::ₘ threads) = thread.2 + owed threads := Multiset.cons_bind ..

theorem whole_cons : fields.whole (thread ::ₘ threads) = fields.parts thread.1 + fields.whole threads :=
  Multiset.cons_bind ..

theorem whole_congr (same : ∀ thread ∈ threads, left.parts thread.1 = right.parts thread.1) :
    left.whole threads = right.whole threads :=
  Multiset.bind_congr fun thread member => by rw [same thread member]

theorem options_settled (parts : Multiset Part) : (settled raise parts fields).options = fields.options :=
  settled_eq raise_options

theorem currentDay_settled (parts : Multiset Part) : (settled raise parts fields).currentDay = fields.currentDay :=
  settled_eq raise_currentDay

theorem options_of_agrees {owed whole : Multiset Part} (agrees : Agrees raise owed whole left right) :
    left.options = right.options := by
  have same := congrArg Interests.options agrees
  rwa [options_settled, options_settled] at same

theorem currentDay_of_agrees {owed whole : Multiset Part} (agrees : Agrees raise owed whole left right) :
    left.currentDay = right.currentDay := by
  have same := congrArg Interests.currentDay agrees
  rwa [currentDay_settled, currentDay_settled] at same

end Interests

namespace Adding

/-- The state goes with that of a table on which the calls are made one after the other, the writes of the adds being in
that order: what is still to be counted is what makes the difference. -/
structure Follows (opts : ModelOptions) (ctime : Int) (calls : List InterestsCall) (state : Adding)
    (serial : UserInterests) : Prop where
  reach : InterestsReach opts ctime calls (serial, state.disk)
  table : serial = { state.table with fields := serial.fields }
  agrees : Agrees Interests.raise (owed state.threads) (serial.fields.whole state.threads) state.table.fields serial.fields

/-- The window moves over no add that has begun. -/
def Undisturbed (state : Adding) : Option InterestsCall → Prop
  | some (.eliminate now) => ∀ thread ∈ state.threads,
      windowStart now state.table.fields.options.userInterestsTimeWindow < thread.1.publishTime ↔
        state.table.fields.currentDay < thread.1.publishTime
  | _ => True

section Follows
variable {opts : ModelOptions} {ctime : Int} {calls : List InterestsCall} {table table' serial : UserInterests}
  {disk after : Files} {threads : Multiset (LogEvent × List Part)} {event : LogEvent} {status : Status}

theorem Follows.begin (follows : Follows opts ctime calls ⟨table, disk, threads⟩ serial) (event : LogEvent) :
    Follows opts ctime calls ⟨table, disk, (event, table.fields.parts event) ::ₘ threads⟩ serial := by
  obtain ⟨reach, same, agrees⟩ := follows
  refine ⟨reach, same, ?_⟩
  rw [Interests.owed_cons, Interests.whole_cons,
    Interests.parts_congr (Interests.options_of_agrees agrees) (Interests.currentDay_of_agrees agrees)]
  exact agrees.begun _

theorem Follows.raise {part : Part} {rest : List Part}
    (follows : Follows opts ctime calls ⟨table, disk, (event, part :: rest) ::ₘ threads⟩ serial) :
    Follows opts ctime calls ⟨{ table with fields := table.fields.raise part }, disk, (event, rest) ::ₘ threads⟩
      serial := by
  obtain ⟨reach, same, agrees⟩ := follows
  refine ⟨reach, same, ?_⟩
  rw [Interests.owed_cons, Interests.whole_cons, ← Multiset.cons_coe, Multiset.cons_add] at agrees
  rw [Interests.owed_cons, Interests.whole_cons]
  exact agrees.pay

theorem add_completes_of_log (run : Completes (DistTable.add table event) disk status after) :
    Completes (UserInterests.add table event) disk
      (status, { table with fields := event.handle Interests.trainClick Interests.trainItem table.fields }) after := by
  cases event with
  | click message => exact .bind run (.pure _ _)
  | item message => exact .bind run (.pure _ _)

/-- The write is where the add takes its place among the calls. -/
theorem Follows.write (follows : Follows opts ctime calls ⟨table, disk, (event, []) ::ₘ threads⟩ serial)
    (run : Completes (DistTable.add table event) disk status after) :
    ∃ serial', Follows opts ctime (calls ++ [.add event]) ⟨table, after, threads⟩ serial' := by
  obtain ⟨reach, same, agrees⟩ := follows
  have written : Completes (DistTable.add serial event) disk status after := by
    rw [DistTable.add_eq_write] at run ⊢
    rwa [same]
  rw [Interests.owed_cons, Interests.whole_cons, Multiset.coe_nil, zero_add] at agrees
  have finished := agrees.finish
  have counted : settled Interests.raise (serial.fields.parts event : Multiset Part) serial.fields =
      event.handle Interests.trainClick Interests.trainItem serial.fields := by
    rw [settled_coe, ← Interests.handle_eq_foldl]
  refine ⟨{ serial with
    fields := settled Interests.raise (serial.fields.parts event : Multiset Part) serial.fields }, ?_, ?_, ?_⟩
  · rw [counted]
    obtain ⟨started, steps⟩ := reach
    exact ⟨started, steps.next (.add (add_completes_of_log written))⟩
  · rw [same]
  · have kept : (settled Interests.raise (serial.fields.parts event : Multiset Part) serial.fields).whole threads =
        serial.fields.whole threads := Interests.whole_congr fun thread _ =>
      Interests.parts_congr (Interests.options_settled _) (Interests.currentDay_settled _) thread.1
    rw [kept]
    exact finished

theorem Follows.rollover (follows : Follows opts ctime calls ⟨table, disk, threads⟩ serial)
    (run : Completes (DistTable.rollover table) disk (status, table') after) :
    ∃ serial', Follows opts ctime (calls ++ [.rollover]) ⟨table', after, threads⟩ serial' := by
  obtain ⟨reach, same, agrees⟩ := follows
  have rec_ := reach.tracks.recorded
  have log : serial.periodicLog = table.periodicLog := by rw [same]
  rw [log] at rec_
  obtain ⟨_, _, first, -⟩ := bind_inv run
  obtain ⟨rolled, disk', rolls, -⟩ := Represents.rollover rec_ (Represents.rollover_room rec_ first)
  have ran : Completes (DistTable.rollover table) disk (.ok (), { table with periodicLog := rolled }) disk' :=
    .bind rolls (.pure _ _)
  have ran' : Completes (DistTable.rollover serial) disk (.ok (), { serial with periodicLog := rolled }) disk' := by
    rw [← log] at rolls
    exact .bind rolls (.pure _ _)
  obtain ⟨values, rfl⟩ := run.unique ran
  obtain ⟨rfl, rfl⟩ := Prod.mk.inj values
  refine ⟨{ serial with periodicLog := rolled }, ?_, ?_, agrees⟩
  · obtain ⟨started, steps⟩ := reach
    exact ⟨started, steps.next (.rollover ran')⟩
  · rw [same]

theorem Follows.eliminate {now : Int} (follows : Follows opts ctime calls ⟨table, disk, threads⟩ serial)
    (undisturbed : Undisturbed ⟨table, disk, threads⟩ (some (.eliminate now)))
    (run : Completes (UserInterests.eliminate now table) disk (.ok (), table') after) :
    ∃ serial', Follows opts ctime (calls ++ [.eliminate now]) ⟨table', after, threads⟩ serial' := by
  obtain ⟨reach, same, agrees⟩ := follows
  have tracks := reach.tracks
  have options := tracks.counted.options
  have options' := Interests.options_of_agrees agrees
  have size : table.timeWindowSize = opts.userInterestsTimeWindow := by
    have size := tracks.size
    rwa [same] at size
  have ran := UserInterests.eliminate_completes table size (options'.trans options) now disk
  have ran' := UserInterests.eliminate_completes serial tracks.size options now disk
  obtain ⟨values, rfl⟩ := run.unique ran
  obtain rfl := (Prod.mk.inj values).2
  refine ⟨{ serial with
    fields := serial.fields.movedTo (windowStart now opts.userInterestsTimeWindow) }, ?_, ?_, ?_⟩
  · obtain ⟨started, steps⟩ := reach
    exact ⟨started, steps.next (.eliminate ran')⟩
  · rw [same]
  · have kept : (serial.fields.movedTo (windowStart now opts.userInterestsTimeWindow)).whole threads =
        serial.fields.whole threads := by
      refine Interests.whole_congr fun thread member => Interests.parts_of_iff rfl ?_
      have inside := undisturbed thread member
      rwa [options', options, Interests.currentDay_of_agrees agrees] at inside
    have moved := congrArg (Interests.movedTo (windowStart now opts.userInterestsTimeWindow)) agrees
    rw [settled_change (Interests.raise_movedTo _), settled_change (Interests.raise_movedTo _)] at moved
    rw [kept]
    exact moved

theorem Follows.step {state after : Adding} {label : Option InterestsCall} (follows : Follows opts ctime calls state serial)
    (undisturbed : Undisturbed state label) (taken : AddingStep state label after) :
    ∃ serial', Follows opts ctime (calls ++ label.toList) after serial' := by
  cases taken with
  | begin =>
    rw [Option.toList_none, List.append_nil]
    exact ⟨serial, follows.begin _⟩
  | raise =>
    rw [Option.toList_none, List.append_nil]
    exact ⟨serial, follows.raise⟩
  | write run => exact follows.write run
  | rollover run => exact follows.rollover run
  | eliminate run => exact follows.eliminate undisturbed run

theorem Follows.run {start state : Adding} {taken : List (Adding × Option InterestsCall)}
    (follows : Follows opts ctime calls start serial) (run : Run.Traced AddingStep start taken state)
    (undisturbed : ∀ pair ∈ taken, Undisturbed pair.1 pair.2) :
    ∃ serial', Follows opts ctime (calls ++ taken.filterMap Prod.snd) state serial' := by
  induction run with
  | start => exact ⟨serial, by simpa using follows⟩
  | @next taken state pair after _ last ih =>
    obtain ⟨rfl, last⟩ := last
    obtain ⟨serial', follows⟩ := ih fun pair member => undisturbed pair (List.mem_append_left _ member)
    have followed := follows.step (undisturbed pair (List.mem_concat_self ..)) last
    have more : calls ++ (taken ++ [pair]).filterMap Prod.snd = calls ++ taken.filterMap Prod.snd ++ pair.2.toList := by
      rw [List.filterMap_append, List.append_assoc]
      obtain ⟨_, _ | _⟩ := pair <;> rfl
    rwa [more]

end Follows

end Adding

/-- However many threads add events at the same time, and whatever they do in between, the counts and the files come to be
those that the same calls leave one after the other, in the order in which the log has the events, as long as the window
moves over no event that is being added. -/
theorem adds_are_serial {opts : ModelOptions} {ctime : Int} {calls : List InterestsCall} {table table' : UserInterests}
    {disk disk' : Files} {taken : List (Adding × Option InterestsCall)}
    (reach : InterestsReach opts ctime calls (table, disk))
    (run : Run.Traced AddingStep ⟨table, disk, 0⟩ taken ⟨table', disk', 0⟩)
    (undisturbed : ∀ pair ∈ taken, Adding.Undisturbed pair.1 pair.2) :
    InterestsReach opts ctime (calls ++ taken.filterMap Prod.snd) (table', disk') := by
  have started : Adding.Follows opts ctime calls ⟨table, disk, 0⟩ table := ⟨reach, rfl, .refl⟩
  obtain ⟨serial, reach, same, agrees⟩ := started.run run undisturbed
  have fields : table'.fields = serial.fields := agrees.done
  rw [← fields] at same
  rwa [same] at reach

/-- An add that has begun can always be brought to its end. -/
theorem add_ends {path prefix_ : String} {segments : Segments LogEvent} {start : Adding}
    {taken : List (Adding × Option InterestsCall)} {disk : Files} {threads : Multiset (LogEvent × List Part)}
    (event : LogEvent) (parts : List Part) {table : UserInterests} (recorded : Recorded path prefix_ table.periodicLog disk segments)
    (run : Run.Traced AddingStep start taken ⟨table, disk, (event, parts) ::ₘ threads⟩) :
    ∃ more table' after, Run.Traced AddingStep start (taken ++ more) ⟨table', after, threads⟩ ∧
      more.filterMap Prod.snd = [.add event] ∧ Recorded path prefix_ table'.periodicLog after (segments.add event) ∧
      ∀ pair ∈ more, Adding.Undisturbed pair.1 pair.2 := by
  induction parts generalizing table taken with
  | nil =>
    obtain ⟨after, ran, recorded⟩ := DistTable.add_completes table recorded event
    refine ⟨[(_, some (.add event))], table, after, .next run ⟨rfl, .write ran⟩, rfl, recorded, fun pair member => ?_⟩
    rw [List.mem_singleton.mp member]
    trivial
  | cons part rest ih =>
    let raised : UserInterests := { table with fields := table.fields.raise part }
    have next : Run.Traced AddingStep start (taken ++ [(⟨table, disk, (event, part :: rest) ::ₘ threads⟩, none)])
        ⟨raised, disk, (event, rest) ::ₘ threads⟩ := .next run ⟨rfl, .raise⟩
    obtain ⟨more, table', after, run, labels, recorded, undisturbed⟩ :=
      ih (show Recorded path prefix_ raised.periodicLog disk segments from recorded) next
    rw [List.append_assoc] at run
    refine ⟨_, table', after, run, labels, recorded, fun pair member => ?_⟩
    rcases List.mem_cons.mp member with rfl | later
    · trivial
    · exact undisturbed pair later

def clickBy (userId : UInt64) : LogEvent := .click ⟨userId, 1, 90000⟩

/-- A second click is added as a whole while the first one has begun, and is the first in the log. -/
theorem second_add_is_first : ∃ (s : UserInterests × Files) (taken : List (Adding × Option InterestsCall))
    (table : UserInterests) (disk : Files), Run.Traced AddingStep ⟨s.1, s.2, 0⟩ taken ⟨table, disk, 0⟩ ∧
      InterestsReach { workPath := "." } 100000 [.add (clickBy 8), .add (clickBy 7)] (table, disk) := by
  obtain ⟨⟨table, disk⟩, reach⟩ := InterestsReach.exists { workPath := "." } 100000 [] (by decide)
  have begun : Run.Traced AddingStep ⟨table, disk, 0⟩
      ([] ++ [(⟨table, disk, 0⟩, none)] ++ [(⟨table, disk, (clickBy 7, table.fields.parts (clickBy 7)) ::ₘ 0⟩, none)])
      ⟨table, disk, (clickBy 8, table.fields.parts (clickBy 8)) ::ₘ (clickBy 7, table.fields.parts (clickBy 7)) ::ₘ 0⟩ :=
    .next (.next .start ⟨rfl, .begin⟩) ⟨rfl, .begin⟩
  obtain ⟨second, table', disk', run, labels, recorded, undisturbed⟩ := add_ends _ _ reach.tracks.recorded begun
  obtain ⟨first, table'', disk'', run, labels', -, undisturbed'⟩ := add_ends _ _ recorded run
  have serial := adds_are_serial reach run (fun pair member => by
    simp only [List.mem_append, List.mem_cons, List.not_mem_nil, or_false, false_or] at member
    rcases member with ((rfl | rfl) | member) | member
    · trivial
    · trivial
    · exact undisturbed pair member
    · exact undisturbed' pair member)
  rw [List.filterMap_append, List.filterMap_append, labels, labels'] at serial
  exact ⟨(table, disk), _, _, _, run, serial⟩

end ContentBased
