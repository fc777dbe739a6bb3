import ContentBased.UserInterests
import ContentBased.TrainingWindow

namespace ContentBased
open RecordDisk PeriodicLog

/-- The maps count these events and no others. -/
structure Interests.Counted (fields : Interests) (opts : ModelOptions) (day : Int) (events : List LogEvent) : Prop where
  options : fields.options = opts
  currentDay : fields.currentDay = day
  dist : Tally.Counts fields.currentDist (events.filterMap (LogEvent.category opts.userInterestsPriorProbType))
  users : TallyTable.Counts fields.currentUserDist (events.filterMap LogEvent.userCategory)

namespace Interests
variable {fields : Interests} {opts : ModelOptions} {day : Int} {events : List LogEvent}

/-- The bound at zero plays no part when a count goes up. -/
theorem trainUserCategory_one {pairs : List (UInt64 × Int32)}
    (counts : TallyTable.Counts fields.currentUserDist pairs) (userId : UInt64) (categoryId : Int32) :
    fields.trainUserCategory userId categoryId 1 =
      { fields with currentUserDist := fields.currentUserDist.raise (userId, categoryId) } := by
  have value := (counts userId).1 categoryId
  unfold trainUserCategory TallyTable.raise Tally.raise
  simp only [value, Int.cast_one]
  by_cases fresh : (TallyTable.row pairs userId).count categoryId = 0
  · have positive : ¬ (1 : Int) < 0 := by decide
    simp only [fresh, if_true, positive, if_false]
  · have positive : ¬ ((TallyTable.row pairs userId).count categoryId : ℚ) + 1 < 0 := by
      rw [not_lt]
      positivity
    simp only [fresh, if_false, positive]

/-- One more event counts for its category and then for its user. -/
theorem Counted.adjust (counted : fields.Counted opts day events) (event : LogEvent) :
    (adjust event 1 fields).Counted opts day (events ++ [event]) := by
  obtain ⟨rfl, rfl, dist, users⟩ := counted
  cases event with
  | click message =>
    have raised := users.raise (message.userId, message.categoryId)
    rw [adjust_click]
    by_cases prior : 0 = fields.options.userInterestsPriorProbType
    · have users' : TallyTable.Counts (fields.trainCategory message.categoryId 1).currentUserDist _ := users
      rw [if_pos prior, trainUserCategory_one users']
      refine ⟨rfl, rfl, ?_, ?_⟩
      · simpa [LogEvent.category, ← prior, trainCategory] using dist.raise message.categoryId
      · simpa [LogEvent.userCategory, trainCategory] using raised
    · rw [if_neg prior, trainUserCategory_one users]
      refine ⟨rfl, rfl, ?_, ?_⟩
      · simpa [LogEvent.category, prior] using dist
      · simpa [LogEvent.userCategory] using raised
  | item message =>
    rw [adjust_item]
    have kept : (events ++ [LogEvent.item message]).filterMap LogEvent.userCategory =
        events.filterMap LogEvent.userCategory := by
      simp [LogEvent.userCategory, List.filterMap_cons]
    by_cases prior : 1 = fields.options.userInterestsPriorProbType
    · rw [if_pos prior]
      refine ⟨rfl, rfl, ?_, kept ▸ users⟩
      simpa [LogEvent.category, ← prior, trainCategory] using dist.raise message.categoryId
    · rw [if_neg prior]
      refine ⟨rfl, rfl, ?_, kept ▸ users⟩
      simpa [LogEvent.category, prior] using dist

/-- Training counts an event when it was published inside the window. -/
theorem Counted.train (counted : fields.Counted opts day events) (event : LogEvent) :
    (event.handle trainClick trainItem fields).Counted opts day
      (if day < event.publishTime then events ++ [event] else events) := by
  rw [train_eq_adjust, counted.currentDay]
  by_cases inside : day < event.publishTime
  · rw [if_pos inside, if_pos inside]
    exact counted.adjust event
  · rw [if_neg inside, if_neg inside]
    exact counted

theorem Counted.trainAll (counted : fields.Counted opts day events) (more : List LogEvent) :
    (virtual.train fields more).Counted opts day (events ++ more.filter fun event => day < event.publishTime) := by
  induction more generalizing fields events with
  | nil => simpa [Virtual.train] using counted
  | cons event rest ih =>
    have later : (virtual.train fields (event :: rest)).Counted opts day _ := ih (counted.train event)
    by_cases inside : day < event.publishTime
    · simpa [inside] using later
    · simpa [inside] using later

end Interests

inductive InterestsCall where
  | add (event : LogEvent)
  | rollover
  | eliminate (now : Int)
deriving DecidableEq, Repr

namespace UserInterests

def add (table : UserInterests) : LogEvent → Program (Status × UserInterests)
  | .click message => table.addClick message
  | .item message => table.addItem message

/-- Adding counts the event like training does and then writes it. -/
theorem add_completes (table : UserInterests) {path prefix_ : String} {disk : Files} {s : Segments LogEvent}
    (rec_ : Recorded path prefix_ table.periodicLog disk s) (event : LogEvent) :
    ∃ after, Completes (table.add event) disk
        (.ok (), { table with fields := event.handle Interests.trainClick Interests.trainItem table.fields }) after ∧
      Recorded path prefix_ table.periodicLog after (s.add event) := by
  let counted : UserInterests :=
    { table with fields := event.handle Interests.trainClick Interests.trainItem table.fields }
  obtain ⟨after, run, rec_⟩ := DistTable.add_completes counted rec_ event
  refine ⟨after, ?_, rec_⟩
  cases event with
  | click message => exact .bind run (.pure _ _)
  | item message => exact .bind run (.pure _ _)

/-- Training starts over from nothing. -/
theorem train_completes (table : UserInterests) {disk : Files} {logs : List (List LogEvent)}
    (onDisk : RolledLogs table.periodicLog.path table.periodicLog.prefix_ disk logs) {count : Nat}
    (counter : table.periodicLog.lastCounter.toInt = count) (fits : count ≤ logs.length) :
    Completes table.train disk (.ok (), { table with
      fields := Interests.virtual.train { table.fields with currentDist := ∅, currentUserDist := ∅ }
        ((logs.take count).reverse.take table.timeWindowSize.toNat).flatten }) disk := by
  let cleared : UserInterests :=
    { table with fields := { table.fields with currentDist := ∅, currentUserDist := ∅ } }
  have run := cleared.trainPeriodicLog_completes Interests.virtual onDisk counter fits
  exact .bind run (.pure _ _)

end UserInterests

/-- One call on a `UserInterests` whose file operations all succeed. -/
inductive InterestsStep : UserInterests × Files → InterestsCall → UserInterests × Files → Prop
  | add {table table' : UserInterests} {disk after : Files} {event : LogEvent} {status : Status} :
      Completes (table.add event) disk (status, table') after → InterestsStep (table, disk) (.add event) (table', after)
  | rollover {table table' : UserInterests} {disk after : Files} {status : Status} :
      Completes table.rollover disk (status, table') after → InterestsStep (table, disk) .rollover (table', after)
  | eliminate {table table' : UserInterests} {disk after : Files} {now : Int} :
      Completes (table.eliminate now) disk (.ok (), table') after →
      InterestsStep (table, disk) (.eliminate now) (table', after)

/-- The runs of one process that starts at the time `ctime` with an empty directory. -/
inductive InterestsReach (opts : ModelOptions) (ctime : Int) : List InterestsCall → UserInterests × Files → Prop
  | run {table : UserInterests} {disk : Files} {calls : List InterestsCall} {s : UserInterests × Files} :
      Completes (UserInterests.new opts ctime).init (fun _ => none) (.ok (), table) disk →
      Run InterestsStep (table, disk) calls s → InterestsReach opts ctime calls s

/-- The start of the window as it is now, and every event of the run with whether it was
inside the window when it was added. -/
structure History where
  day : Int
  entries : Segments (LogEvent × Bool)

namespace History

def start (opts : ModelOptions) (ctime : Int) : History :=
  ⟨windowStart ctime opts.userInterestsTimeWindow, .empty⟩

def step (opts : ModelOptions) (h : History) : InterestsCall → History
  | .add event => { h with entries := h.entries.add (event, decide (h.day < event.publishTime)) }
  | .rollover => { h with entries := h.entries.roll }
  | .eliminate now => { h with day := windowStart now opts.userInterestsTimeWindow }

def run (opts : ModelOptions) (ctime : Int) (calls : List InterestsCall) : History :=
  calls.foldl (step opts) (start opts ctime)

@[simp] theorem run_snoc (opts : ModelOptions) (ctime : Int) (calls : List InterestsCall) (call : InterestsCall) :
    run opts ctime (calls ++ [call]) = (run opts ctime calls).step opts call := by
  simp [run]

def events (h : History) : Segments LogEvent := h.entries.map Prod.fst

@[simp] theorem events_add (opts : ModelOptions) (h : History) (event : LogEvent) :
    (h.step opts (.add event)).events = h.events.add event :=
  Segments.map_add _ _ _

@[simp] theorem events_rollover (opts : ModelOptions) (h : History) : (h.step opts .rollover).events = h.events.roll :=
  Segments.map_roll _ _

@[simp] theorem events_eliminate (opts : ModelOptions) (h : History) (now : Int) :
    (h.step opts (.eliminate now)).events = h.events := rfl

theorem length_rolled (opts : ModelOptions) (ctime : Int) (calls : List InterestsCall) :
    (run opts ctime calls).events.rolled.length = calls.count .rollover := by
  induction calls using List.reverseRecOn with
  | nil => rfl
  | append_singleton front call ih =>
    rw [run_snoc, List.count_append, ← ih]
    cases call <;> simp

end History

/-- The events of these entries that were counted when they were added. -/
def counted (entries : List (LogEvent × Bool)) : List LogEvent := (entries.filter Prod.snd).map Prod.fst

theorem counted_snoc (entries : List (LogEvent × Bool)) (event : LogEvent) (inside : Prop) [Decidable inside] :
    counted (entries ++ [(event, decide inside)]) =
      if inside then counted entries ++ [event] else counted entries := by
  by_cases holds : inside <;> simp [counted, holds]

/-- The table and the directory are what the history says. -/
structure Tracks (opts : ModelOptions) (s : UserInterests × Files) (h : History) : Prop where
  size : s.1.timeWindowSize = opts.userInterestsTimeWindow
  recorded : Recorded opts.workPath opts.userInterestsLogPrefix s.1.periodicLog s.2 h.events
  counted : s.1.fields.Counted opts h.day (counted h.entries.all)

theorem InterestsStep.functional {s left right : UserInterests × Files} {call : InterestsCall}
    (first : InterestsStep s call left) (second : InterestsStep s call right) : left = right := by
  cases first with
  | add run =>
    cases second with
    | add run' =>
      obtain ⟨values, rfl⟩ := run.unique run'
      cases values
      rfl
  | rollover run =>
    cases second with
    | rollover run' =>
      obtain ⟨values, rfl⟩ := run.unique run'
      cases values
      rfl
  | eliminate run =>
    cases second with
    | eliminate run' =>
      obtain ⟨values, rfl⟩ := run.unique run'
      cases values
      rfl

/-- A log whose age is below the window is not eliminated, and the loop of the elimination
comes upon no other. -/
theorem UserInterests.eliminate_completes (table : UserInterests) {opts : ModelOptions}
    (size : table.timeWindowSize = opts.userInterestsTimeWindow) (same : table.fields.options = opts)
    (now : Int) (disk : Files) :
    Completes (table.eliminate now) disk (.ok (), { table with
      fields := { table.fields with currentDay := windowStart now opts.userInterestsTimeWindow } }) disk := by
  let fields := { table.fields with currentDay := windowStart now opts.userInterestsTimeWindow }
  have each : ∀ n ∈ DistTable.visited disk table.timeWindowSize.toNat table.periodicLog.getIterator,
      ∀ fields' : Interests, fields'.options = opts →
        Completes (DistTable.eliminateLog Interests.virtual { table.periodicLog.getIterator with counter := n } fields')
          disk (.ok (), fields') disk ∧ fields'.options = opts := by
    intro n member fields' same'
    have within := DistTable.visited_newest member
    have young : table.periodicLog.getIterator.lastCounter - n < opts.userInterestsTimeWindow := by
      simp only [getIterator, size] at within ⊢
      omega
    have keep : Interests.virtual.needEliminate fields' table.periodicLog.getIterator.lastCounter n = false := by
      simp only [Interests.virtual, Interests.needEliminate, same', young, if_true]
    refine ⟨?_, same'⟩
    unfold DistTable.eliminateLog
    simp only [keep, Bool.false_eq_true, if_false]
    exact .pure _ _
  have loop := DistTable.forLogs_completes table.timeWindowSize.toNat table.periodicLog.getIterator each fields same
  rw [List.foldl_fixed] at loop
  have eliminated : Completes (DistTable.eliminatePeriodicLog Interests.virtual { table with fields }) disk
      (.ok (), { table with fields }) disk := .bind loop (.pure _ _)
  subst same
  exact .bind eliminated (.pure _ _)

section
variable {opts : ModelOptions} {ctime : Int} {calls : List InterestsCall} {s : UserInterests × Files} {h : History}

/-- No call fails while the file operations succeed and the numbers of the logs fit an `int`, and each does what the
history says. -/
theorem Tracks.step (tracks : Tracks opts s h) (call : InterestsCall)
    (room : call = .rollover → h.events.rolled.length < 2 ^ 31 - 1) :
    ∃ after, InterestsStep s call after ∧ Tracks opts after (h.step opts call) := by
  obtain ⟨table, disk⟩ := s
  obtain ⟨size, rec_, counted⟩ := tracks
  cases call with
  | add event =>
    obtain ⟨after, run, rec_⟩ := table.add_completes rec_ event
    refine ⟨_, .add run, size, ?_, ?_⟩
    · simpa using rec_
    · rw [History.step, Segments.all_add, counted_snoc]
      exact counted.train event
  | rollover =>
    obtain ⟨log, after, run, rec_⟩ := table.rollover_completes rec_ (room rfl)
    refine ⟨_, .rollover run, size, ?_, ?_⟩
    · simpa using rec_
    · simpa [History.step] using counted
  | eliminate now =>
    have run := table.eliminate_completes size counted.options now disk
    exact ⟨_, .eliminate run, size, rec_, counted.options, rfl, counted.dist, counted.users⟩

theorem Tracks.init (opts : ModelOptions) (ctime : Int) :
    ∃ table disk, Completes (UserInterests.new opts ctime).init (fun _ => none) (.ok (), table) disk ∧
      Tracks opts (table, disk) (.start opts ctime) := by
  obtain ⟨log, disk, opened, rec_⟩ := DistTable.init_completes Interests.virtual opts.workPath
    opts.userInterestsLogPrefix opts.userInterestsTableName opts.userInterestsTimeWindow
    (UserInterests.new opts ctime).fields
  let table : UserInterests := { UserInterests.new opts ctime with periodicLog := log }
  have logs : RolledLogs table.periodicLog.path table.periodicLog.prefix_ disk [] := by
    intro n events present
    cases present
  have trained := table.train_completes logs rec_.lastCounter le_rfl
  rw [List.take_nil, List.reverse_nil, List.take_nil, List.flatten_nil] at trained
  exact ⟨_, _, .bind opened trained, rfl, rec_, rfl, rfl, .empty, .empty⟩

theorem Tracks.of_taken (tracks : Tracks opts s h) {call : InterestsCall} {after : UserInterests × Files}
    (taken : InterestsStep s call after) : Tracks opts after (h.step opts call) := by
  have room : call = .rollover → h.events.rolled.length < 2 ^ 31 - 1 := by
    rintro rfl
    cases taken with
    | rollover run => exact DistTable.rollover_room tracks.recorded run
  obtain ⟨after', step, kept⟩ := tracks.step call room
  rwa [taken.functional step]

theorem InterestsReach.tracks (reach : InterestsReach opts ctime calls s) :
    Tracks opts s (.run opts ctime calls) := by
  obtain ⟨started, run⟩ := reach
  obtain ⟨table, disk, expected, tracks⟩ := Tracks.init opts ctime
  obtain ⟨values, rfl⟩ := started.unique expected
  cases values
  induction run with
  | start => exact tracks
  | next _ taken ih =>
    rw [History.run_snoc]
    exact ih.of_taken taken

theorem InterestsReach.exists (opts : ModelOptions) (ctime : Int) (calls : List InterestsCall)
    (room : calls.count .rollover < 2 ^ 31) : ∃ s, InterestsReach opts ctime calls s := by
  obtain ⟨table, disk, started, tracks⟩ := Tracks.init opts ctime
  have possible (front : List InterestsCall) (call : InterestsCall) (inside : front ++ [call] <+: calls)
      (t : UserInterests × Files) (tracks : Tracks opts t (.run opts ctime front)) :
      ∃ after, InterestsStep t call after ∧ Tracks opts after (.run opts ctime (front ++ [call])) := by
    rw [History.run_snoc]
    refine tracks.step call ?_
    rintro rfl
    have fewer := inside.sublist.count_le .rollover
    rw [List.count_append, List.count_singleton_self, ← History.length_rolled opts ctime] at fewer
    omega
  obtain ⟨s, run, _⟩ := Run.total tracks calls possible
  exact ⟨s, .run started run⟩

end

end ContentBased
