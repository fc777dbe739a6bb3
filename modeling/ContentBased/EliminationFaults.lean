import ContentBased.LogGathering
import ContentBased.Library.Run

namespace ContentBased
open RecordDisk Decimal PeriodicLog

/-- One time that an elimination took up a log, with the events of it that were passed to `eliminateClick`
and `eliminateItem`. -/
structure Attempt where
  counter : Int
  passed : List LogEvent
deriving DecidableEq, Repr

namespace DistTable
variable {σ α : Type}

/-- A function of a table that also keeps what it was called with. -/
def watch (event : α → LogEvent) (f : α → σ → Status × σ) (message : α) (s : σ × List LogEvent) :
    Status × σ × List LogEvent :=
  ((f message s.1).1, (f message s.1).2, s.2 ++ [event message])

theorem readRecord_watch (clickf : CategoryClick → σ → Status × σ) (itemf : CategoryItem → σ → Status × σ)
    (s : σ × List LogEvent) (data : Bytes) :
    (readRecord (watch .click clickf) (watch .item itemf) s data).1 = readRecord clickf itemf s.1 data := by
  rw [LogEvent.readRecord_eq, LogEvent.readRecord_eq]
  cases LogEvent.ofRecord data with
  | none => rfl
  | some event => cases event <;> rfl

/-- An elimination of one log that keeps the attempt. -/
def eliminateLogWatched (virtual : Virtual σ) (iter : Iterator) (s : σ × List Attempt) :
    Program (Status × σ × List Attempt) := do
  if virtual.needEliminate s.1 iter.lastCounter iter.counter then
    let (_, fields, passed) ← readPeriodicLog iter.filename (watch .click virtual.eliminateClick)
      (watch .item virtual.eliminateItem) (s.1, [])
    let attempts := s.2 ++ [⟨iter.counter, passed⟩]
    match ← remove noSuchFile iter.filename with
    | .error errno => return (.error (removeError errno iter.filename), fields, attempts)
    | .ok () => return (.ok (), fields, attempts)
  else
    return (.ok (), s)

/-- `eliminate` that keeps the attempts. -/
def eliminateWatched (virtual : Virtual σ) (now : Int) (table : DistTable σ) (attempts : List Attempt) :
    Program (Status × DistTable σ × List Attempt) :=
  match virtual.eliminateBefore now table.fields with
  | (.error failure, fields) => return (.error failure, { table with fields }, attempts)
  | (.ok (), fields) => do
    match ← forLogs (eliminateLogWatched virtual) table.timeWindowSize.toNat table.periodicLog.getIterator
        (fields, attempts) with
    | (.error failure, fields, attempts) => return (.error failure, { table with fields }, attempts)
    | (.ok (), fields, attempts) =>
      let (status, fields) := virtual.eliminateCompleted fields
      return (status, { table with fields }, attempts)

theorem eliminateLog_watched (virtual : Virtual σ) (iter : Iterator) (s : σ × List Attempt) :
    (fun result => (result.1, result.2.1)) <$> eliminateLogWatched virtual iter s = eliminateLog virtual iter s.1 := by
  rw [eliminateLogWatched, eliminateLog]
  cases virtual.needEliminate s.1 iter.lastCounter iter.counter with
  | false => simp only [Bool.false_eq_true, if_false, map_pure]
  | true =>
    have reads := readPeriodicLog_map Prod.fst (readRecord_watch virtual.eliminateClick virtual.eliminateItem)
      iter.filename (s.1, [])
    simp only [if_true, map_bind]
    rw [← reads, bind_map_left]
    refine bind_congr fun result => bind_congr fun removed => ?_
    cases removed with
    | error => rw [map_pure]
    | ok => rw [map_pure]

/-- Apart from the attempts, this is `eliminate`. -/
theorem eliminate_watched (virtual : Virtual σ) (now : Int) (table : DistTable σ) (attempts : List Attempt) :
    (fun result => (result.1, result.2.1)) <$> eliminateWatched virtual now table attempts =
      eliminate virtual now table := by
  rw [eliminateWatched, eliminate]
  cases virtual.eliminateBefore now table.fields with
  | mk status fields =>
    cases status with
    | error => rw [map_pure]
    | ok =>
      have loop := forLogs_map (eliminateLog_watched virtual) table.timeWindowSize.toNat
        table.periodicLog.getIterator (fields, attempts)
      simp only [eliminatePeriodicLog, map_bind, bind_assoc, pure_bind]
      rw [← loop, bind_map_left]
      refine bind_congr fun result => ?_
      obtain ⟨status, fields, attempts⟩ := result
      cases status with
      | error => rw [map_pure]
      | ok => rw [map_pure]

theorem foldl_watch (clickf : CategoryClick → σ → Status × σ) (itemf : CategoryItem → σ → Status × σ)
    (events : List LogEvent) (s : σ × List LogEvent) :
    events.foldl (LogEvent.handle (watch .click clickf) (watch .item itemf)) s =
      (events.foldl (LogEvent.handle clickf itemf) s.1, s.2 ++ events) := by
  induction events generalizing s with
  | nil => simp
  | cons event events ih =>
    rw [List.foldl_cons, ih, List.foldl_cons]
    cases event <;> simp [LogEvent.handle, watch]

/-- A log that has to go passes on what is read of it, and is then removed if the removal does not fail. -/
theorem eliminateLogWatched_inv {virtual : Virtual σ} {iter : Iterator} {fields : σ} {attempts : List Attempt}
    {file : File Bytes} {status : Status} {after : σ × List Attempt} {world world' : World FileName Bytes Failure}
    (present : world.disk iter.filename = some file) (old : virtual.needEliminate fields iter.lastCounter iter.counter = true)
    (returned : eliminateLogWatched virtual iter (fields, attempts) world = .ok ((status, after), world')) :
    let left := afterReading world.faults file
    after = ((eventsRead world.faults file).foldl (LogEvent.handle virtual.eliminateClick virtual.eliminateItem) fields,
        attempts ++ [⟨iter.counter, eventsRead world.faults file⟩]) ∧ world'.faults = left.tail ∧
      (FailsAt left 0 ∧ status ≠ .ok () ∧ world'.disk = world.disk ∨
        ¬ FailsAt left 0 ∧ status = .ok () ∧ world'.disk = Function.update world.disk iter.filename none) := by
  rw [eliminateLogWatched] at returned
  simp only [old, if_true] at returned
  obtain ⟨⟨_, fields', passed⟩, middle, reads, rest⟩ := bind_inv returned
  obtain ⟨same, rfl⟩ := readPeriodicLog_inv present reads
  rw [foldl_watch] at same
  cases same
  obtain ⟨removed, last, removes, rest⟩ := bind_inv rest
  have still : (World.mk world.disk (afterReading world.faults file)).disk iter.filename = some file := present
  obtain ⟨faults, ⟨fails, ⟨error, rfl⟩, disk⟩ | ⟨passes, rfl, disk⟩⟩ := remove_inv still removes
  · cases rest
    exact ⟨rfl, faults, .inl ⟨fails, nofun, disk⟩⟩
  · cases rest
    exact ⟨rfl, faults, .inr ⟨passes, rfl, disk⟩⟩

/-- How many attempts at this log came to its event number `i`. -/
def reaching (attempts : List Attempt) (n : Int) (i : Nat) : Nat :=
  attempts.countP fun attempt => attempt.counter = n ∧ i < attempt.passed.length

/-- Each attempt at a log that is gone passed its first events, and each event of it was passed by one of them. -/
def ExactlyOnce (path prefix_ : String) (start disk : Files) (attempts : List Attempt) : Prop :=
  ∀ n file, start (.log path prefix_ n) = some file → disk (.log path prefix_ n) = none →
    (∀ attempt ∈ attempts, attempt.counter = n → attempt.passed <+: LogEvent.inFile file) ∧
      ∀ i < (LogEvent.inFile file).length, reaching attempts n i = 1

/-- The walk of an elimination on which every log that has to go is passed whole and removed, up to one that is not
removed and of which nothing was passed. -/
inductive Undisturbed (virtual : Virtual σ) : Nat → Iterator → σ → World FileName Bytes Failure → Prop
  | last {iter : Iterator} {fields : σ} {world : World FileName Bytes Failure} : Undisturbed virtual 0 iter fields world
  | oldest {turns : Nat} {iter : Iterator} {fields : σ} {world : World FileName Bytes Failure} :
      iter.counter < 0 → Undisturbed virtual (turns + 1) iter fields world
  | missing {turns : Nat} {iter : Iterator} {fields : σ} {world : World FileName Bytes Failure} :
      0 ≤ iter.counter → world.disk iter.filename = none → Undisturbed virtual turns iter.next fields world →
      Undisturbed virtual (turns + 1) iter fields world
  | young {turns : Nat} {iter : Iterator} {fields : σ} {world : World FileName Bytes Failure} {file : File Bytes} :
      0 ≤ iter.counter → world.disk iter.filename = some file →
      virtual.needEliminate fields iter.lastCounter iter.counter = false →
      Undisturbed virtual turns iter.next fields world → Undisturbed virtual (turns + 1) iter fields world
  | removed {turns : Nat} {iter : Iterator} {fields : σ} {world : World FileName Bytes Failure} {file : File Bytes} :
      0 ≤ iter.counter → world.disk iter.filename = some file →
      virtual.needEliminate fields iter.lastCounter iter.counter = true →
      eventsRead world.faults file = LogEvent.inFile file → ¬ FailsAt (afterReading world.faults file) 0 →
      Undisturbed virtual turns iter.next
        ((LogEvent.inFile file).foldl (LogEvent.handle virtual.eliminateClick virtual.eliminateItem) fields)
        ⟨Function.update world.disk iter.filename none, (afterReading world.faults file).tail⟩ →
      Undisturbed virtual (turns + 1) iter fields world
  | refused {turns : Nat} {iter : Iterator} {fields : σ} {world : World FileName Bytes Failure} {file : File Bytes} :
      0 ≤ iter.counter → world.disk iter.filename = some file →
      virtual.needEliminate fields iter.lastCounter iter.counter = true →
      eventsRead world.faults file = [] → FailsAt (afterReading world.faults file) 0 →
      Undisturbed virtual (turns + 1) iter fields world

/-- The logs that are still there are as they were and nothing of them was passed. -/
structure OnceOnly (path prefix_ : String) (start disk : Files) (attempts : List Attempt) : Prop where
  intact : ∀ n file, disk (.log path prefix_ n) = some file →
    start (.log path prefix_ n) = some file ∧ ∀ i, reaching attempts n i = 0
  once : ∀ n file, start (.log path prefix_ n) = some file → disk (.log path prefix_ n) = none →
    ∀ i < (LogEvent.inFile file).length, reaching attempts n i = 1
  firsts : ∀ attempt ∈ attempts, ∀ file, start (.log path prefix_ attempt.counter) = some file →
    attempt.passed <+: LogEvent.inFile file

theorem reaching_snoc (attempts : List Attempt) (counter : Int) (passed : List LogEvent) (n : Int) (i : Nat) :
    reaching (attempts ++ [⟨counter, passed⟩]) n i =
      reaching attempts n i + if counter = n ∧ i < passed.length then 1 else 0 := by
  rw [reaching, List.countP_append, List.countP_singleton]
  by_cases reached : counter = n ∧ i < passed.length <;> simp [reaching, reached]

namespace OnceOnly
variable {path prefix_ : String} {start disk : Files} {attempts : List Attempt} {n : Int} {file : File Bytes}

theorem exactlyOnce (once : OnceOnly path prefix_ start disk attempts) : ExactlyOnce path prefix_ start disk attempts := by
  intro n file there gone
  refine ⟨fun attempt member same => ?_, once.once n file there gone⟩
  subst same
  exact once.firsts attempt member file there

/-- A log is passed whole and removed. -/
theorem removed (once : OnceOnly path prefix_ start disk attempts) (present : disk (.log path prefix_ n) = some file) :
    OnceOnly path prefix_ start (Function.update disk (.log path prefix_ n) none)
      (attempts ++ [⟨n, LogEvent.inFile file⟩]) := by
  have before := once.intact n file present
  refine ⟨fun m other there => ?_, fun m other there gone i less => ?_, fun attempt member other there => ?_⟩
  · by_cases same : m = n
    · subst same
      rw [Function.update_self] at there
      cases there
    · rw [Function.update_of_ne (by simpa using same)] at there
      obtain ⟨started, nothing⟩ := once.intact m other there
      refine ⟨started, fun i => ?_⟩
      rw [reaching_snoc, nothing, if_neg fun reached => same reached.1.symm]
  · rw [reaching_snoc]
    by_cases same : n = m
    · subst same
      cases before.1.symm.trans there
      rw [before.2, if_pos ⟨rfl, less⟩]
    · rw [Function.update_of_ne (by simpa using Ne.symm same)] at gone
      rw [once.once m other there gone i less, if_neg fun reached => same reached.1]
  · rcases List.mem_append.mp member with earlier | new
    · exact once.firsts attempt earlier other there
    · cases List.mem_singleton.mp new
      cases before.1.symm.trans there
      exact List.prefix_rfl

/-- A log is taken up, but nothing of it is passed. -/
theorem refused (once : OnceOnly path prefix_ start disk attempts) :
    OnceOnly path prefix_ start disk (attempts ++ [⟨n, []⟩]) := by
  have same (m : Int) (i : Nat) : reaching (attempts ++ [⟨n, []⟩]) m i = reaching attempts m i := by
    rw [reaching_snoc, if_neg fun reached => absurd reached.2 (Nat.not_lt_zero _)]
    rfl
  refine ⟨fun m other there => ?_, fun m other there gone i less => ?_, fun attempt member other there => ?_⟩
  · simp only [same]
    exact once.intact m other there
  · rw [same]
    exact once.once m other there gone i less
  · rcases List.mem_append.mp member with earlier | new
    · exact once.firsts attempt earlier other there
    · cases List.mem_singleton.mp new
      exact List.nil_prefix

end OnceOnly

/-- An undisturbed walk passes each log that it removes exactly once. -/
theorem OnceOnly.walk {virtual : Virtual σ} {path prefix_ : String} {start : Files} {turns : Nat} {iter : Iterator}
    {fields : σ} {attempts : List Attempt} {status : Status} {after : σ × List Attempt}
    {world world' : World FileName Bytes Failure} (undisturbed : Undisturbed virtual turns iter fields world)
    (names : iter.path = path ∧ iter.prefix_ = prefix_) (once : OnceOnly path prefix_ start world.disk attempts)
    (returned : forLogs (eliminateLogWatched virtual) turns iter (fields, attempts) world = .ok ((status, after), world')) :
    OnceOnly path prefix_ start world'.disk after.2 := by
  induction undisturbed generalizing attempts with
  | last =>
    cases returned
    exact once
  | oldest negative =>
    rw [forLogs_oldest negative] at returned
    cases returned
    exact once
  | missing inside absent _ ih =>
    rw [forLogs_missing (Int.not_lt.mpr inside) absent] at returned
    exact ih names once returned
  | young inside present young _ ih =>
    obtain ⟨status', reached, middle, eliminates, ended⟩ := forLogs_present_inv (Int.not_lt.mpr inside) present returned
    rw [eliminateLogWatched] at eliminates
    simp only [young, Bool.false_eq_true, if_false] at eliminates
    cases eliminates
    rcases ended with ⟨notOk, -⟩ | ⟨-, rest⟩
    · exact absurd rfl notOk
    · exact ih names once rest
  | @removed turns iter fields world file inside present old whole passes _ ih =>
    obtain ⟨status', reached, middle, eliminates, ended⟩ := forLogs_present_inv (Int.not_lt.mpr inside) present returned
    obtain ⟨rfl, faults, ⟨fails, -⟩ | ⟨-, rfl, disk⟩⟩ := eliminateLogWatched_inv present old eliminates
    · exact absurd fails passes
    · rcases ended with ⟨notOk, -⟩ | ⟨-, rest⟩
      · exact absurd rfl notOk
      · obtain ⟨disk', faults'⟩ := middle
        cases disk
        cases faults
        rw [whole] at rest
        refine ih names ?_ rest
        obtain ⟨rfl, rfl⟩ := names
        exact once.removed present
  | @refused turns iter fields world file inside present old nothing fails =>
    obtain ⟨status', reached, middle, eliminates, ended⟩ := forLogs_present_inv (Int.not_lt.mpr inside) present returned
    obtain ⟨rfl, -, ⟨-, notOk, disk⟩ | ⟨passes, -⟩⟩ := eliminateLogWatched_inv present old eliminates
    · rcases ended with ⟨-, -, rfl, rfl⟩ | ⟨ok, -⟩
      · rw [nothing, disk]
        exact once.refused
      · exact absurd ok notOk
    · exact absurd fails passes

/-- The calls of `eliminate` on a table, each with its time and the faults that it meets, and the attempts of all of them. -/
inductive EliminateStep (virtual : Virtual σ) :
    DistTable σ × Files × List Attempt → Int × List (Fault Failure) → DistTable σ × Files × List Attempt → Prop
  | call {table after : DistTable σ} {disk : Files} {attempts attempts' : List Attempt} {now : Int}
      {faults : List (Fault Failure)} {status : Status} {world : World FileName Bytes Failure} :
      eliminateWatched virtual now table attempts ⟨disk, faults⟩ = .ok ((status, after, attempts'), world) →
      EliminateStep virtual (table, disk, attempts) (now, faults) (after, world.disk, attempts')

/-- The call comes to its logs and its walk over them is undisturbed, or it ends before. -/
def UndisturbedCall (virtual : Virtual σ) (s : DistTable σ × Files × List Attempt) (call : Int × List (Fault Failure)) :
    Prop :=
  ∀ fields, virtual.eliminateBefore call.1 s.1.fields = (.ok (), fields) →
    Undisturbed virtual s.1.timeWindowSize.toNat s.1.periodicLog.getIterator fields ⟨s.2.1, call.2⟩

theorem EliminateStep.once {virtual : Virtual σ} {path prefix_ : String} {start : Files}
    {s after : DistTable σ × Files × List Attempt} {call : Int × List (Fault Failure)}
    (step : EliminateStep virtual s call after) (undisturbed : UndisturbedCall virtual s call)
    (names : s.1.periodicLog.path = path ∧ s.1.periodicLog.prefix_ = prefix_)
    (once : OnceOnly path prefix_ start s.2.1 s.2.2) :
    OnceOnly path prefix_ start after.2.1 after.2.2 ∧ after.1.periodicLog = s.1.periodicLog := by
  cases step with
  | @call table after disk attempts attempts' now faults status world returned =>
    rw [eliminateWatched] at returned
    cases begins : virtual.eliminateBefore now table.fields with
    | mk status' fields =>
      rw [begins] at returned
      cases status' with
      | error =>
        cases returned
        exact ⟨once, rfl⟩
      | ok =>
        obtain ⟨⟨status', fields', attempts''⟩, middle, loops, rest⟩ := bind_inv returned
        have walked := OnceOnly.walk (undisturbed fields begins) names once loops
        cases status' with
        | error =>
          cases rest
          exact ⟨walked, rfl⟩
        | ok =>
          cases rest
          exact ⟨walked, rfl⟩

/-- Over any number of undisturbed calls, each event of a log that is gone was passed exactly once. -/
theorem eliminated_exactly_once {virtual : Virtual σ} {table : DistTable σ} {start : Files}
    {calls : List (Int × List (Fault Failure))} {s : DistTable σ × Files × List Attempt}
    (run : Run (fun s call after => EliminateStep virtual s call after ∧ UndisturbedCall virtual s call)
      (table, start, []) calls s) :
    ExactlyOnce table.periodicLog.path table.periodicLog.prefix_ start s.2.1 s.2.2 := by
  suffices kept : OnceOnly table.periodicLog.path table.periodicLog.prefix_ start s.2.1 s.2.2 ∧
      s.1.periodicLog = table.periodicLog from kept.1.exactlyOnce
  induction run with
  | start =>
    refine ⟨⟨fun n file present => ⟨present, fun i => rfl⟩, ?_, nofun⟩, rfl⟩
    intro n file there gone
    cases there.symm.trans gone
  | next _ taken ih =>
    obtain ⟨step, undisturbed⟩ := taken
    obtain ⟨once, same⟩ := ih
    obtain ⟨once', same'⟩ := step.once undisturbed ⟨by rw [same], by rw [same]⟩ once
    exact ⟨once', same'.trans same⟩

/-- A table for which every log is old, with one rolled log. -/
def allOld : Virtual Unit where
  needEliminate _ _ _ := true

def rolledClick : DistTable Unit := { new "." "log" "table" 1 () with periodicLog := ⟨1, ".", "log", none⟩ }

def clickFile : File Bytes := .synced [[48], (LogEvent.click ⟨1, 7, 0⟩).record]

def clickLog : Files := Function.update (fun _ => none) (.log "." "log" 0) (some clickFile)

theorem eliminated_exactly_once_click :
    ∃ s, Run (fun s call after => EliminateStep allOld s call after ∧ UndisturbedCall allOld s call)
        (rolledClick, clickLog, []) ([] ++ [(0, [])]) s ∧
      s.2.1 (.log "." "log" 0) = none ∧ ExactlyOnce "." "log" clickLog s.2.1 s.2.2 := by
  have undisturbed : UndisturbedCall allOld (rolledClick, clickLog, []) (0, []) := by
    intro fields begins
    cases begins
    have present : (World.mk clickLog ([] : List (Fault Failure))).disk (.log "." "log" 0) = some clickFile := rfl
    exact .removed (by decide) present rfl rfl (by decide) .last
  obtain ⟨result, world, ran⟩ : ∃ result world, eliminateWatched allOld 0 rolledClick [] ⟨clickLog, []⟩ =
    .ok (result, world) ∧ world.disk (.log "." "log" 0) = none := ⟨_, _, rfl, rfl⟩
  refine ⟨_, .next .start ⟨.call ran.1, undisturbed⟩, ran.2, ?_⟩
  exact @eliminated_exactly_once _ allOld rolledClick clickLog _ _ (.next .start ⟨.call ran.1, undisturbed⟩)

/-- A log that cannot be opened is removed without being passed, and one that is not removed is passed again. -/
theorem eliminated_never_or_twice :
    (∃ s, Run (EliminateStep allOld) (rolledClick, clickLog, []) ([] ++ [(0, [.fail ⟨.ioError, "open"⟩])]) s ∧
      s.2.1 (.log "." "log" 0) = none ∧ reaching s.2.2 0 0 = 0 ∧ ¬ ExactlyOnce "." "log" clickLog s.2.1 s.2.2) ∧
    ∃ s, Run (EliminateStep allOld) (rolledClick, clickLog, [])
        ([] ++ [(0, [.pass, .pass, .pass, .pass, .fail ⟨.ioError, "remove"⟩])] ++ [(0, [])]) s ∧
      s.2.1 (.log "." "log" 0) = none ∧ reaching s.2.2 0 0 = 2 ∧ ¬ ExactlyOnce "." "log" clickLog s.2.1 s.2.2 := by
  refine ⟨⟨_, .next .start (.call rfl), rfl, by decide, fun once => ?_⟩,
    ⟨_, .next (.next .start (.call rfl)) (.call rfl), rfl, by decide, fun once => ?_⟩⟩
  · cases (once 0 clickFile rfl rfl).2 0 (by decide)
  · cases (once 0 clickFile rfl rfl).2 0 (by decide)

end DistTable

end ContentBased
