import ContentBased.TableLog

namespace ContentBased
open RecordDisk Decimal PeriodicLog

inductive TableCall where
  | add (event : LogEvent)
  | rollover
deriving DecidableEq, Repr

/-- The events of a run, cut where the log was rolled. -/
def TableCall.cut (s : Segments LogEvent) : TableCall → Segments LogEvent
  | .add event => s.add event
  | .rollover => s.roll

def TableCall.segments (calls : List TableCall) : Segments LogEvent := calls.foldl cut .empty

theorem TableCall.segments_snoc (calls : List TableCall) (call : TableCall) :
    segments (calls ++ [call]) = cut (segments calls) call := by
  simp [segments]

theorem TableCall.length_rolled (calls : List TableCall) : (segments calls).rolled.length = calls.count .rollover := by
  induction calls using List.reverseRecOn with
  | nil => rfl
  | append_singleton front call ih =>
    rw [segments_snoc, List.count_append, ← ih]
    cases call <;> simp [cut]

section
variable {σ : Type}

/-- One call on a table whose file operations all succeed. -/
inductive TableStep : DistTable σ × Files → TableCall → DistTable σ × Files → Prop
  | add {table : DistTable σ} {disk after : Files} {event : LogEvent} {status : Status} :
      Completes (table.add event) disk status after → TableStep (table, disk) (.add event) (table, after)
  | rollover {table table' : DistTable σ} {disk after : Files} {status : Status} :
      Completes table.rollover disk (status, table') after → TableStep (table, disk) .rollover (table', after)

/-- The runs of one process from an empty directory. -/
inductive TableReach (virtual : Virtual σ) (path prefix_ tableName : String) (window : Int) (fields : σ) :
    List TableCall → DistTable σ × Files → Prop
  | run {table : DistTable σ} {disk : Files} {calls : List TableCall} {s : DistTable σ × Files} :
      Completes ((DistTable.new path prefix_ tableName window fields).init virtual) (fun _ => none) (.ok (), table) disk →
      Run TableStep (table, disk) calls s → TableReach virtual path prefix_ tableName window fields calls s

variable {virtual : Virtual σ} {path prefix_ tableName : String} {window : Int} {fields : σ}
variable {calls : List TableCall} {s : DistTable σ × Files}

/-- A call changes nothing of the table but its log. -/
theorem TableStep.recorded {call : TableCall} {after : DistTable σ × Files} {segments : Segments LogEvent}
    (step : TableStep s call after) (rec_ : Recorded path prefix_ s.1.periodicLog s.2 segments) :
    Recorded path prefix_ after.1.periodicLog after.2 (call.cut segments) ∧
      after.1 = { s.1 with periodicLog := after.1.periodicLog } := by
  cases step with
  | @add table disk _ event _ run =>
    obtain ⟨after, expected, rec_⟩ := table.add_completes rec_ event
    obtain ⟨_, rfl⟩ := run.unique expected
    exact ⟨rec_, rfl⟩
  | @rollover table _ disk _ _ run =>
    obtain ⟨log, after, expected, rec_⟩ := table.rollover_completes rec_ (DistTable.rollover_room rec_ run)
    obtain ⟨values, rfl⟩ := run.unique expected
    cases values
    exact ⟨rec_, rfl⟩

theorem TableReach.recorded (reach : TableReach virtual path prefix_ tableName window fields calls s) :
    Recorded path prefix_ s.1.periodicLog s.2 (TableCall.segments calls) ∧
      s.1 = { DistTable.new path prefix_ tableName window fields with periodicLog := s.1.periodicLog } := by
  obtain ⟨started, run⟩ := reach
  obtain ⟨log, disk, expected, rec_⟩ := DistTable.init_completes virtual path prefix_ tableName window fields
  obtain ⟨values, rfl⟩ := started.unique expected
  cases values
  induction run with
  | start => exact ⟨rec_, rfl⟩
  | next previous taken ih =>
    obtain ⟨recorded, same⟩ := taken.recorded ih.1
    rw [TableCall.segments_snoc]
    refine ⟨recorded, ?_⟩
    rw [same, ih.2]

theorem TableReach.exists (virtual : Virtual σ) (path prefix_ tableName : String) (window : Int) (fields : σ)
    (calls : List TableCall) (room : calls.count .rollover < 2 ^ 31) :
    ∃ s, TableReach virtual path prefix_ tableName window fields calls s := by
  obtain ⟨log, disk, started, rec_⟩ := DistTable.init_completes virtual path prefix_ tableName window fields
  let holds (calls : List TableCall) (t : DistTable σ × Files) : Prop :=
    Recorded path prefix_ t.1.periodicLog t.2 (TableCall.segments calls)
  have possible (front : List TableCall) (call : TableCall) (inside : front ++ [call] <+: calls)
      (t : DistTable σ × Files) (rec_ : holds front t) : ∃ after, TableStep t call after ∧ holds (front ++ [call]) after := by
    change ∃ after, TableStep t call after ∧ Recorded _ _ _ _ (TableCall.segments (front ++ [call]))
    rw [TableCall.segments_snoc]
    cases call with
    | add event =>
      obtain ⟨after, run, rec_⟩ := t.1.add_completes rec_ event
      exact ⟨_, .add run, rec_⟩
    | rollover =>
      have fewer := inside.sublist.count_le .rollover
      rw [List.count_append, List.count_singleton_self, ← TableCall.length_rolled] at fewer
      obtain ⟨log, after, run, rec_⟩ := t.1.rollover_completes rec_ (by omega)
      exact ⟨_, .rollover run, rec_⟩
  let opened := ({ DistTable.new path prefix_ tableName window fields with periodicLog := log }, disk)
  have initial : holds [] opened := rec_
  obtain ⟨s, run, _⟩ := Run.total initial calls possible
  exact ⟨s, .run started run⟩

/-- One call of `trainClick` or `trainItem` for each event, in order. -/
def Virtual.train (virtual : Virtual σ) (fields : σ) (events : List LogEvent) : σ :=
  events.foldl (LogEvent.handle virtual.trainClick virtual.trainItem) fields

namespace DistTable

/-- The events in a file of this name, if there is one. -/
def logged (disk : Files) (name : FileName) : List LogEvent := ((disk name).map LogEvent.inFile).getD []

/-- The events that a training comes upon, from the newest rolled log down. -/
def windowEvents (table : DistTable σ) (disk : Files) : List LogEvent :=
  (visited disk table.timeWindowSize.toNat table.periodicLog.getIterator).flatMap fun n =>
    logged disk (.log table.periodicLog.path table.periodicLog.prefix_ n)

/-- Training hands over the events of the logs that it comes upon, log by log from the newest
down, and in each log in the order of the records. -/
theorem trainPeriodicLog_visits (virtual : Virtual σ) (table : DistTable σ) (disk : Files) :
    Completes (trainPeriodicLog virtual table) disk
      (.ok (), { table with fields := virtual.train table.fields (table.windowEvents disk) }) disk := by
  let iter := table.periodicLog.getIterator
  let name (n : Int) := FileName.log table.periodicLog.path table.periodicLog.prefix_ n
  have each : ∀ n ∈ visited disk table.timeWindowSize.toNat iter, ∀ fields, True →
      Completes (trainLog virtual { iter with counter := n } fields) disk
        (.ok (), virtual.train fields (logged disk (name n))) disk ∧ True := by
    intro n member fields _
    obtain ⟨file, present⟩ := Option.isSome_iff_exists.mp (visited_present member)
    change disk (name n) = some file at present
    rw [logged, present]
    exact ⟨.bind (readPeriodicLog_completes present _ _ _) (.pure _ _), trivial⟩
  have loop := forLogs_completes table.timeWindowSize.toNat iter each table.fields trivial
  rw [windowEvents, Virtual.train, List.foldl_flatMap]
  exact .bind loop (.pure _ _)

/-- When no log below the counter is missing, these are the newest ones. -/
theorem windowEvents_rolled {table : DistTable σ} {disk : Files} {logs : List (List LogEvent)}
    (onDisk : RolledLogs table.periodicLog.path table.periodicLog.prefix_ disk logs) {count : Nat}
    (counter : table.periodicLog.lastCounter.toInt = count) (fits : count ≤ logs.length) :
    table.windowEvents disk = ((logs.take count).reverse.take table.timeWindowSize.toNat).flatten := by
  let name (n : Nat) := FileName.log table.periodicLog.path table.periodicLog.prefix_ n
  have there (n : Nat) (inside : n < logs.length) :
      (disk (name n)).isSome ∧ logged disk (name n) = logs[n] := by
    obtain ⟨header, present⟩ := onDisk n logs[n] (List.getElem?_eq_getElem inside)
    rw [logged, present]
    exact ⟨rfl, LogEvent.inFile_synced _ _⟩
  have numbers := visited_all table.timeWindowSize.toNat count (count - 1) fun n less => (there n (by omega)).1
  have below : (List.range count).map (fun n : Nat => logged disk (name n)) = logs.take count := by
    refine List.ext_getElem (by simp [fits]) fun n inRange inLogs => ?_
    have inside : n < logs.length := by simp at inLogs; omega
    rw [List.getElem_map, List.getElem_range, List.getElem_take]
    exact (there n inside).2
  rw [windowEvents, getIterator, counter, numbers, List.flatMap_map, ← below, ← List.map_reverse, ← List.map_take]
  rfl

theorem trainPeriodicLog_completes (virtual : Virtual σ) (table : DistTable σ) {disk : Files}
    {logs : List (List LogEvent)}
    (onDisk : RolledLogs table.periodicLog.path table.periodicLog.prefix_ disk logs) {count : Nat}
    (counter : table.periodicLog.lastCounter.toInt = count) (fits : count ≤ logs.length) :
    Completes (trainPeriodicLog virtual table) disk
      (.ok (), { table with
        fields := virtual.train table.fields
          ((logs.take count).reverse.take table.timeWindowSize.toNat).flatten }) disk := by
  rw [← windowEvents_rolled onDisk counter fits]
  exact trainPeriodicLog_visits virtual table disk

end DistTable

/-- Training hands over the events of the `window` logs rolled last and nothing else, whatever
was added and rolled before; `virtual` may keep a record of the calls. -/
theorem trainPeriodicLog_reads_window (reach : TableReach virtual path prefix_ tableName window fields calls s) :
    Completes (s.1.trainPeriodicLog virtual) s.2
      (.ok (), { s.1 with
        fields := virtual.train fields ((TableCall.segments calls).newest window.toNat).flatten }) s.2 := by
  obtain ⟨rec_, same⟩ := reach.recorded
  obtain ⟨table, disk⟩ := s
  simp only at same rec_
  obtain ⟨-, rfl, rfl⟩ := Represents.named rec_
  have run := table.trainPeriodicLog_completes virtual rec_.rolledLogs rec_.lastCounter le_rfl
  have size : table.timeWindowSize = window := by rw [same]; rfl
  have kept : table.fields = fields := by rw [same]; rfl
  rw [List.take_length] at run
  rw [← size, ← kept]
  exact run

end

/-- A table that keeps a record of what it is trained with. -/
def recorder : Virtual (List LogEvent) where
  trainClick click calls := (.ok (), calls ++ [.click click])
  trainItem item calls := (.ok (), calls ++ [.item item])

/-- Of three logs, the last of them still in writing, a window of one gives the second. -/
theorem recorder_trained_with_newest :
    ∃ s, TableReach recorder "." "prefix" "distab" 1 []
        [.add (.click ⟨1, 7, 5⟩), .rollover, .add (.item ⟨2, 7, 5⟩), .rollover, .add (.click ⟨3, 7, 5⟩)] s ∧
      Completes (s.1.trainPeriodicLog recorder) s.2 (.ok (), { s.1 with fields := [.item ⟨2, 7, 5⟩] }) s.2 := by
  obtain ⟨s, reach⟩ := TableReach.exists recorder "." "prefix" "distab" 1 []
    [.add (.click ⟨1, 7, 5⟩), .rollover, .add (.item ⟨2, 7, 5⟩), .rollover, .add (.click ⟨3, 7, 5⟩)] (by decide)
  exact ⟨s, reach, trainPeriodicLog_reads_window reach⟩

end ContentBased
