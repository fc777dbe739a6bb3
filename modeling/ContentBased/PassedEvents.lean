import ContentBased.RecoveryFaults
import ContentBased.EliminationFaults

namespace ContentBased
open RecordDisk Decimal PeriodicLog

namespace PeriodicLog
variable {σ : Type} {log opened : PeriodicLog} {writer : WALWriter} {visitor : Option (σ → Bytes → σ)}
variable {world world' : World FileName Bytes Failure} {status : Status}

/-- The records that the recovery loop takes up: each turn is a read and an append, and it ends at the first of
them that fails. -/
def takenUp : List (Fault Failure) → List Bytes → List Bytes
  | _, [] => []
  | faults, record :: records =>
    if FailsAt faults 0 ∨ record = [] then []
    else record :: if FailsAt faults 1 then [] else takenUp (faults.drop 2) records

/-- However it ends, the loop has gone over the records that it took up. -/
theorem recoverLoop_takenUp (open_ : writer.opened = true) {records : List Bytes} {state after : Bool × PeriodicLog × σ}
    (returned : readLoop List.isEmpty (recoverRecord writer visitor) records state world = .ok ((status, after), world')) :
    after = (takenUp world.faults records).foldl (recovered visitor) state := by
  induction records generalizing state world with
  | nil =>
    obtain ⟨_, middle, ran, rest⟩ := bind_inv returned
    cases rest
    rfl
  | cons record records ih =>
    obtain ⟨result, middle, ran, rest⟩ := bind_inv returned
    obtain ⟨faults, -, ⟨fails, error, rfl⟩ | ⟨passes, rfl⟩⟩ := read_inv ran
    · cases rest
      rw [takenUp, if_pos (.inl fails)]
      rfl
    · cases record with
      | nil =>
        cases rest
        rw [takenUp, if_pos (.inr rfl)]
        rfl
      | cons byte bytes =>
        obtain ⟨⟨outcome, next⟩, here, handled, rest⟩ := bind_inv rest
        obtain ⟨first, log, seen⟩ := state
        obtain ⟨status, here', appends, handled⟩ := bind_inv handled
        cases handled
        rw [takenUp, if_neg (not_or.mpr ⟨passes, List.cons_ne_nil byte bytes⟩)]
        obtain ⟨faults', ⟨fails, ⟨failure, rfl⟩, -⟩ | ⟨passes', rfl, -⟩⟩ := WALWriter.append_inv open_ appends
        · cases rest
          rw [faults, ← failsAt_succ] at fails
          rw [if_pos fails]
          rfl
        · rw [faults, ← failsAt_succ] at passes'
          have steps : here.faults = world.faults.drop 2 := by
            rw [faults', faults, ← List.drop_one, ← List.drop_one, List.drop_drop]
          rw [if_neg passes', ← steps]
          exact ih rest

theorem foldl_recovered_seen {first : Bool} {seen seen' : σ} (records : List Bytes)
    (reached : (first, opened, seen') = records.foldl (recovered visitor) (true, log, seen)) :
    seen' = visitAll visitor seen records.tail := by
  cases records with
  | nil =>
    cases reached
    rfl
  | cons header rest =>
    rw [foldl_recovered] at reached
    cases reached
    rfl

/-- The records that the visitor of a recovery is given: creating the log in writing and opening this file come before. -/
def recoveryVisits (faults : List (Fault Failure)) (file : File Bytes) : List Bytes :=
  if FailsAt faults 0 ∨ FailsAt faults 1 then [] else (takenUp (faults.drop 2) file.content).tail

/-- The records that the visitor of an open is given. -/
def openVisits (path prefix_ : String) (world : World FileName Bytes Failure) : List Bytes :=
  match world.disk (.recovering path prefix_), world.disk (.writing path prefix_) with
  | some file, _ => recoveryVisits world.faults file
  | none, some file => if FailsAt world.faults 0 then [] else recoveryVisits world.faults.tail file
  | none, none => []

theorem recovery_visits {name : FileName} {file : File Bytes} {seen seen' : σ} (open_ : writer.opened = true)
    (source : world.disk name = some file)
    (returned : recovery log name writer visitor seen world = .ok ((status, opened, seen'), world')) :
    seen' = visitAll visitor seen (if FailsAt world.faults 0 then [] else (takenUp world.faults.tail file.content).tail) := by
  obtain ⟨result, disk1, opens, rest⟩ := bind_inv returned
  obtain ⟨faults, -, ⟨fails, error, rfl⟩ | ⟨passes, rfl⟩⟩ := openReader_inv source opens
  · cases rest
    rw [if_pos fails]
    rfl
  · obtain ⟨⟨outcome, first, log', seen''⟩, disk2, loops, rest⟩ := bind_inv rest
    have reached := recoverLoop_takenUp open_ loops
    have visited := foldl_recovered_seen _ reached
    rw [if_neg passes, ← faults, ← visited]
    cases outcome with
    | error failure =>
      cases rest
      rfl
    | ok _ =>
      obtain ⟨_, disk3, flushes, rest⟩ := bind_inv rest
      obtain ⟨removed, disk4, removes, rest⟩ := bind_inv rest
      cases rest
      rfl

/-- A recovery after the log in writing has been created. -/
theorem create_recovery_visits {next : Status × WALWriter → Program (Status × PeriodicLog × σ)} {name : FileName}
    {file : File Bytes} {seen seen' : σ} (other : writer.filename ≠ name)
    (failed : ∀ failure opened, ∃ log, next (.error failure, opened) = pure (.error failure, log, seen))
    (continues : ∀ opened, ∃ log', next (.ok (), opened) = recovery log' name opened visitor seen)
    (source : world.disk name = some file)
    (returned : (writer.create >>= next) world = .ok ((status, opened, seen'), world')) :
    seen' = visitAll visitor seen (recoveryVisits world.faults file) := by
  obtain ⟨⟨created, opened'⟩, middle, creates, rest⟩ := bind_inv returned
  rw [recoveryVisits]
  obtain ⟨faults, ⟨fails, notOk, -⟩ | ⟨passes, rfl, rfl, disk⟩⟩ := WALWriter.create_inv creates
  · cases created with
    | ok => exact absurd rfl notOk
    | error failure =>
      obtain ⟨log', same⟩ := failed failure opened'
      rw [same] at rest
      cases rest
      rw [if_pos (.inl fails)]
      rfl
  · obtain ⟨log', same⟩ := continues { writer with opened := true }
    rw [same] at rest
    have kept : middle.disk name = some file := by
      rw [disk, Function.update_of_ne other.symm, source]
    rw [recovery_visits rfl kept rest, faults]
    by_cases fails : FailsAt world.faults 1
    · have fails' := (failsAt_succ _ _).mp fails
      rw [if_pos fails', if_pos (.inr fails)]
    · have passes' := mt (failsAt_succ _ _).mpr fails
      have steps : world.faults.tail.tail = world.faults.drop 2 := by
        rw [← List.drop_one, ← List.drop_one, List.drop_drop]
      rw [if_neg passes', if_neg (not_or.mpr ⟨passes, fails⟩), steps]

/-- However it ends, the first open of a log has passed these records to its visitor. -/
theorem openLog_visits {path prefix_ : String} {counter : Int32} {seen seen' : σ}
    (returned : (PeriodicLog.new path prefix_).openLog counter visitor seen world = .ok ((status, opened, seen'), world')) :
    seen' = visitAll visitor seen (openVisits path prefix_ world) := by
  have other : FileName.writing path prefix_ ≠ .recovering path prefix_ := nofun
  simp only [openLog, PeriodicLog.new, Option.getD_none] at returned
  obtain ⟨there, middle, found, rest⟩ := bind_inv returned
  cases found
  rw [openVisits]
  cases recovering : world.disk (.recovering path prefix_) with
  | some file =>
    simp only [recovering, Option.isSome_some, if_true] at rest
    exact create_recovery_visits other (fun failure opened => ⟨_, rfl⟩) (fun opened => ⟨_, rfl⟩) recovering rest
  | none =>
    simp only [recovering, Option.isSome_none, Bool.false_eq_true, if_false] at rest
    obtain ⟨there, middle, found, rest⟩ := bind_inv rest
    cases found
    cases writing : world.disk (.writing path prefix_) with
    | some file =>
      simp only [writing, Option.isSome_some, if_true] at rest
      obtain ⟨renamed, middle, renames, rest⟩ := bind_inv rest
      obtain ⟨faults, ⟨fails, ⟨error, rfl⟩, -⟩ | ⟨passes, rfl, disk⟩⟩ := rename_inv writing renames
      · cases rest
        simp only [if_pos fails]
        rfl
      · have moved : middle.disk (.recovering path prefix_) = some file := by simp [disk]
        simp only [if_neg passes, ← faults]
        exact create_recovery_visits other (fun failure opened => ⟨_, rfl⟩) (fun opened => ⟨_, rfl⟩) moved rest
    | none =>
      simp only [writing, Option.isSome_none, Bool.false_eq_true, if_false] at rest
      obtain ⟨⟨created, writer⟩, middle, creates, rest⟩ := bind_inv rest
      cases created with
      | error failure =>
        cases rest
        rfl
      | ok _ =>
        obtain ⟨appended, middle, appends, rest⟩ := bind_inv rest
        cases rest
        rfl

end PeriodicLog

namespace DistTable
variable {σ : Type}

/-- The events that the first open of a table recovers. -/
def recoveredEvents (path prefix_ : String) (world : World FileName Bytes Failure) : List LogEvent :=
  (openVisits path prefix_ world).filterMap LogEvent.ofRecord

theorem init_recovers {virtual : Virtual σ} {table after : DistTable σ} {status : Status}
    {world world' : World FileName Bytes Failure} (new : table.periodicLog = .new table.workPath table.prefix_)
    (returned : init virtual table world = .ok ((status, after), world')) :
    after.fields = (recoveredEvents table.workPath table.prefix_ world).foldl
      (LogEvent.handle virtual.recoveryClick virtual.recoveryItem) table.fields := by
  obtain ⟨⟨status', log, fields⟩, middle, opens, rest⟩ := bind_inv returned
  cases rest
  rw [new] at opens
  rw [openLog_visits opens, recoveredEvents, ← LogEvent.foldl_readRecord]
  exact congrArg (fun step => (openVisits _ _ world).foldl step _) (funext₂ (LogEvent.visit_eq virtual))

/-- The events that the walk of an elimination passes on. -/
def eliminatedEvents (virtual : Virtual σ) : Nat → Iterator → σ → World FileName Bytes Failure → List LogEvent
  | 0, _, _, _ => []
  | turns + 1, iter, fields, world =>
    if iter.counter < 0 then []
    else
      match world.disk iter.filename with
      | none => eliminatedEvents virtual turns iter.next fields world
      | some file =>
        if virtual.needEliminate fields iter.lastCounter iter.counter then
          let events := eventsRead world.faults file
          let left := afterReading world.faults file
          if FailsAt left 0 then events
          else events ++ eliminatedEvents virtual turns iter.next
            (events.foldl (LogEvent.handle virtual.eliminateClick virtual.eliminateItem) fields)
            ⟨Function.update world.disk iter.filename none, left.tail⟩
        else eliminatedEvents virtual turns iter.next fields world

theorem eliminateLog_inv {virtual : Virtual σ} {iter : Iterator} {fields after : σ} {file : File Bytes} {status : Status}
    {world world' : World FileName Bytes Failure} (present : world.disk iter.filename = some file)
    (old : virtual.needEliminate fields iter.lastCounter iter.counter = true)
    (returned : eliminateLog virtual iter fields world = .ok ((status, after), world')) :
    let left := afterReading world.faults file
    after = (eventsRead world.faults file).foldl (LogEvent.handle virtual.eliminateClick virtual.eliminateItem) fields ∧
      world'.faults = left.tail ∧
      (FailsAt left 0 ∧ status ≠ .ok () ∧ world'.disk = world.disk ∨
        ¬ FailsAt left 0 ∧ status = .ok () ∧ world'.disk = Function.update world.disk iter.filename none) := by
  have watched := (congrFun (eliminateLog_watched virtual iter (fields, [])) world).trans returned
  rw [map_eq_pure_bind] at watched
  obtain ⟨⟨status', after', attempts⟩, middle, watched, rest⟩ := bind_inv watched
  cases rest
  obtain ⟨same, ended⟩ := eliminateLogWatched_inv present old watched
  exact ⟨congrArg Prod.fst same, ended⟩

theorem forLogs_eliminateLog_inv {virtual : Virtual σ} {turns : Nat} {iter : Iterator} {fields after : σ}
    {status : Status} {world world' : World FileName Bytes Failure}
    (returned : forLogs (eliminateLog virtual) turns iter fields world = .ok ((status, after), world')) :
    after = (eliminatedEvents virtual turns iter fields world).foldl
      (LogEvent.handle virtual.eliminateClick virtual.eliminateItem) fields := by
  induction turns generalizing iter fields world with
  | zero =>
    cases returned
    rfl
  | succ turns ih =>
    by_cases negative : iter.counter < 0
    · rw [forLogs_oldest negative] at returned
      simp only [eliminatedEvents, if_pos negative]
      cases returned
      rfl
    · simp only [eliminatedEvents, if_neg negative]
      cases present : world.disk iter.filename with
      | none =>
        rw [forLogs_missing negative present] at returned
        exact ih returned
      | some file =>
        obtain ⟨status', fields', middle, eliminates, ended⟩ := forLogs_present_inv negative present returned
        cases old : virtual.needEliminate fields iter.lastCounter iter.counter with
        | false =>
          simp only [eliminateLog, old, Bool.false_eq_true, if_false] at eliminates
          cases eliminates
          rcases ended with ⟨notOk, -⟩ | ⟨-, rest⟩
          · exact absurd rfl notOk
          · exact ih rest
        | true =>
          obtain ⟨rfl, faults, ⟨fails, notOk, -⟩ | ⟨passes, ok, disk⟩⟩ := eliminateLog_inv present old eliminates
          · rcases ended with ⟨-, -, rfl, -⟩ | ⟨ok, -⟩
            · simp only [if_true, if_pos fails]
            · exact absurd ok notOk
          · rcases ended with ⟨notOk, -⟩ | ⟨-, rest⟩
            · exact absurd ok notOk
            · simp only [if_true, if_neg passes, List.foldl_append, ← faults, ← disk]
              exact ih rest

theorem eliminate_passes {virtual : Virtual σ} {now : Int} {table after : DistTable σ} {fields : σ} {status : Status}
    {world world' : World FileName Bytes Failure} (before : virtual.eliminateBefore now table.fields = (.ok (), fields))
    (completed : ∀ fields, (virtual.eliminateCompleted fields).2 = fields)
    (returned : eliminate virtual now table world = .ok ((status, after), world')) :
    after.fields = (eliminatedEvents virtual table.timeWindowSize.toNat table.periodicLog.getIterator fields world).foldl
      (LogEvent.handle virtual.eliminateClick virtual.eliminateItem) fields := by
  simp only [eliminate, before] at returned
  obtain ⟨⟨outcome, table'⟩, middle, walks, rest⟩ := bind_inv returned
  obtain ⟨⟨_, fields'⟩, middle', loops, walks⟩ := bind_inv walks
  cases walks
  rw [← forLogs_eliminateLog_inv loops]
  cases outcome with
  | error failure =>
    cases rest
    rfl
  | ok _ =>
    cases rest
    exact completed fields'

end DistTable

end ContentBased
