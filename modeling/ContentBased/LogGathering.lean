import ContentBased.TrainingWindow
import ContentBased.Library.ReadFaults

namespace ContentBased
open RecordDisk Decimal PeriodicLog

namespace DistTable
variable {σ τ : Type}

/-- The records of a rolled log that are read with these faults: opening the file and reading its header
come before. -/
def recordsRead (faults : List (Fault Failure)) (file : File Bytes) : List Bytes :=
  if FailsAt faults 0 ∨ FailsAt faults 1 then [] else readable 1 (faults.drop 2) (replayable file.content.tail)

def eventsRead (faults : List (Fault Failure)) (file : File Bytes) : List LogEvent :=
  (recordsRead faults file).filterMap LogEvent.ofRecord

/-- The faults that are left when the log has been read. -/
def afterReading (faults : List (Fault Failure)) (file : File Bytes) : List (Fault Failure) :=
  if FailsAt faults 0 then faults.drop 1
  else if FailsAt faults 1 then faults.drop 2
  else faults.drop (2 + ((recordsRead faults file).length + 1))

/-- Reading a log hands over the events that are read, whether it is OK or not. -/
theorem readPeriodicLog_inv {name : FileName} {file : File Bytes} {clickf : CategoryClick → σ → Status × σ}
    {itemf : CategoryItem → σ → Status × σ} {fields after : σ} {status : Status}
    {world world' : World FileName Bytes Failure} (present : world.disk name = some file)
    (returned : readPeriodicLog name clickf itemf fields world = .ok ((status, after), world')) :
    after = (eventsRead world.faults file).foldl (LogEvent.handle clickf itemf) fields ∧
      world' = ⟨world.disk, afterReading world.faults file⟩ := by
  obtain ⟨⟨status', reader⟩, middle, opens, rest⟩ := bind_inv returned
  obtain ⟨result, disk1, opened, opens⟩ := bind_inv opens
  obtain ⟨faults1, same1, ⟨fails, error, rfl⟩ | ⟨passes, rfl⟩⟩ := openReader_inv present opened
  · cases opens
    cases rest
    rw [eventsRead, recordsRead, if_pos (.inl fails), afterReading, if_pos fails, List.drop_one, ← faults1, ← same1]
    exact ⟨rfl, rfl⟩
  · obtain ⟨result, disk2, reads, opens⟩ := bind_inv opens
    obtain ⟨faults2, same2, ⟨fails, error, rfl⟩ | ⟨passes', rfl⟩⟩ := read_inv reads
    · cases opens
      cases rest
      rw [faults1, ← failsAt_succ] at fails
      rw [eventsRead, recordsRead, if_pos (.inr fails), afterReading, if_neg passes, if_pos fails, ← same1, ← same2]
      refine ⟨rfl, ?_⟩
      rw [← List.drop_drop (i := 1) (j := 1), List.drop_one, List.drop_one, ← faults1, ← faults2]
    · cases opens
      rw [faults1, ← failsAt_succ] at passes'
      obtain ⟨⟨_, fields'⟩, disk3, loops, rest⟩ := bind_inv rest
      cases rest
      obtain ⟨-, rfl, rfl⟩ := readLoop_readable loops
      have steps : middle.faults = world.faults.drop 2 := by
        rw [faults2, faults1, ← List.drop_one, ← List.drop_one, List.drop_drop]
      have read : recordsRead world.faults file = readable 1 middle.faults (replayable file.content.tail) := by
        rw [recordsRead, if_neg (not_or.mpr ⟨passes, passes'⟩), steps]
      rw [eventsRead, afterReading, if_neg passes, if_neg passes', read, ← LogEvent.foldl_readRecord, same2, same1, steps,
        List.drop_drop]
      exact ⟨rfl, rfl⟩

/-- A part of the fields that only keeps a record can be left out of the reading of a log. -/
theorem readPeriodicLog_map {clickf : CategoryClick → σ → Status × σ} {itemf : CategoryItem → σ → Status × σ}
    {clickf' : CategoryClick → τ → Status × τ} {itemf' : CategoryItem → τ → Status × τ} (view : σ → τ)
    (same : ∀ fields data, view (readRecord clickf itemf fields data) = readRecord clickf' itemf' (view fields) data)
    (name : FileName) (fields : σ) :
    (fun result => (result.1, view result.2)) <$> readPeriodicLog name clickf itemf fields =
      readPeriodicLog name clickf' itemf' (view fields) := by
  simp only [readPeriodicLog, map_bind]
  refine bind_congr fun result => ?_
  obtain ⟨status, reader⟩ := result
  cases status with
  | error => rw [map_pure]
  | ok =>
    have loop := @readLoop_map_pure FileName Bytes Failure _ _ List.isEmpty _ _ view same reader.records fields
    simp only [map_bind]
    rw [← loop, bind_map_left]
    refine bind_congr fun result => ?_
    rw [map_pure]

/-- And so it can be left out of the loop over the logs. -/
theorem forLogs_map {body : Iterator → σ → Program (Status × σ)} {body' : Iterator → τ → Program (Status × τ)}
    {view : σ → τ}
    (same : ∀ iter fields, (fun result => (result.1, view result.2)) <$> body iter fields = body' iter (view fields))
    (turns : Nat) (iter : Iterator) (fields : σ) :
    (fun result => (result.1, view result.2)) <$> forLogs body turns iter fields = forLogs body' turns iter (view fields) := by
  induction turns generalizing iter fields with
  | zero => simp only [forLogs, map_pure]
  | succ turns ih =>
    rw [forLogs, forLogs]
    by_cases negative : iter.counter < 0
    · simp only [if_pos negative, map_pure]
    · simp only [if_neg negative, map_bind]
      refine bind_congr fun there => ?_
      cases there with
      | false => exact ih iter.next fields
      | true =>
        simp only [if_true, map_bind]
        rw [← same, bind_map_left]
        refine bind_congr fun result => ?_
        obtain ⟨status, fields⟩ := result
        cases status with
        | error => rw [map_pure]
        | ok => exact ih iter.next fields

theorem forLogs_oldest {body : Iterator → σ → Program (Status × σ)} {turns : Nat} {iter : Iterator} {fields : σ}
    (negative : iter.counter < 0) : forLogs body (turns + 1) iter fields = return (.ok (), fields) := by
  rw [forLogs, if_pos negative]

/-- A log that is missing is passed over. -/
theorem forLogs_missing {body : Iterator → σ → Program (Status × σ)} {turns : Nat} {iter : Iterator} {fields : σ}
    {world : World FileName Bytes Failure} (inside : ¬ iter.counter < 0) (absent : world.disk iter.filename = none) :
    forLogs body (turns + 1) iter fields world = forLogs body turns iter.next fields world := by
  have there : Iterator.isFileExist iter world = .ok (false, world) := by
    rw [Iterator.isFileExist, isFile, absent]
    rfl
  rw [forLogs, if_neg inside]
  exact bind_of_ok there

/-- A log that is there is taken up, and the walk goes on if this is OK. -/
theorem forLogs_present_inv {body : Iterator → σ → Program (Status × σ)} {turns : Nat} {iter : Iterator}
    {fields after : σ} {status : Status} {file : File Bytes} {world world' : World FileName Bytes Failure}
    (inside : ¬ iter.counter < 0) (present : world.disk iter.filename = some file)
    (returned : forLogs body (turns + 1) iter fields world = .ok ((status, after), world')) :
    ∃ status' fields' middle, body iter fields world = .ok ((status', fields'), middle) ∧
      (status' ≠ .ok () ∧ status = status' ∧ after = fields' ∧ world' = middle ∨
        status' = .ok () ∧ forLogs body turns iter.next fields' middle = .ok ((status, after), world')) := by
  rw [forLogs, if_neg inside] at returned
  obtain ⟨there, middle, found, rest⟩ := bind_inv returned
  cases found
  simp only [present, Option.isSome_some, if_true] at rest
  obtain ⟨⟨status', fields'⟩, middle, taken, rest⟩ := bind_inv rest
  refine ⟨status', fields', middle, taken, ?_⟩
  cases status' with
  | error failure =>
    cases rest
    exact .inl ⟨by simp, rfl, rfl, rfl⟩
  | ok _ => exact .inr ⟨rfl, rest⟩

/-- The events that a walk over the rolled logs reads, and the faults that are left after it. -/
def gathered (disk : Files) : Nat → Iterator → List (Fault Failure) → List LogEvent × List (Fault Failure)
  | 0, _, faults => ([], faults)
  | turns + 1, iter, faults =>
    if iter.counter < 0 then ([], faults)
    else
      match disk iter.filename with
      | none => gathered disk turns iter.next faults
      | some file =>
        let later := gathered disk turns iter.next (afterReading faults file)
        (eventsRead faults file ++ later.1, later.2)

/-- Training goes over what can be read of the logs and leaves the files alone. -/
theorem forLogs_trainLog_inv {virtual : Virtual σ} {turns : Nat} {iter : Iterator} {fields after : σ} {status : Status}
    {world world' : World FileName Bytes Failure}
    (returned : forLogs (trainLog virtual) turns iter fields world = .ok ((status, after), world')) :
    status = .ok () ∧ after = virtual.train fields (gathered world.disk turns iter world.faults).1 ∧
      world' = ⟨world.disk, (gathered world.disk turns iter world.faults).2⟩ := by
  induction turns generalizing iter fields world with
  | zero =>
    cases returned
    exact ⟨rfl, rfl, rfl⟩
  | succ turns ih =>
    by_cases negative : iter.counter < 0
    · rw [forLogs_oldest negative] at returned
      simp only [gathered, if_pos negative]
      cases returned
      exact ⟨rfl, rfl, rfl⟩
    · simp only [gathered, if_neg negative]
      cases present : world.disk iter.filename with
      | none =>
        rw [forLogs_missing negative present] at returned
        exact ih returned
      | some file =>
        obtain ⟨status', fields', middle, trains, ended⟩ := forLogs_present_inv negative present returned
        obtain ⟨⟨_, fields''⟩, middle', reads, trains⟩ := bind_inv trains
        cases trains
        obtain ⟨rfl, rfl⟩ := readPeriodicLog_inv present reads
        rcases ended with ⟨notOk, -⟩ | ⟨-, rest⟩
        · exact absurd rfl notOk
        · obtain ⟨rfl, rfl, rfl⟩ := ih rest
          refine ⟨rfl, ?_, rfl⟩
          rw [Virtual.train, Virtual.train, List.foldl_append]

theorem trainPeriodicLog_gathers {virtual : Virtual σ} {table after : DistTable σ} {status : Status}
    {world world' : World FileName Bytes Failure}
    (returned : trainPeriodicLog virtual table world = .ok ((status, after), world')) :
    let walk := gathered world.disk table.timeWindowSize.toNat table.periodicLog.getIterator world.faults
    status = .ok () ∧ after = { table with fields := virtual.train table.fields walk.1 } ∧ world' = ⟨world.disk, walk.2⟩ := by
  obtain ⟨⟨status', fields⟩, middle, loops, rest⟩ := bind_inv returned
  cases rest
  obtain ⟨rfl, rfl, rfl⟩ := forLogs_trainLog_inv loops
  exact ⟨rfl, rfl, rfl⟩

end DistTable

end ContentBased
