import ContentBased.LogCalls
import ContentBased.Library.ReadFaults

namespace ContentBased
open RecordDisk Decimal

namespace WALWriter
variable {writer opened : WALWriter} {world world' : World FileName Bytes Failure} {status : Status}

/-- A writer is open once its file has been created. -/
theorem create_inv (returned : writer.create world = .ok ((status, opened), world')) :
    world'.faults = world.faults.tail ∧
      ((FailsAt world.faults 0 ∧ status ≠ .ok () ∧ world'.disk = world.disk) ∨
        ¬ FailsAt world.faults 0 ∧ status = .ok () ∧ opened = { writer with opened := true } ∧
          world'.disk = Function.update world.disk writer.filename (some (.synced []))) := by
  obtain ⟨created, middle, creates, rest⟩ := bind_inv returned
  obtain ⟨faults, ⟨fails, ⟨error, rfl⟩, same⟩ | ⟨passes, rfl, disk⟩⟩ := step_inv_of_ok rfl creates
  · cases rest
    exact ⟨faults, .inl ⟨fails, nofun, same⟩⟩
  · cases rest
    exact ⟨faults, .inr ⟨passes, rfl, rfl, disk⟩⟩

theorem append_inv (open_ : writer.opened = true) {data : Bytes} {flush : Bool}
    (returned : writer.append data flush world = .ok (status, world')) :
    world'.faults = world.faults.tail ∧
      ((FailsAt world.faults 0 ∧ (∃ failure, status = .error failure) ∧ world'.disk = world.disk) ∨
        ¬ FailsAt world.faults 0 ∧ status = .ok () ∧ world'.disk =
          Function.update world.disk writer.filename ((world.disk writer.filename).map (·.push data flush))) := by
  unfold append at returned
  rw [if_pos open_] at returned
  exact step_inv_of_ok rfl returned

/-- A writer that was closed takes no more records. -/
theorem append_of_closed {data : Bytes} {flush : Bool} (returned : writer.close.append data flush world = .ok (status, world')) :
    status ≠ .ok () := by
  cases returned
  nofun

end WALWriter

namespace PeriodicLog

/-- Calls of one object after a rollover that failed: writes, and rollovers that fail as well. -/
inductive WithoutRollover : PeriodicLog × Files → PeriodicLog × Files → Prop
  | write {log : PeriodicLog} {disk : Files} {data : Bytes} {faults : List (Fault Failure)} {status : Status}
      {world : World FileName Bytes Failure} :
      log.write data ⟨disk, faults⟩ = .ok (status, world) → WithoutRollover (log, disk) (log, world.disk)
  | rollover {log after : PeriodicLog} {disk : Files} {faults : List (Fault Failure)} {failure : Failure}
      {world : World FileName Bytes Failure} :
      log.rollover ⟨disk, faults⟩ = .ok ((.error failure, after), world) →
      WithoutRollover (log, disk) (after, world.disk)

/-- The file that a rollover of this log moves away has the number of its name in its header. -/
def HeaderAgrees (log : PeriodicLog) (disk : Files) : Prop :=
  ∃ file, disk (.log log.path log.prefix_ log.lastCounter.toInt) = some file ∧
    file.content.head? = some (decimal log.lastCounter.toInt)

/-- What a rollover that fails has to leave behind: a log that can be written again, the old counter
and the old rolled files, and a later rollover that agrees with the header. -/
structure Undone (log : PeriodicLog) (disk : Files) (after : PeriodicLog) (last : Files) : Prop where
  writable : ∀ data, ∃ written, Completes (after.write data) last (.ok ()) written
  counter : after.lastCounter = log.lastCounter
  rolled : ∀ n, last (.log log.path log.prefix_ n) = disk (.log log.path log.prefix_ n)
  later : ∀ s, Relation.ReflTransGen WithoutRollover (after, last) s → ∀ faults next world,
    s.1.rollover ⟨s.2, faults⟩ = .ok ((.ok (), next), world) → s.1.HeaderAgrees world.disk

/-- A rollover succeeds or leaves everything as before. -/
def AllOrNothing (log : PeriodicLog) (disk : Files) (status : Status) (after : PeriodicLog) (last : Files) : Prop :=
  status ≠ .ok () → Undone log disk after last

variable {log after : PeriodicLog} {writer : WALWriter} {world world' : World FileName Bytes Failure} {status : Status}

/-- The steps of a rollover, up to the first that fails. -/
theorem rollover_inv (present : log.writer = some writer) (returned : log.rollover world = .ok ((status, after), world')) :
    (status ≠ .ok () ∧ after = { log with writer := some writer.close } ∧
        ((world.disk writer.filename = none ∨ FailsAt world.faults 0) ∨ FailsAt world.faults 1)) ∨
      (world.disk writer.filename).isSome ∧ ¬ FailsAt world.faults 0 ∧ ¬ FailsAt world.faults 1 ∧
        after.lastCounter = log.lastCounter + 1 ∧ (status = .ok () ↔ ¬ FailsAt world.faults 2) := by
  unfold rollover at returned
  rw [present] at returned
  obtain ⟨renamed, disk1, renames, rest⟩ := bind_inv returned
  cases file : world.disk writer.filename with
  | none =>
    cases renamed with
    | error error =>
      cases rest
      exact .inl ⟨nofun, rfl, .inl (.inl rfl)⟩
    | ok _ =>
      have effected := step_ok_inv renames
      simp only [file] at effected
      cases effected
  | some _ =>
    obtain ⟨faults1, ⟨fails, ⟨error, rfl⟩, -⟩ | ⟨passes, rfl, -⟩⟩ := rename_inv file renames
    · cases rest
      exact .inl ⟨nofun, rfl, .inl (.inr fails)⟩
    · obtain ⟨⟨created, opened⟩, disk2, creates, rest⟩ := bind_inv rest
      obtain ⟨faults2, ⟨fails, failed, -⟩ | ⟨passes', rfl, rfl, -⟩⟩ := WALWriter.create_inv creates
      · cases created with
        | ok => exact absurd rfl failed
        | error failure =>
          cases rest
          rw [faults1, ← failsAt_succ] at fails
          exact .inl ⟨nofun, rfl, .inr fails⟩
      · rw [faults1, ← failsAt_succ] at passes'
        obtain ⟨status', disk3, appends, rest⟩ := bind_inv rest
        have room : log.lastCounter ≠ Int32.maxValue := by
          intro full
          rw [if_pos full] at rest
          cases rest
        rw [if_neg room] at rest
        cases rest
        refine .inr ⟨rfl, passes, passes', rfl, ?_⟩
        obtain ⟨-, ⟨fails, ⟨failure, rfl⟩, -⟩ | ⟨passes'', rfl, -⟩⟩ := WALWriter.append_inv rfl appends
        · rw [faults2, faults1, ← failsAt_succ, ← failsAt_succ] at fails
          exact ⟨nofun, fun passes => absurd fails passes⟩
        · rw [faults2, faults1, ← failsAt_succ, ← failsAt_succ] at passes''
          exact iff_of_true rfl passes''

/-- No failure of a rollover is undone, so a rollover is all or nothing exactly when nothing in it fails. -/
theorem rollover_all_or_nothing_iff (present : log.writer = some writer)
    (returned : log.rollover world = .ok ((status, after), world')) :
    AllOrNothing log world.disk status after world'.disk ↔
      (world.disk writer.filename).isSome ∧ ∀ i < 3, ¬ FailsAt world.faults i := by
  rcases rollover_inv present returned with ⟨failed, rfl, missing⟩ | ⟨there, renames, creates, counted, appends⟩
  · refine iff_of_false (fun kept => ?_) ?_
    · obtain ⟨written, writes⟩ := (kept failed).writable []
      exact WALWriter.append_of_closed writes rfl
    · rintro ⟨there, passes⟩
      rcases missing with (absent | fails) | fails
      · rw [absent] at there
        cases there
      · exact passes 0 (by omega) fails
      · exact passes 1 (by omega) fails
  · constructor
    · intro kept
      have passes : ¬ FailsAt world.faults 2 := by
        by_contra fails
        have same := counted.symm.trans (kept fun ok => appends.mp ok fails).counter
        simp at same
      refine ⟨there, fun i less => ?_⟩
      interval_cases i
      · exact renames
      · exact creates
      · exact passes
    · rintro ⟨-, passes⟩ failed
      exact absurd (appends.mpr (passes 2 (by omega))) failed

/-- A log in writing with its header and one record. -/
def written : Files := Function.update (fun _ => none) (.writing "." "periodic") (some (.synced [[48], [67]]))

theorem rollover_all_or_nothing_written :
    ∃ after world', ((new "." "periodic").opened 0).rollover ⟨written, []⟩ = .ok ((.ok (), after), world') ∧
      AllOrNothing ((new "." "periodic").opened 0) written (.ok ()) after world'.disk := by
  have run := @rollover_completes (new "." "periodic") 0 (by decide) _ _ (show written (.writing "." "periodic") = some _ from rfl)
  exact ⟨_, _, run, (rollover_all_or_nothing_iff rfl run).mpr ⟨rfl, fun i _ fails => nomatch fails.choose_spec⟩⟩

/-- After a rename that fails the writer stays closed. -/
theorem write_after_failed_rename :
    ∃ failure after world', ((new "." "periodic").opened 0).rollover ⟨written, [.fail ⟨.ioError, "rename"⟩]⟩ =
        .ok ((.error failure, after), world') ∧
      ¬ AllOrNothing ((new "." "periodic").opened 0) written (.error failure) after world'.disk := by
  refine ⟨_, _, _, rfl, fun kept => ?_⟩
  obtain ⟨_, writes⟩ := (kept nofun).writable [67]
  cases writes

end PeriodicLog

end ContentBased
