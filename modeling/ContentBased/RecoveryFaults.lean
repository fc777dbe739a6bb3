import ContentBased.RolloverFaults

namespace ContentBased
open RecordDisk Decimal

theorem WALWriter.flush_inv {writer : WALWriter} {world world' : World FileName Bytes Failure} {status : Status}
    (open_ : writer.opened = true) (returned : writer.flush world = .ok (status, world')) :
    world'.faults = world.faults.tail ∧
      ((FailsAt world.faults 0 ∧ world'.disk = world.disk) ∨ ¬ FailsAt world.faults 0 ∧
        world'.disk = Function.update world.disk writer.filename ((world.disk writer.filename).map File.sync)) := by
  unfold flush at returned
  rw [if_pos open_] at returned
  obtain ⟨faults, ⟨fails, -, same⟩ | ⟨passes, -, disk⟩⟩ := step_inv_of_ok rfl returned
  · exact ⟨faults, .inl ⟨fails, same⟩⟩
  · exact ⟨faults, .inr ⟨passes, disk⟩⟩

namespace PeriodicLog
variable {σ : Type} {log opened : PeriodicLog} {writer : WALWriter} {visitor : Option (σ → Bytes → σ)}
variable {world world' : World FileName Bytes Failure}

/-- A loop that no append stops copies what can be read: each turn is a read and an append. -/
theorem recoverLoop_inv (open_ : writer.opened = true) {records stored copied : List Bytes}
    {state after : Bool × PeriodicLog × σ} (present : world.disk writer.filename = some ⟨stored, copied⟩)
    (returned : readLoop List.isEmpty (recoverRecord writer visitor) records state world = .ok ((.ok (), after), world')) :
    let read := readable 2 world.faults (replayable records)
    after = read.foldl (recovered visitor) state ∧
      world' = ⟨Function.update world.disk writer.filename (some ⟨stored, copied ++ read⟩),
        world.faults.drop (2 * read.length + 1)⟩ := by
  induction records generalizing state world copied with
  | nil =>
    obtain ⟨_, middle, ran, rest⟩ := bind_inv returned
    cases rest
    obtain ⟨faults, disk, -⟩ := read_inv ran
    refine ⟨rfl, ?_⟩
    change world' = ⟨Function.update world.disk _ (some ⟨stored, copied ++ []⟩), world.faults.drop 1⟩
    rw [List.append_nil, ← present, Function.update_eq_self, List.drop_one, ← faults, ← disk]
  | cons record records ih =>
    obtain ⟨result, middle, ran, rest⟩ := bind_inv returned
    obtain ⟨faults, disk, ⟨fails, error, rfl⟩ | ⟨passes, rfl⟩⟩ := read_inv ran
    · cases rest
      simp only [readable_of_fails fails, List.append_nil, List.length_nil, Nat.mul_zero, Nat.zero_add, List.drop_one,
        List.foldl_nil, true_and]
      rw [← present, Function.update_eq_self, ← faults, ← disk]
    · cases record with
      | nil =>
        cases rest
        refine ⟨rfl, ?_⟩
        change world' = ⟨Function.update world.disk _ (some ⟨stored, copied ++ []⟩), world.faults.drop 1⟩
        rw [List.append_nil, ← present, Function.update_eq_self, List.drop_one, ← faults, ← disk]
      | cons byte bytes =>
        obtain ⟨⟨outcome, next⟩, here, handled, rest⟩ := bind_inv rest
        obtain ⟨first, log, seen⟩ := state
        obtain ⟨status, here', appends, handled⟩ := bind_inv handled
        cases handled
        obtain ⟨faults', ⟨-, ⟨failure, rfl⟩, -⟩ | ⟨-, rfl, disk'⟩⟩ := WALWriter.append_inv open_ appends
        · cases rest
        · rw [disk, present] at disk'
          have grown : here.disk writer.filename = some ⟨stored, copied ++ [byte :: bytes]⟩ := by
            rw [disk', Function.update_self]
            rfl
          obtain ⟨reached, later⟩ := ih grown rest
          have steps : here.faults = world.faults.drop 2 := by
            rw [faults', faults, ← List.drop_one, ← List.drop_one, List.drop_drop]
          simp only [replayable_cons (List.cons_ne_nil byte bytes), readable_of_passes passes, ← steps,
            List.length_cons, List.foldl_cons] at reached later ⊢
          refine ⟨reached, ?_⟩
          rw [later, disk', Function.update_idem, List.append_assoc, steps, List.drop_drop]
          simp only [List.singleton_append, Nat.mul_add, Nat.mul_one, Nat.add_comm, Nat.add_left_comm]

/-- The records that a recovery with these faults reads. Opening the file is its first step. -/
def recoveredRecords (faults : List (Fault Failure)) (file : File Bytes) : List Bytes :=
  readable 2 faults.tail (replayable file.content)

/-- The faults that are left for the flush and the removal. -/
def afterCopying (faults : List (Fault Failure)) (file : File Bytes) : List (Fault Failure) :=
  faults.tail.drop (2 * (recoveredRecords faults file).length + 1)

/-- What a recovery that is OK leaves on the disk: the flush and the removal may have failed. -/
structure Copied (source target : FileName) (faults : List (Fault Failure)) (file : File Bytes) (disk : Files) : Prop where
  written : FailsAt (afterCopying faults file) 0 ∧ disk target = some ⟨[], recoveredRecords faults file⟩ ∨
    ¬ FailsAt (afterCopying faults file) 0 ∧ disk target = some (.synced (recoveredRecords faults file))
  removed : FailsAt (afterCopying faults file) 1 ∧ disk source = some file ∨
    ¬ FailsAt (afterCopying faults file) 1 ∧ disk source = none

/-- However the flush and the removal end, a recovery that copied what it read is OK. -/
theorem recovery_inv {name : FileName} {file : File Bytes} {seen seen' : σ} (open_ : writer.opened = true)
    (other : name ≠ writer.filename) (target : world.disk writer.filename = some (.synced []))
    (source : world.disk name = some file)
    (returned : recovery log name writer visitor seen world = .ok ((.ok (), opened, seen'), world')) :
    (∃ first, (first, opened, seen') =
      (recoveredRecords world.faults file).foldl (recovered visitor) (true, log, seen)) ∧
      Copied name writer.filename world.faults file world'.disk := by
  obtain ⟨result, disk1, opens, rest⟩ := bind_inv returned
  obtain ⟨faults1, disk, ⟨-, error, rfl⟩ | ⟨-, rfl⟩⟩ := openReader_inv source opens
  · cases rest
  · obtain ⟨⟨status, first, log', seen''⟩, disk2, loops, rest⟩ := bind_inv rest
    cases status with
    | error failure => cases rest
    | ok _ =>
      rw [← disk] at target
      obtain ⟨reached, copied⟩ := recoverLoop_inv open_ target loops
      rw [faults1] at reached copied
      have inWriting : disk2.disk writer.filename = some ⟨[], recoveredRecords world.faults file⟩ := by
        rw [copied]
        exact Function.update_self _ _ _
      have inSource : disk2.disk name = some file := by
        rw [copied]
        exact (Function.update_of_ne other _ _).trans ((congrFun disk name).trans source)
      have faults2 : disk2.faults = afterCopying world.faults file := by rw [copied]; rfl
      obtain ⟨_, disk3, flushes, rest⟩ := bind_inv rest
      obtain ⟨removed, disk4, removes, rest⟩ := bind_inv rest
      cases rest
      obtain ⟨faults3, flushed⟩ := WALWriter.flush_inv open_ flushes
      rw [faults2] at faults3 flushed
      have kept : disk3.disk name = some file := by
        rcases flushed with ⟨-, same⟩ | ⟨-, same⟩
        · rw [same, inSource]
        · rw [same, Function.update_of_ne other, inSource]
      have written : FailsAt (afterCopying world.faults file) 0 ∧
          disk3.disk writer.filename = some ⟨[], recoveredRecords world.faults file⟩ ∨
          ¬ FailsAt (afterCopying world.faults file) 0 ∧
            disk3.disk writer.filename = some (.synced (recoveredRecords world.faults file)) := by
        rcases flushed with ⟨fails, same⟩ | ⟨passes, same⟩
        · exact .inl ⟨fails, by rw [same, inWriting]⟩
        · exact .inr ⟨passes, by rw [same, Function.update_self, inWriting]; rfl⟩
      obtain ⟨-, ⟨fails, -, same⟩ | ⟨passes, -, same⟩⟩ := remove_inv kept removes
      · rw [faults3, ← failsAt_succ] at fails
        rw [same]
        exact ⟨⟨first, reached⟩, written, .inl ⟨fails, kept⟩⟩
      · rw [faults3, ← failsAt_succ] at passes
        refine ⟨⟨first, reached⟩, ?_, .inr ⟨passes, ?_⟩⟩
        · rw [same, Function.update_of_ne other.symm]
          exact written
        · rw [same, Function.update_self]

/-- The file that an open recovers, and the faults that its recovery meets: the open creates the log
in writing before, and if need be renames it before that. -/
inductive RecoversFrom (log : PeriodicLog) (world : World FileName Bytes Failure) :
    File Bytes → List (Fault Failure) → Prop
  | recovering {file : File Bytes} : world.disk (.recovering log.path log.prefix_) = some file →
      RecoversFrom log world file world.faults.tail
  | writing {file : File Bytes} : world.disk (.recovering log.path log.prefix_) = none →
      world.disk (.writing log.path log.prefix_) = some file → RecoversFrom log world file world.faults.tail.tail

theorem foldl_recovered_opened {counter : Int32} {first : Bool} {seen seen' : σ} (records : List Bytes)
    (reached : (first, opened, seen') = records.foldl (recovered visitor) (true, log.opened counter, seen)) :
    ∃ counter', opened = log.opened counter' := by
  cases records with
  | nil =>
    cases reached
    exact ⟨counter, rfl⟩
  | cons header rest =>
    rw [foldl_recovered] at reached
    cases reached
    exact ⟨atoi header, rfl⟩

/-- A recovery into a log that has just been created. -/
theorem create_recovery_inv {next : Status × WALWriter → Program (Status × PeriodicLog × σ)} {open_ : Bool}
    {counter : Int32} {file : File Bytes} {seen seen' : σ}
    (failed : ∀ failure writer middle, next (.error failure, writer) middle ≠ .ok ((.ok (), opened, seen'), world'))
    (continues : ∀ writer, next (.ok (), writer) = recovery { log with lastCounter := counter, writer := some writer }
      (.recovering log.path log.prefix_) writer visitor seen)
    (source : world.disk (.recovering log.path log.prefix_) = some file)
    (returned : (WALWriter.create ⟨.writing log.path log.prefix_, open_⟩ >>= next) world =
      .ok ((.ok (), opened, seen'), world')) :
    (∃ counter', opened = log.opened counter') ∧
      Copied (.recovering log.path log.prefix_) (.writing log.path log.prefix_) world.faults.tail file world'.disk := by
  obtain ⟨⟨status, writer⟩, middle, creates, rest⟩ := bind_inv returned
  obtain ⟨faults, ⟨-, notOk, -⟩ | ⟨-, rfl, rfl, disk⟩⟩ := WALWriter.create_inv creates
  · cases status with
    | ok => exact absurd rfl notOk
    | error failure => exact absurd rest (failed _ _ _)
  · rw [continues] at rest
    have kept : middle.disk (.recovering log.path log.prefix_) = some file := by simp [disk, source]
    have target : middle.disk (.writing log.path log.prefix_) = some (.synced []) := by simp [disk]
    obtain ⟨⟨first, reached⟩, copied⟩ := recovery_inv rfl (by simp) target kept rest
    rw [faults] at reached copied
    exact ⟨foldl_recovered_opened _ reached, copied⟩

/-- An open that is OK after a recovery has copied what the recovery read. -/
theorem openLog_inv {file : File Bytes} {faults : List (Fault Failure)} {counter : Int32} {seen seen' : σ}
    (named : log.Named) (source : RecoversFrom log world file faults)
    (returned : log.openLog counter visitor seen world = .ok ((.ok (), opened, seen'), world')) :
    (∃ counter', opened = log.opened counter') ∧
      Copied (.recovering log.path log.prefix_) (.writing log.path log.prefix_) faults file world'.disk := by
  obtain ⟨open_, writer⟩ := named.writer_eq
  unfold openLog at returned
  simp only [writer] at returned
  obtain ⟨there, middle, found, rest⟩ := bind_inv returned
  cases found
  cases source with
  | recovering present =>
    simp only [present, Option.isSome_some, if_true] at rest
    exact create_recovery_inv (fun failure writer middle same => by cases same) (fun _ => rfl) present rest
  | writing absent present =>
    simp only [absent, Option.isSome_none, Bool.false_eq_true, if_false] at rest
    obtain ⟨there, middle, found, rest⟩ := bind_inv rest
    cases found
    simp only [present, Option.isSome_some, if_true] at rest
    obtain ⟨result, middle, renames, rest⟩ := bind_inv rest
    obtain ⟨faults, ⟨-, ⟨error, rfl⟩, -⟩ | ⟨-, rfl, disk⟩⟩ := rename_inv present renames
    · cases rest
    · have moved : middle.disk (.recovering log.path log.prefix_) = some file := by simp [disk]
      rw [← faults]
      exact create_recovery_inv (fun failure writer middle same => by cases same) (fun _ => rfl) moved rest

/-- What comes after an open: writes and rollovers, and the end of the process, which a new object follows. -/
inductive Later : PeriodicLog × Files → PeriodicLog × Files → Prop
  | write {log : PeriodicLog} {disk : Files} {data : Bytes} {faults : List (Fault Failure)} {status : Status}
      {world : World FileName Bytes Failure} :
      log.write data ⟨disk, faults⟩ = .ok (status, world) → Later (log, disk) (log, world.disk)
  | rollover {log after : PeriodicLog} {disk : Files} {faults : List (Fault Failure)} {status : Status}
      {world : World FileName Bytes Failure} :
      log.rollover ⟨disk, faults⟩ = .ok ((status, after), world) → Later (log, disk) (after, world.disk)
  | ended {log : PeriodicLog} {disk : Files} {kept : Nat} :
      Later (log, disk) (.new log.path log.prefix_, disk.survivor kept)

/-- A log object that writes to its own file while there is nothing to recover. -/
structure Settled (log : PeriodicLog) (s : PeriodicLog × Files) : Prop where
  named : s.1.Named
  path : s.1.path = log.path
  prefix_ : s.1.prefix_ = log.prefix_
  noRecovery : s.2 (.recovering log.path log.prefix_) = none

theorem append_frame {data : Bytes} {flush : Bool} {status : Status} {name : FileName} (other : name ≠ writer.filename)
    (returned : writer.append data flush world = .ok (status, world')) : world'.disk name = world.disk name := by
  unfold WALWriter.append at returned
  cases open_ : writer.opened with
  | false =>
    rw [open_] at returned
    cases returned
    rfl
  | true =>
    rw [open_, if_pos rfl] at returned
    refine step_frame (fun disk value after effected => ?_) returned
    cases effected
    exact Function.update_of_ne other _ _

/-- A rollover touches the log in writing and the log that it rolls, and nothing else. -/
theorem rollover_frame {after : PeriodicLog} {status : Status} {name : FileName} (named : log.Named)
    (notWriting : name ≠ .writing log.path log.prefix_) (notRolled : ∀ n, name ≠ .log log.path log.prefix_ n)
    (returned : log.rollover world = .ok ((status, after), world')) :
    world'.disk name = world.disk name ∧ after.Named ∧ after.path = log.path ∧ after.prefix_ = log.prefix_ := by
  cases present : log.writer with
  | none =>
    rw [rollover, present] at returned
    cases returned
  | some writer =>
    have own := named writer present
    have keeps (counter : Int32) (open_ : Bool) : ({ log with
        lastCounter := counter, writer := some { writer with opened := open_ } } : PeriodicLog).Named := by
      intro writer' present'
      cases present'
      exact own
    rw [← own] at notWriting
    rw [rollover, present] at returned
    obtain ⟨renamed, disk1, renames, rest⟩ := bind_inv returned
    have same1 : disk1.disk name = world.disk name := by
      refine step_frame (fun disk value after effected => ?_) renames
      cases file : disk writer.filename with
      | none =>
        simp only [file] at effected
        cases effected
      | some _ =>
        simp only [file] at effected
        cases effected
        rw [Function.update_of_ne (notRolled _), Function.update_of_ne notWriting]
    cases renamed with
    | error errno =>
      cases rest
      exact ⟨same1, keeps _ _, rfl, rfl⟩
    | ok _ =>
      obtain ⟨⟨created, opened⟩, disk2, creates, rest⟩ := bind_inv rest
      obtain ⟨-, ⟨-, failed, same2⟩ | ⟨-, rfl, rfl, same2⟩⟩ := WALWriter.create_inv creates
      · cases created with
        | ok => exact absurd rfl failed
        | error failure =>
          cases rest
          rw [same2]
          exact ⟨same1, keeps _ _, rfl, rfl⟩
      · obtain ⟨status, disk3, appends, rest⟩ := bind_inv rest
        have room : log.lastCounter ≠ Int32.maxValue := by
          intro full
          rw [if_pos full] at rest
          cases rest
        rw [if_neg room] at rest
        cases rest
        have same3 : world'.disk name = disk2.disk name := by
          refine append_frame ?_ appends
          exact notWriting
        refine ⟨?_, keeps _ _, rfl, rfl⟩
        rw [same3, same2]
        exact (Function.update_of_ne notWriting _ _).trans same1

theorem Settled.step {s t : PeriodicLog × Files} (settled : Settled log s) (later : Later s t) : Settled log t := by
  obtain ⟨named, path, prefix_, noRecovery⟩ := settled
  cases later with
  | @write log' disk data faults status world written =>
    refine ⟨named, path, prefix_, ?_⟩
    cases present : log'.writer with
    | none =>
      rw [PeriodicLog.write, present] at written
      cases written
    | some writer =>
      rw [PeriodicLog.write, present] at written
      rw [← noRecovery]
      refine append_frame ?_ written
      rw [named writer present]
      nofun
  | @rollover log' after disk faults status world rolled =>
    obtain ⟨same, named', path', prefix'⟩ := @rollover_frame _ _ _ _ _ (.recovering log.path log.prefix_) named nofun
      nofun rolled
    exact ⟨named', path'.trans path, prefix'.trans prefix_, same.trans noRecovery⟩
  | @ended log' disk kept =>
    refine ⟨new_named _ _, path, prefix_, ?_⟩
    exact congrArg (Option.map (File.survivor kept)) noRecovery

theorem Settled.run {s t : PeriodicLog × Files} (settled : Settled log s) (later : Relation.ReflTransGen Later s t) :
    Settled log t := by
  induction later with
  | refl => exact settled
  | tail _ step ih => exact ih.step step

/-- With nothing to recover, an open keeps the records of the log in writing. -/
theorem openLog_keeps (named : log.Named) (counter : Int32) (visitor : Option (σ → Bytes → σ)) (seen : σ) {disk : Files}
    {file : File Bytes} (noRecovery : disk (.recovering log.path log.prefix_) = none)
    (present : disk (.writing log.path log.prefix_) = some file) :
    ∃ opened seen' after, Completes (log.openLog counter visitor seen) disk (.ok (), opened, seen') after ∧
      after (.writing log.path log.prefix_) = some (.synced (replayable file.content)) := by
  cases kept : replayable file.content with
  | cons header rest =>
    have run := openLog_again named counter visitor seen noRecovery
      (show (disk (.writing log.path log.prefix_)).map (replayable ·.content) = some (header :: rest) by
        rw [present, Option.map_some, kept])
    exact ⟨_, _, _, run, Function.update_self _ _ _⟩
  | nil =>
    obtain ⟨open_, writer⟩ := named.writer_eq
    let moved := Function.update (Function.update (Function.update disk (.writing log.path log.prefix_) none)
      (.recovering log.path log.prefix_) (some file)) (.writing log.path log.prefix_) (some (.synced []))
    have target : moved (.writing log.path log.prefix_) = some (.synced []) := Function.update_self _ _ _
    have source : moved (.recovering log.path log.prefix_) = some file := by simp [moved]
    have loop := Completes.readLoop List.isEmpty (recoverRecord_completes (writer_open log) visitor) file.content
      (true, log.opened counter, seen) moved
    rw [show (file.content.takeWhile fun r => !r.isEmpty) = [] from kept] at loop
    have flushed := WALWriter.flush_completes (writer_open log) moved
    let synced := Function.update moved log.openWriter.filename ((moved log.openWriter.filename).map File.sync)
    have still : synced (.recovering log.path log.prefix_) = some file := by simpa [synced, openWriter] using source
    refine ⟨log.opened counter, seen, Function.update synced (.recovering log.path log.prefix_) none, ?_, ?_⟩
    · unfold openLog
      simp only [writer]
      refine .bind (.isFile _ _) ?_
      simp only [noRecovery, Option.isSome_none, Bool.false_eq_true, if_false]
      refine .bind (.isFile _ _) ?_
      simp only [present, Option.isSome_some, if_true]
      refine .bind (.rename present) (.bind (WALWriter.create_completes _ _) ?_)
      exact .bind (.openReader source) (.bind loop (.bind flushed (.bind (.remove still) (.pure _ _))))
    · simp [synced, openWriter, target]

/-- What an open that is OK after a recovery stands for: these records are durable and the file they came
from is gone. No later open then finds that file, so each moves the log in writing away before it
creates it again, and when its file steps succeed it keeps the records. -/
structure Recovered (log opened : PeriodicLog) (records : List Bytes) (disk : Files) : Prop where
  durable : disk (.writing log.path log.prefix_) = some (.synced records)
  gone : disk (.recovering log.path log.prefix_) = none
  notFound : ∀ s, Relation.ReflTransGen Later (opened, disk) s → s.2 (.recovering log.path log.prefix_) = none
  kept : ∀ s, Relation.ReflTransGen Later (opened, disk) s → ∀ file, s.2 (.writing log.path log.prefix_) = some file →
    ∀ (τ : Type) (counter : Int32) (visitor : Option (τ → Bytes → τ)) (seen : τ), ∃ again seen' after,
      Completes (s.1.openLog counter visitor seen) s.2 (.ok (), again, seen') after ∧
        after (.writing log.path log.prefix_) = some (.synced (replayable file.content))

theorem Settled.recovered {records : List Bytes} {disk : Files} (settled : Settled log (opened, disk))
    (durable : disk (.writing log.path log.prefix_) = some (.synced records)) : Recovered log opened records disk := by
  refine ⟨durable, settled.noRecovery, fun s later => (settled.run later).noRecovery, ?_⟩
  intro s later file present τ counter visitor seen
  obtain ⟨named, path, prefix_, noRecovery⟩ := settled.run later
  rw [← path, ← prefix_] at noRecovery present ⊢
  exact openLog_keeps named counter visitor seen noRecovery present

section
variable {file : File Bytes} {faults : List (Fault Failure)} {counter : Int32} {seen seen' : σ}

theorem recovered_iff (named : log.Named) (source : RecoversFrom log world file faults)
    (returned : log.openLog counter visitor seen world = .ok ((.ok (), opened, seen'), world')) (records : List Bytes) :
    Recovered log opened records world'.disk ↔ records = recoveredRecords faults file ∧
      ¬ FailsAt (afterCopying faults file) 1 ∧ (¬ FailsAt (afterCopying faults file) 0 ∨ records = []) := by
  obtain ⟨⟨counter', rfl⟩, written, removed⟩ := openLog_inv named source returned
  constructor
  · rintro ⟨durable, gone, -, -⟩
    have passes : ¬ FailsAt (afterCopying faults file) 1 := by
      rcases removed with ⟨-, still⟩ | ⟨passes, -⟩
      · rw [gone] at still
        cases still
      · exact passes
    rcases written with ⟨-, cached⟩ | ⟨flushes, synced⟩
    · obtain ⟨nothing, read⟩ := File.mk.inj (Option.some.inj (durable.symm.trans cached))
      exact ⟨nothing.trans read, passes, .inr nothing⟩
    · obtain ⟨same, -⟩ := File.mk.inj (Option.some.inj (durable.symm.trans synced))
      exact ⟨same, passes, .inl flushes⟩
  · rintro ⟨rfl, passes, flushed⟩
    have gone : world'.disk (.recovering log.path log.prefix_) = none := by
      rcases removed with ⟨fails, -⟩ | ⟨-, gone⟩
      · exact absurd fails passes
      · exact gone
    have settled : Settled log (log.opened counter', world'.disk) := ⟨opened_named _ _, rfl, rfl, gone⟩
    refine settled.recovered ?_
    rcases written with ⟨fails, cached⟩ | ⟨-, synced⟩
    · rcases flushed with flushes | nothing
      · exact absurd fails flushes
      · rw [cached, nothing]
        rfl
    · exact synced

/-- An open that is OK has made the records that it read durable exactly when its removal and its flush passed, or
when there was nothing to flush; and these are all records of the file when no read failed. -/
theorem openLog_reports_iff (named : log.Named) (source : RecoversFrom log world file faults)
    (returned : log.openLog counter visitor seen world = .ok ((.ok (), opened, seen'), world')) :
    (Recovered log opened (recoveredRecords faults file) world'.disk ↔ ¬ FailsAt (afterCopying faults file) 1 ∧
      (¬ FailsAt (afterCopying faults file) 0 ∨ recoveredRecords faults file = [])) ∧
    (Recovered log opened (replayable file.content) world'.disk ↔ replayable file.content = recoveredRecords faults file ∧
      ¬ FailsAt (afterCopying faults file) 1 ∧
      (¬ FailsAt (afterCopying faults file) 0 ∨ replayable file.content = [])) := by
  have read := recovered_iff named source returned (recoveredRecords faults file)
  exact ⟨read.trans (and_iff_right rfl), recovered_iff named source returned (replayable file.content)⟩

end

/-- A log in recovery. -/
def inRecovery (records : List Bytes) (faults : List (Fault Failure)) : World FileName Bytes Failure :=
  ⟨Function.update (fun _ => none) (.recovering "." "periodic") (some (.synced records)), faults⟩

theorem openLog_reports_passing :
    ∃ opened world', (new "." "periodic").openLog 0 none () (inRecovery [[48], [67]] []) =
        .ok ((.ok (), opened, ()), world') ∧
      Recovered (new "." "periodic") opened [[48], [67]] world'.disk := by
  have source : RecoversFrom (new "." "periodic") (inRecovery [[48], [67]] []) (.synced [[48], [67]]) [] :=
    .recovering rfl
  obtain ⟨opened, world', run⟩ : ∃ opened world', (new "." "periodic").openLog 0 none () (inRecovery [[48], [67]] []) =
    .ok ((.ok (), opened, ()), world') := ⟨_, _, rfl⟩
  have reports := (openLog_reports_iff (new_named "." "periodic") source run).1
  have none_ (i : Nat) : ¬ FailsAt (afterCopying [] (.synced [[48], [67]])) i := fun fails => nomatch fails.choose_spec
  exact ⟨opened, world', run, reports.mpr ⟨none_ 1, .inl (none_ 0)⟩⟩

/-- After a removal that failed, the next open drops what was written in between. -/
theorem write_dropped_by_next_open :
    ∃ opened world' written again after, (new "." "periodic").openLog 0 none () (inRecovery [[48]]
        [.pass, .pass, .pass, .pass, .pass, .pass, .fail ⟨.ioError, "remove"⟩]) = .ok ((.ok (), opened, ()), world') ∧
      ¬ Recovered (new "." "periodic") opened [[48]] world'.disk ∧
      Completes (opened.write [67]) world'.disk (.ok ()) written ∧
      written (.writing "." "periodic") = some (.synced [[48], [67]]) ∧
      Completes (opened.openLog 0 none ()) written (.ok (), again, ()) after ∧
      after (.writing "." "periodic") = some (.synced [[48]]) := by
  refine ⟨_, _, _, _, _, rfl, fun recovered => ?_, rfl, rfl, rfl, rfl⟩
  cases recovered.gone

end PeriodicLog

end ContentBased
