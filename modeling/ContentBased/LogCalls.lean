import ContentBased.PeriodicLog

namespace ContentBased
open RecordDisk Decimal

/-- The records a recovery copies: those before the first empty one, which ends the reading. -/
def replayable (records : List Bytes) : List Bytes := records.takeWhile fun record => !record.isEmpty

theorem replayable_eq_self {records : List Bytes} (nonempty : [] ∉ records) : replayable records = records := by
  unfold replayable
  rw [List.takeWhile_eq_self_iff]
  intro record member
  cases record with
  | nil => exact absurd member nonempty
  | cons => rfl

theorem nil_not_mem_replayable (records : List Bytes) : [] ∉ replayable records := by
  intro member
  have nonempty := List.mem_takeWhile_imp member
  simp at nonempty

theorem replayable_cons {header : Bytes} (nonempty : header ≠ []) (rest : List Bytes) :
    replayable (header :: rest) = header :: replayable rest := by
  cases header with
  | nil => exact absurd rfl nonempty
  | cons => rfl

namespace WALWriter

theorem create_completes (writer : WALWriter) (disk : Files) :
    Completes writer.create disk (.ok (), { writer with opened := true })
      (Function.update disk writer.filename (some (.synced []))) :=
  .bind (.create _ _) (.pure _ _)

theorem append_completes {writer : WALWriter} (open_ : writer.opened = true) (data : Bytes) (flush : Bool) (disk : Files) :
    Completes (writer.append data flush) disk (.ok ())
      (Function.update disk writer.filename ((disk writer.filename).map (·.push data flush))) := by
  unfold append
  rw [if_pos open_]
  exact .append _ _ _ _

theorem flush_completes {writer : WALWriter} (open_ : writer.opened = true) (disk : Files) :
    Completes writer.flush disk (.ok ())
      (Function.update disk writer.filename ((disk writer.filename).map File.sync)) := by
  unfold flush
  rw [if_pos open_]
  exact .sync _ _

end WALWriter

namespace PeriodicLog
variable {σ : Type}

/-- An open log writes to the file its name gives; `openLog` never makes another writer. -/
def Named (log : PeriodicLog) : Prop :=
  ∀ writer, log.writer = some writer → writer.filename = .writing log.path log.prefix_

def openWriter (log : PeriodicLog) : WALWriter := ⟨.writing log.path log.prefix_, true⟩

theorem writer_open (log : PeriodicLog) : log.openWriter.opened = true := rfl

/-- The log after an `openLog` that found, or was given, this counter. -/
def opened (log : PeriodicLog) (counter : Int32) : PeriodicLog :=
  { log with lastCounter := counter, writer := some log.openWriter }

theorem new_named (path prefix_ : String) : (new path prefix_).Named := by
  intro writer present
  cases present

theorem opened_named (log : PeriodicLog) (counter : Int32) : (log.opened counter).Named := by
  intro writer present
  cases present
  rfl

/-- Visitors see the records in order; a null visitor sees nothing. -/
def visitAll (visitor : Option (σ → Bytes → σ)) (seen : σ) (records : List Bytes) : σ :=
  records.foldl (visitor.getD fun s _ => s) seen

def recovered (visitor : Option (σ → Bytes → σ)) :
    Bool × PeriodicLog × σ → Bytes → Bool × PeriodicLog × σ
  | (first, log, seen), data =>
    (false, if first then { log with lastCounter := atoi data } else log,
      if first then seen else (visitor.getD fun s _ => s) seen data)

theorem foldl_recovered (visitor : Option (σ → Bytes → σ)) (log : PeriodicLog) (seen : σ)
    (header : Bytes) (rest : List Bytes) :
    (header :: rest).foldl (recovered visitor) (true, log, seen) =
      (false, { log with lastCounter := atoi header }, visitAll visitor seen rest) := by
  have tail (log : PeriodicLog) (seen : σ) : rest.foldl (recovered visitor) (false, log, seen) =
      (false, log, visitAll visitor seen rest) := by
    unfold visitAll
    induction rest generalizing seen with
    | nil => rfl
    | cons record rest ih => exact ih _
  exact tail _ _

theorem foldl_push (records : List Bytes) (disk : Files) (name : FileName) (file : File Bytes)
    (present : disk name = some file) :
    records.foldl (fun disk record => Function.update disk name ((disk name).map (·.push record false))) disk =
      Function.update disk name (some ⟨file.stored, file.cached ++ records⟩) := by
  induction records generalizing disk file with
  | nil =>
    simp only [List.foldl_nil, List.append_nil]
    rw [← present, Function.update_eq_self]
  | cons record rest ih =>
    rw [List.foldl_cons, ih _ (file.push record false) (by simp [present]), Function.update_idem]
    simp [File.push]

theorem recoverRecord_completes {writer : WALWriter} (open_ : writer.opened = true)
    (visitor : Option (σ → Bytes → σ)) (state : Bool × PeriodicLog × σ) (record : Bytes) (disk : Files) :
    Completes (recoverRecord writer visitor state record) disk (.ok (), recovered visitor state record)
      (Function.update disk writer.filename ((disk writer.filename).map (·.push record false))) := by
  obtain ⟨first, log, seen⟩ := state
  exact .bind (WALWriter.append_completes open_ _ _ _) (.pure _ _)

/-- A recovery that meets no failure copies the replayable records and removes its source. -/
theorem recovery_completes (log : PeriodicLog) (counter : Int32) (visitor : Option (σ → Bytes → σ)) (seen : σ)
    {disk : Files} {header : Bytes} {rest : List Bytes}
    (target : disk (.writing log.path log.prefix_) = some (.synced []))
    (source : (disk (.recovering log.path log.prefix_)).map (replayable ·.content) = some (header :: rest)) :
    Completes (recovery (log.opened counter) (.recovering log.path log.prefix_) log.openWriter visitor seen)
      disk (.ok (), log.opened (atoi header), visitAll visitor seen rest)
      (Function.update (Function.update disk (.writing log.path log.prefix_)
        (some (.synced (header :: rest)))) (.recovering log.path log.prefix_) none) := by
  obtain ⟨file, present, kept⟩ := Option.map_eq_some_iff.mp source
  have loop := Completes.readLoop List.isEmpty (recoverRecord_completes (writer_open log) visitor)
    file.content (true, log.opened counter, seen) disk
  rw [show (file.content.takeWhile fun r => !r.isEmpty) = header :: rest from kept,
    foldl_recovered, foldl_push _ _ log.openWriter.filename _ target] at loop
  refine .bind (.openReader present) (.bind loop ?_)
  have flushed := WALWriter.flush_completes (writer_open log)
    (Function.update disk log.openWriter.filename (some ⟨[], header :: rest⟩))
  simp only [Function.update_self, Option.map_some, Function.update_idem] at flushed
  exact .bind flushed (.bind (.remove (by simpa [openWriter] using present)) (.pure _ _))

theorem append_writing (log : PeriodicLog) (records : List Bytes) (data : Bytes) {disk : Files}
    (present : disk (.writing log.path log.prefix_) = some (.synced records)) :
    Completes (log.openWriter.append data) disk (.ok ())
      (Function.update disk (.writing log.path log.prefix_) (some (.synced (records ++ [data])))) := by
  have appended := WALWriter.append_completes (writer_open log) data true disk
  simp only [openWriter, present, Option.map_some, File.push_synced] at appended
  exact appended

theorem Named.writer_eq {log : PeriodicLog} (named : log.Named) :
    ∃ opened, log.writer.getD ⟨.writing log.path log.prefix_, false⟩ = ⟨.writing log.path log.prefix_, opened⟩ := by
  cases present : log.writer with
  | none => exact ⟨false, rfl⟩
  | some writer =>
    have name := named writer present
    exact ⟨writer.opened, by simp only [Option.getD_some, ← name]⟩

/-- A call that finds neither a log in writing nor one in recovery starts an empty log. -/
theorem openLog_fresh {log : PeriodicLog} (named : log.Named) (counter : Int32)
    (visitor : Option (σ → Bytes → σ)) (seen : σ) {disk : Files}
    (noRecovery : disk (.recovering log.path log.prefix_) = none)
    (noWriting : disk (.writing log.path log.prefix_) = none) :
    Completes (log.openLog counter visitor seen) disk (.ok (), log.opened counter, seen)
      (Function.update disk (.writing log.path log.prefix_) (some (.synced [decimal counter.toInt]))) := by
  obtain ⟨open_, writer⟩ := named.writer_eq
  unfold openLog
  simp only [writer]
  refine .bind (.isFile _ _) ?_
  simp only [noRecovery, Option.isSome_none, Bool.false_eq_true, if_false]
  refine .bind (.isFile _ _) ?_
  simp only [noWriting, Option.isSome_none, Bool.false_eq_true, if_false]
  refine .bind (WALWriter.create_completes _ _) ?_
  have appended := append_writing log [] (decimal counter.toInt) (Function.update_self _ _ disk)
  rw [List.nil_append, Function.update_idem] at appended
  exact .bind appended (.pure _ _)

/-- A call that finds a log in writing goes through a recovery of it: the records before the
first empty one stay, and the first of them gives the counter. -/
theorem openLog_again {log : PeriodicLog} (named : log.Named) (counter : Int32)
    (visitor : Option (σ → Bytes → σ)) (seen : σ) {disk : Files} {header : Bytes} {rest : List Bytes}
    (noRecovery : disk (.recovering log.path log.prefix_) = none)
    (present : (disk (.writing log.path log.prefix_)).map (replayable ·.content) = some (header :: rest)) :
    Completes (log.openLog counter visitor seen) disk
      (.ok (), log.opened (atoi header), visitAll visitor seen rest)
      (Function.update disk (.writing log.path log.prefix_) (some (.synced (header :: rest)))) := by
  obtain ⟨open_, writer⟩ := named.writer_eq
  obtain ⟨file, onDisk, kept⟩ := Option.map_eq_some_iff.mp present
  let moved := Function.update (Function.update (Function.update disk (.writing log.path log.prefix_) none)
    (.recovering log.path log.prefix_) (some file)) (.writing log.path log.prefix_) (some (.synced []))
  have target : moved (.writing log.path log.prefix_) = some (.synced []) := by simp [moved]
  have source : (moved (.recovering log.path log.prefix_)).map (replayable ·.content) =
      some (header :: rest) := by simp [moved, kept]
  have same : Function.update disk (.writing log.path log.prefix_) (some (.synced (header :: rest))) =
      Function.update (Function.update moved (.writing log.path log.prefix_)
        (some (.synced (header :: rest)))) (.recovering log.path log.prefix_) none := by
    funext name
    by_cases inRecovery : name = .recovering log.path log.prefix_
    · simp [inRecovery, noRecovery]
    · by_cases inWriting : name = .writing log.path log.prefix_ <;> simp [moved, inWriting, inRecovery]
  unfold openLog
  simp only [writer]
  refine .bind (.isFile _ _) ?_
  simp only [noRecovery, Option.isSome_none, Bool.false_eq_true, if_false]
  refine .bind (.isFile _ _) ?_
  simp only [onDisk, Option.isSome_some, if_true]
  refine .bind (.rename onDisk) (.bind (WALWriter.create_completes _ _) ?_)
  rw [same]
  exact recovery_completes log counter visitor seen target source

/-- A call that finds a log in recovery starts over from it, whatever has been written since. -/
theorem openLog_recovering {log : PeriodicLog} (named : log.Named) (counter : Int32)
    (visitor : Option (σ → Bytes → σ)) (seen : σ) {disk : Files} {header : Bytes} {rest : List Bytes}
    (present : (disk (.recovering log.path log.prefix_)).map (replayable ·.content) = some (header :: rest)) :
    Completes (log.openLog counter visitor seen) disk
      (.ok (), log.opened (atoi header), visitAll visitor seen rest)
      (Function.update (Function.update disk (.writing log.path log.prefix_) (some (.synced (header :: rest))))
        (.recovering log.path log.prefix_) none) := by
  obtain ⟨open_, writer⟩ := named.writer_eq
  obtain ⟨file, onDisk, kept⟩ := Option.map_eq_some_iff.mp present
  let truncated := Function.update disk (.writing log.path log.prefix_) (some (.synced []))
  have target : truncated (.writing log.path log.prefix_) = some (.synced []) := by simp [truncated]
  have source : (truncated (.recovering log.path log.prefix_)).map (replayable ·.content) =
      some (header :: rest) := by simpa [truncated] using present
  have recovery := recovery_completes log counter visitor seen target source
  rw [Function.update_idem] at recovery
  unfold openLog
  simp only [writer]
  refine .bind (.isFile _ _) ?_
  simp only [onDisk, Option.isSome_some, if_true]
  exact .bind (WALWriter.create_completes _ _) recovery

theorem rollover_completes (log : PeriodicLog) {counter : Int32} (room : counter ≠ Int32.maxValue) {disk : Files}
    {file : File Bytes} (present : disk (.writing log.path log.prefix_) = some file) :
    Completes (log.opened counter).rollover disk (.ok (), log.opened (counter + 1))
      (Function.update (Function.update disk (.log log.path log.prefix_ counter.toInt) (some file))
        (.writing log.path log.prefix_) (some (.synced [decimal counter.toInt]))) := by
  let moved := Function.update (Function.update disk (.writing log.path log.prefix_) none)
    (.log log.path log.prefix_ counter.toInt) (some file)
  have same : Function.update moved (.writing log.path log.prefix_) (some (.synced [decimal counter.toInt])) =
      Function.update (Function.update disk (.log log.path log.prefix_ counter.toInt) (some file))
        (.writing log.path log.prefix_) (some (.synced [decimal counter.toInt])) := by
    funext name
    by_cases inWriting : name = .writing log.path log.prefix_ <;> simp [moved, inWriting, Function.update_apply]
  have appended := append_writing log [] (decimal counter.toInt) (Function.update_self _ _ moved)
  rw [List.nil_append, Function.update_idem, same] at appended
  refine .bind (.rename present) (.bind (WALWriter.create_completes _ _) (.bind appended ?_))
  rw [if_neg (show (log.opened counter).lastCounter ≠ Int32.maxValue from room)]
  exact .pure _ _

/-- A rollover that returns has room for the next counter. -/
theorem rollover_room {log : PeriodicLog} {counter : Int32} {result : Status × PeriodicLog} {disk : Files}
    {file : File Bytes} {world : World FileName Bytes Failure} (present : disk (.writing log.path log.prefix_) = some file)
    (run : (log.opened counter).rollover ⟨disk, []⟩ = .ok (result, world)) : counter ≠ Int32.maxValue := by
  rintro rfl
  have created := Completes.rest (.rename present) run
  have appended := Completes.rest (WALWriter.create_completes _ _) created
  have counted := Completes.rest (append_writing log [] _ (Function.update_self ..)) appended
  cases counted

theorem write_completes (log : PeriodicLog) (counter : Int32) (data : Bytes) {disk : Files} {records : List Bytes}
    (present : disk (.writing log.path log.prefix_) = some (.synced records)) :
    Completes ((log.opened counter).write data) disk (.ok ())
      (Function.update disk (.writing log.path log.prefix_) (some (.synced (records ++ [data])))) :=
  append_writing log records data present

/-- The first record of a log is its header, whatever it is. -/
theorem openLogReader_opens {name : FileName} {disk : Files} {file : File Bytes} (present : disk name = some file) :
    Completes (openLogReader name) disk (.ok (), ⟨atoi (file.content.head?.getD []), file.content.tail⟩) disk :=
  .bind (.openReader present) (.bind (.read _ _) (.pure _ _))

theorem openLogReader_completes {name : FileName} {disk : Files} {header : Bytes} {rest : List Bytes}
    (present : disk name = some (.synced (header :: rest))) :
    Completes (openLogReader name) disk (.ok (), ⟨atoi header, rest⟩) disk := by
  simpa only [File.content_synced, List.head?_cons, Option.getD_some, List.tail_cons] using openLogReader_opens present

end PeriodicLog
end ContentBased
