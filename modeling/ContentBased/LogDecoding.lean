import ContentBased.TableLog

namespace ContentBased
open RecordDisk Decimal PeriodicLog

namespace LogEvent
variable {σ : Type}

/-- Functions that only keep what they were called with. -/
def recordClick (click : CategoryClick) (seen : List LogEvent) : Status × List LogEvent := (.ok (), seen ++ [.click click])

def recordItem (item : CategoryItem) (seen : List LogEvent) : Status × List LogEvent := (.ok (), seen ++ [.item item])

def recording : Virtual (List LogEvent) where
  recoveryClick := recordClick
  recoveryItem := recordItem

/-- The calls that `recoveryAheadLog` makes for a record. -/
def recoveryCalls (data : Bytes) : List LogEvent := (DistTable.recoveryAheadLog recording data []).2

/-- The calls that `readPeriodicLog` makes for a record. -/
def readingCalls (data : Bytes) : List LogEvent := DistTable.readRecord recordClick recordItem [] data

theorem handle_record (seen : List LogEvent) (event : LogEvent) :
    handle recordClick recordItem seen event = seen ++ [event] := by
  cases event <;> rfl

theorem readingCalls_eq (data : Bytes) : readingCalls data = (ofRecord data).toList := by
  rw [readingCalls, readRecord_eq]
  cases ofRecord data with
  | none => rfl
  | some event => rw [Option.elim_some, handle_record, List.nil_append, Option.toList_some]

theorem recoveryCalls_eq (data : Bytes) : recoveryCalls data = readingCalls data :=
  visit_eq recording [] data

/-- What is kept are the calls that any function would get. -/
theorem readRecord_calls (clickf : CategoryClick → σ → Status × σ) (itemf : CategoryItem → σ → Status × σ) (fields : σ)
    (data : Bytes) : DistTable.readRecord clickf itemf fields data = (readingCalls data).foldl (handle clickf itemf) fields := by
  rw [readRecord_eq, readingCalls_eq]
  cases ofRecord data <;> rfl

theorem recoveryAheadLog_calls (virtual : Virtual σ) (fields : σ) (data : Bytes) :
    (DistTable.recoveryAheadLog virtual data fields).2 =
      (recoveryCalls data).foldl (handle virtual.recoveryClick virtual.recoveryItem) fields := by
  rw [recoveryCalls_eq, ← readRecord_calls]
  exact visit_eq virtual fields data

/-- The second records are the first ones with records in between that are not empty and cannot be decoded. -/
inductive Littered : List Bytes → List Bytes → Prop
  | nil : Littered [] []
  | keep {records littered : List Bytes} (data : Bytes) : Littered records littered →
      Littered (data :: records) (data :: littered)
  | insert {records littered : List Bytes} {data : Bytes} : data ≠ [] → readingCalls data = [] →
      Littered records littered → Littered records (data :: littered)

/-- The calls that are made for the records up to an empty one. -/
def delivered (records : List Bytes) : List LogEvent := (replayable records).flatMap readingCalls

theorem Littered.delivered {records littered : List Bytes} (litter : Littered records littered) :
    delivered littered = delivered records := by
  simp only [LogEvent.delivered, replayable]
  induction litter with
  | nil => rfl
  | keep data _ ih =>
    rw [List.takeWhile_cons, List.takeWhile_cons]
    split
    · rw [List.flatMap_cons, List.flatMap_cons, ih]
    · rfl
  | insert some_ undecoded _ ih =>
    rw [List.takeWhile_cons, if_pos (by simpa using some_), List.flatMap_cons, undecoded, List.nil_append, ih]

theorem delivered_eq (records : List Bytes) : delivered records = (replayable records).filterMap ofRecord := by
  rw [delivered, List.filterMap_eq_flatMap_toList]
  exact List.flatMap_congr fun data _ => readingCalls_eq data

end LogEvent

namespace DistTable
open LogEvent

variable {σ : Type}

/-- Reading a log delivers what its records decode to. -/
theorem readPeriodicLog_delivers {name : FileName} {disk : Files} {file : File Bytes} (present : disk name = some file)
    (clickf : CategoryClick → σ → Status × σ) (itemf : CategoryItem → σ → Status × σ) (fields : σ) :
    Completes (readPeriodicLog name clickf itemf fields) disk
      (.ok (), (delivered file.content.tail).foldl (handle clickf itemf) fields) disk := by
  have read := readPeriodicLog_completes present clickf itemf fields
  rw [inFile] at read
  rw [delivered_eq]
  exact read

/-- The log that `openLog` recovers: one that was being recovered, or else the one that was being written. -/
def Recovers (log : PeriodicLog) (disk : Files) (file : File Bytes) : Prop :=
  disk (.recovering log.path log.prefix_) = some file ∨
    disk (.recovering log.path log.prefix_) = none ∧ disk (.writing log.path log.prefix_) = some file

theorem visitAll_delivered (virtual : Virtual σ) (fields : σ) (records : List Bytes) :
    visitAll (some (visit virtual)) fields (replayable records) =
      (delivered records).foldl (handle virtual.recoveryClick virtual.recoveryItem) fields := by
  have same : visit virtual = readRecord virtual.recoveryClick virtual.recoveryItem :=
    funext fun fields => funext fun data => visit_eq virtual fields data
  rw [visitAll, Option.getD_some, same, foldl_readRecord, delivered_eq]

/-- And so does the recovery of a log. -/
theorem init_delivers {table : DistTable σ} (named : table.periodicLog.Named) (virtual : Virtual σ)
    {disk : Files} {file : File Bytes} (found : Recovers table.periodicLog disk file) {header : Bytes} {records : List Bytes}
    (content : file.content = header :: records) (some_ : header ≠ []) :
    ∃ log after, Completes (init virtual table) disk (.ok (), { table with
      periodicLog := log
      fields := (delivered records).foldl (handle virtual.recoveryClick virtual.recoveryItem) table.fields }) after := by
  have kept : replayable file.content = header :: replayable records := by
    rw [content, replayable, List.takeWhile_cons, if_pos (by simpa using some_)]
    rfl
  rw [← visitAll_delivered]
  rcases found with recovering | ⟨none_, writing⟩
  · have source : (disk (.recovering table.periodicLog.path table.periodicLog.prefix_)).map (replayable ·.content) =
        some (header :: replayable records) := by rw [recovering, Option.map_some, kept]
    have opens := openLog_recovering named 0 (some (visit virtual)) table.fields source
    exact ⟨_, _, .bind opens (.pure _ _)⟩
  · have source : (disk (.writing table.periodicLog.path table.periodicLog.prefix_)).map (replayable ·.content) =
        some (header :: replayable records) := by rw [writing, Option.map_some, kept]
    have opens := openLog_again named 0 (some (visit virtual)) table.fields none_ source
    exact ⟨_, _, .bind opens (.pure _ _)⟩

/-- A record leads to the same calls whether it is recovered or trained, a written one to the call with its message,
and records that cannot be decoded to none, wherever they stand behind the header. -/
theorem decode_alike (σ : Type) :
    (∀ data, data ≠ [] → recoveryCalls data = readingCalls data ∧
      (∀ (virtual : Virtual σ) fields, (recoveryAheadLog virtual data fields).2 =
        (recoveryCalls data).foldl (handle virtual.recoveryClick virtual.recoveryItem) fields) ∧
      ∀ (clickf : CategoryClick → σ → Status × σ) itemf fields,
        readRecord clickf itemf fields data = (readingCalls data).foldl (handle clickf itemf) fields) ∧
    (∀ (table : DistTable σ) click, ∃ data, data ≠ [] ∧ table.addClick click = table.periodicLog.write data ∧
      readingCalls data = [.click click]) ∧
    (∀ (table : DistTable σ) item, ∃ data, data ≠ [] ∧ table.addItem item = table.periodicLog.write data ∧
      readingCalls data = [.item item]) ∧
    ∀ header records littered, Littered records littered → ∀ (disk : Files) (file : File Bytes),
      file.content = header :: littered →
        (∀ name, disk name = some file → ∀ (clickf : CategoryClick → σ → Status × σ) itemf fields,
          Completes (readPeriodicLog name clickf itemf fields) disk
            (.ok (), (delivered records).foldl (handle clickf itemf) fields) disk) ∧
        ∀ table : DistTable σ, table.periodicLog.Named → header ≠ [] → Recovers table.periodicLog disk file →
          ∀ virtual : Virtual σ, ∃ log after, Completes (init virtual table) disk (.ok (), { table with
            periodicLog := log
            fields := (delivered records).foldl (handle virtual.recoveryClick virtual.recoveryItem) table.fields }) after := by
  refine ⟨fun data _ => ⟨recoveryCalls_eq data, fun virtual fields => recoveryAheadLog_calls virtual fields data,
    fun clickf itemf fields => readRecord_calls clickf itemf fields data⟩, fun table click => ?_, fun table item => ?_,
    fun header records littered litter disk file content =>
      ⟨fun name present clickf itemf fields => ?_, fun table named some_ found virtual => ?_⟩⟩
  · refine ⟨(LogEvent.click click).record, record_ne_nil _, table.add_eq_write (.click click), ?_⟩
    rw [readingCalls_eq, ofRecord_record, Option.toList_some]
  · refine ⟨(LogEvent.item item).record, record_ne_nil _, table.add_eq_write (.item item), ?_⟩
    rw [readingCalls_eq, ofRecord_record, Option.toList_some]
  · have read := readPeriodicLog_delivers present clickf itemf fields
    rw [content, List.tail_cons, litter.delivered] at read
    exact read
  · rw [← litter.delivered]
    exact init_delivers named virtual found content some_

/-- A log with one record, of an unknown kind, behind its header. -/
theorem decode_alike_unknown :
    Completes (readPeriodicLog (.log "." "clicks" 0) recordClick recordItem []) (fun _ => some (.synced [[48], [1]]))
      (.ok (), (delivered []).foldl (handle recordClick recordItem) []) fun _ => some (.synced [[48], [1]]) :=
  ((decode_alike (List LogEvent)).2.2.2 [48] [] [[1]] (.insert (by decide) rfl .nil)
    (fun _ => some (.synced [[48], [1]])) _ rfl).1 _ rfl recordClick recordItem []

end DistTable

end ContentBased
