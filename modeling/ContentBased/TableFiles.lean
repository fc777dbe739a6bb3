import ContentBased.NewsTrends
import ContentBased.LogCalls
import ContentBased.Library.Footprint

namespace ContentBased
open RecordDisk

namespace WALWriter
variable {writer : WALWriter} {names : Set FileName}

theorem create_filename {world : World FileName Bytes Failure} {result : Status × WALWriter}
    {after : World FileName Bytes Failure} (run : writer.create world = .ok (result, after)) :
    result.2.filename = writer.filename := by
  obtain ⟨created, between, -, rest⟩ := bind_inv run
  cases created with
  | error => cases rest; rfl
  | ok => cases rest; rfl

theorem touches_create (inside : writer.filename ∈ names) : Touches names writer.create := by
  refine (Touches.create inside).bind fun result => ?_
  cases result with
  | error => exact .pure _
  | ok => exact .pure _

/-- What follows the creating of the file. -/
theorem touches_create_bind {α : Type} {next : Status × WALWriter → Program α} (inside : writer.filename ∈ names)
    (rest : ∀ result, result.2.filename = writer.filename → Touches names (next result)) :
    Touches names (writer.create >>= next) :=
  (touches_create inside).bind_of fun _ result _ run => rest result (create_filename run)

theorem touches_append (inside : writer.filename ∈ names) (data : Bytes) (flush : Bool) :
    Touches names (writer.append data flush) := by
  unfold append
  split
  · exact .append inside data flush
  · exact .pure _

theorem touches_flush (inside : writer.filename ∈ names) : Touches names writer.flush := by
  unfold flush
  split
  · exact .sync inside
  · exact .pure _

end WALWriter

namespace PeriodicLog
variable {σ : Type} {log : PeriodicLog}

/-- The files of a log. -/
def files (path prefix_ : String) : Set FileName :=
  {name | name = .writing path prefix_ ∨ name = .recovering path prefix_ ∨ ∃ n, name = .log path prefix_ n}

theorem writing_mem (path prefix_ : String) : .writing path prefix_ ∈ files path prefix_ := Or.inl rfl

theorem recovering_mem (path prefix_ : String) : .recovering path prefix_ ∈ files path prefix_ := Or.inr (Or.inl rfl)

theorem log_mem (path prefix_ : String) (n : Int) : .log path prefix_ n ∈ files path prefix_ := Or.inr (Or.inr ⟨n, rfl⟩)

/-- Logs with different prefixes have no file in common. -/
theorem files_disjoint {path prefix_ path' prefix' : String} (differ : prefix_ ≠ prefix') {name : FileName}
    (inside : name ∈ files path prefix_) : name ∉ files path' prefix' := by
  rcases inside with rfl | rfl | ⟨n, rfl⟩ <;> rintro (same | same | ⟨n', same⟩) <;> cases same <;> exact differ rfl

theorem touches_write (named : log.Named) (data : Bytes) : Touches (files log.path log.prefix_) (log.write data) := by
  unfold write
  cases present : log.writer with
  | none => exact .abort
  | some writer => exact WALWriter.touches_append (named writer present ▸ writing_mem _ _) data true

theorem touches_rollover (named : log.Named) : Touches (files log.path log.prefix_) log.rollover := by
  unfold rollover
  cases present : log.writer with
  | none => exact .abort
  | some writer =>
    have inside : writer.filename ∈ files log.path log.prefix_ := named writer present ▸ writing_mem _ _
    refine (Touches.rename noSuchFile inside (log_mem _ _ _)).bind fun result => ?_
    cases result with
    | error => exact .pure _
    | ok =>
      have close : writer.close.filename ∈ files log.path log.prefix_ := inside
      refine WALWriter.touches_create_bind close fun result same => ?_
      obtain ⟨_ | _, writer'⟩ := result
      · exact .pure _
      · refine (WALWriter.touches_append (by rw [same]; exact close) _ true).bind fun _ => ?_
        split
        · exact .abort
        · exact .pure _

theorem touches_recovery (log : PeriodicLog) {name : FileName} {writer : WALWriter} {names : Set FileName}
    (inside : name ∈ names) (inside' : writer.filename ∈ names) (visitor : Option (σ → Bytes → σ)) (seen : σ) :
    Touches names (log.recovery name writer visitor seen) := by
  refine (Touches.openReader noSuchFile name).bind fun result => ?_
  cases result with
  | error => exact .pure _
  | ok records =>
    refine (Touches.readLoop (fun state data => ?_) records _).bind fun result => ?_
    · obtain ⟨first, log, seen⟩ := state
      exact (WALWriter.touches_append inside' data false).bind fun _ => .pure _
    · obtain ⟨status, _, log, seen⟩ := result
      cases status with
      | error => exact .pure _
      | ok => exact (WALWriter.touches_flush inside').bind fun _ => (Touches.remove noSuchFile inside).bind fun _ => .pure _

theorem touches_openLog (named : log.Named) (counter : Int32) (visitor : Option (σ → Bytes → σ)) (seen : σ) :
    Touches (files log.path log.prefix_) (log.openLog counter visitor seen) := by
  let writer := log.writer.getD ⟨.writing log.path log.prefix_, false⟩
  let opened : PeriodicLog := { log with lastCounter := counter, writer := some writer }
  have inside : writer.filename ∈ files log.path log.prefix_ := by
    obtain ⟨opened, same⟩ := named.writer_eq
    rw [show writer = _ from same]
    exact writing_mem _ _
  have recovers (writer' : WALWriter) (same : writer'.filename = writer.filename) :
      Touches (files log.path log.prefix_) (recovery { opened with writer := some writer' }
        (.recovering log.path log.prefix_) writer' visitor seen) :=
    touches_recovery _ (recovering_mem _ _) (by rw [same]; exact inside) visitor seen
  refine (Touches.isFile _).bind fun found => ?_
  split
  · refine WALWriter.touches_create_bind inside fun result same => ?_
    obtain ⟨_ | _, writer'⟩ := result
    · exact .pure _
    · exact recovers writer' same
  · refine (Touches.isFile _).bind fun found => ?_
    split
    · refine (Touches.rename noSuchFile (writing_mem _ _) (recovering_mem _ _)).bind fun result => ?_
      cases result with
      | error => exact .pure _
      | ok =>
        refine WALWriter.touches_create_bind inside fun result same => ?_
        obtain ⟨_ | _, writer'⟩ := result
        · exact .pure _
        · exact recovers writer' same
    · refine WALWriter.touches_create_bind inside fun result same => ?_
      obtain ⟨_ | _, writer'⟩ := result
      · exact .pure _
      · exact (WALWriter.touches_append (by rw [same]; exact inside) _ true).bind fun _ => .pure _

end PeriodicLog

namespace DistTable
variable {σ : Type} {table : DistTable σ} {names : Set FileName}

theorem touches_readPeriodicLog (name : FileName) (clickf : CategoryClick → σ → Status × σ)
    (itemf : CategoryItem → σ → Status × σ) (fields : σ) : Touches names (readPeriodicLog name clickf itemf fields) := by
  have opens : Touches names (PeriodicLog.openLogReader name) := by
    refine (Touches.openReader noSuchFile name).bind fun result => ?_
    cases result with
    | error => exact .pure _
    | ok records =>
      refine (Touches.read records).bind fun result => ?_
      cases result with
      | error => exact .pure _
      | ok => exact .pure _
  refine opens.bind fun result => ?_
  obtain ⟨status, reader⟩ := result
  cases status with
  | error => exact .pure _
  | ok => exact (Touches.readLoop (fun _ _ => .pure _) reader.records fields).bind fun _ => .pure _

theorem touches_forLogs {body : PeriodicLog.Iterator → σ → Program (Status × σ)}
    (each : ∀ iter fields, Touches names (body iter fields)) (turns : Nat) (iter : PeriodicLog.Iterator) (fields : σ) :
    Touches names (forLogs body turns iter fields) := by
  induction turns generalizing iter fields with
  | zero => exact .pure _
  | succ turns ih =>
    rw [forLogs]
    split
    · exact .pure _
    · refine (Touches.isFile _).bind fun found => ?_
      split
      · refine (each iter fields).bind fun result => ?_
        obtain ⟨status, fields⟩ := result
        cases status with
        | error => exact .pure _
        | ok => exact ih iter.next fields
      · exact ih iter.next fields

theorem touches_trainPeriodicLog (virtual : Virtual σ) (table : DistTable σ) :
    Touches names (trainPeriodicLog virtual table) :=
  (touches_forLogs (fun _ _ => (touches_readPeriodicLog _ _ _ _).bind fun _ => .pure _) _ _ _).bind fun _ => .pure _

/-- A training writes the table by way of its temporary file, when its dump writes to that file only. -/
theorem touches_train {virtual : Virtual σ} (dumps : ∀ writer fields, Touches {writer} (virtual.dumpTable writer fields))
    (now : Int) (table : DistTable σ) :
    Touches {.temporary table.workPath table.tableName, .table table.workPath table.tableName}
      (train virtual now table) := by
  have temporary : FileName.temporary table.workPath table.tableName ∈
      ({.temporary table.workPath table.tableName, .table table.workPath table.tableName} : Set FileName) := Or.inl rfl
  unfold train
  rcases virtual.trainBefore now table.fields with ⟨_ | _, fields⟩
  · exact .pure _
  · refine (touches_trainPeriodicLog virtual _).bind_of fun world value after run => ?_
    have same : value.2.workPath = table.workPath ∧ value.2.tableName = table.tableName := by
      obtain ⟨result, _, _, rest⟩ := bind_inv run
      cases rest
      exact ⟨rfl, rfl⟩
    obtain ⟨status, trained⟩ := value
    obtain ⟨path, name⟩ : trained.workPath = table.workPath ∧ trained.tableName = table.tableName := same
    cases status with
    | error => exact .pure _
    | ok =>
      dsimp only
      rw [path, name]
      refine (Touches.create temporary).bind fun result => ?_
      cases result with
      | error => exact .pure _
      | ok =>
        refine ((dumps _ _).mono (Set.singleton_subset_iff.mpr temporary)).bind fun result => ?_
        obtain ⟨status, fields⟩ := result
        cases status with
        | error => exact .pure _
        | ok =>
          dsimp only
          rcases virtual.trainCompleted fields with ⟨_ | _, fields⟩
          · exact .pure _
          · refine (Touches.rename noSuchFile temporary (Or.inr rfl)).bind fun result => ?_
            cases result with
            | error => exact .pure _
            | ok => exact .pure _

end DistTable

/-- A training of the news trends leaves all logs alone. -/
theorem NewsTrends.touches_train (format : ItemTagFormat) (now : Int) (table : NewsTrends) :
    Touches {.temporary table.workPath table.tableName, .table table.workPath table.tableName}
      (NewsTrends.train format now table) := by
  have dumps (writer : FileName) (fields : Trends) : Touches {writer} ((Trends.virtual format).dumpTable writer fields) :=
    (Touches.append (Set.mem_singleton writer) _ false).bind fun _ => .pure _
  exact DistTable.touches_train dumps now table

end ContentBased
