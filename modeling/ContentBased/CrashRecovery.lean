import ContentBased.LogCalls

namespace ContentBased
open RecordDisk Decimal PeriodicLog

/-- An `openLog` of a new object that a crash cuts short, at any of its file steps or after
the last, with any visitor. -/
inductive CrashedOpen (path prefix_ : String) (disk : Files) : Files → Prop
  | between {σ : Type} {counter : Int32} {visitor : Option (σ → Bytes → σ)} {seen : σ}
      {faults : List (Fault Failure)} {after : Files} : OnlyCrashes faults →
      (PeriodicLog.new path prefix_).openLog counter visitor seen ⟨disk, faults⟩ = .error after →
      CrashedOpen path prefix_ disk after
  | afterwards {σ : Type} {counter : Int32} {visitor : Option (σ → Bytes → σ)} {seen : σ}
      {faults : List (Fault Failure)} {result : Status × PeriodicLog × σ}
      {world : World FileName Bytes Failure} {kept : Nat} : OnlyCrashes faults →
      (PeriodicLog.new path prefix_).openLog counter visitor seen ⟨disk, faults⟩ = .ok (result, world) →
      CrashedOpen path prefix_ disk (world.disk.survivor kept)

/-- The records are safe in the log being recovered or, when there is none, in the log in writing. -/
def Held (path prefix_ : String) (records : List Bytes) (disk : Files) : Prop :=
  disk (.recovering path prefix_) = some (.synced records) ∨
    disk (.recovering path prefix_) = none ∧ disk (.writing path prefix_) = some (.synced records)

/-- A recovery has begun: its source holds the records, and this many have been copied. -/
def Copying (path prefix_ : String) (records copied : List Bytes) (disk : Files) : Prop :=
  disk (.recovering path prefix_) = some (.synced records) ∧
    disk (.writing path prefix_) = some ⟨[], copied⟩

section
variable {path prefix_ : String} {records : List Bytes} {σ : Type}

theorem Held.survivor {disk : Files} (held : Held path prefix_ records disk) (kept : Nat) :
    Held path prefix_ records (disk.survivor kept) := by
  rcases held with inRecovery | ⟨noRecovery, inWriting⟩
  · exact Or.inl (by simp [Disk.survivor, inRecovery])
  · exact Or.inr ⟨by simp [Disk.survivor, noRecovery], by simp [Disk.survivor, inWriting]⟩

theorem Copying.survivor {copied : List Bytes} {disk : Files} (copying : Copying path prefix_ records copied disk)
    (kept : Nat) : Held path prefix_ records (disk.survivor kept) :=
  Or.inl (by simp [Disk.survivor, copying.1])

theorem create_safe {before : Files → Prop}
    (source : ∀ disk, before disk → disk (.recovering path prefix_) = some (.synced records)) :
    CrashSafe before (WALWriter.create ⟨.writing path prefix_, false⟩)
      (fun value disk => value = (.ok (), ⟨.writing path prefix_, true⟩) ∧ Copying path prefix_ records [] disk)
      (Held path prefix_ records) := by
  have created : CrashSafe (ε := Failure) before (RecordDisk.create (.writing path prefix_))
      (fun value disk => value = .ok () ∧ Copying path prefix_ records [] disk) (Held path prefix_ records) :=
    .step_ok (fun disk start => ⟨_, rfl, by simp [source disk start], by simp [File.synced]⟩)
      fun disk kept start => Held.survivor (Or.inl (source disk start)) kept
  exact .bind_ok created (.pure fun disk start => ⟨rfl, start⟩)

theorem recovery_safe (nonempty : [] ∉ records) (log : PeriodicLog) (visitor : Option (σ → Bytes → σ)) (seen : σ) :
    CrashSafe (Copying path prefix_ records [])
      (recovery log (.recovering path prefix_) ⟨.writing path prefix_, true⟩ visitor seen)
      (fun _ => Held path prefix_ records) (Held path prefix_ records) := by
  have opened : CrashSafe (Copying path prefix_ records []) (openReader noSuchFile (.recovering path prefix_))
      (fun value disk => value = .ok records ∧ Copying path prefix_ records [] disk) (Held path prefix_ records) :=
    .step_ok (fun disk start => ⟨disk, by simp [start.1], start⟩) fun _ kept start => start.survivor kept
  have each (done : List Bytes) (state : Bool × PeriodicLog × σ) (record : Bytes) :
      CrashSafe (Copying path prefix_ records done)
        (recoverRecord ⟨.writing path prefix_, true⟩ visitor state record)
        (fun value disk => value.1 = .ok () ∧ Copying path prefix_ records (done ++ [record]) disk)
        (Held path prefix_ records) := by
    obtain ⟨first, log, seen⟩ := state
    have appended : CrashSafe (Copying path prefix_ records done)
        (RecordDisk.append (ε := Failure) (.writing path prefix_) record false)
        (fun value disk => value = .ok () ∧ Copying path prefix_ records (done ++ [record]) disk)
        (Held path prefix_ records) :=
      .step_ok (fun disk start => ⟨_, rfl, by simp [start.1], by simp [start.2, File.push]⟩)
        fun _ kept start => start.survivor kept
    exact .bind_ok appended (.pure fun _ start => ⟨rfl, start⟩)
  have loop := CrashSafe.readLoop List.isEmpty each (fun _ _ kept start => start.survivor kept) records [] (true, log, seen)
  have flushed : CrashSafe (Copying path prefix_ records records)
      (RecordDisk.sync (ε := Failure) (.writing path prefix_))
      (fun value disk => value = .ok () ∧ disk (.recovering path prefix_) = some (.synced records) ∧
        disk (.writing path prefix_) = some (.synced records)) (Held path prefix_ records) :=
    .step_ok (fun disk start => ⟨_, rfl, by simp [start.1], by simp [start.2, File.sync, File.content]⟩)
      fun _ kept start => start.survivor kept
  have removed : CrashSafe (fun disk => disk (.recovering path prefix_) = some (.synced records) ∧
      disk (.writing path prefix_) = some (.synced records))
      (RecordDisk.remove noSuchFile (.recovering path prefix_))
      (fun value disk => value = .ok () ∧ Held path prefix_ records disk) (Held path prefix_ records) :=
    .step_ok (fun disk start => ⟨Function.update disk (.recovering path prefix_) none, by simp [start.1],
      Or.inr ⟨by simp, by simp [start.2]⟩⟩) fun _ kept start => Held.survivor (Or.inl start.1) kept
  rw [List.nil_append, show (records.takeWhile fun r => !r.isEmpty) = records from replayable_eq_self nonempty]
    at loop
  refine .bind_ok opened (.bind loop fun value world start faults => ?_)
  obtain ⟨status, _, log, seen⟩ := value
  obtain ⟨rfl, start⟩ := start
  refine CrashSafe.bind_ok flushed ?_ world start faults
  refine .bind_ok removed ?_
  exact .pure fun _ start => start

/-- Whatever step a crash takes the place of, the records are held somewhere. -/
theorem openLog_safe (nonempty : [] ∉ records) (counter : Int32) (visitor : Option (σ → Bytes → σ)) (seen : σ) :
    CrashSafe (Held path prefix_ records) ((PeriodicLog.new path prefix_).openLog counter visitor seen)
      (fun _ => Held path prefix_ records) (Held path prefix_ records) := by
  have found : CrashSafe (ε := Failure) (Held path prefix_ records) (isFile (.recovering path prefix_))
      (fun value disk => Held path prefix_ records disk ∧ value = (disk (.recovering path prefix_)).isSome)
      (Held path prefix_ records) := .isFile _ fun _ start => ⟨start, rfl⟩
  have recover {before : Files → Prop} (log : PeriodicLog) (next : Status × WALWriter → Program (Status × PeriodicLog × σ))
      (continues : ∀ writer, next (.ok (), writer) =
        recovery { log with writer := some writer } (.recovering path prefix_) writer visitor seen)
      (source : ∀ disk, before disk → disk (.recovering path prefix_) = some (.synced records)) :
      CrashSafe before (WALWriter.create ⟨.writing path prefix_, false⟩ >>= next)
        (fun _ => Held path prefix_ records) (Held path prefix_ records) := by
    refine .bind (create_safe source) fun value world start faults => ?_
    obtain ⟨rfl, start⟩ := start
    rw [continues]
    exact recovery_safe nonempty _ visitor seen world start faults
  refine .bind found fun there => ?_
  cases there with
  | true =>
    refine recover _ _ (fun _ => rfl) fun disk start => ?_
    rcases start.1 with inRecovery | ⟨noRecovery, _⟩
    · exact inRecovery
    · have := start.2
      simp [noRecovery] at this
  | false =>
    have written : CrashSafe (ε := Failure)
        (fun disk => Held path prefix_ records disk ∧ false = (disk (.recovering path prefix_)).isSome)
        (isFile (.writing path prefix_))
        (fun value disk => value = true ∧ disk (.recovering path prefix_) = none ∧
          disk (.writing path prefix_) = some (.synced records)) (Held path prefix_ records) := by
      refine .isFile _ fun disk start => ?_
      rcases start with ⟨inRecovery | ⟨noRecovery, inWriting⟩, there⟩
      · simp [inRecovery] at there
      · exact ⟨by simp [inWriting], noRecovery, inWriting⟩
    have moved : CrashSafe
        (fun disk => disk (.recovering path prefix_) = none ∧ disk (.writing path prefix_) = some (.synced records))
        (rename noSuchFile (.writing path prefix_) (.recovering path prefix_))
        (fun value disk => value = .ok () ∧ disk (.recovering path prefix_) = some (.synced records))
        (Held path prefix_ records) :=
      .step_ok (fun disk start => ⟨Function.update (Function.update disk (.writing path prefix_) none)
          (.recovering path prefix_) (some (.synced records)), by simp only [start.2], Function.update_self _ _ _⟩)
        fun disk kept start => Held.survivor (Or.inr start) kept
    refine .bind written fun there world start faults => ?_
    obtain ⟨rfl, start⟩ := start
    refine CrashSafe.bind_ok moved ?_ world start faults
    exact recover _ _ (fun _ => rfl) fun _ start => start

theorem CrashedOpen.held (nonempty : [] ∉ records) {disk after : Files}
    (crashed : CrashedOpen path prefix_ disk after) (held : Held path prefix_ records disk) :
    Held path prefix_ records after := by
  cases crashed with
  | @between _ counter visitor seen faults _ only run =>
    have safe := openLog_safe nonempty counter visitor seen ⟨disk, faults⟩ held only
    rw [run] at safe
    exact safe
  | @afterwards _ counter visitor seen faults _ _ _ only run =>
    have safe := openLog_safe nonempty counter visitor seen ⟨disk, faults⟩ held only
    rw [run] at safe
    exact safe.1.survivor _

/-- Any number of interrupted opens of a log whose records are not empty is made good by one
that is not interrupted. The counter is the integer of the header whenever that fits an `int`. -/
theorem openLog_after_crashes {header : Bytes} {rest : List Bytes} (nonempty : [] ∉ header :: rest)
    {disk crashed : Files} (noRecovery : disk (.recovering path prefix_) = none)
    (writing : disk (.writing path prefix_) = some (.synced (header :: rest)))
    (opens : Relation.ReflTransGen (CrashedOpen path prefix_) disk crashed)
    (counter : Int32) (visitor : Option (σ → Bytes → σ)) (seen : σ) :
    ∃ log after, Completes ((PeriodicLog.new path prefix_).openLog counter visitor seen) crashed
        (.ok (), log, rest.foldl (visitor.getD fun s _ => s) seen) after ∧
      after (.writing path prefix_) = some (.synced (header :: rest)) ∧
      after (.recovering path prefix_) = none ∧ log.lastCounter = atoi header ∧
      (-2 ^ 31 ≤ integer header → integer header < 2 ^ 31 → log.lastCounter.toInt = integer header) := by
  have held : Held path prefix_ (header :: rest) crashed := by
    induction opens with
    | refl => exact Or.inr ⟨noRecovery, writing⟩
    | tail _ crash ih => exact crash.held nonempty ih
  have kept : replayable (header :: rest) = header :: rest := replayable_eq_self nonempty
  have named := PeriodicLog.new_named path prefix_
  rcases held with inRecovery | ⟨noRecovery, inWriting⟩
  · have run := PeriodicLog.openLog_recovering named counter visitor seen
      (show (crashed (.recovering path prefix_)).map (replayable ·.content) = some (header :: rest) by
        simp [inRecovery, kept])
    exact ⟨_, _, run, by simp [PeriodicLog.new], by simp [PeriodicLog.new], rfl, atoi_of_fits⟩
  · have run := PeriodicLog.openLog_again named counter visitor seen noRecovery
      (show (crashed (.writing path prefix_)).map (replayable ·.content) = some (header :: rest) by
        simp [inWriting, kept])
    exact ⟨_, _, run, by simp [PeriodicLog.new], by simpa [PeriodicLog.new] using noRecovery, rfl, atoi_of_fits⟩

end

/-- An open cut short between the rename and the truncation, and a whole one after it. -/
theorem openLog_after_crash_before_create :
    ∃ crashed, CrashedOpen "." "periodic" (Function.update (fun _ => none) (.writing "." "periodic")
        (some (.synced [[48], [49]]))) crashed ∧
      ∃ log after, Completes ((PeriodicLog.new "." "periodic").openLog 0
          (some fun seen record => seen ++ [record]) []) crashed (.ok (), log, [[49]]) after ∧
        after (.writing "." "periodic") = some (.synced [[48], [49]]) ∧
        after (.recovering "." "periodic") = none ∧ log.lastCounter.toInt = 0 := by
  have crash : CrashedOpen "." "periodic" (Function.update (fun _ => none) (.writing "." "periodic")
      (some (.synced [[48], [49]]))) _ :=
    @CrashedOpen.between "." "periodic" _ Unit 0 none () [.pass, .crash 0] _ (by simp [OnlyCrashes]) rfl
  obtain ⟨log, after, run, writing, recovering, -, counter⟩ := openLog_after_crashes (by simp) rfl rfl (.single crash) 0
    (some fun seen record => seen ++ [record]) []
  exact ⟨_, crash, log, after, run, writing, recovering, counter (by decide) (by decide)⟩

/-- An empty record ends the reading, so an open keeps only what stands before it. Of a header that no `int` holds the
counter is not the integer. -/
theorem openLog_drops_after_empty :
    (∃ disk log after, disk (.writing "." "periodic") = some (.synced [[48], [], [49]]) ∧
      disk (.recovering "." "periodic") = none ∧
      Completes ((PeriodicLog.new "." "periodic").openLog 0 none ()) disk (.ok (), log, ()) after ∧
      after (.writing "." "periodic") ≠ some (.synced [[48], [], [49]])) ∧
    ∃ disk log after, disk (.writing "." "periodic") = some (.synced [decimal 4294967297]) ∧
      disk (.recovering "." "periodic") = none ∧
      Completes ((PeriodicLog.new "." "periodic").openLog 0 none ()) disk (.ok (), log, ()) after ∧
      log.lastCounter.toInt ≠ integer (decimal 4294967297) := by
  constructor
  · refine ⟨Function.update (fun _ => none) (.writing "." "periodic") (some (.synced [[48], [], [49]])), _, _, rfl, rfl,
      PeriodicLog.openLog_again (PeriodicLog.new_named _ _) 0 none () rfl rfl, ?_⟩
    simp [PeriodicLog.new, File.synced]
  · have kept : (some (File.synced [decimal 4294967297])).map (replayable ·.content) = some [decimal 4294967297] := by
      rw [Option.map_some, File.content_synced, replayable_cons (decimal_ne_nil _), replayable, List.takeWhile_nil]
    refine ⟨Function.update (fun _ => none) (.writing "." "periodic") (some (.synced [decimal 4294967297])), _, _, rfl, rfl,
      PeriodicLog.openLog_again (PeriodicLog.new_named _ _) 0 none () rfl kept, ?_⟩
    rw [integer_decimal]
    change (atoi (decimal 4294967297)).toInt ≠ 4294967297
    rw [atoi, integer_decimal]
    decide

end ContentBased
