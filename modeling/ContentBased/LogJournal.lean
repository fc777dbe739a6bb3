import ContentBased.LogCalls
import ContentBased.Library.Run
import ContentBased.Library.Wrapping

namespace ContentBased
open RecordDisk Decimal

inductive LogCall where
  | openLog (counter : Int32)
  | write (data : Bytes)
  | rollover
deriving DecidableEq, Repr

/-- A log object with its directory and the payloads whose `write` returned OK, in order. -/
structure LogSession where
  log : PeriodicLog
  disk : Files
  acked : List Bytes

def LogSession.start (path prefix_ : String) : LogSession := ⟨.new path prefix_, fun _ => none, []⟩

/-- One call whose file operations all succeed. An `openLog` is made on the object at hand
or, after a clean stop, on a new one. -/
inductive LogStep : LogSession → LogCall → LogSession → Prop
  | openLog {s : LogSession} {object log : PeriodicLog} {counter : Int32} {status : Status} {disk : Files} :
      object = s.log ∨ object = .new s.log.path s.log.prefix_ →
      Completes (object.openLog counter none ()) s.disk (status, log, ()) disk →
      LogStep s (.openLog counter) ⟨log, disk, s.acked⟩
  | write {s : LogSession} {data : Bytes} {status : Status} {disk : Files} :
      Completes (s.log.write data) s.disk status disk →
      LogStep s (.write data) ⟨s.log, disk, if status = .ok () then s.acked ++ [data] else s.acked⟩
  | rollover {s : LogSession} {log : PeriodicLog} {status : Status} {disk : Files} :
      Completes s.log.rollover s.disk (status, log) disk →
      LogStep s .rollover ⟨log, disk, s.acked⟩

/-- Runs from an object that was never opened and an empty directory. -/
abbrev LogReach (path prefix_ : String) : List LogCall → LogSession → Prop :=
  Run LogStep (.start path prefix_)

/-- What a log keeps on disk: the number in each header and the payloads after it. -/
structure Journal where
  counter : Int
  header : Int
  current : List Bytes
  rolled : Int → Option (Int × List Bytes)

namespace Journal

def fresh (counter : Int) : Journal := ⟨counter, counter, [], fun _ => none⟩

def step (j : Journal) : LogCall → Journal
  | .openLog _ => { j with counter := j.header, current := replayable j.current }
  | .write data => { j with current := j.current ++ [data] }
  | .rollover =>
    ⟨j.counter + 1, j.counter, [], Function.update j.rolled j.counter (some (j.header, j.current))⟩

def run (counter : Int) (calls : List LogCall) : Journal := calls.foldl step (fresh counter)

@[simp] theorem run_snoc (counter : Int) (calls : List LogCall) (call : LogCall) :
    run counter (calls ++ [call]) = (run counter calls).step call := by
  simp [run]

/-- The counter grows with the rollovers only. -/
theorem run_le (counter : Int) (calls : List LogCall) :
    (run counter calls).header ≤ counter + calls.count .rollover ∧
      (run counter calls).counter ≤ counter + calls.count .rollover := by
  induction calls using List.reverseRecOn with
  | nil => exact ⟨by simp [run, fresh], by simp [run, fresh]⟩
  | append_singleton front call ih =>
    rw [run_snoc, List.count_append]
    cases call with
    | openLog => exact ⟨by simpa [step] using ih.1, by simpa [step] using ih.1⟩
    | write => exact ⟨by simpa [step] using ih.1, by simpa [step] using ih.2⟩
    | rollover =>
      rw [List.count_singleton_self]
      simp only [step]
      omega

end Journal

/-- The object and the directory hold exactly the journal, whose numbers fit an `int`. -/
structure Represents (path prefix_ : String) (s : LogSession) (j : Journal) : Prop where
  log : ∃ counter : Int32, s.log = (PeriodicLog.new path prefix_).opened counter ∧ counter.toInt = j.counter
  header : ∃ header : Int32, header.toInt = j.header
  headers : ∀ n file, j.rolled n = some file → ∃ header : Int32, header.toInt = file.1
  noRecovery : s.disk (.recovering path prefix_) = none
  writing : s.disk (.writing path prefix_) = some (.synced (decimal j.header :: j.current))
  rolled : ∀ n, s.disk (.log path prefix_ n) =
    (j.rolled n).map fun file => .synced (decimal file.1 :: file.2)

def LogCall.payload : LogCall → List Bytes
  | .write data => [data]
  | _ => []

section
variable {path prefix_ : String} {s after : LogSession} {call : LogCall}

theorem Represents.fresh {σ : Type} (path prefix_ : String) (counter : Int32)
    (visitor : Option (σ → Bytes → σ)) (seen : σ) :
    ∃ log disk, Completes ((PeriodicLog.new path prefix_).openLog counter visitor seen) (fun _ => none)
        (.ok (), log, seen) disk ∧ Represents path prefix_ ⟨log, disk, []⟩ (.fresh counter.toInt) := by
  have empty (name : FileName) : (LogSession.start path prefix_).disk name = none := rfl
  have run := PeriodicLog.openLog_fresh (PeriodicLog.new_named path prefix_) counter visitor seen (empty _) (empty _)
  refine ⟨_, _, run, ⟨counter, rfl, rfl⟩, ⟨counter, rfl⟩, nofun, ?_, ?_, ?_⟩
  · simp [PeriodicLog.new, empty]
  · simp [PeriodicLog.new, Journal.fresh]
  · simp [PeriodicLog.new, Journal.fresh, empty]

/-- Before the first `openLog` there is no writer, so no other call returns. -/
theorem LogStep.of_start (step : LogStep (.start path prefix_) call after) :
    ∃ counter, call = .openLog counter ∧ Represents path prefix_ after (.fresh counter.toInt) ∧ after.acked = [] := by
  cases step with
  | @openLog object _ counter _ _ from_ run =>
    have same : object = .new path prefix_ := by
      rcases from_ with same | same <;> exact same
    subst same
    obtain ⟨log, disk, expected, rep⟩ := Represents.fresh path prefix_ counter none ()
    obtain ⟨values, rfl⟩ := run.unique expected
    cases values
    exact ⟨counter, rfl, rep, rfl⟩
  | write run => cases run
  | rollover run => cases run

/-- An open on the object at hand or on a new one reads the journal back. -/
theorem Represents.openLog {σ : Type} {j : Journal} (rep : Represents path prefix_ s j) {object : PeriodicLog}
    (from_ : object = s.log ∨ object = .new s.log.path s.log.prefix_) (counter : Int32)
    (visitor : Option (σ → Bytes → σ)) (seen : σ) :
    ∃ log disk, Completes (object.openLog counter visitor seen) s.disk
        (.ok (), log, PeriodicLog.visitAll visitor seen (replayable j.current)) disk ∧
      Represents path prefix_ ⟨log, disk, s.acked⟩ (j.step (.openLog counter)) := by
  obtain ⟨⟨last, log, -⟩, ⟨header, numb⟩, headers, noRecovery, writing, rolled⟩ := rep
  have named : object.Named ∧ object.path = path ∧ object.prefix_ = prefix_ := by
    rcases from_ with same | same <;> rw [same, log]
    · exact ⟨PeriodicLog.opened_named _ _, rfl, rfl⟩
    · exact ⟨PeriodicLog.new_named _ _, rfl, rfl⟩
  obtain ⟨named, rfl, rfl⟩ := named
  have kept : (s.disk (.writing object.path object.prefix_)).map (replayable ·.content) =
      some (decimal j.header :: replayable j.current) := by
    simp [writing, replayable_cons (decimal_ne_nil _)]
  have run := PeriodicLog.openLog_again named counter visitor seen noRecovery kept
  rw [← numb, atoi_decimal] at run
  refine ⟨_, _, run, ⟨header, rfl, numb⟩, ⟨header, numb⟩, headers, ?_, ?_, ?_⟩
  · simp [noRecovery]
  · simp [Journal.step, numb]
  · simp [rolled, Journal.step]

theorem Represents.write {j : Journal} (rep : Represents path prefix_ s j) (data : Bytes) :
    ∃ disk, Completes (s.log.write data) s.disk (.ok ()) disk ∧
      ∀ acked, Represents path prefix_ ⟨s.log, disk, acked⟩ (j.step (.write data)) := by
  obtain ⟨⟨counter, log, numb⟩, header, headers, noRecovery, writing, rolled⟩ := rep
  have run := PeriodicLog.write_completes (.new path prefix_) counter data writing
  rw [← log] at run
  refine ⟨_, run, fun _ => ⟨⟨counter, log, numb⟩, header, headers, ?_, ?_, ?_⟩⟩
  · simp [PeriodicLog.new, noRecovery]
  · simp [PeriodicLog.new, Journal.step]
  · simp [PeriodicLog.new, rolled, Journal.step]

/-- As long as the counter does not overflow, a rollover does to the files what `Journal.step` says. -/
theorem Represents.rollover {j : Journal} (rep : Represents path prefix_ s j) (room : j.counter < 2 ^ 31 - 1) :
    ∃ log disk, Completes s.log.rollover s.disk (.ok (), log) disk ∧
      Represents path prefix_ ⟨log, disk, s.acked⟩ (j.step .rollover) := by
  obtain ⟨⟨counter, log, numb⟩, header, headers, noRecovery, writing, rolled⟩ := rep
  have below : counter ≠ Int32.maxValue := by
    rintro rfl
    rw [← numb] at room
    revert room
    decide
  have next : (counter + 1).toInt = j.counter + 1 := by
    rw [← numb]
    exact Wrapping.toInt_add_of_fits (Int.le_trans counter.le_toInt (Int.le_add_one le_rfl)) (by
      rw [show (1 : Int32).toInt = 1 from rfl]
      omega)
  have run := PeriodicLog.rollover_completes (.new path prefix_) below writing
  rw [← log] at run
  refine ⟨_, _, run, ⟨counter + 1, rfl, next⟩, ⟨counter, numb⟩, fun n file present => ?_, ?_, ?_, ?_⟩
  · change Function.update j.rolled j.counter (some (j.header, j.current)) n = some file at present
    by_cases newest : n = j.counter
    · rw [newest, Function.update_self] at present
      obtain rfl := Option.some.inj present
      exact header
    · rw [Function.update_of_ne newest] at present
      exact headers n file present
  · simp [PeriodicLog.new, noRecovery]
  · simp [PeriodicLog.new, Journal.step, numb]
  · intro n
    by_cases newest : n = j.counter
    · simp [PeriodicLog.new, Journal.step, newest, numb]
    · simp [PeriodicLog.new, Journal.step, newest, rolled, numb]

theorem Represents.rollover_room {j : Journal} (rep : Represents path prefix_ s j) {result : Status × PeriodicLog}
    {world : World FileName Bytes Failure} (run : s.log.rollover ⟨s.disk, []⟩ = .ok (result, world)) :
    j.counter < 2 ^ 31 - 1 := by
  obtain ⟨⟨counter, same, numb⟩, -, -, -, writing, -⟩ := rep
  rw [same] at run
  have below := PeriodicLog.rollover_room writing run
  have largest : Int32.maxValue.toInt = 2 ^ 31 - 1 := by decide
  have apart : counter.toInt ≠ Int32.maxValue.toInt := fun equal => below (Int32.toInt_inj.mp equal)
  have bound := counter.toInt_lt
  omega

/-- Every call does to the files what `Journal.step` says. -/
theorem LogStep.represents {j : Journal} (step : LogStep s call after) (rep : Represents path prefix_ s j) :
    Represents path prefix_ after (j.step call) ∧ after.acked = s.acked ++ call.payload := by
  cases step with
  | @openLog object _ counter _ _ from_ run =>
    obtain ⟨log, disk, expected, rep⟩ := rep.openLog from_ counter none ()
    obtain ⟨values, rfl⟩ := run.unique expected
    cases values
    exact ⟨rep, by simp [LogCall.payload]⟩
  | @write data _ _ run =>
    obtain ⟨disk, expected, rep⟩ := rep.write data
    obtain ⟨rfl, rfl⟩ := run.unique expected
    exact ⟨rep _, by simp [LogCall.payload]⟩
  | @rollover _ _ _ run =>
    obtain ⟨log, disk, expected, rep⟩ := rep.rollover (rep.rollover_room run)
    obtain ⟨values, rfl⟩ := run.unique expected
    cases values
    exact ⟨rep, by simp [LogCall.payload]⟩

/-- Whatever was called, the files hold the journal of the calls since the first `openLog`. -/
theorem LogReach.represents {calls : List LogCall} (reach : LogReach path prefix_ calls s) :
    calls = [] ∧ s = .start path prefix_ ∨ ∃ counter rest, calls = .openLog counter :: rest ∧
      Represents path prefix_ s (.run counter.toInt rest) ∧ s.acked = rest.flatMap LogCall.payload := by
  induction reach with
  | start => exact Or.inl ⟨rfl, rfl⟩
  | @next calls s call after previous taken ih =>
    right
    rcases ih with ⟨rfl, rfl⟩ | ⟨counter, rest, rfl, rep, acked⟩
    · obtain ⟨counter, rfl, rep, acked⟩ := taken.of_start
      exact ⟨counter, [], rfl, rep, acked⟩
    · obtain ⟨rep', acked'⟩ := taken.represents rep
      refine ⟨counter, rest ++ [call], rfl, ?_, ?_⟩
      · rw [Journal.run_snoc]
        exact rep'
      · simp [acked', acked]

theorem Represents.lastCounter {j : Journal} (rep : Represents path prefix_ s j) :
    s.log.lastCounter.toInt = j.counter := by
  obtain ⟨counter, log, numb⟩ := rep.log
  rw [log]
  exact numb

theorem Represents.named {j : Journal} (rep : Represents path prefix_ s j) :
    s.log.Named ∧ s.log.path = path ∧ s.log.prefix_ = prefix_ := by
  obtain ⟨counter, log, -⟩ := rep.log
  rw [log]
  exact ⟨PeriodicLog.opened_named _ _, rfl, rfl⟩

theorem Represents.log_free_iff {j : Journal} (rep : Represents path prefix_ s j) (n : Int) :
    s.disk (.log path prefix_ n) = none ↔ j.rolled n = none := by
  rw [rep.rolled, Option.map_eq_none_iff]

/-- No call on an open log fails while the file operations succeed and the counter does not overflow. -/
theorem Represents.step_exists {j : Journal} (rep : Represents path prefix_ s j) (call : LogCall)
    (room : call = .rollover → j.counter < 2 ^ 31 - 1) : ∃ after, LogStep s call after := by
  cases call with
  | openLog counter =>
    obtain ⟨_, _, run, _⟩ := rep.openLog (Or.inl rfl) counter none ()
    exact ⟨_, .openLog (Or.inl rfl) run⟩
  | write data =>
    obtain ⟨_, run, _⟩ := rep.write data
    exact ⟨_, .write run⟩
  | rollover =>
    obtain ⟨_, _, run, _⟩ := rep.rollover (room rfl)
    exact ⟨_, .rollover run⟩

theorem LogReach.exists (path prefix_ : String) (counter : Int32) (rest : List LogCall)
    (room : counter.toInt + rest.count .rollover ≤ 2 ^ 31 - 1) :
    ∃ s, LogReach path prefix_ (.openLog counter :: rest) s ∧ Represents path prefix_ s (.run counter.toInt rest) := by
  induction rest using List.reverseRecOn with
  | nil =>
    obtain ⟨_, _, first, rep⟩ := Represents.fresh path prefix_ counter none ()
    exact ⟨_, Run.next .start (.openLog (Or.inl rfl) first), rep⟩
  | append_singleton front call ih =>
    rw [List.count_append] at room
    obtain ⟨s, run, rep⟩ := ih (by omega)
    have bound := (Journal.run_le counter.toInt front).2
    obtain ⟨after, taken⟩ := rep.step_exists call fun rolls => by
      rw [rolls, List.count_singleton_self] at room
      omega
    refine ⟨after, Run.next run taken, ?_⟩
    rw [Journal.run_snoc]
    exact (taken.represents rep).1

end

end ContentBased
