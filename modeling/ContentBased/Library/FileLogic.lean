import ContentBased.Library.RecordDisk

theorem Except.bind_inv {ε α β : Type} {first : Except ε α} {next : α → Except ε β} {result : β}
    (run : (first >>= next) = .ok result) : ∃ value, first = .ok value ∧ next value = .ok result := by
  cases first with
  | error => cases run
  | ok value => exact ⟨value, rfl, run⟩

namespace RecordDisk
variable {ν ρ ε α β γ σ : Type}

theorem bind_of_ok {program : FileM ν ρ ε α} {next : α → FileM ν ρ ε β} {world world' : World ν ρ ε} {value : α}
    (run : program world = .ok (value, world')) : (program >>= next) world = next value world' := by
  change Except.bind (program world) _ = _
  rw [run]
  rfl

theorem bind_inv {program : FileM ν ρ ε α} {next : α → FileM ν ρ ε β} {world after : World ν ρ ε} {value : β}
    (run : (program >>= next) world = .ok (value, after)) :
    ∃ first middle, program world = .ok (first, middle) ∧ next first middle = .ok (value, after) := by
  change (program world >>= fun pair => next pair.1 pair.2) = _ at run
  obtain ⟨⟨first, middle⟩, ran, rest⟩ := Except.bind_inv run
  exact ⟨first, middle, ran, rest⟩

theorem bind_of_error {program : FileM ν ρ ε α} {next : α → FileM ν ρ ε β} {world : World ν ρ ε} {disk : Disk ν ρ}
    (run : program world = .error disk) : (program >>= next) world = .error disk := by
  change Except.bind (program world) _ = _
  rw [run]
  rfl

/-- A part of the state that the body only carries along can be left out of a loop. -/
theorem readLoop_map {isEnd : ρ → Bool} {body : σ → ρ → FileM ν ρ ε (Except ε Unit × σ)}
    {body' : γ → ρ → FileM ν ρ ε (Except ε Unit × γ)} {view : σ → γ}
    (same : ∀ state record, (fun result => (result.1, view result.2)) <$> body state record = body' (view state) record)
    (records : List ρ) (state : σ) :
    (fun result => (result.1, view result.2)) <$> readLoop isEnd body records state =
      readLoop isEnd body' records (view state) := by
  induction records generalizing state with
  | nil => simp only [readLoop, map_bind, map_pure]
  | cons record rest ih =>
    simp only [readLoop, map_bind]
    refine bind_congr fun result => ?_
    cases result with
    | error => rw [map_pure]
    | ok =>
      cases isEnd record with
      | true => simp only [if_true, map_pure]
      | false =>
        simp only [Bool.false_eq_true, if_false, map_bind]
        rw [← same, bind_map_left]
        refine bind_congr fun result => ?_
        obtain ⟨status, state⟩ := result
        cases status with
        | error => rw [map_pure]
        | ok => exact ih state

theorem readLoop_map_pure (isEnd : ρ → Bool) {handle : σ → ρ → σ} {handle' : γ → ρ → γ} (view : σ → γ)
    (same : ∀ state record, view (handle state record) = handle' (view state) record) (records : List ρ) (state : σ) :
    (fun result => (result.1, view result.2)) <$>
        (readLoop isEnd (fun state record => return (.ok (), handle state record)) records state :
          FileM ν ρ ε (Except ε Unit × σ)) =
      readLoop isEnd (fun state record => return (.ok (), handle' state record)) records (view state) :=
  readLoop_map (fun state record => by rw [map_pure, same]) records state

/-- The program returns this value and leaves this disk when every file step passes. -/
def Completes (program : FileM ν ρ ε α) (disk : Disk ν ρ) (value : α) (after : Disk ν ρ) : Prop :=
  program ⟨disk, []⟩ = .ok (value, ⟨after, []⟩)

namespace Completes

theorem unique {program : FileM ν ρ ε α} {disk left right : Disk ν ρ} {x y : α}
    (first : Completes program disk x left) (second : Completes program disk y right) :
    x = y ∧ left = right := by
  have same := first.symm.trans second
  simp only [Except.ok.injEq, Prod.mk.injEq, World.mk.injEq, and_true] at same
  exact same

theorem pure (value : α) (disk : Disk ν ρ) :
    Completes (Pure.pure value : FileM ν ρ ε α) disk value disk := rfl

theorem bind {program : FileM ν ρ ε α} {next : α → FileM ν ρ ε β} {disk middle after : Disk ν ρ}
    {value : α} {result : β} (first : Completes program disk value middle)
    (rest : Completes (next value) middle result after) :
    Completes (program >>= next) disk result after :=
  (bind_of_ok first).trans rest

/-- What comes after the first part of a program that returns. -/
theorem rest {program : FileM ν ρ ε α} {next : α → FileM ν ρ ε β} {disk middle : Disk ν ρ} {value : α} {result : β}
    {after : World ν ρ ε} (first : Completes program disk value middle)
    (whole : (program >>= next) ⟨disk, []⟩ = .ok (result, after)) : next value ⟨middle, []⟩ = .ok (result, after) :=
  (bind_of_ok first).symm.trans whole

theorem isFile (name : ν) (disk : Disk ν ρ) :
    Completes (ε := ε) (RecordDisk.isFile name) disk (disk name).isSome disk := rfl

theorem step {effect : Disk ν ρ → Except ε (γ × Disk ν ρ)} {disk after : Disk ν ρ} {value : γ}
    (run : effect disk = .ok (value, after)) :
    Completes (RecordDisk.step effect) disk (.ok value) after := by
  simp only [Completes, RecordDisk.step, run, List.tail_nil]

theorem read (records : List ρ) (disk : Disk ν ρ) :
    Completes (ε := ε) (RecordDisk.read records) disk (.ok records.head?) disk := step rfl

theorem openReader {missing : ε} {name : ν} {disk : Disk ν ρ} {file : File ρ}
    (present : disk name = some file) :
    Completes (RecordDisk.openReader missing name) disk (.ok file.content) disk :=
  step (by simp only [present])

variable [DecidableEq ν]

theorem create (name : ν) (disk : Disk ν ρ) :
    Completes (ε := ε) (RecordDisk.create name) disk (.ok ())
      (Function.update disk name (some (.synced []))) := step rfl

theorem append (name : ν) (record : ρ) (flush : Bool) (disk : Disk ν ρ) :
    Completes (ε := ε) (RecordDisk.append name record flush) disk (.ok ())
      (Function.update disk name ((disk name).map (·.push record flush))) := step rfl

theorem sync (name : ν) (disk : Disk ν ρ) :
    Completes (ε := ε) (RecordDisk.sync name) disk (.ok ())
      (Function.update disk name ((disk name).map File.sync)) := step rfl

theorem rename {missing : ε} {old new : ν} {disk : Disk ν ρ} {file : File ρ}
    (present : disk old = some file) :
    Completes (RecordDisk.rename missing old new) disk (.ok ())
      (Function.update (Function.update disk old none) new (some file)) :=
  step (by simp only [present])

theorem remove {missing : ε} {name : ν} {disk : Disk ν ρ} {file : File ρ}
    (present : disk name = some file) :
    Completes (RecordDisk.remove missing name) disk (.ok ()) (Function.update disk name none) :=
  step (by simp only [present])

omit [DecidableEq ν] in
/-- A loop whose body never fails hands every record before the end mark to it, in order. -/
theorem readLoop (isEnd : ρ → Bool) {body : σ → ρ → FileM ν ρ ε (Except ε Unit × σ)}
    {next : σ → ρ → σ} {write : Disk ν ρ → ρ → Disk ν ρ}
    (each : ∀ state record disk,
      Completes (body state record) disk (.ok (), next state record) (write disk record))
    (records : List ρ) (state : σ) (disk : Disk ν ρ) :
    Completes (RecordDisk.readLoop isEnd body records state) disk
      (.ok (), (records.takeWhile fun r => !isEnd r).foldl next state)
      ((records.takeWhile fun r => !isEnd r).foldl write disk) := by
  induction records generalizing state disk with
  | nil => exact bind (read [] disk) (pure _ _)
  | cons record rest ih =>
    refine bind (read (record :: rest) disk) ?_
    cases atEnd : isEnd record with
    | true =>
      simp only [List.takeWhile_cons, atEnd, Bool.not_true, Bool.false_eq_true, if_false, if_true]
      exact pure _ _
    | false =>
      simp only [List.takeWhile_cons, atEnd, Bool.not_false, if_true, List.foldl_cons,
        Bool.false_eq_true, if_false]
      exact bind (each state record disk) (ih _ _)

end Completes

/-- No step fails: the environment lets each one pass or crashes the process. -/
def OnlyCrashes (faults : List (Fault ε)) : Prop := ∀ error, .fail error ∉ faults

/-- Started where `before` holds, with an environment that only crashes, the program either
returns where `after` holds or leaves a disk where `crashed` holds. -/
def CrashSafe (before : Disk ν ρ → Prop) (program : FileM ν ρ ε α) (after : α → Disk ν ρ → Prop)
    (crashed : Disk ν ρ → Prop) : Prop :=
  ∀ world, before world.disk → OnlyCrashes world.faults →
    match program world with
    | .ok (value, world') => after value world'.disk ∧ OnlyCrashes world'.faults
    | .error disk => crashed disk

namespace CrashSafe
variable {before before' : Disk ν ρ → Prop} {crashed : Disk ν ρ → Prop}

theorem pure {after : α → Disk ν ρ → Prop} {value : α} (holds : ∀ disk, before disk → after value disk) :
    CrashSafe before (Pure.pure value : FileM ν ρ ε α) after crashed :=
  fun world start faults => ⟨holds world.disk start, faults⟩

theorem bind {program : FileM ν ρ ε α} {next : α → FileM ν ρ ε β} {middle : α → Disk ν ρ → Prop}
    {after : β → Disk ν ρ → Prop} (first : CrashSafe before program middle crashed)
    (rest : ∀ value, CrashSafe (middle value) (next value) after crashed) :
    CrashSafe before (program >>= next) after crashed := by
  intro world start faults
  have returned := first world start faults
  change match Except.bind (program world) (fun p => next p.1 p.2) with
    | .ok (value, world') => after value world'.disk ∧ OnlyCrashes world'.faults
    | .error disk => crashed disk
  cases run : program world with
  | error disk =>
    simp only [run] at returned
    exact returned
  | ok pair =>
    simp only [run] at returned
    exact rest pair.1 pair.2 returned.1 returned.2

theorem isFile (name : ν) {after : Bool → Disk ν ρ → Prop}
    (holds : ∀ disk, before disk → after (disk name).isSome disk) :
    CrashSafe (ε := ε) before (RecordDisk.isFile name) after crashed :=
  fun world start faults => ⟨holds world.disk start, faults⟩

/-- A step is safe when its effect leads on and a crash in its place does no harm. -/
theorem step {effect : Disk ν ρ → Except ε (γ × Disk ν ρ)} {after : Except ε γ → Disk ν ρ → Prop}
    (holds : ∀ disk, before disk → match effect disk with
      | .ok (value, disk') => after (.ok value) disk'
      | .error error => after (.error error) disk)
    (survives : ∀ disk kept, before disk → crashed (disk.survivor kept)) :
    CrashSafe before (RecordDisk.step effect) after crashed := by
  intro world start faults
  obtain ⟨disk, schedule⟩ := world
  have done := holds disk start
  have remain : OnlyCrashes schedule.tail := fun error member => faults error (List.mem_of_mem_tail member)
  cases schedule with
  | nil =>
    simp only [RecordDisk.step]
    cases run : effect disk <;> simp only [run] at done ⊢ <;> exact ⟨done, remain⟩
  | cons fault rest =>
    cases fault with
    | pass =>
      simp only [RecordDisk.step]
      cases run : effect disk <;> simp only [run] at done ⊢ <;> exact ⟨done, remain⟩
    | fail error => exact absurd List.mem_cons_self (faults error)
    | crash kept => exact survives disk kept start

/-- A step that cannot go wrong by itself goes right unless the process crashes. -/
theorem step_ok {effect : Disk ν ρ → Except ε (γ × Disk ν ρ)} {value : γ} {after : Disk ν ρ → Prop}
    (holds : ∀ disk, before disk → ∃ disk', effect disk = .ok (value, disk') ∧ after disk')
    (survives : ∀ disk kept, before disk → crashed (disk.survivor kept)) :
    CrashSafe before (RecordDisk.step effect) (fun result disk => result = .ok value ∧ after disk) crashed := by
  refine step (fun disk start => ?_) survives
  obtain ⟨disk', run, kept⟩ := holds disk start
  rw [run]
  exact ⟨rfl, kept⟩

theorem read (records : List ρ) (survives : ∀ disk kept, before disk → crashed (disk.survivor kept)) :
    CrashSafe (ε := ε) before (RecordDisk.read records)
      (fun value disk => value = .ok records.head? ∧ before disk) crashed :=
  step_ok (fun disk start => ⟨disk, rfl, start⟩) survives

/-- A program that goes on only after success. -/
theorem bind_ok {program : FileM ν ρ ε (Except ε γ)} {next : Except ε γ → FileM ν ρ ε β} {value : γ}
    {middle : Disk ν ρ → Prop} {after : β → Disk ν ρ → Prop}
    (first : CrashSafe before program (fun result disk => result = .ok value ∧ middle disk) crashed)
    (rest : CrashSafe middle (next (.ok value)) after crashed) :
    CrashSafe before (program >>= next) after crashed := by
  refine bind first fun result world start faults => ?_
  obtain ⟨rfl, start⟩ := start
  exact rest world start faults

/-- The invariant of a loop may speak of the records handed to the body so far. -/
theorem readLoop (isEnd : ρ → Bool) {body : σ → ρ → FileM ν ρ ε (Except ε Unit × σ)}
    {holds : List ρ → Disk ν ρ → Prop}
    (each : ∀ done state record, CrashSafe (holds done) (body state record)
      (fun value disk => value.1 = .ok () ∧ holds (done ++ [record]) disk) crashed)
    (survives : ∀ done disk kept, holds done disk → crashed (disk.survivor kept))
    (records done : List ρ) (state : σ) :
    CrashSafe (holds done) (RecordDisk.readLoop isEnd body records state)
      (fun value disk => value.1 = .ok () ∧ holds (done ++ records.takeWhile fun r => !isEnd r) disk)
      crashed := by
  induction records generalizing done state with
  | nil =>
    refine bind (read [] (survives done)) fun value => ?_
    exact pure fun disk start => ⟨rfl, by simpa using start.2⟩
  | cons record rest ih =>
    refine bind_ok (read _ (survives done)) ?_
    cases atEnd : isEnd record with
    | true => exact pure fun disk start => ⟨rfl, by simpa [atEnd] using start⟩
    | false =>
      refine bind (each done state record) fun value world start faults => ?_
      obtain ⟨status, next⟩ := value
      obtain ⟨rfl, start⟩ := start
      have later := ih (done ++ [record]) next world start faults
      simpa [atEnd] using later

end CrashSafe

end RecordDisk
