import ContentBased.Library.FileLogic

namespace RecordDisk
variable {ν ρ ε α β γ σ : Type}

/-- A program that returns has left all files but these as they were. -/
def Touches (names : Set ν) (program : FileM ν ρ ε α) : Prop :=
  ∀ world value after, program world = .ok (value, after) → ∀ name, name ∉ names → after.disk name = world.disk name

namespace Touches
variable {names names' : Set ν}

theorem mono {program : FileM ν ρ ε α} (touches : Touches names program) (more : names ⊆ names') :
    Touches names' program :=
  fun world value after run name outside => touches world value after run name fun inside => outside (more inside)

theorem completes {program : FileM ν ρ ε α} {disk after : Disk ν ρ} {value : α} (touches : Touches names program)
    (run : Completes program disk value after) {name : ν} (outside : name ∉ names) : after name = disk name :=
  touches _ _ _ run name outside

theorem pure (value : α) : Touches names (Pure.pure value : FileM ν ρ ε α) := by
  intro world value after run name _
  cases run
  rfl

/-- What follows need only be looked at for the values that the program returns. -/
theorem bind_of {program : FileM ν ρ ε α} {next : α → FileM ν ρ ε β} (first : Touches names program)
    (rest : ∀ world value after, program world = .ok (value, after) → Touches names (next value)) :
    Touches names (program >>= next) := by
  intro world value after run name outside
  obtain ⟨middle, between, ran, rest_⟩ := bind_inv run
  rw [rest world middle between ran between value after rest_ name outside, first world middle between ran name outside]

theorem bind {program : FileM ν ρ ε α} {next : α → FileM ν ρ ε β} (first : Touches names program)
    (rest : ∀ value, Touches names (next value)) : Touches names (program >>= next) :=
  bind_of first fun _ value _ _ => rest value

theorem abort : Touches names (RecordDisk.abort : FileM ν ρ ε α) := fun _ _ _ run => nomatch run

theorem isFile (name : ν) : Touches names (RecordDisk.isFile name : FileM ν ρ ε Bool) := by
  intro world value after run name _
  cases run
  rfl

theorem step {effect : Disk ν ρ → Except ε (γ × Disk ν ρ)}
    (near : ∀ disk value after, effect disk = .ok (value, after) → ∀ name, name ∉ names → after name = disk name) :
    Touches names (RecordDisk.step effect) := by
  intro world value after run name outside
  unfold RecordDisk.step at run
  split at run
  · cases run
    rfl
  · cases run
  · cases effected : effect world.disk with
    | ok result =>
      rw [effected] at run
      cases run
      exact near world.disk result.1 result.2 effected name outside
    | error error =>
      rw [effected] at run
      cases run
      rfl

theorem openReader (missing : ε) (name : ν) : Touches names (RecordDisk.openReader missing name : FileM ν ρ ε _) := by
  refine step fun disk value after run name' _ => ?_
  cases present : disk name with
  | none => rw [present] at run; cases run
  | some file => rw [present] at run; cases run; rfl

theorem read (records : List ρ) : Touches names (RecordDisk.read records : FileM ν ρ ε _) :=
  step fun _ _ _ run _ _ => by cases run; rfl

theorem readLoop {isEnd : ρ → Bool} {body : σ → ρ → FileM ν ρ ε (Except ε Unit × σ)}
    (each : ∀ state record, Touches names (body state record)) (records : List ρ) (state : σ) :
    Touches names (RecordDisk.readLoop isEnd body records state) := by
  induction records generalizing state with
  | nil => exact bind (read []) fun _ => pure _
  | cons record rest ih =>
    rw [RecordDisk.readLoop]
    refine bind (read _) fun result => ?_
    cases result with
    | error => exact pure _
    | ok =>
      dsimp only
      split
      · exact pure _
      · refine bind (each state record) fun result => ?_
        obtain ⟨status, state⟩ := result
        cases status with
        | error => exact pure _
        | ok => exact ih state

variable [DecidableEq ν]

theorem create {name : ν} (inside : name ∈ names) : Touches names (RecordDisk.create name : FileM ν ρ ε _) :=
  step fun _ _ _ run _ outside => by
    cases run
    exact Function.update_of_ne (ne_of_mem_of_not_mem inside outside).symm _ _

theorem append {name : ν} (inside : name ∈ names) (record : ρ) (flush : Bool) :
    Touches names (RecordDisk.append name record flush : FileM ν ρ ε _) :=
  step fun _ _ _ run _ outside => by
    cases run
    exact Function.update_of_ne (ne_of_mem_of_not_mem inside outside).symm _ _

theorem sync {name : ν} (inside : name ∈ names) : Touches names (RecordDisk.sync name : FileM ν ρ ε _) :=
  step fun _ _ _ run _ outside => by
    cases run
    exact Function.update_of_ne (ne_of_mem_of_not_mem inside outside).symm _ _

theorem rename {old new : ν} (missing : ε) (inside : old ∈ names) (inside' : new ∈ names) :
    Touches names (RecordDisk.rename missing old new : FileM ν ρ ε _) := by
  refine step fun disk value after run name outside => ?_
  cases present : disk old with
  | none => rw [present] at run; cases run
  | some file =>
    rw [present] at run
    cases run
    rw [Function.update_of_ne (ne_of_mem_of_not_mem inside' outside).symm,
      Function.update_of_ne (ne_of_mem_of_not_mem inside outside).symm]

theorem remove {name : ν} (missing : ε) (inside : name ∈ names) :
    Touches names (RecordDisk.remove missing name : FileM ν ρ ε _) := by
  refine step fun disk value after run name' outside => ?_
  cases present : disk name with
  | none => rw [present] at run; cases run
  | some file =>
    rw [present] at run
    cases run
    exact Function.update_of_ne (ne_of_mem_of_not_mem inside outside).symm _ _

end Touches

/-- When every file step passes the program returns, and with what is told of it here. -/
def Ends (program : FileM ν ρ ε α) (disk : Disk ν ρ) (holds : α → Disk ν ρ → Prop) : Prop :=
  ∃ value after, Completes program disk value after ∧ holds value after

namespace Ends
variable {program : FileM ν ρ ε α} {next : α → FileM ν ρ ε β} {disk : Disk ν ρ} {holds : α → Disk ν ρ → Prop}
variable {holds' : β → Disk ν ρ → Prop}

theorem of_completes {value : α} {after : Disk ν ρ} (ends : Ends program disk holds)
    (run : Completes program disk value after) : holds value after := by
  obtain ⟨_, _, expected, kept⟩ := ends
  obtain ⟨rfl, rfl⟩ := run.unique expected
  exact kept

theorem pure {value : α} (kept : holds value disk) : Ends (Pure.pure value : FileM ν ρ ε α) disk holds :=
  ⟨value, disk, .pure value disk, kept⟩

theorem bind {between : α → Disk ν ρ → Prop} (first : Ends program disk between)
    (rest : ∀ value middle, between value middle → Ends (next value) middle holds') :
    Ends (program >>= next) disk holds' := by
  obtain ⟨value, middle, ran, reached⟩ := first
  obtain ⟨result, after, ran', kept⟩ := rest value middle reached
  exact ⟨result, after, ran.bind ran', kept⟩

theorem mono {more : α → Disk ν ρ → Prop} (ends : Ends program disk holds)
    (implies : ∀ value after, holds value after → more value after) : Ends program disk more :=
  have ⟨value, after, run, kept⟩ := ends
  ⟨value, after, run, implies value after kept⟩

/-- The files that the program does not touch are as they were. -/
theorem framed {names : Set ν} (ends : Ends program disk holds) (touches : Touches names program) :
    Ends program disk fun value after => holds value after ∧ ∀ name, name ∉ names → after name = disk name :=
  have ⟨value, after, run, kept⟩ := ends
  ⟨value, after, run, kept, fun _ outside => touches.completes run outside⟩

theorem openReader {missing : ε} {name : ν} {holds : Except ε (List ρ) → Disk ν ρ → Prop}
    (absent : disk name = none → holds (.error missing) disk)
    (present : ∀ file, disk name = some file → holds (.ok file.content) disk) :
    Ends (RecordDisk.openReader missing name) disk holds := by
  cases found : disk name with
  | none =>
    refine ⟨_, _, ?_, absent found⟩
    simp only [Completes, RecordDisk.openReader, RecordDisk.step, found, List.tail_nil]
  | some file => exact ⟨_, _, .openReader found, present file found⟩

/-- A loop whose body works on its state only. -/
theorem readLoop {isEnd : ρ → Bool} {handle : σ → ρ → Except ε Unit × σ} {kept : σ → Prop}
    (keeps : ∀ state record, kept state → kept (handle state record).2) (records : List ρ) {state : σ}
    (start : kept state) :
    Ends (RecordDisk.readLoop isEnd (fun state record => return handle state record) records state) disk
      fun result after => kept result.2 ∧ after = disk := by
  induction records generalizing state with
  | nil => exact ⟨_, _, .bind (.read [] disk) (.pure _ _), start, rfl⟩
  | cons record rest ih =>
    have reads := Completes.read (ε := ε) (record :: rest) disk
    cases atEnd : isEnd record with
    | true =>
      refine ⟨(.ok (), state), disk, .bind reads ?_, start, rfl⟩
      simp only [atEnd, if_true]
      exact .pure _ _
    | false =>
      have next := keeps state record start
      rcases handled : handle state record with ⟨error | _, state'⟩
      · refine ⟨(.error error, state'), disk, .bind reads ?_, by rw [handled] at next; exact next, rfl⟩
        simp only [atEnd, Bool.false_eq_true, if_false, handled]
        exact .pure _ _
      · rw [handled] at next
        obtain ⟨value, after, run, kept⟩ := ih next
        refine ⟨value, after, .bind reads ?_, kept⟩
        simp only [atEnd, Bool.false_eq_true, if_false, handled]
        exact run

end Ends

end RecordDisk
