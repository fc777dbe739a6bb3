import ContentBased.Library.FileLogic

namespace RecordDisk
variable {ν ρ ε γ σ : Type}

/-- The environment makes the step with this number fail. -/
def FailsAt (faults : List (Fault ε)) (i : Nat) : Prop := ∃ error, faults[i]? = some (.fail error)

def Fault.isFail : Fault ε → Bool
  | .fail _ => true
  | _ => false

instance (faults : List (Fault ε)) (i : Nat) : Decidable (FailsAt faults i) :=
  decidable_of_iff (faults[i]?.any Fault.isFail = true) (by
    rw [FailsAt]
    cases faults[i]? with
    | none => simp
    | some fault => cases fault <;> simp [Fault.isFail])

theorem failsAt_succ (faults : List (Fault ε)) (i : Nat) : FailsAt faults (i + 1) ↔ FailsAt faults.tail i := by
  rw [FailsAt, FailsAt, List.getElem?_tail]

/-- The environment lets the next step pass. -/
def Passes (faults : List (Fault ε)) : Prop := faults = [] ∨ ∃ rest, faults = .pass :: rest

theorem Passes.not_failsAt {faults : List (Fault ε)} (pass : Passes faults) : ¬ FailsAt faults 0 := by
  rintro ⟨error, here⟩
  rcases pass with rfl | ⟨rest, rfl⟩
  · cases here
  · cases here

theorem Passes.step_ok {effect : Disk ν ρ → Except ε (γ × Disk ν ρ)} {disk after : Disk ν ρ} {faults : List (Fault ε)}
    {value : γ} (pass : Passes faults) (effected : effect disk = .ok (value, after)) :
    step effect ⟨disk, faults⟩ = .ok (.ok value, ⟨after, faults.tail⟩) := by
  rcases pass with rfl | ⟨rest, rfl⟩
  · simp only [step, effected]
  · simp only [step, effected]

theorem Passes.step_error {effect : Disk ν ρ → Except ε (γ × Disk ν ρ)} {disk : Disk ν ρ} {faults : List (Fault ε)}
    {error : ε} (pass : Passes faults) (effected : effect disk = .error error) :
    step effect ⟨disk, faults⟩ = .ok (.error error, ⟨disk, faults.tail⟩) := by
  rcases pass with rfl | ⟨rest, rfl⟩
  · simp only [step, effected]
  · simp only [step, effected]

/-- A step that returns was made to fail or let pass. -/
theorem step_faults {effect : Disk ν ρ → Except ε (γ × Disk ν ρ)} {world world' : World ν ρ ε} {result : Except ε γ}
    (returned : step effect world = .ok (result, world')) :
    (FailsAt world.faults 0 ∧ ∃ error, result = .error error ∧ world' = ⟨world.disk, world.faults.tail⟩) ∨
      Passes world.faults := by
  obtain ⟨disk, faults⟩ := world
  cases faults with
  | nil => exact .inr (.inl rfl)
  | cons fault rest =>
    cases fault with
    | pass => exact .inr (.inr ⟨rest, rfl⟩)
    | fail error =>
      cases returned
      exact .inl ⟨⟨error, rfl⟩, error, rfl, rfl⟩
    | crash kept => cases returned

/-- A step that returns was made to fail, or it had its effect. -/
theorem step_inv {effect : Disk ν ρ → Except ε (γ × Disk ν ρ)} {world world' : World ν ρ ε} {result : Except ε γ}
    (returned : step effect world = .ok (result, world')) :
    world'.faults = world.faults.tail ∧
      ((FailsAt world.faults 0 ∧ (∃ error, result = .error error) ∧ world'.disk = world.disk) ∨
        ¬ FailsAt world.faults 0 ∧
          ((∃ value, effect world.disk = .ok (value, world'.disk) ∧ result = .ok value) ∨
            ∃ error, effect world.disk = .error error ∧ result = .error error ∧ world'.disk = world.disk)) := by
  rcases step_faults returned with ⟨fails, error, rfl, rfl⟩ | pass
  · exact ⟨rfl, .inl ⟨fails, ⟨error, rfl⟩, rfl⟩⟩
  · cases effected : effect world.disk with
    | ok pair =>
      have ran := (pass.step_ok effected).symm.trans returned
      cases ran
      exact ⟨rfl, .inr ⟨pass.not_failsAt, .inl ⟨_, rfl, rfl⟩⟩⟩
    | error error =>
      have ran := (pass.step_error effected).symm.trans returned
      cases ran
      exact ⟨rfl, .inr ⟨pass.not_failsAt, .inr ⟨_, rfl, rfl, rfl⟩⟩⟩

/-- A step that cannot go wrong by itself was made to fail, or it had its effect. -/
theorem step_inv_of_ok {effect : Disk ν ρ → Except ε (γ × Disk ν ρ)} {world world' : World ν ρ ε} {result : Except ε γ}
    {value : γ} {after : Disk ν ρ} (effected : effect world.disk = .ok (value, after))
    (returned : step effect world = .ok (result, world')) :
    world'.faults = world.faults.tail ∧
      ((FailsAt world.faults 0 ∧ (∃ error, result = .error error) ∧ world'.disk = world.disk) ∨
        ¬ FailsAt world.faults 0 ∧ result = .ok value ∧ world'.disk = after) := by
  obtain ⟨rest, failed | ⟨passes, ⟨value', effected', rfl⟩ | ⟨error, effected', -⟩⟩⟩ := step_inv returned
  · exact ⟨rest, .inl failed⟩
  · obtain ⟨rfl, rfl⟩ := Prod.mk.inj (Except.ok.inj (effected.symm.trans effected'))
    exact ⟨rest, .inr ⟨passes, rfl, rfl⟩⟩
  · cases effected.symm.trans effected'

/-- A step that succeeds had its effect. -/
theorem step_ok_inv {effect : Disk ν ρ → Except ε (γ × Disk ν ρ)} {world world' : World ν ρ ε} {value : γ}
    (returned : step effect world = .ok (.ok value, world')) : effect world.disk = .ok (value, world'.disk) := by
  obtain ⟨-, ⟨-, ⟨error, failed⟩, -⟩ | ⟨-, ⟨value', effected, succeeded⟩ | ⟨error, -, failed, -⟩⟩⟩ := step_inv returned
  · cases failed
  · cases succeeded
    exact effected
  · cases failed

/-- What the effect of a step does not touch, the step does not touch. -/
theorem step_frame {effect : Disk ν ρ → Except ε (γ × Disk ν ρ)} {world world' : World ν ρ ε} {result : Except ε γ}
    {name : ν} (keeps : ∀ disk value after, effect disk = .ok (value, after) → after name = disk name)
    (returned : step effect world = .ok (result, world')) : world'.disk name = world.disk name := by
  obtain ⟨-, ⟨-, -, same⟩ | ⟨-, ⟨value, effected, -⟩ | ⟨-, -, -, same⟩⟩⟩ := step_inv returned
  · rw [same]
  · exact keeps _ _ _ effected
  · rw [same]

theorem read_inv {records : List ρ} {world world' : World ν ρ ε} {result : Except ε (Option ρ)}
    (returned : read records world = .ok (result, world')) :
    world'.faults = world.faults.tail ∧ world'.disk = world.disk ∧
      ((FailsAt world.faults 0 ∧ ∃ error, result = .error error) ∨
        ¬ FailsAt world.faults 0 ∧ result = .ok records.head?) := by
  obtain ⟨rest, ⟨fails, failed, same⟩ | ⟨passes, ⟨value, effected, rfl⟩ | ⟨error, effected, -⟩⟩⟩ := step_inv returned
  · exact ⟨rest, same, .inl ⟨fails, failed⟩⟩
  · have pair := Prod.mk.inj (Except.ok.inj effected)
    exact ⟨rest, pair.2.symm, .inr ⟨passes, by rw [pair.1]⟩⟩
  · cases effected

theorem openReader_inv {missing : ε} {name : ν} {file : File ρ} {world world' : World ν ρ ε} {result : Except ε (List ρ)}
    (present : world.disk name = some file) (returned : openReader missing name world = .ok (result, world')) :
    world'.faults = world.faults.tail ∧ world'.disk = world.disk ∧
      ((FailsAt world.faults 0 ∧ ∃ error, result = .error error) ∨
        ¬ FailsAt world.faults 0 ∧ result = .ok file.content) := by
  unfold openReader at returned
  obtain ⟨rest, ⟨fails, failed, same⟩ | ⟨passes, ⟨value, effected, rfl⟩ | ⟨error, effected, -⟩⟩⟩ := step_inv returned
  · exact ⟨rest, same, .inl ⟨fails, failed⟩⟩
  · simp only [present] at effected
    have pair := Prod.mk.inj (Except.ok.inj effected)
    exact ⟨rest, pair.2.symm, .inr ⟨passes, by rw [pair.1]⟩⟩
  · simp only [present] at effected
    cases effected

theorem remove_inv [DecidableEq ν] {missing : ε} {name : ν} {file : File ρ} {world world' : World ν ρ ε}
    {result : Except ε Unit} (present : world.disk name = some file)
    (returned : remove missing name world = .ok (result, world')) :
    world'.faults = world.faults.tail ∧
      ((FailsAt world.faults 0 ∧ (∃ error, result = .error error) ∧ world'.disk = world.disk) ∨
        ¬ FailsAt world.faults 0 ∧ result = .ok () ∧ world'.disk = Function.update world.disk name none) := by
  unfold remove at returned
  refine step_inv_of_ok ?_ returned
  simp only [present]

theorem rename_inv [DecidableEq ν] {missing : ε} {old new : ν} {file : File ρ} {world world' : World ν ρ ε}
    {result : Except ε Unit} (present : world.disk old = some file)
    (returned : rename missing old new world = .ok (result, world')) :
    world'.faults = world.faults.tail ∧
      ((FailsAt world.faults 0 ∧ (∃ error, result = .error error) ∧ world'.disk = world.disk) ∨
        ¬ FailsAt world.faults 0 ∧ result = .ok () ∧
          world'.disk = Function.update (Function.update world.disk old none) new (some file)) := by
  unfold rename at returned
  refine step_inv_of_ok ?_ returned
  simp only [present]

/-- The body handles the records one after another without failing. -/
inductive Handles (body : σ → ρ → Except ε Unit × σ) : σ → List ρ → σ → Prop
  | nil {state : σ} : Handles body state [] state
  | cons {state next after : σ} {record : ρ} {records : List ρ} : body state record = (.ok (), next) →
      Handles body next records after → Handles body state (record :: records) after

variable {isEnd : ρ → Bool} {body : σ → ρ → Except ε Unit × σ}

/-- When every read succeeds, a body that handles all records before the end mark is run on them. -/
theorem Completes.readLoop_handles {records : List ρ} {state after : σ} (disk : Disk ν ρ)
    (handles : Handles body state (records.takeWhile fun r => !isEnd r) after) :
    Completes (RecordDisk.readLoop isEnd (fun state record => return body state record) records state :
      FileM ν ρ ε (Except ε Unit × σ)) disk (.ok (), after) disk := by
  induction records generalizing state with
  | nil =>
    cases handles
    exact .bind (.read [] disk) (.pure _ _)
  | cons record records ih =>
    refine .bind (.read (record :: records) disk) ?_
    cases atEnd : isEnd record with
    | true =>
      rw [List.takeWhile_cons, atEnd] at handles
      cases handles
      exact .pure _ _
    | false =>
      rw [List.takeWhile_cons, atEnd] at handles
      cases handles with
      | cons handled rest =>
        simp only [Bool.false_eq_true, if_false]
        refine .bind (.pure _ _) ?_
        rw [handled]
        exact ih rest

/-- The body handles the records before number `k` and leaves `mid`. There the records end or the
read fails, or the body fails. -/
structure StopsAt (body : σ → ρ → Except ε Unit × σ) (faults : List (Fault ε)) (records : List ρ) (state : σ)
    (status : Except ε Unit) (after : σ) (k : Nat) (mid : σ) : Prop where
  reads : ∀ j < k, ¬ FailsAt faults j
  within : k ≤ records.length
  handles : Handles body state (records.take k) mid
  outcome : status = .ok () ∧ after = mid ∧ (k = records.length ∨ FailsAt faults k) ∨
    ∃ record error, records[k]? = some record ∧ ¬ FailsAt faults k ∧ body mid record = (.error error, after) ∧
      status = .error error

namespace StopsAt
variable {faults : List (Fault ε)} {records : List ρ} {state after : σ} {status : Except ε Unit}

theorem ended : StopsAt body faults [] state (.ok ()) state 0 state :=
  ⟨fun _ less => absurd less (Nat.not_lt_zero _), le_rfl, .nil, .inl ⟨rfl, rfl, .inl rfl⟩⟩

theorem unread (fails : FailsAt faults 0) : StopsAt body faults records state (.ok ()) state 0 state :=
  ⟨fun _ less => absurd less (Nat.not_lt_zero _), Nat.zero_le _, .nil, .inl ⟨rfl, rfl, .inr fails⟩⟩

theorem refused {record : ρ} {error : ε} (passes : ¬ FailsAt faults 0) (handled : body state record = (.error error, after)) :
    StopsAt body faults (record :: records) state (.error error) after 0 state :=
  ⟨fun _ less => absurd less (Nat.not_lt_zero _), Nat.zero_le _, .nil, .inr ⟨record, error, rfl, passes, handled, rfl⟩⟩

/-- One more record is handled in front. -/
theorem cons {record : ρ} {next mid : σ} {k : Nat} (passes : ¬ FailsAt faults 0)
    (handled : body state record = (.ok (), next)) (stops : StopsAt body faults.tail records next status after k mid) :
    StopsAt body faults (record :: records) state status after (k + 1) mid := by
  refine ⟨fun j less => ?_, ?_, ?_, ?_⟩
  · cases j with
    | zero => exact passes
    | succ j =>
      rw [failsAt_succ]
      exact stops.reads j (by omega)
  · rw [List.length_cons]
    exact Nat.succ_le_succ stops.within
  · rw [List.take_succ_cons]
    exact .cons handled stops.handles
  · rw [List.length_cons, failsAt_succ, List.getElem?_cons_succ, Nat.add_right_cancel_iff]
    exact stops.outcome

end StopsAt

/-- A loop that returns has handled the records before the end mark, up to the first read that was
made to fail or the first record that its body failed on. -/
theorem readLoop_inv {records : List ρ} {state : σ} {world world' : World ν ρ ε} {status : Except ε Unit} {after : σ}
    (returned : readLoop isEnd (fun state record => return body state record) records state world =
      .ok ((status, after), world')) :
    world'.disk = world.disk ∧
      ∃ k mid, StopsAt body world.faults (records.takeWhile fun r => !isEnd r) state status after k mid := by
  induction records generalizing state world with
  | nil =>
    obtain ⟨_, middle, ran, rest⟩ := bind_inv returned
    cases rest
    exact ⟨(read_inv ran).2.1, 0, after, .ended⟩
  | cons record records ih =>
    obtain ⟨result, middle, ran, rest⟩ := bind_inv returned
    obtain ⟨faults, disk, ⟨fails, error, rfl⟩ | ⟨passes, rfl⟩⟩ := read_inv ran
    · cases rest
      exact ⟨disk, 0, after, .unread fails⟩
    · cases atEnd : isEnd record with
      | true =>
        simp only [atEnd, if_true] at rest
        cases rest
        rw [List.takeWhile_cons, atEnd]
        exact ⟨disk, 0, after, .ended⟩
      | false =>
        rw [List.takeWhile_cons, atEnd]
        simp only [atEnd, Bool.false_eq_true, if_false] at rest
        obtain ⟨⟨outcome, next⟩, here, ran', rest⟩ := bind_inv rest
        obtain ⟨handled, rfl⟩ := Prod.mk.inj (Except.ok.inj ran')
        cases outcome with
        | error error =>
          cases rest
          exact ⟨disk, 0, state, .refused passes handled⟩
        | ok _ =>
          obtain ⟨disk', k, mid, stops⟩ := ih rest
          rw [faults] at stops
          exact ⟨disk'.trans disk, k + 1, mid, stops.cons passes handled⟩

/-- The records that are read before a read fails, when each turn takes this many steps. -/
def readable (turn : Nat) : List (Fault ε) → List ρ → List ρ
  | _, [] => []
  | .fail _ :: _, _ :: _ => []
  | faults, record :: records => record :: readable turn (faults.drop turn) records

theorem readable_of_fails {turn : Nat} {faults : List (Fault ε)} (fails : FailsAt faults 0) (records : List ρ) :
    readable turn faults records = [] := by
  obtain ⟨error, here⟩ := fails
  cases faults with
  | nil => cases here
  | cons fault faults =>
    cases here
    cases records <;> rfl

theorem readable_of_passes {turn : Nat} {faults : List (Fault ε)} (passes : ¬ FailsAt faults 0) (record : ρ)
    (records : List ρ) : readable turn faults (record :: records) = record :: readable turn (faults.drop turn) records := by
  cases faults with
  | nil => rfl
  | cons fault faults =>
    cases fault with
    | fail error => exact absurd ⟨error, rfl⟩ passes
    | pass => rfl
    | crash kept => rfl

/-- A loop whose body does not touch the files goes over the readable records. -/
theorem readLoop_readable {handle : σ → ρ → σ} {records : List ρ} {state after : σ} {world world' : World ν ρ ε}
    {status : Except ε Unit} (returned : readLoop isEnd (fun state record => return (.ok (), handle state record))
      records state world = .ok ((status, after), world')) :
    status = .ok () ∧
      after = (readable 1 world.faults (records.takeWhile fun r => !isEnd r)).foldl handle state ∧
      world' = ⟨world.disk,
        world.faults.drop ((readable 1 world.faults (records.takeWhile fun r => !isEnd r)).length + 1)⟩ := by
  induction records generalizing state world with
  | nil =>
    obtain ⟨_, middle, ran, rest⟩ := bind_inv returned
    cases rest
    obtain ⟨faults, disk, -⟩ := read_inv ran
    refine ⟨rfl, rfl, ?_⟩
    rw [← disk, List.takeWhile_nil, readable, List.length_nil, List.drop_one, ← faults]
  | cons record records ih =>
    obtain ⟨result, middle, ran, rest⟩ := bind_inv returned
    obtain ⟨faults, disk, ⟨fails, error, rfl⟩ | ⟨passes, rfl⟩⟩ := read_inv ran
    · cases rest
      rw [readable_of_fails fails, List.length_nil, Nat.zero_add, List.drop_one, ← faults, ← disk]
      exact ⟨rfl, rfl, rfl⟩
    · cases atEnd : isEnd record with
      | true =>
        simp only [atEnd, if_true] at rest
        cases rest
        rw [List.takeWhile_cons, atEnd]
        refine ⟨rfl, rfl, ?_⟩
        rw [← disk, if_neg (by simp), readable, List.length_nil, List.drop_one, ← faults]
      | false =>
        simp only [atEnd, Bool.false_eq_true, if_false] at rest
        obtain ⟨⟨outcome, next⟩, here, handled, rest⟩ := bind_inv rest
        cases handled
        obtain ⟨rfl, rfl, rfl⟩ := ih rest
        rw [List.takeWhile_cons, atEnd, if_pos (by simp), readable_of_passes passes, List.foldl_cons, List.length_cons,
          disk, faults, List.drop_tail, List.drop_one]
        exact ⟨rfl, rfl, rfl⟩

end RecordDisk
