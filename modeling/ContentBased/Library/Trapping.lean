import Mathlib

/-- Code that works on a state, may return early with a code, and comes to nothing when it reads through a null
pointer. -/
abbrev Trapping (σ ε : Type) := ExceptT ε (StateT σ Option)

namespace Trapping
variable {σ ε α β : Type}

def trap : Trapping σ ε α := fun _ => none

/-- Reads through a pointer. -/
def deref : Option α → Trapping σ ε α
  | some value => pure value
  | none => trap

theorem bind_of_ok {program : Trapping σ ε α} {next : α → Trapping σ ε β} {state after : σ} {value : α}
    (run : program state = some (.ok value, after)) : (program >>= next) state = next value after := by
  change Option.bind (program state) _ = _
  rw [run]
  rfl

theorem bind_of_error {program : Trapping σ ε α} {next : α → Trapping σ ε β} {state after : σ} {code : ε}
    (run : program state = some (.error code, after)) : (program >>= next) state = some (.error code, after) := by
  change Option.bind (program state) _ = _
  rw [run]
  rfl

theorem bind_of_trap {program : Trapping σ ε α} {next : α → Trapping σ ε β} {state : σ}
    (run : program state = none) : (program >>= next) state = none := by
  change Option.bind (program state) _ = _
  rw [run]
  rfl

theorem of_bind_ok {program : Trapping σ ε α} {next : α → Trapping σ ε β} {state after : σ} {result : β}
    (run : (program >>= next) state = some (.ok result, after)) :
    ∃ value middle, program state = some (.ok value, middle) ∧ next value middle = some (.ok result, after) := by
  rcases first : program state with _ | ⟨code | value, middle⟩
  · rw [bind_of_trap first] at run
    cases run
  · rw [bind_of_error first] at run
    cases run
  · rw [bind_of_ok first] at run
    exact ⟨value, middle, rfl, run⟩

theorem forM_range_succ (n : Nat) (body : Nat → Trapping σ ε Unit) :
    (List.range (n + 1)).forM body = (List.range n).forM body >>= fun _ => body n := by
  rw [List.range_succ]
  exact (List.forM_append ..).trans (bind_congr fun _ => bind_pure (body n))

/-- Started where `before` holds, the program does not trap: it goes on where `after` holds, or it returns early with
a code that `early` allows. -/
def Safe (before : σ → Prop) (program : Trapping σ ε α) (after : α → σ → Prop) (early : ε → Prop) : Prop :=
  ∀ state, before state → match program state with
    | some (.ok value, state') => after value state'
    | some (.error code, _) => early code
    | none => False

namespace Safe
variable {before middle : σ → Prop} {after : α → σ → Prop} {early : ε → Prop}

theorem pure {value : α} (holds : ∀ state, before state → after value state) :
    Safe before (Pure.pure value : Trapping σ ε α) after early := holds

theorem throw {code : ε} (allowed : early code) :
    Safe before (MonadExcept.throw code : Trapping σ ε α) after early := fun _ _ => allowed

theorem modify {change : σ → σ} {after : Unit → σ → Prop} (holds : ∀ state, before state → after () (change state)) :
    Safe before (modify change : Trapping σ ε Unit) after early := holds

theorem get : Safe before (MonadState.get : Trapping σ ε σ) (fun value state => value = state ∧ before state) early :=
  fun _ start => ⟨rfl, start⟩

theorem bind {program : Trapping σ ε α} {next : α → Trapping σ ε β} {between : α → σ → Prop} {after : β → σ → Prop}
    (first : Safe before program between early) (rest : ∀ value, Safe (between value) (next value) after early) :
    Safe before (program >>= next) after early := by
  intro state start
  have held := first state start
  rcases run : program state with _ | ⟨code | value, state'⟩
  · rw [run] at held
    exact held.elim
  · rw [run] at held
    rw [bind_of_error run]
    exact held
  · rw [run] at held
    rw [bind_of_ok run]
    exact rest value state' held

theorem deref {value : α} {pointer : Option α} (valid : pointer = some value)
    (holds : ∀ state, before state → after value state) :
    Safe before (Trapping.deref pointer : Trapping σ ε α) after early := by
  subst valid
  exact holds

/-- The invariant of a loop over the numbers below a bound may speak of the number that is reached. -/
theorem forM_range {n : Nat} {body : Nat → Trapping σ ε Unit} {invariant : Nat → σ → Prop}
    (each : ∀ i < n, Safe (invariant i) (body i) (fun _ => invariant (i + 1)) early) :
    Safe (invariant 0) ((List.range n).forM body) (fun _ => invariant n) early := by
  induction n with
  | zero => exact pure fun _ start => start
  | succ n ih =>
    have last := each n (Nat.lt_succ_self n)
    rw [forM_range_succ]
    exact bind (ih fun i small => each i (Nat.lt_succ_of_lt small)) fun _ => last

theorem weaken {program : Trapping σ ε α} {before' : σ → Prop} {after' : α → σ → Prop} {early' : ε → Prop}
    (safe : Safe before program after early) (start : ∀ state, before' state → before state)
    (finish : ∀ value state, after value state → after' value state) (codes : ∀ code, early code → early' code) :
    Safe before' program after' early' := by
  intro state held
  have holds := safe state (start state held)
  rcases run : program state with _ | ⟨code | value, state'⟩
  · rw [run] at holds
    exact holds.elim
  · rw [run] at holds
    exact codes code holds
  · rw [run] at holds
    exact finish value state' holds

end Safe

end Trapping
