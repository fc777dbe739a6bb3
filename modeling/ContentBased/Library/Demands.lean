import ContentBased.Library.Trapping

/-- Something that a program needs of its input, and whether the program tests it. -/
structure Demand where
  met : Bool
  tested : Bool
deriving DecidableEq, Repr

namespace Demand

def unmet (demands : List Demand) : Option Demand := demands.find? fun demand => !demand.met

/-- The first demand that is not met is one that the program tests. -/
def Guarded (demands : List Demand) : Prop := ∀ demand, unmet demands = some demand → demand.tested = true

theorem unmet_append (demands later : List Demand) : unmet (demands ++ later) = (unmet demands).or (unmet later) :=
  List.find?_append

end Demand

namespace Trapping
open Demand
variable {σ ε α β : Type}

/-- Started where `before` holds, the program goes on when all its demands are met; else the first that is not decides
whether it returns early or traps. -/
def Asks (before : σ → Prop) (program : Trapping σ ε α) (demands : List Demand) (after : α → σ → Prop) : Prop :=
  ∀ state, before state → match program state with
    | some (.ok value, state') => unmet demands = none ∧ after value state'
    | some (.error _, _) => ∃ demand, unmet demands = some demand ∧ demand.tested = true
    | none => ∃ demand, unmet demands = some demand ∧ demand.tested = false

namespace Asks
variable {before : σ → Prop} {after : α → σ → Prop}

theorem pure {value : α} (holds : ∀ state, before state → after value state) :
    Asks before (Pure.pure value : Trapping σ ε α) [] after := fun state start => ⟨rfl, holds state start⟩

theorem modify {change : σ → σ} {after : Unit → σ → Prop} (holds : ∀ state, before state → after () (change state)) :
    Asks before (modify change : Trapping σ ε Unit) [] after := fun state start => ⟨rfl, holds state start⟩

theorem throw {code : ε} {demands : List Demand} :
    Asks before (MonadExcept.throw code : Trapping σ ε α) (⟨false, true⟩ :: demands) after :=
  fun _ _ => ⟨⟨false, true⟩, rfl, rfl⟩

/-- A demand that is met asks for nothing. -/
theorem met {program : Trapping σ ε α} {demands : List Demand} {tested : Bool} (asks : Asks before program demands after) :
    Asks before program (⟨true, tested⟩ :: demands) after := asks

theorem of_false {program : Trapping σ ε α} {demands : List Demand} (never : ∀ state, ¬ before state) :
    Asks before program demands after := fun state start => absurd start (never state)

theorem deref {pointer : Option α} (holds : ∀ value state, pointer = some value → before state → after value state) :
    Asks before (Trapping.deref pointer : Trapping σ ε α) [⟨pointer.isSome, false⟩] after := by
  cases pointer with
  | none => exact fun _ _ => ⟨⟨false, false⟩, rfl, rfl⟩
  | some value => exact fun state start => ⟨rfl, holds value state rfl start⟩

theorem get : Asks before (MonadState.get : Trapping σ ε σ) [] (fun value state => value = state ∧ before state) :=
  fun _ start => ⟨rfl, rfl, start⟩

theorem bind {program : Trapping σ ε α} {next : α → Trapping σ ε β} {demands later : List Demand}
    {between : α → σ → Prop} {after : β → σ → Prop} (first : Asks before program demands between)
    (rest : ∀ value, Asks (between value) (next value) later after) :
    Asks before (program >>= next) (demands ++ later) after := by
  intro state start
  have held := first state start
  rcases run : program state with _ | ⟨code | value, state'⟩
  · rw [run] at held
    rw [bind_of_trap run]
    obtain ⟨demand, found, untested⟩ := held
    exact ⟨demand, by rw [unmet_append, found, Option.some_or], untested⟩
  · rw [run] at held
    rw [bind_of_error run]
    obtain ⟨demand, found, tested⟩ := held
    exact ⟨demand, by rw [unmet_append, found, Option.some_or], tested⟩
  · rw [run] at held
    obtain ⟨met, held⟩ := held
    rw [bind_of_ok run, unmet_append, met, Option.none_or]
    exact rest value state' held

/-- A part without demands. -/
theorem bind_nil {program : Trapping σ ε α} {next : α → Trapping σ ε β} {later : List Demand} {between : α → σ → Prop}
    {after : β → σ → Prop} (first : Asks before program [] between)
    (rest : ∀ value, Asks (between value) (next value) later after) : Asks before (program >>= next) later after :=
  bind first rest

/-- The next part of a program, with its demands first in the list of those of the parts. -/
theorem next {program : Trapping σ ε α} {next : α → Trapping σ ε β} {demands : List Demand} {later : List (List Demand)}
    {between : α → σ → Prop} {after : β → σ → Prop} (first : Asks before program demands between)
    (rest : ∀ value, Asks (between value) (next value) later.flatten after) :
    Asks before (program >>= next) (demands :: later).flatten after := by
  rw [List.flatten_cons]
  exact bind first rest

theorem last {program : Trapping σ ε α} {demands : List Demand} (asks : Asks before program demands after) :
    Asks before program [demands].flatten after := by
  rwa [List.flatten_singleton]

theorem weaken {program : Trapping σ ε α} {demands : List Demand} {before' : σ → Prop} {after' : α → σ → Prop}
    (asks : Asks before program demands after) (start : ∀ state, before' state → before state)
    (finish : ∀ value state, after value state → after' value state) : Asks before' program demands after' := by
  intro state held
  have holds := asks state (start state held)
  rcases run : program state with _ | ⟨code | value, state'⟩
  · rwa [run] at holds
  · rwa [run] at holds
  · rw [run] at holds
    exact ⟨holds.1, finish value state' holds.2⟩

theorem forM_range {n : Nat} {body : Nat → Trapping σ ε Unit} {demands : Nat → List Demand} {invariant : Nat → σ → Prop}
    (each : ∀ i < n, Asks (invariant i) (body i) (demands i) (fun _ => invariant (i + 1))) :
    Asks (invariant 0) ((List.range n).forM body) ((List.range n).flatMap demands) (fun _ => invariant n) := by
  induction n with
  | zero => exact pure fun _ start => start
  | succ n ih =>
    have last := each n (Nat.lt_succ_self n)
    rw [forM_range_succ, List.range_succ, List.flatMap_append, List.flatMap_singleton]
    exact bind (ih fun i small => each i (Nat.lt_succ_of_lt small)) fun _ => last

theorem forM {γ : Type} {elements : List γ} {body : γ → Trapping σ ε Unit} {demands : γ → List Demand}
    {invariant : σ → Prop}
    (each : ∀ element ∈ elements, Asks invariant (body element) (demands element) (fun _ => invariant)) :
    Asks invariant (elements.forM body) (elements.flatMap demands) (fun _ => invariant) := by
  induction elements with
  | nil => exact pure fun _ start => start
  | cons element rest ih =>
    have first := each element List.mem_cons_self
    exact bind first fun _ => ih fun element member => each element (List.mem_cons_of_mem _ member)

/-- The program does not trap exactly when its demands are guarded. -/
theorem isSome_iff {program : Trapping σ ε α} {demands : List Demand} (asks : Asks before program demands after)
    {state : σ} (start : before state) : (program state).isSome = true ↔ Guarded demands := by
  have held := asks state start
  rcases run : program state with _ | ⟨code | value, state'⟩
  · rw [run] at held
    obtain ⟨demand, found, untested⟩ := held
    refine iff_of_false (by simp) fun guarded => ?_
    rw [guarded demand found] at untested
    cases untested
  · rw [run] at held
    obtain ⟨demand, found, tested⟩ := held
    refine iff_of_true rfl fun other same => ?_
    rwa [← Option.some.inj (found.symm.trans same)]
  · rw [run] at held
    refine iff_of_true rfl fun other same => ?_
    cases held.1.symm.trans same

end Asks

end Trapping
