import Mathlib

universe u v

/-- Where an element of a list stands that has just been extended at its end. -/
theorem List.concat_eq_append_cons {α : Type u} {xs before after : List α} {x y : α} :
    xs ++ [x] = before ++ y :: after ↔
      after = [] ∧ xs = before ∧ x = y ∨ ∃ front, after = front ++ [x] ∧ xs = before ++ y :: front := by
  constructor
  · intro same
    rcases List.eq_nil_or_concat after with rfl | ⟨front, final, rfl⟩
    · obtain ⟨rfl, last⟩ := List.append_inj' same rfl
      exact Or.inl ⟨rfl, rfl, List.singleton_inj.mp last⟩
    · rw [List.concat_eq_append, ← List.cons_append, ← List.append_assoc] at same
      obtain ⟨rfl, last⟩ := List.append_inj' same rfl
      cases List.singleton_inj.mp last
      exact Or.inr ⟨front, by simp, rfl⟩
  · rintro (⟨rfl, rfl, rfl⟩ | ⟨front, rfl, rfl⟩) <;> simp

/-- Finite runs of a labelled transition relation, together with the labels taken. -/
inductive Run {State : Type u} {Label : Type v} (step : State → Label → State → Prop) (start : State) :
    List Label → State → Prop
  | start : Run step start [] start
  | next {labels state label after} : Run step start labels state → step state label after →
      Run step start (labels ++ [label]) after

namespace Run
variable {State : Type u} {Label : Type v} {step : State → Label → State → Prop} {start : State}

theorem snoc_inv {labels : List Label} {label : Label} {after : State}
    (run : Run step start (labels ++ [label]) after) :
    ∃ state, Run step start labels state ∧ step state label after := by
  generalize snoc : labels ++ [label] = all at run
  cases run with
  | start => simp at snoc
  | next previous taken =>
    obtain ⟨rfl, same⟩ := List.append_inj' snoc rfl
    cases same
    exact ⟨_, previous, taken⟩

theorem of_single {label : Label} {after : State} (run : Run step start [label] after) : step start label after := by
  obtain ⟨state, none_, taken⟩ := snoc_inv (show Run step start ([] ++ [label]) after from run)
  generalize empty : ([] : List Label) = labels at none_
  cases none_ with
  | start => exact taken
  | next => exact absurd empty.symm (List.append_ne_nil_of_right_ne_nil _ (List.cons_ne_nil _ _))

theorem append {left right : List Label} {middle after : State} (first : Run step start left middle)
    (rest : Run step middle right after) : Run step start (left ++ right) after := by
  induction rest with
  | start => simpa only [List.append_nil] using first
  | next _ taken ih => rw [← List.append_assoc]; exact .next ih taken

theorem cons {label : Label} {labels : List Label} {middle after : State} (taken : step start label middle)
    (rest : Run step middle labels after) : Run step start (label :: labels) after :=
  append (.next .start taken) rest

theorem split {left right : List Label} {after : State} (run : Run step start (left ++ right) after) :
    ∃ middle, Run step start left middle ∧ Run step middle right after := by
  induction right using List.reverseRecOn generalizing after with
  | nil => exact ⟨after, by simpa only [List.append_nil] using run, .start⟩
  | append_singleton front label ih =>
    rw [← List.append_assoc] at run
    obtain ⟨state, previous, taken⟩ := run.snoc_inv
    obtain ⟨middle, first, rest⟩ := ih previous
    exact ⟨middle, first, .next rest taken⟩

theorem step_of_mem {labels : List Label} {after : State} (run : Run step start labels after) {label : Label}
    (member : label ∈ labels) : ∃ state next, step state label next := by
  obtain ⟨front, back, rfl⟩ := List.append_of_mem member
  rw [List.append_cons] at run
  obtain ⟨next, first, -⟩ := run.split
  obtain ⟨state, -, taken⟩ := first.snoc_inv
  exact ⟨state, next, taken⟩

theorem mono {step' : State → Label → State → Prop}
    (more : ∀ {state label after}, step state label after → step' state label after) {labels : List Label} {after : State}
    (run : Run step start labels after) : Run step' start labels after := by
  induction run with
  | start => exact .start
  | next _ taken ih => exact .next ih (more taken)

/-- What is seen of a run is a run, when each step shows as a step or not at all. -/
theorem project {State' : Type*} {Label' : Type*} {step' : State' → Label' → State' → Prop} (view : State → State')
    (seen : Label → Option Label')
    (steps : ∀ {state label after}, step state label after → seen label = none ∧ view after = view state ∨
      ∃ label', seen label = some label' ∧ step' (view state) label' (view after))
    {labels : List Label} {after : State} (run : Run step start labels after) :
    Run step' (view start) (labels.filterMap seen) (view after) := by
  induction run with
  | start => exact .start
  | next _ taken ih =>
    rw [List.filterMap_append]
    rcases steps taken with ⟨hidden, same⟩ | ⟨label', shown, taken'⟩
    · rw [List.filterMap_cons_none hidden, List.filterMap_nil, List.append_nil, same]
      exact ih
    · rw [List.filterMap_cons_some shown, List.filterMap_nil]
      exact .next ih taken'

/-- A run from a place ends there, or it leaves the place by a step of its own kind. -/
theorem leaves {inside : State → Prop} {stays : Label → Prop} {leave : State → Label → State → Prop}
    (cases_ : ∀ {state label after}, step state label after → inside state →
      inside after ∧ stays label ∨ leave state label after)
    {labels : List Label} {after : State} (run : Run step start labels after) (first : inside start) :
    inside after ∧ (∀ label ∈ labels, stays label) ∨
      ∃ front label back state next, labels = front ++ label :: back ∧ Run step start front state ∧
        (∀ label ∈ front, stays label) ∧ step state label next ∧ leave state label next ∧ Run step next back after := by
  induction run with
  | start => exact Or.inl ⟨first, nofun⟩
  | @next labels state label after previous taken ih =>
    rcases ih with ⟨here, all⟩ | ⟨front, label', back, state', next, rfl, before, all, left, leave_, later⟩
    · rcases cases_ taken here with ⟨still, stay⟩ | leave_
      · refine Or.inl ⟨still, fun label' member => ?_⟩
        rcases List.mem_append.mp member with early | last
        · exact all label' early
        · rwa [List.mem_singleton.mp last]
      · exact Or.inr ⟨labels, label, [], state, after, rfl, previous, all, taken, leave_, .start⟩
    · refine Or.inr ⟨front, label', back ++ [label], state', next, ?_, before, all, left, leave_, .next later taken⟩
      rw [List.append_assoc, List.cons_append]

/-- When the next step is possible after each part of a list of labels, there is a run for the list. -/
theorem total {holds : List Label → State → Prop} (initial : holds [] start) (labels : List Label)
    (possible : ∀ front label, front ++ [label] <+: labels → ∀ state, holds front state →
      ∃ after, step state label after ∧ holds (front ++ [label]) after) :
    ∃ state, Run step start labels state ∧ holds labels state := by
  induction labels using List.reverseRecOn with
  | nil => exact ⟨start, .start, initial⟩
  | append_singleton front label ih =>
    obtain ⟨state, previous, kept⟩ := ih fun front' label' isPrefix =>
      possible front' label' (isPrefix.trans (List.prefix_append _ _))
    obtain ⟨after, taken, kept'⟩ := possible front label List.prefix_rfl state kept
    exact ⟨after, .next previous taken, kept'⟩

/-- Runs whose labels also tell the state in which each step was taken. -/
abbrev Traced (step : State → Label → State → Prop) : State → List (State × Label) → State → Prop :=
  Run fun before taken after => taken.1 = before ∧ step before taken.2 after

/-- When it is known which steps keep a property, it holds in all states of a run exactly when the run takes no others. -/
theorem holds_throughout_iff {invariant holds : State → Prop} {keeps : State → Label → Prop}
    (invariant_step : ∀ state label after, step state label after → invariant state → invariant after)
    (keeps_iff : ∀ state label after, step state label after → invariant state → holds state →
      (holds after ↔ keeps state label))
    (initial : invariant start) (first : holds start) {taken : List (State × Label)} {final : State}
    (run : Traced step start taken final) :
    invariant final ∧ ((∀ state ∈ taken.map Prod.fst ++ [final], holds state) ↔ ∀ pair ∈ taken, keeps pair.1 pair.2) := by
  induction run with
  | start => simpa using ⟨initial, first⟩
  | @next taken state pair after previous last ih =>
    obtain ⟨rfl, last⟩ := last
    refine ⟨invariant_step _ _ _ last ih.1, ?_⟩
    simp only [List.map_append, List.map_cons, List.map_nil, List.forall_mem_append, List.forall_mem_singleton] at ih ⊢
    rw [← ih.2]
    exact and_congr_right fun earlier => keeps_iff _ _ _ last ih.1 earlier.2

end Run
