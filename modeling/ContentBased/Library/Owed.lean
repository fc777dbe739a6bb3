import Mathlib

universe u v w

/-! Updates that commute, so that those which are still owed can be made up at any time and in any order. -/
namespace Owed
variable {Part : Type u} {State : Type v} (apply : Part → State → State) [LeftCommutative apply]

/-- The state once all that is owed is made up. -/
def settled (owed : Multiset Part) (state : State) : State := owed.foldr apply state

section Settled
variable {apply} {owed more : Multiset Part} {part : Part} {state : State}

@[simp] theorem settled_zero : settled apply 0 state = state := Multiset.foldr_zero ..

theorem settled_add : settled apply (owed + more) state = settled apply owed (settled apply more state) :=
  Multiset.foldr_add ..

/-- What is paid now need not be paid later. -/
theorem settled_cons : settled apply (part ::ₘ owed) state = settled apply owed (apply part state) := by
  rw [← Multiset.singleton_add, add_comm, settled_add, settled, settled, settled, Multiset.foldr_singleton]

theorem settled_coe (parts : List Part) :
    settled apply (parts : Multiset Part) state = parts.foldl (fun state part => apply part state) state := by
  induction parts generalizing state with
  | nil => exact settled_zero
  | cons part parts ih => rw [← Multiset.cons_coe, settled_cons, ih, List.foldl_cons]

/-- What no part changes. -/
theorem settled_eq {α : Type w} {seen : State → α} (same : ∀ part state, seen (apply part state) = seen state) :
    seen (settled apply owed state) = seen state := by
  induction owed using Multiset.induction generalizing state with
  | empty => rw [settled_zero]
  | cons part owed ih => rw [settled_cons, ih, same]

/-- A change that commutes with the parts. -/
theorem settled_change {change : State → State}
    (commutes : ∀ part state, change (apply part state) = apply part (change state)) :
    change (settled apply owed state) = settled apply owed (change state) := by
  induction owed using Multiset.induction generalizing state with
  | empty => rw [settled_zero, settled_zero]
  | cons part owed ih => rw [settled_cons, settled_cons, ih, commutes]

end Settled

/-- The state of an account whose operations are made part by part, with the parts that are owed, and that of one whose
operations are made as a whole, with the parts of those which have begun. -/
def Agrees (owed whole : Multiset Part) (state serial : State) : Prop :=
  settled apply owed state = settled apply whole serial

namespace Agrees
variable {apply} {owed whole parts : Multiset Part} {part : Part} {state serial : State}

theorem refl : Agrees apply 0 0 state state := rfl

theorem begun (agrees : Agrees apply owed whole state serial) (parts : Multiset Part) :
    Agrees apply (parts + owed) (parts + whole) state serial := by
  rw [Agrees, settled_add, settled_add, agrees]

theorem pay (agrees : Agrees apply (part ::ₘ owed) whole state serial) :
    Agrees apply owed whole (apply part state) serial := by
  rwa [Agrees, settled_cons] at agrees

theorem finish (agrees : Agrees apply owed (parts + whole) state serial) :
    Agrees apply owed whole state (settled apply parts serial) := by
  rwa [Agrees, add_comm, settled_add] at agrees

theorem done (agrees : Agrees apply 0 0 state serial) : state = serial := by
  rwa [Agrees, settled_zero, settled_zero] at agrees

end Agrees

end Owed
