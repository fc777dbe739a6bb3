import Mathlib

/-! Cells of a memory that are written in any order. -/
namespace Cells
variable {Index Cell Write : Type} [DecidableEq Index] (apply : Cell → Write → Cell)

def write (memory : Index → Cell) (event : Index × Write) : Index → Cell :=
  Function.update memory event.1 (apply (memory event.1) event.2)

/-- The memory behind a schedule of writes. -/
def run (schedule : List (Index × Write)) (memory : Index → Cell) : Index → Cell := schedule.foldl (write apply) memory

/-- The writes of a schedule to one cell. -/
def writesTo (schedule : List (Index × Write)) (index : Index) : List Write :=
  (schedule.filter fun event => event.1 = index).map Prod.snd

/-- A cell depends on the writes to it alone. -/
theorem run_apply (schedule : List (Index × Write)) (memory : Index → Cell) (index : Index) :
    run apply schedule memory index = (writesTo schedule index).foldl apply (memory index) := by
  induction schedule generalizing memory with
  | nil => rfl
  | cons event rest ih =>
    have later := ih (write apply memory event)
    by_cases same : event.1 = index
    · have written : writesTo (event :: rest) index = event.2 :: writesTo rest index := by
        simp [writesTo, same]
      rw [written, List.foldl_cons, ← same]
      rw [← same, write, Function.update_self] at later
      exact later
    · have written : writesTo (event :: rest) index = writesTo rest index := by simp [writesTo, same]
      rw [written]
      rw [write, Function.update_of_ne (Ne.symm same)] at later
      exact later

end Cells
