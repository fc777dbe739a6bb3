import Mathlib

universe u v

/-! Jobs that each have a time of their own at which they are due next, and go on from it by what their own timer makes of
it, as it is kept. -/
namespace Timers
variable {J : Type v} {τ : Type u} [LT τ] [DecidableLT τ]

/-- A job whose next time has passed is due, and is given the next time of its own timer. -/
def tick (timers : J → τ → τ) (now : τ) (times : J → τ) : J → τ := fun job =>
  if times job < now then timers job (times job) else times job

/-- The next times after these ticks. -/
def after (timers : J → τ → τ) (times : J → τ) (ticks : List τ) : J → τ :=
  ticks.foldl (fun times now => tick timers now times) times

/-- At which of these ticks the job is due. -/
def due (timers : J → τ → τ) : (J → τ) → List τ → J → List Bool
  | _, [], _ => []
  | times, now :: ticks, job => decide (times job < now) :: due timers (tick timers now times) ticks job

@[simp] theorem after_nil (timers : J → τ → τ) (times : J → τ) : after timers times [] = times := rfl

@[simp] theorem after_concat (timers : J → τ → τ) (times : J → τ) (ticks : List τ) (now : τ) :
    after timers times (ticks ++ [now]) = tick timers now (after timers times ticks) := by
  simp [after]

@[simp] theorem due_concat (timers : J → τ → τ) (times : J → τ) (ticks : List τ) (now : τ) (job : J) :
    due timers times (ticks ++ [now]) job =
      due timers times ticks job ++ [decide (after timers times ticks job < now)] := by
  induction ticks generalizing times with
  | nil => rfl
  | cons first rest ih =>
    have continued := ih (tick timers first times)
    simp only [List.cons_append, due, continued]
    rfl

/-- The next time of a job is what its own timer comes to in as many rounds as it was due. -/
theorem after_eq_iterate (timers : J → τ → τ) (times : J → τ) (ticks : List τ) (job : J) :
    after timers times ticks job = (timers job)^[(due timers times ticks job).count true] (times job) := by
  induction ticks using List.reverseRecOn with
  | nil => rfl
  | append_singleton ticks now ih =>
    rw [after_concat, due_concat, tick, List.count_append]
    by_cases passed : after timers times ticks job < now
    · rw [if_pos passed, decide_eq_true passed, List.count_singleton_self, Function.iterate_succ_apply', ← ih]
    · rw [if_neg passed, decide_eq_false passed, ih]
      rfl

/-- What a job does depends on its own timer and its own time only. -/
theorem due_congr {left right : J → τ → τ} {leftTimes rightTimes : J → τ} {job : J} (sameTimer : left job = right job)
    (sameTime : leftTimes job = rightTimes job) (ticks : List τ) :
    due left leftTimes ticks job = due right rightTimes ticks job := by
  induction ticks generalizing leftTimes rightTimes with
  | nil => rfl
  | cons now rest ih =>
    have next : tick left now leftTimes job = tick right now rightTimes job := by
      simp only [tick, sameTimer, sameTime]
    simp only [due, sameTime, ih next]

end Timers
