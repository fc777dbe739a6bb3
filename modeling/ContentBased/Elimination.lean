import ContentBased.InterestsRun

namespace ContentBased
open RecordDisk PeriodicLog

namespace History

/-- The entries of the rolled logs whose age has reached the window. -/
def aged (opts : ModelOptions) (h : History) : List (LogEvent × Bool) :=
  (h.entries.rolled.take (h.entries.rolled.length - opts.userInterestsTimeWindow.toNat)).flatten

/-- The aged clicks that were counted and lie before the window by now. -/
def expired (opts : ModelOptions) (h : History) : List LogEvent :=
  (counted (h.aged opts)).filter fun event => event.publishTime ≤ h.day

end History

/-- What an elimination is there for: the aged logs are gone, and each click in them that had
been counted and has expired has been subtracted once. -/
structure Eliminated (opts : ModelOptions) (s : UserInterests × Files) (h : History) : Prop where
  removed : ∀ n, opts.userInterestsTimeWindow ≤ s.1.periodicLog.lastCounter.toInt - 1 - n →
    s.2 (.log opts.workPath opts.userInterestsLogPrefix n) = none
  users : ∀ userId categoryId, (s.1.fields.currentUserDist.getD userId ∅).getD categoryId 0 =
    ((counted h.entries.all).filterMap LogEvent.userCategory).count (userId, categoryId) -
      ((h.expired opts).filterMap LogEvent.userCategory).count (userId, categoryId)
  categories : opts.userInterestsPriorProbType = 0 → ∀ categoryId, s.1.fields.currentDist.getD categoryId 0 =
    ((counted h.entries.all).filterMap (LogEvent.category 0)).count categoryId -
      ((h.expired opts).filterMap (LogEvent.category 0)).count categoryId

section
variable {opts : ModelOptions} {ctime now : Int} {calls : List InterestsCall} {s : UserInterests × Files} {h : History}

theorem Tracks.eliminated_of_young (tracks : Tracks opts s h)
    (young : (h.events.rolled.length : Int) ≤ opts.userInterestsTimeWindow) : Eliminated opts s h := by
  have last := tracks.recorded.lastCounter
  have length : h.entries.rolled.length = h.events.rolled.length := (Segments.length_rolled_map _ _).symm
  have aged : h.aged opts = [] := by
    have none_ : h.entries.rolled.length - opts.userInterestsTimeWindow.toNat = 0 := by omega
    rw [History.aged, none_]
    rfl
  have expired : h.expired opts = [] := by
    rw [History.expired, aged]
    rfl
  refine ⟨?_, ?_, ?_⟩
  · intro n old
    exact tracks.recorded.log_none (by omega)
  · intro userId categoryId
    rw [tracks.counted.users.getD, expired]
    simp
  · intro prior categoryId
    have counts := tracks.counted.dist.getD categoryId
    rw [prior] at counts
    rw [counts, expired]
    simp

/-- The oldest log is still there once it has reached the age of the window. -/
theorem Tracks.young_of_eliminated (tracks : Tracks opts s h) (positive : 0 < opts.userInterestsTimeWindow)
    (eliminated : Eliminated opts s h) : (h.events.rolled.length : Int) ≤ opts.userInterestsTimeWindow := by
  have last := tracks.recorded.lastCounter
  by_contra many
  have inside : 0 < h.events.rolled.length := by omega
  obtain ⟨_, present⟩ := tracks.recorded.rolledLogs 0 _ (List.getElem?_eq_getElem inside)
  have gone := eliminated.removed 0 (by omega)
  rw [Nat.cast_zero, gone] at present
  cases present

/-- An elimination does what it is there for exactly when no more logs have been rolled than
the window holds: the loop stops before the first log that `needEliminate` would take. -/
theorem eliminated_iff_few_rollovers (reach : InterestsReach opts ctime (calls ++ [.eliminate now]) s)
    (positive : 0 < opts.userInterestsTimeWindow) :
    Eliminated opts s (.run opts ctime (calls ++ [.eliminate now])) ↔
      (calls.count .rollover : Int) ≤ opts.userInterestsTimeWindow := by
  have tracks := reach.tracks
  have number : (History.run opts ctime (calls ++ [.eliminate now])).events.rolled.length = calls.count .rollover := by
    rw [History.length_rolled]
    simp
  rw [← number]
  exact ⟨tracks.young_of_eliminated positive, tracks.eliminated_of_young⟩

end

theorem eliminated_while_young :
    ∃ s, InterestsReach { workPath := "." } 100000 ([.add (.click ⟨7, 1, 90000⟩), .rollover] ++ [.eliminate 200000]) s ∧
      Eliminated { workPath := "." } s (.run { workPath := "." } 100000
        ([.add (.click ⟨7, 1, 90000⟩), .rollover] ++ [.eliminate 200000])) := by
  obtain ⟨s, reach⟩ := InterestsReach.exists { workPath := "." } 100000
    ([.add (.click ⟨7, 1, 90000⟩), .rollover] ++ [.eliminate 200000]) (by decide)
  exact ⟨s, reach, (eliminated_iff_few_rollovers reach (by decide)).mpr (by decide)⟩

/-- With a window of one log the elimination leaves the second newest where it is. -/
theorem aged_log_not_eliminated :
    ∃ s, InterestsReach { workPath := ".", userInterestsTimeWindow := 1 } 100000
        [.add (.click ⟨7, 1, 99000⟩), .rollover, .rollover, .eliminate 200000] s ∧
      ¬ Eliminated { workPath := ".", userInterestsTimeWindow := 1 } s
        (.run { workPath := ".", userInterestsTimeWindow := 1 } 100000
          [.add (.click ⟨7, 1, 99000⟩), .rollover, .rollover, .eliminate 200000]) := by
  obtain ⟨s, reach⟩ := InterestsReach.exists { workPath := ".", userInterestsTimeWindow := 1 } 100000
    [.add (.click ⟨7, 1, 99000⟩), .rollover, .rollover, .eliminate 200000] (by decide)
  refine ⟨s, reach, fun eliminated => ?_⟩
  have young := reach.tracks.young_of_eliminated (by decide) eliminated
  rw [History.length_rolled] at young
  exact absurd young (by decide)

end ContentBased
