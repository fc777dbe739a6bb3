import ContentBased.InterestsRun

namespace ContentBased
open RecordDisk PeriodicLog

/-- A click always counts, an item only where items give the prior probability. -/
def LogEvent.Counts (priorProbType : Int) : LogEvent → Prop
  | .click _ => True
  | .item _ => 1 = priorProbType

/-- Each of these events was followed by so many rollovers. -/
def Followed (count : Nat) (which : LogEvent → Prop) (calls : List InterestsCall) : Prop :=
  ∀ before event after, calls = before ++ .add event :: after → which event → count ≤ after.count .rollover

/-- Every event that counts was followed by two rollovers at least. -/
def Settled (opts : ModelOptions) (calls : List InterestsCall) : Prop :=
  Followed 2 (LogEvent.Counts opts.userInterestsPriorProbType) calls

section
variable {opts : ModelOptions} {ctime : Int} {calls : List InterestsCall} {s : UserInterests × Files}

theorem followed_snoc {count : Nat} {which : LogEvent → Prop} {call : InterestsCall} :
    Followed count which (calls ++ [call]) ↔
      Followed (count - if call = .rollover then 1 else 0) which calls ∧
        ∀ event, call = .add event → which event → count = 0 := by
  constructor
  · intro followed
    refine ⟨?_, ?_⟩
    · rintro before event after rfl counts
      have here := followed before event (after ++ [call]) (by simp) counts
      rw [List.count_append, List.count_singleton] at here
      split at here <;> simp_all
    · rintro event rfl counts
      have here := followed calls event [] rfl counts
      simpa using here
  · rintro ⟨followed, last⟩ before event after same counts
    rcases List.concat_eq_append_cons.mp same with ⟨rfl, rfl, rfl⟩ | ⟨front, rfl, rfl⟩
    · have zero := last event rfl counts
      omega
    · have here := followed before event front rfl counts
      rw [List.count_append, List.count_singleton]
      split at here <;> simp_all

theorem followed_zero {which : LogEvent → Prop} : Followed 0 which calls := fun _ _ _ _ _ => Nat.zero_le _

/-- What was not followed by enough rollovers is still recent. -/
theorem followed_iff {count : Nat} {which : LogEvent → Prop} :
    Followed (count + 1) which calls ↔
      ∀ event ∈ (History.run opts ctime calls).events.recent count, ¬ which event := by
  induction calls using List.reverseRecOn generalizing count with
  | nil =>
    refine iff_of_true ?_ ?_
    · intro before event after same
      simp at same
    · simp [History.run, History.start, History.events, Segments.recent, Segments.newest, Segments.empty, Segments.map]
  | append_singleton front call ih =>
    rw [followed_snoc, History.run_snoc]
    cases call with
    | add event =>
      simp only [History.events_add, reduceCtorEq, if_false, Nat.sub_zero, ih, InterestsCall.add.injEq, Nat.succ_ne_zero, imp_false,
        Segments.mem_recent_add, or_imp, forall_and, forall_eq, forall_eq']
    | rollover =>
      simp only [History.events_rollover, if_true, Nat.add_sub_cancel, reduceCtorEq, false_implies, implies_true, and_true]
      cases count with
      | zero => exact iff_of_true followed_zero (by simp [Segments.recent_roll_zero])
      | succ count => simp only [ih, Segments.mem_recent_roll]
    | eliminate now =>
      simp only [History.events_eliminate, reduceCtorEq, if_false, Nat.sub_zero, ih, false_implies, implies_true, and_true]

/-- While nothing is eliminated the window stays where it is, and every event inside it is counted. -/
theorem counted_all (noEliminate : ∀ now, .eliminate now ∉ calls)
    (inWindow : ∀ event, .add event ∈ calls → (History.start opts ctime).day < event.publishTime) :
    (History.run opts ctime calls).day = (History.start opts ctime).day ∧
      counted (History.run opts ctime calls).entries.all = (History.run opts ctime calls).events.all ∧
      ∀ event ∈ (History.run opts ctime calls).events.all, .add event ∈ calls := by
  induction calls using List.reverseRecOn with
  | nil => exact ⟨rfl, rfl, by simp [History.run, History.start, History.events]⟩
  | append_singleton front call ih =>
    obtain ⟨day, all, members⟩ := ih (fun now member => noEliminate now (List.mem_append_left _ member))
      fun event member => inWindow event (List.mem_append_left _ member)
    rw [History.run_snoc]
    have earlier : ∀ event ∈ (History.run opts ctime front).events.all, .add event ∈ front ++ [call] :=
      fun event member => List.mem_append_left _ (members event member)
    cases call with
    | add event =>
      have inside : (History.run opts ctime front).day < event.publishTime := by
        rw [day]
        exact inWindow event (by simp)
      simp only [History.events] at all earlier
      refine ⟨day, ?_, ?_⟩
      · simp only [History.step, History.events, Segments.all_add, Segments.map_add, counted_snoc, if_pos inside, all]
      · simp only [History.step, History.events, Segments.map_add, Segments.all_add]
        intro other member
        rcases List.mem_append.mp member with old | new
        · exact earlier other old
        · simp_all
    | rollover =>
      simp only [History.step, History.events, Segments.map_roll, Segments.all_roll] at all earlier ⊢
      exact ⟨day, all, earlier⟩
    | eliminate now => exact absurd (by simp) (noEliminate now)

/-- The next process on the directory: it opens the log and trains, and counts nothing but the
events of the rolled logs before the newest one. -/
theorem Tracks.restart {h : History} (tracks : Tracks opts s h) (ctime' : Int) :
    ∃ table disk, Completes (UserInterests.new opts ctime').init s.2 (.ok (), table) disk ∧
      table.fields.Counted opts (History.start opts ctime').day
        ((((h.events.rolled.take (h.events.rolled.length - 1)).reverse.take
          opts.userInterestsTimeWindow.toNat).flatten).filter
            fun event => (History.start opts ctime').day < event.publishTime) := by
  obtain ⟨size, rec_, _⟩ := tracks
  let fresh := UserInterests.new opts ctime'
  have object : fresh.periodicLog = .new s.1.periodicLog.path s.1.periodicLog.prefix_ := by
    obtain ⟨-, path, prefix_⟩ := Represents.named rec_
    rw [show s.1.periodicLog.path = _ from path, show s.1.periodicLog.prefix_ = _ from prefix_]
    rfl
  obtain ⟨log, disk, run, rep⟩ := Represents.openLog rec_ (Or.inr object) 0
    (some (DistTable.visit Interests.virtual)) fresh.fields
  have unrolled : replayable (Journal.ofSegments (h.events.map LogEvent.record)).current =
      h.events.current.map LogEvent.record := replayable_eq_self (LogEvent.nil_not_mem_records _)
  have visited : visitAll (some (DistTable.visit Interests.virtual)) fresh.fields
      (h.events.current.map LogEvent.record) = Interests.virtual.train fresh.fields h.events.current := by
    simp only [visitAll, Option.getD_some, List.foldl_map, LogEvent.visit_record]
    rfl
  rw [unrolled, visited] at run
  have nothing : fresh.fields.Counted opts (History.start opts ctime').day [] := ⟨rfl, rfl, .empty, .empty⟩
  have replayed := nothing.trainAll h.events.current
  let opened : UserInterests :=
    { fresh with periodicLog := log, fields := Interests.virtual.train fresh.fields h.events.current }
  have logs : RolledLogs opened.periodicLog.path opened.periodicLog.prefix_ disk h.events.rolled := by
    obtain ⟨-, path, prefix_⟩ := rep.named
    rw [show opened.periodicLog.path = _ from path, show opened.periodicLog.prefix_ = _ from prefix_]
    exact rep.rolledLogs rfl
  have counter : opened.periodicLog.lastCounter.toInt = (h.events.rolled.length - 1 : Nat) := by
    have header := rep.lastCounter
    simpa [Journal.step, Journal.ofSegments] using header
  have trained := opened.train_completes logs counter (Nat.sub_le _ _)
  have cleared : ({ opened.fields with currentDist := ∅, currentUserDist := ∅ } : Interests).Counted opts
      (History.start opts ctime').day [] := ⟨replayed.options, replayed.currentDay, .empty, .empty⟩
  have opening : Completes (DistTable.init Interests.virtual fresh) s.2 (.ok (), opened) disk := .bind run (.pure _ _)
  refine ⟨_, _, .bind opening trained, ?_⟩
  have retrained := cleared.trainAll
    ((h.events.rolled.take (h.events.rolled.length - 1)).reverse.take opts.userInterestsTimeWindow.toNat).flatten
  rw [List.nil_append] at retrained
  exact retrained

/-- Two ways of counting agree exactly when the events that one of them leaves out do not count. -/
theorem Interests.Counted.eq_iff {left right : Interests} {day day' : Int} {xs ys more : List LogEvent}
    (first : left.Counted opts day xs) (second : right.Counted opts day' ys) (perm : ys.Perm (xs ++ more)) :
    left.currentDist = right.currentDist ∧ left.currentUserDist = right.currentUserDist ↔
      ∀ event ∈ more, ¬ event.Counts opts.userInterestsPriorProbType := by
  have leftOut {β : Type} (f : LogEvent → Option β) :
      (xs.filterMap f).Perm (ys.filterMap f) ↔ ∀ event ∈ more, f event = none := by
    have all := perm.filterMap f
    rw [List.filterMap_append] at all
    rw [← List.filterMap_eq_nil_iff]
    constructor
    · intro same
      have lengths := (same.trans all).length_eq
      rw [List.length_append] at lengths
      exact List.length_eq_zero_iff.mp (by omega)
    · intro none_
      rw [none_, List.append_nil] at all
      exact all.symm
  rw [first.dist.eq_iff second.dist, first.users.eq_iff second.users, leftOut, leftOut, ← forall₂_and]
  refine forall₂_congr fun event _ => ?_
  cases event with
  | click message => simp [LogEvent.userCategory, LogEvent.Counts]
  | item message => simp [LogEvent.category, LogEvent.userCategory, LogEvent.Counts]

/-- The next process counts what this one had counted exactly when every event that counts was
followed by two rollovers: training clears what the opening of the log has replayed, and the
number that the opening reads back leaves the newest rolled log out. -/
theorem restart_iff_settled (reach : InterestsReach opts ctime calls s) (ctime' : Int)
    (noEliminate : ∀ now, .eliminate now ∉ calls)
    (inWindow : ∀ event, .add event ∈ calls → (History.start opts ctime).day < event.publishTime ∧
      (History.start opts ctime').day < event.publishTime)
    (few : (calls.count .rollover : Int) ≤ opts.userInterestsTimeWindow) :
    ∃ table disk, Completes (UserInterests.new opts ctime').init s.2 (.ok (), table) disk ∧
      (table.fields.currentDist = s.1.fields.currentDist ∧
        table.fields.currentUserDist = s.1.fields.currentUserDist ↔ Settled opts calls) := by
  have tracks := reach.tracks
  obtain ⟨_, all, members⟩ := counted_all noEliminate fun event member => (inWindow event member).1
  obtain ⟨table, disk, run, again⟩ := tracks.restart ctime'
  refine ⟨table, disk, run, ?_⟩
  have before := tracks.counted
  rw [all] at before
  generalize events : (History.run opts ctime calls).events = segments at *
  have number : segments.rolled.length = calls.count .rollover := by
    rw [← events]
    exact History.length_rolled opts ctime calls
  let older := segments.rolled.take (segments.rolled.length - 1)
  have fits : (segments.rolled.take (segments.rolled.length - 1)).reverse.length ≤ opts.userInterestsTimeWindow.toNat := by
    rw [List.length_reverse, List.length_take]
    omega
  rw [List.take_of_length_le fits] at again
  have split : segments.all.Perm (older.reverse.flatten ++ segments.recent 1) :=
    (segments.all_perm_recent 1).trans ((List.reverse_perm older).symm.flatten.append_right _)
  have inside : older.reverse.flatten.filter (fun event => (History.start opts ctime').day < event.publishTime) =
      older.reverse.flatten := by
    rw [List.filter_eq_self]
    intro event member
    have added := members event (split.symm.subset (List.mem_append_left _ member))
    exact decide_eq_true (inWindow event added).2
  rw [inside] at again
  rw [again.eq_iff before split, Settled, followed_iff, events]

end

/-- A click that was followed by two rollovers is counted again. -/
theorem restart_after_two_rollovers :
    ∃ s, InterestsReach { workPath := "." } 100000 [.add (.click ⟨7, 1, 90000⟩), .rollover, .rollover] s ∧
      ∃ table disk, Completes (UserInterests.new { workPath := "." } 100100).init s.2 (.ok (), table) disk ∧
        table.fields.currentDist = s.1.fields.currentDist ∧
        table.fields.currentUserDist = s.1.fields.currentUserDist := by
  obtain ⟨s, reach⟩ := InterestsReach.exists { workPath := "." } 100000
    [.add (.click ⟨7, 1, 90000⟩), .rollover, .rollover] (by decide)
  have inWindow : ∀ event, .add event ∈ [.add (.click ⟨7, 1, 90000⟩), InterestsCall.rollover, .rollover] →
      (History.start { workPath := "." } 100000).day < event.publishTime ∧
        (History.start { workPath := "." } 100100).day < event.publishTime := by
    intro event member
    simp only [List.mem_cons, InterestsCall.add.injEq, reduceCtorEq, List.not_mem_nil, or_false] at member
    subst member
    decide
  obtain ⟨table, disk, run, same⟩ := restart_iff_settled reach 100100 (by simp) inWindow (by decide)
  have settled : Settled { workPath := "." } ([] ++ [.add (.click ⟨7, 1, 90000⟩)] ++ [.rollover] ++ [.rollover]) := by
    simp only [Settled, followed_snoc]
    simp [followed_zero]
  exact ⟨s, reach, table, disk, run, same.mpr settled⟩

/-- A click that was still in writing is replayed by the opening of the log and then cleared. -/
theorem restart_forgets_unrolled_click :
    ∃ s, InterestsReach { workPath := "." } 100000 [.add (.click ⟨7, 1, 90000⟩)] s ∧
      ∃ table disk, Completes (UserInterests.new { workPath := "." } 100100).init s.2 (.ok (), table) disk ∧
        ¬ (table.fields.currentDist = s.1.fields.currentDist ∧
          table.fields.currentUserDist = s.1.fields.currentUserDist) := by
  obtain ⟨s, reach⟩ := InterestsReach.exists { workPath := "." } 100000 [.add (.click ⟨7, 1, 90000⟩)] (by decide)
  have tracks := reach.tracks
  obtain ⟨table, disk, run, again⟩ := tracks.restart 100100
  refine ⟨s, reach, table, disk, run, fun same => ?_⟩
  have before := tracks.counted
  have left := (again.eq_iff before (.refl _)).mp same (.click ⟨7, 1, 90000⟩) (by decide)
  exact left trivial

end ContentBased
