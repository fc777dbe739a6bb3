import ContentBased.LogGathering
import ContentBased.TrendsReload

namespace ContentBased
open RecordDisk PeriodicLog DistTable

namespace NewsTrends
variable {format : ItemTagFormat} {now : Int} {table after : NewsTrends} {status : Status}
variable {world world' : World FileName Bytes Failure}

/-- What a training reads of the rolled logs, and the faults left for the steps after it. -/
def walk (table : NewsTrends) (world : World FileName Bytes Failure) : List LogEvent × List (Fault Failure) :=
  gathered world.disk table.timeWindowSize.toNat table.periodicLog.getIterator world.faults

/-- The categories of the recent clicks that a training reads. -/
def readCategories (now : Int) (table : NewsTrends) (world : World FileName Bytes Failure) : Multiset Int32 :=
  recentCategories (windowStart now table.fields.options.newsTrendsTimeWindow)
    (((table.walk world).1.filterMap LogEvent.asClick : List CategoryClick) : Multiset CategoryClick)

/-- A training that fails leaves alone what is served and the table, and one that is OK serves the histogram and has
written it. So what is served and what is written agree when they did before. -/
structure TrainsAtomically (format : ItemTagFormat) (now : Int) (table : NewsTrends)
    (world : World FileName Bytes Failure) (status : Status) (after : NewsTrends) (last : Files) : Prop where
  failed : status ≠ .ok () → after.fields.mapDist = table.fields.mapDist ∧
    last (.table table.workPath table.tableName) = world.disk (.table table.workPath table.tableName)
  trained : status = .ok () → after.fields.mapDist.Shares (readCategories now table world) ∧
    Dumped format table last after.fields.mapDist
  agree : Dumped format table world.disk table.fields.mapDist → Dumped format table last after.fields.mapDist

/-- The three steps after the reading of the logs: creating the temporary table, writing it, renaming it. -/
theorem train_steps (returned : train format now table world = .ok ((status, after), world')) :
    let left := (table.walk world).2
    ∃ map : Tally Int32, map.Shares (readCategories now table world) ∧
      ((FailsAt left 0 ∨ FailsAt left 1) ∧ status ≠ .ok () ∧ after.fields.mapDist = table.fields.mapDist ∧
          world'.disk (.table table.workPath table.tableName) = world.disk (.table table.workPath table.tableName) ∨
        (¬ FailsAt left 0 ∧ ¬ FailsAt left 1 ∧ FailsAt left 2) ∧ status ≠ .ok () ∧ after.fields.mapDist = map ∧
          world'.disk (.table table.workPath table.tableName) = world.disk (.table table.workPath table.tableName) ∨
        ¬ FailsAt left 2 ∧ status = .ok () ∧ after.fields.mapDist = map) := by
  let cleared : Trends := { table.fields with
    mapDistTraining := ∅, clickExpired := windowStart now table.fields.options.newsTrendsTimeWindow }
  obtain ⟨map, trained, counts⟩ := @Trends.train_counts format cleared [] .empty (table.walk world).1
  refine ⟨Trends.normalized map, Trends.normalized_shares counts, ?_⟩
  obtain ⟨⟨status1, table1⟩, middle1, trains, rest⟩ := bind_inv returned
  obtain ⟨rfl, same, rfl⟩ := trainPeriodicLog_gathers trains
  have counted : table1 = { table with fields := { cleared with mapDistTraining := map } } := by
    rw [same]
    exact congrArg (fun fields => { table with fields }) trained
  subst counted
  obtain ⟨created, middle2, creates, rest⟩ := bind_inv rest
  obtain ⟨faults2, ⟨fails, ⟨error, rfl⟩, disk2⟩ | ⟨passes, rfl, disk2⟩⟩ := step_inv_of_ok rfl creates
  · cases rest
    exact .inl ⟨.inl fails, nofun, rfl, congrFun disk2 _⟩
  · obtain ⟨⟨status3, fields3⟩, middle3, dumps, rest⟩ := bind_inv rest
    obtain ⟨status', middle3', appends, dumps⟩ := bind_inv dumps
    cases dumps
    have untouched : middle2.disk (.table table.workPath table.tableName) = world.disk (.table table.workPath table.tableName) := by
      rw [disk2]
      exact Function.update_of_ne (by nofun) _ _
    obtain ⟨faults3, ⟨fails, ⟨error, rfl⟩, disk3⟩ | ⟨passes', rfl, disk3⟩⟩ := step_inv_of_ok rfl appends
    · cases rest
      rw [faults2, ← failsAt_succ] at fails
      exact .inl ⟨.inr fails, nofun, rfl, (congrFun disk3 _).trans untouched⟩
    · obtain ⟨renamed, middle4, renames, rest⟩ := bind_inv rest
      rw [faults2, ← failsAt_succ] at passes'
      obtain ⟨file, written⟩ : ∃ file, middle3.disk (.temporary table.workPath table.tableName) = some file := by
        rw [disk3, disk2, Function.update_self, Function.update_self]
        exact ⟨_, rfl⟩
      obtain ⟨-, ⟨fails, ⟨error, rfl⟩, disk4⟩ | ⟨passes'', rfl, disk4⟩⟩ := rename_inv written renames
      · cases rest
        rw [faults3, faults2, ← failsAt_succ, ← failsAt_succ] at fails
        refine .inr (.inl ⟨⟨passes, passes', fails⟩, nofun, rfl, ?_⟩)
        rw [disk4, disk3]
        exact (Function.update_of_ne (by nofun) _ _).trans untouched
      · cases rest
        rw [faults3, faults2, ← failsAt_succ, ← failsAt_succ] at passes''
        exact .inr (.inr ⟨passes'', rfl, rfl⟩)

/-- A training is atomic exactly when its last step, the renaming, does not fail alone, or when the histogram was
served already. -/
theorem train_atomic_iff (returned : train format now table world = .ok ((status, after), world')) :
    TrainsAtomically format now table world status after world'.disk ↔
      (¬ FailsAt (table.walk world).2 0 → ¬ FailsAt (table.walk world).2 1 → FailsAt (table.walk world).2 2 →
        table.fields.mapDist.Shares (readCategories now table world)) := by
  obtain ⟨map, shares, ⟨early, notOk, served, table_⟩ | ⟨⟨creates, writes, fails⟩, notOk, served, table_⟩ |
    ⟨renames, rfl, served⟩⟩ := train_steps returned
  · refine iff_of_true ⟨fun _ => ⟨served, table_⟩, fun ok => absurd ok notOk, ?_⟩ fun creates writes => ?_
    · rintro ⟨file, present, written⟩
      exact ⟨file, table_.trans present, by rw [served, written]⟩
    · rcases early with fails | fails
      · exact absurd fails creates
      · exact absurd fails writes
  · constructor
    · intro atomic _ _ _
      rw [← (atomic.failed notOk).1, served]
      exact shares
    · intro already
      have same : after.fields.mapDist = table.fields.mapDist := by
        rw [served]
        exact shares.unique (already creates writes fails)
      refine ⟨fun _ => ⟨same, table_⟩, fun ok => absurd ok notOk, ?_⟩
      rintro ⟨file, present, written⟩
      exact ⟨file, table_.trans present, by rw [same, written]⟩
  · have dumped := (train_inv returned).2
    refine iff_of_true ⟨fun notOk => absurd rfl notOk, fun _ => ⟨?_, dumped⟩, fun _ => dumped⟩
      fun _ _ fails => absurd fails renames
    rw [served]
    exact shares

theorem train_atomic_one_click :
    train oneTag 0 rolledOnce ⟨oneClick, []⟩ = .ok ((.ok (), servingOne), oneDumped) ∧
      TrainsAtomically oneTag 0 rolledOnce ⟨oneClick, []⟩ (.ok ()) servingOne oneDumped.disk := by
  have run : train oneTag 0 rolledOnce ⟨oneClick, []⟩ = .ok ((.ok (), servingOne), oneDumped) := rfl
  refine ⟨run, (train_atomic_iff run).mpr fun _ _ fails => ?_⟩
  cases fails.choose_spec

/-- The renaming fails, and the new map is served while the table is the old one. -/
theorem train_serves_before_rename :
    ∃ failure after world', train oneTag 0 rolledOnce ⟨oneClick, [.pass, .pass, .pass, .pass, .pass, .pass,
        .fail ⟨.ioError, "rename"⟩]⟩ = .ok ((.error failure, after), world') ∧
      ¬ TrainsAtomically oneTag 0 rolledOnce ⟨oneClick, [.pass, .pass, .pass, .pass, .pass, .pass,
        .fail ⟨.ioError, "rename"⟩]⟩ (.error failure) after world'.disk := by
  refine ⟨_, _, _, rfl, fun atomic => ?_⟩
  have weight := congrArg (fun map : Tally Int32 => map[(7 : Int32)]?) (atomic.failed nofun).1
  cases weight

end NewsTrends

end ContentBased
