import ContentBased.ReloadAtomic
import ContentBased.TrainingWindow

namespace ContentBased
open RecordDisk PeriodicLog Std

def LogEvent.asClick : LogEvent → Option CategoryClick
  | .click message => some message
  | .item _ => none

namespace DistTable
variable {σ : Type}

/-- The clicks in a log, in no order. -/
def clicksIn (disk : Files) (name : FileName) : Multiset CategoryClick :=
  (((logged disk name).filterMap LogEvent.asClick : List CategoryClick) : Multiset CategoryClick)

/-- The clicks in the last logs that were rolled, as many of them as the window is long. -/
noncomputable def windowClicks (table : DistTable σ) (disk : Files) : Multiset CategoryClick :=
  ∑ n ∈ (Finset.Ico (table.periodicLog.lastCounter.toInt - table.timeWindowSize)
      table.periodicLog.lastCounter.toInt).filter (0 ≤ ·),
    clicksIn disk (.log table.periodicLog.path table.periodicLog.prefix_ n)

/-- The loop over the logs adds up what it comes upon, and a log that is missing counts for nothing. -/
theorem sum_visited {α : Type} [AddCommMonoid α] {disk : Files} (f : Int → α) (turns : Nat) (iter : Iterator)
    (missing : ∀ n, disk (.log iter.path iter.prefix_ n) = none → f n = 0) :
    ((visited disk turns iter).map f).sum =
      ∑ n ∈ (Finset.Ico (iter.counter + 1 - turns) (iter.counter + 1)).filter (0 ≤ ·), f n := by
  induction turns generalizing iter with
  | zero => simp [visited]
  | succ turns ih =>
    rw [visited]
    by_cases negative : iter.counter < 0
    · have none_ : (Finset.Ico (iter.counter + 1 - (turns + 1 : Nat)) (iter.counter + 1)).filter (0 ≤ ·) = ∅ := by
        ext n
        simp only [Finset.mem_filter, Finset.mem_Ico, Finset.notMem_empty, iff_false]
        omega
      rw [if_pos negative, none_]
      rfl
    · have older := ih iter.next missing
      have newest : (Finset.Ico (iter.counter + 1 - (turns + 1 : Nat)) (iter.counter + 1)).filter (0 ≤ ·) =
          insert iter.counter
            ((Finset.Ico (iter.next.counter + 1 - turns) (iter.next.counter + 1)).filter (0 ≤ ·)) := by
        ext n
        simp only [Iterator.next, Finset.mem_insert, Finset.mem_filter, Finset.mem_Ico]
        omega
      have fresh : iter.counter ∉
          (Finset.Ico (iter.next.counter + 1 - turns) (iter.next.counter + 1)).filter (0 ≤ ·) := by
        simp only [Iterator.next, Finset.mem_filter, Finset.mem_Ico]
        omega
      rw [if_neg negative, newest, Finset.sum_insert fresh, ← older]
      by_cases present : (disk iter.filename).isSome
      · rw [if_pos present, List.map_cons, List.sum_cons]
      · rw [if_neg present, missing _ (by simpa [Iterator.filename] using present), zero_add]

/-- Training comes upon the clicks of the window. -/
theorem coe_windowEvents (table : DistTable σ) (disk : Files) :
    (((table.windowEvents disk).filterMap LogEvent.asClick : List CategoryClick) : Multiset CategoryClick) =
      table.windowClicks disk := by
  have missing (n : Int) (none_ : disk (.log table.periodicLog.path table.periodicLog.prefix_ n) = none) :
      clicksIn disk (.log table.periodicLog.path table.periodicLog.prefix_ n) = 0 := by
    rw [clicksIn, logged, none_]
    rfl
  have sum := sum_visited (fun n => clicksIn disk (.log table.periodicLog.path table.periodicLog.prefix_ n))
    table.timeWindowSize.toNat table.periodicLog.getIterator missing
  have bounds : (Finset.Ico (table.periodicLog.getIterator.counter + 1 - table.timeWindowSize.toNat)
      (table.periodicLog.getIterator.counter + 1)).filter (0 ≤ ·) =
        (Finset.Ico (table.periodicLog.lastCounter.toInt - table.timeWindowSize)
      table.periodicLog.lastCounter.toInt).filter
          (0 ≤ ·) := by
    ext n
    simp only [getIterator, Finset.mem_filter, Finset.mem_Ico]
    omega
  rw [bounds] at sum
  rw [windowEvents, List.filterMap_flatMap, ← Multiset.coe_bind, Multiset.bind, Multiset.join, Multiset.map_coe,
    Multiset.sum_coe, windowClicks, ← sum]
  rfl

end DistTable

/-- The categories of the clicks that were published at `expired` or later. -/
def recentCategories (expired : Int) (clicks : Multiset CategoryClick) : Multiset Int32 :=
  (clicks.filter fun click => expired ≤ click.publishTime.toInt).map CategoryClick.categoryId

namespace Trends
variable {format : ItemTagFormat}

/-- A click that is recent enough is counted once, and nothing else is. -/
theorem train_counts {fields : Trends} {keys : List Int32} (counts : fields.mapDistTraining.Counts keys)
    (events : List LogEvent) : ∃ map : Tally Int32,
      (virtual format).train fields events = { fields with mapDistTraining := map } ∧
        map.Counts (keys ++ ((events.filterMap LogEvent.asClick).filter fun click =>
          fields.clickExpired ≤ click.publishTime.toInt).map CategoryClick.categoryId) := by
  induction events generalizing fields keys with
  | nil =>
    refine ⟨fields.mapDistTraining, rfl, ?_⟩
    simpa using counts
  | cons event events ih =>
    cases event with
    | item item => exact ih counts
    | click click =>
      by_cases old : click.publishTime.toInt < fields.clickExpired
      · obtain ⟨map, trained, counted⟩ := ih counts
        refine ⟨map, ?_, ?_⟩
        · rw [← trained, Virtual.train, List.foldl_cons]
          simp only [LogEvent.handle, virtual, trainClick, if_pos old, Virtual.train]
        · simpa [LogEvent.asClick, Int.not_le.mpr old] using counted
      · obtain ⟨map, trained, counted⟩ :=
          @ih { fields with mapDistTraining := fields.mapDistTraining.raise click.categoryId 1 } _
            (counts.raise click.categoryId)
        refine ⟨map, ?_, ?_⟩
        · rw [← trained, Virtual.train, List.foldl_cons]
          simp only [LogEvent.handle, virtual, trainClick, if_neg old, Virtual.train]
        · simpa [LogEvent.asClick, Int.not_lt.mp old] using counted

/-- The clicks that `dumpTable` counts up, but at least one. -/
def totalClick (map : Tally Int32) : Int :=
  let totalClick := map.toList.foldl (fun total entry => addTruncated total entry.2) 0
  if totalClick ≤ 0 then 1 else totalClick

def normalized (map : Tally Int32) : Tally Int32 := map.map fun _ weight => weight / (totalClick map : ℚ)

/-- What a map is written as. -/
def distribution (map : Tally Int32) : CategoryDistribution := ⟨0, map.toList.map fun entry => ⟨entry.1, entry.2⟩⟩

theorem dumpTable_eq (writer : FileName) (fields : Trends) :
    dumpTable format writer fields = do
      let status ← append writer ((distribution (normalized fields.mapDistTraining)).serializeAsString format) false
      return (status, { fields with mapDistTraining := normalized fields.mapDistTraining }) := rfl

theorem addTruncated_cast (total amount : Int) : addTruncated total amount = total + amount := by
  unfold addTruncated
  rw [← Int.cast_add, Int.floor_intCast, Int.ceil_intCast, ite_self]

theorem foldl_addTruncated (entries : List (Int32 × ℚ)) (whole : ∀ entry ∈ entries, ∃ n : Int, entry.2 = n) (total : Int) :
    ((entries.foldl (fun total entry => addTruncated total entry.2) total : Int) : ℚ) =
      total + (entries.map Prod.snd).sum := by
  induction entries generalizing total with
  | nil => simp
  | cons entry entries ih =>
    obtain ⟨n, amount⟩ := whole entry List.mem_cons_self
    rw [List.foldl_cons, ih (fun e member => whole e (List.mem_cons_of_mem _ member)), amount, addTruncated_cast,
      List.map_cons, List.sum_cons, amount]
    push_cast
    ring

/-- A map of counts adds up to the number of clicks. -/
theorem totalClick_counts {map : Tally Int32} {keys : List Int32} (counts : map.Counts keys) (some_ : keys ≠ []) :
    totalClick map = keys.length := by
  have whole : ∀ entry ∈ map.toList, ∃ n : Int, entry.2 = n := by
    intro entry member
    have present := ExtTreeMap.mem_toList_iff_getElem?_eq_some.mp member
    rw [counts entry.1] at present
    by_cases absent : keys.count entry.1 = 0
    · simp [absent] at present
    · rw [if_neg absent] at present
      exact ⟨keys.count entry.1, by exact_mod_cast (Option.some.inj present).symm⟩
  have sum := foldl_addTruncated map.toList whole 0
  have total := counts.total
  rw [Int.cast_zero, zero_add] at sum
  rw [Tally.total, ← sum] at total
  have length : map.toList.foldl (fun total entry => addTruncated total entry.2) 0 = (keys.length : Int) := by
    exact_mod_cast total
  have positive := List.length_pos_iff.mpr some_
  rw [totalClick, length]
  exact if_neg (by omega)

theorem normalized_shares {map : Tally Int32} {keys : List Int32} (counts : map.Counts keys) :
    (normalized map).Shares keys :=
  counts.shares fun some_ => by rw [totalClick_counts counts some_, Int.cast_natCast]

end Trends

namespace NewsTrends
variable {format : ItemTagFormat}

/-- A training whose file operations all succeed serves the histogram and writes it to the table.
It touches no rolled log. -/
theorem train_completes (format : ItemTagFormat) (now : Int) (table : NewsTrends) (disk : Files) :
    ∃ after last, Completes (train format now table) disk (.ok (), after) last ∧
      after = { table with fields := after.fields } ∧ after.fields.options = table.fields.options ∧
      after.fields.clickExpired = windowStart now table.fields.options.newsTrendsTimeWindow ∧
      after.fields.mapDist.Shares (recentCategories after.fields.clickExpired (table.windowClicks disk)) ∧
      ∀ path prefix_ n, last (.log path prefix_ n) = disk (.log path prefix_ n) := by
  let cleared : Trends := { table.fields with
    mapDistTraining := ∅, clickExpired := windowStart now table.fields.options.newsTrendsTimeWindow }
  obtain ⟨map, trained, counts⟩ := @Trends.train_counts format cleared [] .empty (table.windowEvents disk)
  let counted : Trends := { cleared with mapDistTraining := map }
  let dumped : Trends := { cleared with mapDistTraining := Trends.normalized map }
  have visits : Completes (DistTable.trainPeriodicLog (Trends.virtual format) { table with fields := cleared }) disk
      (.ok (), { table with fields := counted }) disk := by
    have run := DistTable.trainPeriodicLog_visits (Trends.virtual format) { table with fields := cleared } disk
    have same : (Trends.virtual format).train cleared (table.windowEvents disk) = counted := trained
    rw [← same]
    exact run
  let tmp := FileName.temporary table.workPath table.tableName
  let data := (Trends.distribution (Trends.normalized map)).serializeAsString format
  let created := Function.update disk tmp (some (.synced []))
  let written := Function.update created tmp ((created tmp).map (·.push data false))
  have dumps : Completes (Trends.dumpTable format tmp counted) created (.ok (), dumped) written := by
    rw [Trends.dumpTable_eq]
    exact .bind (.append tmp data false created) (.pure _ _)
  have present : written tmp = some ((File.synced []).push data false) := by simp [written, created]
  refine ⟨{ table with fields := dumped.swap }, _, .bind visits (.bind (.create tmp disk) (.bind dumps
    (.bind (.rename present) (.pure _ _)))), rfl, rfl, rfl, ?_, ?_⟩
  · have shares := Trends.normalized_shares counts
    rw [← DistTable.coe_windowEvents]
    exact shares
  · intro path prefix_ n
    simp [written, created, tmp]

/-- A training serves the histogram of the recent clicks of its window, whatever was served before,
with positive weights that add up to one. -/
theorem train_serves_histogram (format : ItemTagFormat) (now : Int) (table : NewsTrends) (disk : Files) :
    ∃ (after : NewsTrends) (last : Files) (trends : Tally Int32), Completes (train format now table) disk (.ok (), after) last ∧
      after.fields.clickExpired = windowStart now table.fields.options.newsTrendsTimeWindow ∧
      after.fields.queryCurrentTrends = (.ok (), trends) ∧
      trends.Shares (recentCategories after.fields.clickExpired (table.windowClicks disk)) ∧
      (∀ (category : Int32) (weight : ℚ), trends[category]? = some weight → 0 < weight) ∧
      (recentCategories after.fields.clickExpired (table.windowClicks disk) ≠ 0 → trends.total = 1) := by
  obtain ⟨after, last, run, -, -, expired, shares, -⟩ := train_completes format now table disk
  exact ⟨after, last, _, run, expired, rfl, shares, fun _ _ => shares.positive, shares.total⟩

/-- One log with one click has been rolled. -/
def oneClick : Files :=
  DistTable.holding (.log "" "news-trends" 0) [[48], (LogEvent.click ⟨1, 7, 0⟩).record]

def rolledOnce : NewsTrends :=
  { new { workPath := "" } with periodicLog := ⟨1, "", "news-trends", none⟩ }

def rolledOnceTrained : NewsTrends :=
  { rolledOnce with fields := { rolledOnce.fields with clickExpired := -(48 * 3600) } }

/-- The log cannot be opened, and the training is OK without it. -/
theorem train_without_unread_log :
    (∃ world', train DistTable.noTags 0 rolledOnce ⟨oneClick, [.fail ⟨.ioError, "open"⟩]⟩ =
      .ok ((.ok (), rolledOnceTrained), world')) ∧
    ¬ rolledOnceTrained.fields.mapDist.Shares
      (recentCategories rolledOnceTrained.fields.clickExpired (rolledOnce.windowClicks oneClick)) := by
  refine ⟨⟨_, rfl⟩, fun shares => ?_⟩
  have clicks : (recentCategories rolledOnceTrained.fields.clickExpired (rolledOnce.windowClicks oneClick)).count 7 = 1 := by
    decide +kernel
  have missing := shares 7
  rw [if_neg (by rw [clicks]; decide)] at missing
  cases missing

end NewsTrends

end ContentBased
