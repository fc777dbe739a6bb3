import ContentBased.TrendsTraining

namespace ContentBased
open RecordDisk PeriodicLog DistTable
open Std (ExtTreeMap)

namespace Trends
variable {format : ItemTagFormat}

theorem queryCurrentTrends_congr {left right : Trends} (same : left.mapDist = right.mapDist) :
    left.queryCurrentTrends = right.queryCurrentTrends := by
  rw [queryCurrentTrends, queryCurrentTrends, same]

/-- A map says what it is written as. -/
theorem content_distribution (map : Tally Int32) : content [distribution map] = fun category => map[category]? := by
  funext category
  rw [content, List.flatMap_singleton, distribution, List.find?_map, Option.map_map]
  cases found : map.toList.find? ((fun tag : ItemTag => decide (tag.tagId = category)) ∘ fun entry => ⟨entry.1, entry.2⟩) with
  | none =>
    cases present : map[category]? with
    | none => rfl
    | some weight =>
      have absent := List.find?_eq_none.mp found _ (ExtTreeMap.mem_toList_iff_getElem?_eq_some.mpr present)
      simp at absent
  | some entry =>
    have same : entry.1 = category := by simpa using List.find?_some found
    have present := ExtTreeMap.mem_toList_iff_getElem?_eq_some.mp (List.mem_of_find?_eq_some found)
    rw [← same, present]
    rfl

/-- The records of a dumped table say what its map says, though an empty map is written as the end mark. -/
theorem dumped_parses {map : Tally Int32} (exact : ∀ entry ∈ map.toList, format.Exact ⟨entry.1, entry.2⟩)
    {file : File Bytes} (written : file.content = [(distribution map).serializeAsString format]) :
    ∃ dists, Parses format (records file) dists ∧ content dists = fun category => map[category]? := by
  rw [← content_distribution]
  have tags : ∀ tag ∈ (distribution map).distribution, format.Exact tag := by
    intro tag member
    obtain ⟨entry, inMap, rfl⟩ := List.mem_map.mp member
    exact exact entry inMap
  have parsed := CategoryDistribution.parse_serialize tags
  rw [records, written]
  by_cases empty : (distribution map).serializeAsString format = []
  · rw [empty]
    refine ⟨[], rfl, ?_⟩
    rw [CategoryDistribution.serializeAsString_eq_nil.mp empty]
    rfl
  · have kept : ([(distribution map).serializeAsString format].takeWhile fun record => !record.isEmpty) =
        [(distribution map).serializeAsString format] := by
      simp [empty]
    rw [kept]
    exact ⟨[distribution map], congrArg (fun dist => [dist]) parsed, rfl⟩

end Trends

namespace NewsTrends
variable {format : ItemTagFormat} {now : Int}

/-- The table on the disk is what this map is dumped as. -/
def Dumped (format : ItemTagFormat) (table : NewsTrends) (disk : Files) (map : Tally Int32) : Prop :=
  ∃ file, disk (.table table.workPath table.tableName) = some file ∧
    file.content = [(Trends.distribution map).serializeAsString format]

theorem trainPeriodicLog_inv {virtual : Virtual Trends} {table after : NewsTrends} {status : Status}
    {world world' : World FileName Bytes Failure}
    (returned : DistTable.trainPeriodicLog virtual table world = .ok ((status, after), world')) :
    after = { table with fields := after.fields } := by
  obtain ⟨⟨status', fields⟩, middle, -, rest⟩ := bind_inv returned
  cases rest
  rfl

/-- However many logs could not be read, a training that is OK has dumped the map that it serves. -/
theorem train_inv {table after : NewsTrends} {world world' : World FileName Bytes Failure}
    (returned : train format now table world = .ok ((.ok (), after), world')) :
    after = { table with fields := after.fields } ∧ Dumped format table world'.disk after.fields.mapDist := by
  obtain ⟨⟨status, trained⟩, disk1, visited, rest⟩ := bind_inv returned
  rw [trainPeriodicLog_inv visited] at rest
  cases status with
  | error failure => cases rest
  | ok _ =>
    obtain ⟨created, disk2, creates, rest⟩ := bind_inv rest
    cases created with
    | error failure => cases rest
    | ok _ =>
      obtain ⟨⟨status, fields⟩, disk3, dumps, rest⟩ := bind_inv rest
      obtain ⟨status', disk4, appends, dumped⟩ := bind_inv dumps
      cases dumped
      cases status with
      | error failure => cases rest
      | ok _ =>
        obtain ⟨renamed, disk5, renames, rest⟩ := bind_inv rest
        cases renamed with
        | error errno => cases rest
        | ok _ =>
          cases rest
          have created := (Prod.mk.inj (Except.ok.inj (step_ok_inv creates))).2
          have written := (Prod.mk.inj (Except.ok.inj (step_ok_inv appends))).2
          have moved := step_ok_inv renames
          rw [← written, ← created] at moved
          simp only [Function.update_self, Option.map_some] at moved
          have table_ := (Prod.mk.inj (Except.ok.inj moved)).2
          have present : world'.disk (.table table.workPath table.tableName) = some _ :=
            (congrFun table_ _).symm.trans (Function.update_self _ _ _)
          exact ⟨rfl, _, present, rfl⟩

/-- A reload of a dumped map that is OK and reads all of the table serves the map. -/
theorem reload_dumped {table after : NewsTrends} {world world' : World FileName Bytes Failure} {map : Tally Int32}
    (exact : ∀ entry ∈ map.toList, format.Exact ⟨entry.1, entry.2⟩) (dumped : Dumped format table world.disk map)
    (unbroken : ∀ file i dists, ¬ BrokenAt format (.table table.workPath table.tableName) world file i dists)
    (returned : reload format table world = .ok ((.ok (), after), world')) :
    world'.disk = world.disk ∧ after.fields.mapDist = map ∧ after = { table with fields := after.fields } ∧
      after.fields.options = table.fields.options := by
  obtain ⟨file, present, written⟩ := dumped
  obtain ⟨all, parses, same⟩ := Trends.dumped_parses exact written
  obtain ⟨disk, ⟨failed, -⟩ | ⟨-, file', dists, present', rfl, ⟨parses', -⟩ | ⟨i, broken⟩⟩⟩ :=
    reload_inv rfl (fun _ => rfl) returned
  · exact absurd rfl failed
  · obtain rfl : file = file' := Option.some.inj (present.symm.trans present')
    obtain rfl := parses.unique parses'
    have served := (Trends.view_lawful format).swapped table.fields all
    refine ⟨disk, ExtTreeMap.ext_getElem? fun category => congrFun (served.trans same) category, rfl, ?_⟩
    rw [Trends.load_eq]
    rfl
  · exact absurd broken (unbroken file' i dists)

/-- And so it goes when no file step fails. -/
theorem reload_dumped_completes {table : NewsTrends} {disk : Files} {map : Tally Int32}
    (exact : ∀ entry ∈ map.toList, format.Exact ⟨entry.1, entry.2⟩) (dumped : Dumped format table disk map) :
    ∃ after, Completes (reload format table) disk (.ok (), after) disk ∧ after.fields.mapDist = map ∧
      after = { table with fields := after.fields } ∧ after.fields.options = table.fields.options := by
  obtain ⟨file, present, written⟩ := dumped
  obtain ⟨dists, parses, -⟩ := Trends.dumped_parses exact written
  have run : Completes (reload format table) disk _ disk := reload_completes rfl present parses
  have unbroken : ∀ file i dists,
      ¬ BrokenAt format (.table table.workPath table.tableName) ⟨disk, []⟩ file i dists :=
    fun _ _ _ broken => nomatch broken.fails.choose_spec
  obtain ⟨-, served, same, options⟩ := reload_dumped exact ⟨file, present, written⟩ unbroken run
  exact ⟨_, run, served, same, options⟩

inductive TrendsCall where
  | train
  | reload
  | other
deriving DecidableEq, Repr

/-- A training or a reload at one clock whose file steps all succeed, or anything else that rolls no
log and leaves the table on the disk. -/
inductive TrendsStep (format : ItemTagFormat) (now : Int) :
    NewsTrends × Files → TrendsCall → NewsTrends × Files → Prop
  | train {table after : NewsTrends} {disk last : Files} {status : Status} :
      Completes (NewsTrends.train format now table) disk (status, after) last →
      TrendsStep format now (table, disk) .train (after, last)
  | reload {table after : NewsTrends} {disk last : Files} {status : Status} :
      Completes (NewsTrends.reload format table) disk (status, after) last →
      TrendsStep format now (table, disk) .reload (after, last)
  | other {table : NewsTrends} {disk last : Files} :
      (∀ n, last (.log table.periodicLog.path table.periodicLog.prefix_ n) =
        disk (.log table.periodicLog.path table.periodicLog.prefix_ n)) →
      last (.table table.workPath table.tableName) = disk (.table table.workPath table.tableName) →
      TrendsStep format now (table, disk) .other (table, last)

/-- The map is served, it is what the logs give, and it is what the table was written from. -/
structure Steady (format : ItemTagFormat) (now : Int) (map : Tally Int32) (s : NewsTrends × Files) : Prop where
  served : s.1.fields.mapDist = map
  histogram : map.Shares (recentCategories
    (windowStart now s.1.fields.options.newsTrendsTimeWindow) (s.1.windowClicks s.2))
  dumped : Dumped format s.1 s.2 map

theorem windowClicks_congr {table after : NewsTrends} {disk last : Files} (same : after = { table with fields := after.fields })
    (logs : ∀ n, last (.log table.periodicLog.path table.periodicLog.prefix_ n) =
      disk (.log table.periodicLog.path table.periodicLog.prefix_ n)) :
    after.windowClicks last = table.windowClicks disk := by
  rw [same]
  refine Finset.sum_congr rfl fun n _ => ?_
  rw [clicksIn, clicksIn, logged, logged, logs]

theorem Steady.step {map : Tally Int32} {s after : NewsTrends × Files} {call : TrendsCall}
    (steady : Steady format now map s) (exact : ∀ entry ∈ map.toList, format.Exact ⟨entry.1, entry.2⟩)
    (step : TrendsStep format now s call after) : Steady format now map after := by
  obtain ⟨served, histogram, dumped⟩ := steady
  cases step with
  | @train table _ disk _ _ run =>
    obtain ⟨after, last, expected, same, options, expired, shares, logs⟩ := train_completes format now table disk
    obtain ⟨values, rfl⟩ := run.unique expected
    cases values
    rw [expired] at shares
    have kept := shares.unique histogram
    have written := (train_inv run).2
    rw [kept] at written
    refine ⟨kept, ?_, ?_⟩
    · simp only
      rw [options, windowClicks_congr same fun n => logs _ _ n]
      exact histogram
    · rw [same]
      exact written
  | @reload table _ disk _ _ run =>
    obtain ⟨after, expected, kept, same, options⟩ := reload_dumped_completes exact dumped
    obtain ⟨values, rfl⟩ := run.unique expected
    cases values
    refine ⟨kept, ?_, ?_⟩
    · simp only
      rw [options, windowClicks_congr same fun n => rfl]
      exact histogram
    · rw [same]
      exact dumped
  | other logs table_ =>
    refine ⟨served, ?_, ?_⟩
    · simp only
      rw [windowClicks_congr rfl logs]
      exact histogram
    · obtain ⟨file, present, written⟩ := dumped
      exact ⟨file, table_.trans present, written⟩

theorem Steady.run {map : Tally Int32} {s after : NewsTrends × Files} {calls : List TrendsCall}
    (steady : Steady format now map s) (exact : ∀ entry ∈ map.toList, format.Exact ⟨entry.1, entry.2⟩)
    (run : Run (TrendsStep format now) s calls after) : Steady format now map after := by
  induction run with
  | start => exact steady
  | next _ taken ih => exact ih.step exact taken

/-- A reload gives back the map that was dumped, however many logs the training could not read; and when no file
step of the training fails, further trainings and reloads keep the map. -/
theorem reload_undoes_dump {table trained reloaded : NewsTrends} {world middle last : World FileName Bytes Failure}
    (trains : train format now table world = .ok ((.ok (), trained), middle))
    (exact : ∀ entry ∈ trained.fields.queryCurrentTrends.2.toList, format.Exact ⟨entry.1, entry.2⟩)
    (unbroken : ∀ file i dists, ¬ BrokenAt format (.table table.workPath table.tableName) middle file i dists)
    (reloads : reload format trained middle = .ok ((.ok (), reloaded), last)) :
    reloaded.fields.queryCurrentTrends = trained.fields.queryCurrentTrends ∧
      (world.faults = [] → ∀ calls s, Run (TrendsStep format now) (reloaded, last.disk) calls s →
        s.1.fields.queryCurrentTrends = trained.fields.queryCurrentTrends) := by
  obtain ⟨same, written⟩ := train_inv trains
  have dumped : Dumped format trained middle.disk trained.fields.mapDist := by
    rw [same]
    exact written
  have whole : ∀ file i dists,
      ¬ BrokenAt format (.table trained.workPath trained.tableName) middle file i dists := by
    rw [same]
    exact unbroken
  obtain ⟨disk, served, same', options'⟩ := reload_dumped exact dumped whole reloads
  refine ⟨Trends.queryCurrentTrends_congr served, fun passes calls s run => ?_⟩
  obtain ⟨start, faults⟩ := world
  cases passes
  obtain ⟨after, final, expected, -, options, expired, shares, logs⟩ := train_completes format now table start
  obtain ⟨values, rfl⟩ := Prod.mk.inj (Except.ok.inj (expected.symm.trans trains))
  cases values
  have steady : Steady format now trained.fields.mapDist (reloaded, last.disk) := by
    refine ⟨served, ?_, ?_⟩
    · simp only
      rw [options', options, windowClicks_congr same' fun n => by rw [disk],
        windowClicks_congr same fun n => logs _ _ n, ← expired]
      exact shares
    · rw [disk, same']
      exact dumped
  exact Trends.queryCurrentTrends_congr (steady.run exact run).served

/-- The whole weight in category 7. -/
def oneShare : Tally Int32 := Trends.normalized ((∅ : Tally Int32).raise 7 1)

def oneTag : ItemTagFormat where
  serialize _ := [8, 7, 21, 0, 0, 128, 63]
  parse bytes := if bytes = [8, 7, 21, 0, 0, 128, 63] then some ⟨7, 1⟩ else none

theorem oneShare_exact : ∀ entry ∈ oneShare.toList, oneTag.Exact ⟨entry.1, entry.2⟩ := by
  have list : oneShare.toList = [(7, 1)] := by decide +kernel
  intro entry member
  rw [list] at member
  obtain rfl := List.mem_singleton.mp member
  exact ⟨by decide, by decide⟩

def servingOne : NewsTrends := { rolledOnceTrained with fields := { rolledOnceTrained.fields with mapDist := oneShare } }

def oneDumped : World FileName Bytes Failure where
  disk :=
    let record := (Trends.distribution oneShare).serializeAsString oneTag
    let created := Function.update oneClick (.temporary "" "news-trends.dat") (some (.synced []))
    let written := Function.update created (.temporary "" "news-trends.dat") (some ⟨[], [record]⟩)
    Function.update (Function.update written (.temporary "" "news-trends.dat") none)
      (.table "" "news-trends.dat") (some ⟨[], [record]⟩)
  faults := []

theorem reload_undoes_dump_one : ∃ reloaded,
    train oneTag 0 rolledOnce ⟨oneClick, []⟩ = .ok ((.ok (), servingOne), oneDumped) ∧
    reload oneTag servingOne oneDumped = .ok ((.ok (), reloaded), oneDumped) ∧
    reloaded.fields.queryCurrentTrends = servingOne.fields.queryCurrentTrends ∧
    ∀ calls s, Run (TrendsStep oneTag 0) (reloaded, oneDumped.disk) calls s →
      s.1.fields.queryCurrentTrends = servingOne.fields.queryCurrentTrends := by
  have whole (file : File Bytes) (i : Nat) (dists : List CategoryDistribution) :
      ¬ BrokenAt oneTag (.table "" "news-trends.dat") oneDumped file i dists :=
    fun broken => by cases broken.fails.choose_spec
  obtain ⟨same, kept⟩ := @reload_undoes_dump oneTag 0 rolledOnce servingOne _ ⟨oneClick, []⟩ oneDumped oneDumped
    rfl oneShare_exact whole rfl
  exact ⟨_, rfl, rfl, same, kept rfl⟩

/-- The second training cannot open the log. -/
theorem retrain_without_unread_log : ∃ reloaded retrained again last final,
    train oneTag 0 rolledOnce ⟨oneClick, []⟩ = .ok ((.ok (), servingOne), oneDumped) ∧
    reload oneTag servingOne oneDumped = .ok ((.ok (), reloaded), oneDumped) ∧
    train oneTag 0 reloaded ⟨oneDumped.disk, [.fail ⟨.ioError, "open"⟩]⟩ = .ok ((.ok (), retrained), last) ∧
    reload oneTag retrained last = .ok ((.ok (), again), final) ∧
    again.fields.queryCurrentTrends ≠ servingOne.fields.queryCurrentTrends := by
  refine ⟨_, _, _, _, _, rfl, rfl, rfl, rfl, fun same => ?_⟩
  have weight := congrArg (fun answer => answer.2[(7 : Int32)]?) same
  cases weight

end NewsTrends

end ContentBased
