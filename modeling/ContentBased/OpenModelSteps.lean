import ContentBased.OpenModel
import ContentBased.TableFiles
import ContentBased.TrendsTraining

namespace ContentBased
open RecordDisk PeriodicLog

section Recorded
variable {σ : Type} {path prefix_ : String} {log : PeriodicLog} {disk disk' : Files} {s : Segments LogEvent}

/-- What a log holds depends on its own files only. -/
theorem Recorded.framed (rec_ : Recorded path prefix_ log disk s)
    (same : ∀ name, name ∈ files path prefix_ → disk' name = disk name) : Recorded path prefix_ log disk' s := by
  obtain ⟨opened, header, headers, noRecovery, writing, rolled⟩ := rec_
  refine ⟨opened, header, headers, ?_, ?_, fun n => ?_⟩
  · exact (same _ (recovering_mem _ _)).trans noRecovery
  · exact (same _ (writing_mem _ _)).trans writing
  · exact (same _ (log_mem _ _ n)).trans (rolled n)

variable {table : DistTable σ}

theorem Recorded.ends_add (rec_ : Recorded path prefix_ table.periodicLog disk s) (event : LogEvent) :
    Ends (table.add event) disk fun status after => (status = .ok () ∧
      Recorded path prefix_ table.periodicLog after (s.add event)) ∧
        ∀ name, name ∉ files path prefix_ → after name = disk name := by
  obtain ⟨after, run, kept⟩ := table.add_completes rec_ event
  obtain ⟨named, rfl, rfl⟩ := Represents.named rec_
  refine Ends.framed ⟨_, after, run, rfl, kept⟩ ?_
  rw [DistTable.add_eq_write]
  exact touches_write named event.record

theorem Recorded.ends_rollover (rec_ : Recorded path prefix_ table.periodicLog disk s)
    (room : s.rolled.length < 2 ^ 31 - 1) :
    Ends table.rollover disk fun result after => (result.1 = .ok () ∧
      Recorded path prefix_ result.2.periodicLog after s.roll ∧
        result.2 = { table with periodicLog := result.2.periodicLog }) ∧
        ∀ name, name ∉ files path prefix_ → after name = disk name := by
  obtain ⟨log, after, run, kept⟩ := table.rollover_completes rec_ room
  obtain ⟨named, rfl, rfl⟩ := Represents.named rec_
  exact Ends.framed ⟨_, after, run, rfl, kept, rfl⟩ ((touches_rollover named).bind fun _ => .pure _)

/-- A log that is opened where it has no files. -/
theorem Recorded.ends_init (virtual : Virtual σ) (path prefix_ tableName : String) (window : Int) (fields : σ)
    (none_ : ∀ name, name ∈ files path prefix_ → disk name = none) :
    Ends ((DistTable.new path prefix_ tableName window fields).init virtual) disk fun result after => (result.1 = .ok () ∧
      Recorded path prefix_ result.2.periodicLog after .empty ∧
        result.2 = { DistTable.new path prefix_ tableName window fields with periodicLog := result.2.periodicLog }) ∧
        ∀ name, name ∉ files path prefix_ → after name = disk name := by
  have named := PeriodicLog.new_named path prefix_
  have run := PeriodicLog.openLog_fresh named 0 (some (DistTable.visit virtual)) fields (none_ _ (recovering_mem _ _))
    (none_ _ (writing_mem _ _))
  refine Ends.framed ⟨_, _, .bind run (.pure _ _), rfl, ⟨⟨0, rfl, rfl⟩, ⟨0, rfl⟩, ?_, ?_, ?_, fun n => ?_⟩, rfl⟩
    ((touches_openLog named 0 _ _).bind fun _ => .pure _)
  · simp [Journal.ofSegments, Segments.empty, Segments.map]
  · simp [PeriodicLog.new, none_ _ (recovering_mem path prefix_)]
  · simp [PeriodicLog.new, Journal.ofSegments, Segments.empty, Segments.map]
  · simp [PeriodicLog.new, Journal.ofSegments, Segments.empty, Segments.map, none_ _ (log_mem path prefix_ n)]

/-- What the functions of a reload keep. -/
theorem DistTable.ends_reload {virtual : Virtual σ} {kept : σ → Prop} (format : ItemTagFormat)
    (before : ∀ fields, kept fields → kept (virtual.reloadBefore fields).2)
    (loading : ∀ dist fields, kept fields → kept (virtual.loadDistribution dist fields).2)
    (completed : ∀ fields, kept fields → kept (virtual.reloadCompleted fields).2) (table : DistTable σ)
    (start : kept table.fields) : Ends (DistTable.reload format virtual table) disk fun result after =>
      result.2 = { table with fields := result.2.fields } ∧ kept result.2.fields ∧ after = disk := by
  have opens (name : FileName) : Ends (openReader noSuchFile name : Program _) disk fun _ after => after = disk :=
    .openReader (fun _ => rfl) fun _ _ => rfl
  have loads (fields : σ) (data : Bytes) (start : kept fields) :
      kept (DistTable.loadRecord format virtual fields data).2 := by
    unfold DistTable.loadRecord
    split
    · exact start
    · exact loading _ _ start
  have start' := before table.fields start
  unfold DistTable.reload
  rcases cleared : virtual.reloadBefore table.fields with ⟨_ | _, fields⟩
  · rw [cleared] at start'
    exact .pure ⟨rfl, start', rfl⟩
  · rw [cleared] at start'
    refine (opens _).bind fun result middle same => ?_
    subst same
    cases result with
    | error => exact .pure ⟨rfl, start', rfl⟩
    | ok records =>
      refine (Ends.readLoop loads records start').bind fun result middle ⟨kept', same⟩ => ?_
      subst same
      obtain ⟨status, fields⟩ := result
      cases status with
      | error => exact .pure ⟨rfl, kept', rfl⟩
      | ok => exact .pure ⟨rfl, completed fields kept', rfl⟩

end Recorded

/-- No file of any log changes. -/
def LogsKept (disk after : Files) : Prop :=
  ∀ path prefix_ name, name ∈ files path prefix_ → after name = disk name

/-- So it is when only two other files are written. -/
theorem LogsKept.of_touches {α : Type} {first second : FileName} {program : Program α} {disk after : Files} {value : α}
    (touches : Touches {first, second} program) (run : Completes program disk value after)
    (apart : ∀ path prefix_, first ∉ files path prefix_ ∧ second ∉ files path prefix_) : LogsKept disk after := by
  intro path prefix_ name inside
  refine touches.completes run ?_
  rintro (rfl | rfl)
  · exact (apart path prefix_).1 inside
  · exact (apart path prefix_).2 inside

section Tracks
variable {opts : ModelOptions} {table : UserInterests} {disk disk' : Files} {h : History}

theorem Tracks.framed (tracks : Tracks opts (table, disk) h)
    (same : ∀ name, name ∈ files opts.workPath opts.userInterestsLogPrefix → disk' name = disk name) :
    Tracks opts (table, disk') h :=
  ⟨tracks.size, tracks.recorded.framed same, tracks.counted⟩

theorem Tracks.ends_add (tracks : Tracks opts (table, disk) h) (event : LogEvent) :
    Ends (table.add event) disk fun result after => (result.1 = .ok () ∧
      Tracks opts (result.2, after) (h.step opts (.add event))) ∧
        ∀ name, name ∉ files opts.workPath opts.userInterestsLogPrefix → after name = disk name := by
  obtain ⟨after, run, -⟩ := table.add_completes tracks.recorded event
  have kept := tracks.of_taken (.add run)
  obtain ⟨named, path, prefix_⟩ := Represents.named tracks.recorded
  refine Ends.framed ⟨_, after, run, rfl, kept⟩ ?_
  rw [← path, ← prefix_]
  have writes (fields : Interests) (event : LogEvent) :
      Touches (files table.periodicLog.path table.periodicLog.prefix_) (DistTable.add { table with fields } event) := by
    rw [DistTable.add_eq_write]
    exact touches_write named event.record
  cases event with
  | click message => exact (writes _ (.click message)).bind fun _ => .pure _
  | item message => exact (writes _ (.item message)).bind fun _ => .pure _

theorem Tracks.ends_rollover (tracks : Tracks opts (table, disk) h) (room : h.events.rolled.length < 2 ^ 31 - 1) :
    Ends table.rollover disk fun result after => Tracks opts (result.2, after) (h.step opts .rollover) ∧
      ∀ name, name ∉ files opts.workPath opts.userInterestsLogPrefix → after name = disk name := by
  refine (tracks.recorded.ends_rollover room).mono ?_
  rintro ⟨status, rolled⟩ after ⟨⟨-, kept, same⟩, frame⟩
  refine ⟨⟨?_, ?_, ?_⟩, frame⟩
  · rw [same]
    exact tracks.size
  · simpa using kept
  · rw [same]
    simpa [History.step] using tracks.counted

theorem Tracks.ends_eliminate (tracks : Tracks opts (table, disk) h) (now : Int) :
    Ends (table.eliminate now) disk fun result after => Tracks opts (result.2, disk) (h.step opts (.eliminate now)) ∧
      after = disk := by
  have run := table.eliminate_completes tracks.size tracks.counted.options now disk
  have kept := tracks.of_taken (.eliminate run)
  exact ⟨_, _, run, kept, rfl⟩

/-- The interests in a directory where their log has no files. -/
theorem Tracks.ends_init (opts : ModelOptions) (ctime : Int)
    (none_ : ∀ name, name ∈ files opts.workPath opts.userInterestsLogPrefix → disk name = none) :
    Ends (UserInterests.new opts ctime).init disk fun result after => (result.1 = .ok () ∧
      Tracks opts (result.2, after) (.start opts ctime) ∧ result.2.workPath = opts.workPath ∧
        result.2.tableName = opts.userInterestsTableName) ∧
        ∀ name, name ∉ files opts.workPath opts.userInterestsLogPrefix → after name = disk name := by
  obtain ⟨⟨status, opened⟩, after, run, ⟨ok, rec_, same⟩, frame⟩ := Recorded.ends_init Interests.virtual opts.workPath
    opts.userInterestsLogPrefix opts.userInterestsTableName opts.userInterestsTimeWindow
    (UserInterests.new opts ctime).fields none_
  obtain rfl : status = .ok () := ok
  have logs : RolledLogs opened.periodicLog.path opened.periodicLog.prefix_ after [] := by
    intro n events present
    cases present
  have trained := UserInterests.train_completes opened logs rec_.lastCounter le_rfl
  rw [List.take_nil, List.reverse_nil, List.take_nil, List.flatten_nil] at trained
  have whole : opened = _ := same
  refine ⟨_, after, .bind run trained, ⟨rfl, ⟨?_, rec_, ?_⟩, ?_, ?_⟩, frame⟩
  · rw [whole]
    rfl
  · rw [whole]
    exact ⟨rfl, rfl, .empty, .empty⟩
  · rw [whole]
    rfl
  · rw [whole]
    rfl

/-- Loading the distributions of the users leaves the current counts alone. -/
theorem Tracks.ends_reload (format : ItemTagFormat) (tracks : Tracks opts (table, disk) h) :
    Ends (UserInterests.reload format table) disk fun result after => Tracks opts (result.2, disk) h ∧ after = disk := by
  let kept (fields : Interests) := fields.Counted opts h.day (ContentBased.counted h.entries.all)
  have before (fields : Interests) (start : kept fields) : kept (Interests.virtual.reloadBefore fields).2 :=
    ⟨start.options, start.currentDay, start.dist, start.users⟩
  have loading (dist : CategoryDistribution) (fields : Interests) (start : kept fields) :
      kept (Interests.virtual.loadDistribution dist fields).2 :=
    ⟨start.options, start.currentDay, start.dist, start.users⟩
  have completed (fields : Interests) (start : kept fields) : kept (Interests.virtual.reloadCompleted fields).2 :=
    ⟨start.options, start.currentDay, start.dist, start.users⟩
  refine (DistTable.ends_reload format before loading completed table tracks.counted).mono ?_
  rintro ⟨status, reloaded⟩ after ⟨same, kept', rfl⟩
  obtain ⟨size, rec_, -⟩ := tracks
  refine ⟨⟨?_, ?_, kept'⟩, rfl⟩
  · rw [show reloaded = _ from same]
    exact size
  · rw [show reloaded = _ from same]
    exact rec_

end Tracks

def LogEvent.isClick : LogEvent → Bool
  | .click _ => true
  | .item _ => false

/-- The clicks of the logs that were rolled last, as many logs as the window is long. -/
def History.recentClicks (h : History) (window : Int) : Multiset CategoryClick :=
  ((h.events.newest window.toNat).flatten.filterMap LogEvent.asClick : List CategoryClick)

/-- The two logs of the model tell of the same clicks, cut at the same places, and the counts are those of the history. -/
structure OpenModel.Tells {υ ι : Type} (opts : ModelOptions) (service : OpenModel υ ι) (h : History) : Prop where
  interests : Tracks opts (service.model.userInterests, service.disk) h
  trends : Recorded opts.workPath opts.newsTrendsLogPrefix service.model.newsTrends.periodicLog service.disk
    (h.events.filter LogEvent.isClick)
  window : service.model.newsTrends.timeWindowSize = opts.newsTrendsTimeWindow
  options : service.model.newsTrends.fields.options = opts
  isInitModel : service.isInitModel = true

namespace OpenModel.Tells
variable {υ ι : Type} {opts : ModelOptions} {model : Model υ ι Trends} {isInitModel : Bool} {disk : Files} {h : History}
variable {users : UserDB υ} {items : ItemDB ι}

theorem clicks_add_click (click : CategoryClick) : (h.step opts (.add (.click click))).events.filter LogEvent.isClick =
    (h.events.filter LogEvent.isClick).add (.click click) := by
  rw [History.events_add, Segments.filter_add]
  exact if_pos rfl

theorem clicks_add_item (item : CategoryItem) : (h.step opts (.add (.item item))).events.filter LogEvent.isClick =
    h.events.filter LogEvent.isClick := by
  rw [History.events_add, Segments.filter_add]
  exact if_neg Bool.false_ne_true

theorem ends_addClick (differ : opts.newsTrendsLogPrefix ≠ opts.userInterestsLogPrefix)
    (tells : Tells opts ⟨model, isInitModel, disk⟩ h) (click : CategoryClick) :
    Ends (model.newsTrends.addClick click) disk fun status middle => status = .ok () ∧
      Ends (UserInterests.addClick model.userInterests click) middle fun result after => result.1 = .ok () ∧
        Tells opts ⟨{ model with userInterests := result.2 }, isInitModel, after⟩ (h.step opts (.add (.click click))) := by
  obtain ⟨interests, trends, window, options, set⟩ := tells
  refine (trends.ends_add (.click click)).mono ?_
  rintro status middle ⟨⟨rfl, written⟩, frame⟩
  refine ⟨rfl, ?_⟩
  have interests' : Tracks opts (model.userInterests, middle) h :=
    interests.framed fun name inside => frame name fun inside' => files_disjoint differ inside' inside
  refine (interests'.ends_add (.click click)).mono ?_
  rintro ⟨status, table⟩ after ⟨⟨same, kept⟩, frame'⟩
  refine ⟨same, kept, ?_, window, options, set⟩
  have written' := written.framed fun name inside => frame' name (files_disjoint differ inside)
  rw [clicks_add_click]
  exact written'

/-- The loop over the keys of an item adds the clicks to both logs. -/
theorem ends_addClicks (differ : opts.newsTrendsLogPrefix ≠ opts.userInterestsLogPrefix) (keys : List Int)
    {click : CategoryClick} (tells : Tells opts ⟨model, isInitModel, disk⟩ h) :
    Ends (Model.addClicks items click keys model) disk fun result after =>
      Tells opts ⟨result.2, isInitModel, after⟩ (((clicksOf items click keys).map .add).foldl (History.step opts) h) ∧
        result.2.newsTrends = model.newsTrends := by
  induction keys generalizing click model disk h with
  | nil => exact .pure ⟨tells, rfl⟩
  | cons key rest ih =>
    rw [Model.addClicks]
    by_cases category : (items.typeId key).type = .category
    · have clicks : clicksOf items click (key :: rest) =
          .click { click with categoryId := (items.typeId key).id } :: clicksOf items click rest := by
        rw [clicksOf, List.filter_cons_of_pos (by simpa using category), List.map_cons, clicksOf]
      rw [if_neg (not_not.mpr category), clicks, List.map_cons, List.foldl_cons]
      refine (tells.ends_addClick differ _).bind ?_
      rintro status middle ⟨rfl, adds⟩
      refine adds.bind ?_
      rintro ⟨status, userInterests⟩ after ⟨same, tells'⟩
      obtain rfl : status = .ok () := same
      exact ih tells'
    · have clicks : clicksOf items click (key :: rest) = clicksOf items click rest := by
        rw [clicksOf, List.filter_cons_of_neg (by simpa using category), clicksOf]
      rw [if_pos category, clicks]
      exact ih tells

theorem ends_updateAction (differ : opts.newsTrendsLogPrefix ≠ opts.userInterestsLogPrefix)
    (tells : Tells opts ⟨model, isInitModel, disk⟩ h) (action : Action) :
    Ends (Model.updateAction users items model action) disk fun result after =>
      Tells opts ⟨result.2, isInitModel, after⟩
        (((actionEvents users items model action).map .add).foldl (History.step opts) h) ∧
        result.2.newsTrends = model.newsTrends := by
  have moved (userDb : υ) : Tells opts ⟨{ model with userDb }, isInitModel, disk⟩ h :=
    ⟨tells.interests, tells.trends, tells.window, tells.options, tells.isInitModel⟩
  unfold Model.updateAction actionEvents
  dsimp only
  split
  · exact .pure ⟨tells, rfl⟩
  · split
    · exact .pure ⟨tells, rfl⟩
    · rcases users.updateAction model.userDb action with ⟨_ | _, userDb⟩
      · exact .pure ⟨moved userDb, rfl⟩
      · dsimp only
        cases items.fetchItemBelongsTo model.itemDb action.itemId with
        | error => exact .pure ⟨moved userDb, rfl⟩
        | ok belongsTo => exact (moved userDb).ends_addClicks differ belongsTo

/-- The loop over the categories of an item adds it to the log of the interests. -/
theorem ends_addItems (differ : opts.newsTrendsLogPrefix ≠ opts.userInterestsLogPrefix) (categories : List Int32)
    {item : CategoryItem} (tells : Tells opts ⟨model, isInitModel, disk⟩ h) :
    Ends (Model.addItems item categories model) disk fun result after =>
      Tells opts ⟨result.2, isInitModel, after⟩ ((categories.map fun categoryId =>
        InterestsCall.add (.item { item with categoryId })).foldl (History.step opts) h) ∧
        result.2.newsTrends = model.newsTrends := by
  induction categories generalizing item model disk h with
  | nil => exact .pure ⟨tells, rfl⟩
  | cons categoryId rest ih =>
    rw [Model.addItems, List.map_cons, List.foldl_cons]
    refine (tells.interests.ends_add (.item { item with categoryId })).bind ?_
    rintro ⟨status, userInterests⟩ after ⟨⟨same, kept⟩, frame⟩
    obtain rfl : status = .ok () := same
    have tells' : Tells opts ⟨{ model with userInterests }, isInitModel, after⟩
        (h.step opts (.add (.item { item with categoryId }))) := by
      refine ⟨kept, ?_, tells.window, tells.options, tells.isInitModel⟩
      rw [clicks_add_item]
      exact tells.trends.framed fun name inside => frame name (files_disjoint differ inside)
    exact ih tells'

theorem ends_updateItem (differ : opts.newsTrendsLogPrefix ≠ opts.userInterestsLogPrefix)
    (tells : Tells opts ⟨model, isInitModel, disk⟩ h) (item : Item) :
    Ends (Model.updateItem items model item) disk fun result after =>
      Tells opts ⟨result.2, isInitModel, after⟩ (((itemEvents items model item).map .add).foldl (History.step opts) h) ∧
        result.2.newsTrends = model.newsTrends := by
  have moved (itemDb : ι) : Tells opts ⟨{ model with itemDb }, isInitModel, disk⟩ h :=
    ⟨tells.interests, tells.trends, tells.window, tells.options, tells.isInitModel⟩
  unfold Model.updateItem itemEvents
  rcases items.addItem model.itemDb item with ⟨_ | _, itemDb⟩
  · exact .pure ⟨moved itemDb, rfl⟩
  · dsimp only
    rw [List.map_map]
    exact (moved itemDb).ends_addItems differ item.category

theorem windowClicks_eq (tells : Tells opts ⟨model, isInitModel, disk⟩ h) :
    model.newsTrends.windowClicks disk = h.recentClicks opts.newsTrendsTimeWindow := by
  obtain ⟨-, trends, window, -, -⟩ := tells
  obtain ⟨-, path, prefix_⟩ := trends.named
  have rolled := trends.rolledLogs
  rw [← path, ← prefix_] at rolled
  have events := DistTable.windowEvents_rolled rolled trends.lastCounter le_rfl
  have newest : ((h.events.filter LogEvent.isClick).newest opts.newsTrendsTimeWindow.toNat).flatten.filterMap
      LogEvent.asClick = (h.events.newest opts.newsTrendsTimeWindow.toNat).flatten.filterMap LogEvent.asClick := by
    rw [Segments.newest_filter, ← List.filter_flatten, List.filterMap_filter]
    refine List.filterMap_congr fun event _ => ?_
    cases event <;> rfl
  rw [← DistTable.coe_windowEvents, events, List.take_length, window]
  exact congrArg Multiset.ofList newest

theorem ends_train (format : ItemTagFormat) (tells : Tells opts ⟨model, isInitModel, disk⟩ h) (now now' : Int) :
    Ends (Model.train format now now' model) disk fun result after =>
      Tells opts ⟨result.2, isInitModel, after⟩ (h.step opts (.eliminate now')) ∧
        result.2.newsTrends.fields.mapDist.Shares (recentCategories (windowStart now opts.newsTrendsTimeWindow)
          (h.recentClicks opts.newsTrendsTimeWindow)) ∧ LogsKept disk after := by
  have clicks := tells.windowClicks_eq
  obtain ⟨interests, trends, window, options, set⟩ := tells
  obtain ⟨trained, last, run, same, options', expired, shares, -⟩ :=
    NewsTrends.train_completes format now model.newsTrends disk
  have frame : LogsKept disk last :=
    .of_touches (NewsTrends.touches_train format now model.newsTrends) run fun _ _ => by simp [files]
  have interests' : Tracks opts (model.userInterests, last) h := interests.framed (frame _ _)
  have eliminates := interests'.ends_eliminate now'
  obtain ⟨⟨status, userInterests⟩, _, eliminated, kept, rfl⟩ := eliminates
  refine ⟨_, _, .bind run (.bind eliminated (.pure _ _)), ⟨kept, ?_, ?_, ?_, set⟩, ?_, frame⟩
  · rw [same]
    exact trends.framed (frame _ _)
  · rw [same]
    exact window
  · exact options'.trans options
  · rw [expired, options, clicks] at shares
    exact shares

theorem ends_rollover (differ : opts.newsTrendsLogPrefix ≠ opts.userInterestsLogPrefix)
    (tells : Tells opts ⟨model, isInitModel, disk⟩ h) (room : h.events.rolled.length < 2 ^ 31 - 1) :
    Ends (Model.rollover model) disk fun result after => Tells opts ⟨result.2, isInitModel, after⟩ (h.step opts .rollover) ∧
      result.2.newsTrends.fields = model.newsTrends.fields := by
  obtain ⟨interests, trends, window, options, set⟩ := tells
  refine (trends.ends_rollover (by simpa using room)).bind ?_
  rintro ⟨status, newsTrends⟩ middle ⟨⟨ok, rolled, same⟩, frame⟩
  obtain rfl : status = .ok () := ok
  have interests' : Tracks opts (model.userInterests, middle) h :=
    interests.framed fun name inside => frame name fun inside' => files_disjoint differ inside' inside
  refine (interests'.ends_rollover room).bind ?_
  rintro ⟨status, userInterests⟩ after ⟨kept, frame'⟩
  refine .pure ⟨⟨kept, ?_, ?_, ?_, set⟩, ?_⟩
  · rw [History.events_rollover, Segments.filter_roll]
    exact rolled.framed fun name inside => frame' name (files_disjoint differ inside)
  · rw [show newsTrends = _ from same]
    exact window
  · rw [show newsTrends = _ from same]
    exact options
  · rw [show newsTrends = _ from same]

theorem ends_reload (loads : TableLoads υ ι) (format : ItemTagFormat) (tells : Tells opts ⟨model, isInitModel, disk⟩ h) :
    Ends (Model.reload loads format isInitModel model) disk fun result after =>
      Tells opts ⟨result.2.2, result.2.1, after⟩ h ∧ result.2.2.newsTrends = model.newsTrends ∧ after = disk := by
  obtain ⟨interests, trends, window, options, set⟩ := tells
  obtain rfl : isInitModel = true := set
  refine (interests.ends_reload format).bind ?_
  rintro ⟨status, userInterests⟩ after ⟨kept, rfl⟩
  exact .pure ⟨⟨kept, trends, window, options, rfl⟩, rfl, rfl⟩

end OpenModel.Tells

section Flush
variable {υ ι ν : Type} {users : UserDB υ} {items : ItemDB ι} {model after : Model υ ι ν}

theorem Model.touches_flushLines {names : Set FileName} {name : FileName} (inside : name ∈ names)
    (entries : List (Int32 × Bytes)) : Touches names (flushLines name entries) := by
  induction entries with
  | nil => exact .pure _
  | cons entry rest ih => exact (Touches.append inside _ false).bind fun _ => ih

/-- Only the category table is written in a flush. -/
theorem Model.touches_flush (users : UserDB υ) (items : ItemDB ι) (model : Model υ ι ν) :
    Touches {.plain (model.categoryTableName ++ ".tmp"), .plain model.categoryTableName} (flush users items model) := by
  unfold flush
  split
  · refine Touches.bind ?_ fun _ => .pure _
    have temporary : FileName.plain (model.categoryTableName ++ ".tmp") ∈
        ({.plain (model.categoryTableName ++ ".tmp"), .plain model.categoryTableName} : Set FileName) := Or.inl rfl
    refine (Touches.create temporary).bind fun result => ?_
    cases result with
    | error => exact .pure _
    | ok =>
      refine (touches_flushLines temporary _).bind fun _ => (Touches.sync temporary).bind fun _ => ?_
      refine (Touches.rename noSuchFile temporary (Or.inr rfl)).bind fun result => ?_
      cases result with
      | error => exact .pure _
      | ok => exact .pure _
  · exact .pure _

theorem Model.flushTables_logs (users : UserDB υ) (items : ItemDB ι) (model : Model υ ι ν) :
    (flushTables users items model).2.2.newsTrends = model.newsTrends ∧
      (flushTables users items model).2.2.userInterests = model.userInterests := by
  unfold flushTables
  rcases eliminated : users.eliminate model.userDb with ⟨_ | _, kept⟩
  · simp only [and_self]
  · rcases saved : users.flushTable kept with ⟨_ | _, stored⟩
    · rcases cleaned : items.eliminate model.itemDb with ⟨_ | _, left⟩ <;> simp only [saved, cleaned, and_self]
    · simp only [saved, and_self]

theorem Model.flush_logs {status : Status} {calls : List (StorageCall × Status)}
    {world world' : World FileName Bytes Failure}
    (run : flush users items model world = .ok ((status, calls, after), world')) :
    after.newsTrends = model.newsTrends ∧ after.userInterests = model.userInterests := by
  unfold flush at run
  split at run
  · obtain ⟨⟨_, written⟩, _, category, rest⟩ := bind_inv run
    have flushed : (status, calls, after) = flushTables users items written := (Prod.mk.inj (Except.ok.inj rest)).1.symm
    have same : written.newsTrends = model.newsTrends ∧ written.userInterests = model.userInterests := by
      obtain ⟨created, _, _, rest⟩ := bind_inv category
      cases created with
      | error => cases rest; exact ⟨rfl, rfl⟩
      | ok =>
        obtain ⟨_, _, _, rest⟩ := bind_inv rest
        obtain ⟨_, _, _, rest⟩ := bind_inv rest
        obtain ⟨renamed, _, _, rest⟩ := bind_inv rest
        cases renamed <;> cases rest <;> exact ⟨rfl, rfl⟩
    have kept := flushTables_logs users items written
    rw [← flushed] at kept
    exact ⟨kept.1.trans same.1, kept.2.trans same.2⟩
  · have flushed : (status, calls, after) = flushTables users items model := (Prod.mk.inj (Except.ok.inj run)).1.symm
    have kept := flushTables_logs users items model
    rwa [← flushed] at kept

end Flush

namespace OpenModel.Tells
variable {υ ι : Type} {users : UserDB υ} {items : ItemDB ι} {loads : TableLoads υ ι} {format : ItemTagFormat}
variable {opts : ModelOptions} {service after : OpenModel υ ι} {call : OpenCall} {h : History}

/-- The news trends are left alone by all calls but a training, which counts the clicks of its window anew. -/
def TrendsStep (opts : ModelOptions) (h : History) (before after : OpenModel υ ι) : OpenCall → Prop
  | .train now _ => after.model.newsTrends.fields.mapDist.Shares
      (recentCategories (windowStart now opts.newsTrendsTimeWindow) (h.recentClicks opts.newsTrendsTimeWindow))
  | _ => after.model.newsTrends.fields = before.model.newsTrends.fields

/-- Only what is added and a rollover change the files of a log. -/
def LogsStep (before after : OpenModel υ ι) : OpenCall → Prop
  | .action _ | .item _ | .rollover => True
  | .flush | .train _ _ | .reload => LogsKept before.disk after.disk

theorem step (differ : opts.newsTrendsLogPrefix ≠ opts.userInterestsLogPrefix) (tells : Tells opts service h)
    (step : OpenStep users items loads format service call after) :
    Tells opts after ((call.interestsCalls users items service).foldl (History.step opts) h) ∧
      TrendsStep opts h service after call ∧ LogsStep service after call := by
  cases step with
  | action run =>
    obtain ⟨kept, same⟩ := (tells.ends_updateAction differ _).of_completes run
    exact ⟨kept, congrArg _ same, trivial⟩
  | item run =>
    obtain ⟨kept, same⟩ := (tells.ends_updateItem differ _).of_completes run
    exact ⟨kept, congrArg _ same, trivial⟩
  | @flush model _ _ disk disk' _ _ run =>
    obtain ⟨news, interests⟩ := Model.flush_logs run
    have frame : LogsKept disk disk' := .of_touches (Model.touches_flush users items model) run fun _ _ => by simp [files]
    refine ⟨⟨?_, ?_, ?_, ?_, tells.isInitModel⟩, congrArg _ news, frame⟩
    · rw [interests]
      exact tells.interests.framed (frame _ _)
    · rw [news]
      exact tells.trends.framed (frame _ _)
    · rw [news]
      exact tells.window
    · rw [news]
      exact tells.options
  | train run => exact (tells.ends_train format _ _).of_completes run
  | reload run =>
    obtain ⟨kept, same, frame⟩ := (tells.ends_reload loads format).of_completes run
    exact ⟨kept, congrArg _ same, fun _ _ name _ => congrFun frame name⟩
  | rollover run =>
    obtain ⟨_, _, rolls, -⟩ := bind_inv run
    have room := DistTable.rollover_room tells.trends rolls
    rw [Segments.length_rolled_filter] at room
    obtain ⟨kept, same⟩ := (tells.ends_rollover differ room).of_completes run
    exact ⟨kept, same, trivial⟩

end OpenModel.Tells

end ContentBased
