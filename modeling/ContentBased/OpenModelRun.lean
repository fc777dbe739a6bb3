import ContentBased.FailedAction
import ContentBased.OpenModelSteps

namespace ContentBased
open RecordDisk PeriodicLog

section Opening
variable {υ ι : Type} {opts : ModelOptions} {ctime : Int} {disk : Files}

theorem Model.ends_loadCategory {ν : Type} (model : Model υ ι ν) (name : String) :
    Ends (loadCategory model name) disk fun result after =>
      (result.2.newsTrends = model.newsTrends ∧ result.2.userInterests = model.userInterests) ∧ after = disk := by
  have opens : Ends (openReader noSuchFile (.plain name) : Program _) disk fun _ after => after = disk :=
    .openReader (fun _ => rfl) fun _ _ => rfl
  refine opens.bind fun result middle same => ?_
  subst same
  cases result with
  | error => exact .pure ⟨⟨rfl, rfl⟩, rfl⟩
  | ok records =>
    let kept (model' : Model υ ι ν) := model'.newsTrends = model.newsTrends ∧ model'.userInterests = model.userInterests
    have start : kept model := ⟨rfl, rfl⟩
    exact Ends.readLoop (fun _ _ before => before) _ start

/-- The first `reload` sets the two logs up in a directory where they have no files. -/
theorem Model.ends_initModel (loads : TableLoads υ ι) (format : ItemTagFormat)
    (differ : opts.newsTrendsLogPrefix ≠ opts.userInterestsLogPrefix) {model : Model υ ι Trends}
    (newsTrends : model.newsTrends = NewsTrends.new opts)
    (userInterests : model.userInterests = UserInterests.new opts ctime)
    (news : ∀ name, name ∈ files opts.workPath opts.newsTrendsLogPrefix → disk name = none)
    (interests : ∀ name, name ∈ files opts.workPath opts.userInterestsLogPrefix → disk name = none) :
    Ends (initModel loads format model) disk fun result after => result.1 = .ok () →
      OpenModel.Tells opts ⟨result.2, true, after⟩ (.start opts ctime) := by
  unfold initModel
  rcases loads.loadUserTable model.userDb with ⟨_ | _, userDb⟩
  · exact .pure nofun
  · dsimp only
    rcases loads.loadItemTable model.itemDb with ⟨_ | _, itemDb⟩
    · exact .pure nofun
    · refine (Model.ends_loadCategory _ _).bind ?_
      rintro ⟨status, loaded⟩ middle ⟨⟨sameNews, sameInterests⟩, rfl⟩
      cases status with
      | error => exact .pure nofun
      | ok =>
        dsimp only at sameNews sameInterests ⊢
        rw [sameNews, sameInterests, newsTrends, userInterests]
        refine (Recorded.ends_init (Trends.virtual format) _ _ _ _ _ news).bind ?_
        rintro ⟨status, opened⟩ middle ⟨⟨ok, rec_, same⟩, frame⟩
        obtain rfl : status = .ok () := ok
        have fresh : ∀ name, name ∈ files opts.workPath opts.userInterestsLogPrefix → middle name = none :=
          fun name inside => (frame name fun inside' => files_disjoint differ inside' inside).trans (interests name inside)
        refine (Tracks.ends_init opts ctime fresh).bind ?_
        rintro ⟨status, table⟩ last ⟨⟨ok, tracks, -⟩, frame'⟩
        obtain rfl : status = .ok () := ok
        have rec_' := rec_.framed fun name inside => frame' name (files_disjoint differ inside)
        have options : opened.fields.options = opts := by rw [show opened = _ from same]; rfl
        let kept (fields : Trends) := fields.options = opts
        have before (fields : Trends) (start : kept fields) : kept ((Trends.virtual format).reloadBefore fields).2 := start
        have loading (dist : CategoryDistribution) (fields : Trends) (start : kept fields) :
            kept ((Trends.virtual format).loadDistribution dist fields).2 := start
        have completed (fields : Trends) (start : kept fields) :
            kept ((Trends.virtual format).reloadCompleted fields).2 := start
        refine (DistTable.ends_reload format before loading completed opened options).bind ?_
        rintro ⟨status, reloaded⟩ after ⟨same', options', rfl⟩
        refine .pure fun _ => ⟨tracks, ?_, ?_, options', rfl⟩
        · rw [show reloaded = _ from same']
          exact rec_'
        · rw [show reloaded = _ from same', show opened = _ from same]
          rfl

theorem Model.opened_tells {loads : TableLoads υ ι} {format : ItemTagFormat}
    (differ : opts.newsTrendsLogPrefix ≠ opts.userInterestsLogPrefix) {locked : Status} {userDb : υ} {itemDb : ι}
    {isInitModel : Bool} {model : Model υ ι Trends} {disk' : Files}
    (news : ∀ name, name ∈ files opts.workPath opts.newsTrendsLogPrefix → disk name = none)
    (interests : ∀ name, name ∈ files opts.workPath opts.userInterestsLogPrefix → disk name = none)
    (opened : Completes (openModel loads format locked opts ctime userDb itemDb) disk (.ok (), isInitModel, model) disk') :
    OpenModel.Tells opts ⟨model, isInitModel, disk'⟩ (.start opts ctime) := by
  have ends : Ends (openModel loads format locked opts ctime userDb itemDb) disk fun result after => result.1 = .ok () →
      OpenModel.Tells opts ⟨result.2.2, result.2.1, after⟩ (.start opts ctime) := by
    cases locked with
    | error => exact .pure nofun
    | ok =>
      have sets : Ends (initModel loads format (new opts ctime userDb itemDb)) disk _ :=
        ends_initModel loads format differ rfl rfl news interests
      refine sets.bind ?_
      rintro ⟨status, model⟩ middle tells
      cases status with
      | error => exact .pure nofun
      | ok =>
        obtain ⟨tracks, trends, window, options, set⟩ := tells rfl
        refine (tracks.ends_reload format).bind ?_
        rintro ⟨status, userInterests⟩ after ⟨kept, rfl⟩
        exact .pure fun _ => ⟨kept, trends, window, options, rfl⟩
  exact ends.of_completes opened rfl

/-- A directory with the category table and the two tables, none of which has an entry. -/
def emptyTables (opts : ModelOptions) : Files := fun name =>
  if name = .plain opts.categoryTableName ∨ name = .table opts.workPath opts.newsTrendsTableName ∨
      name = .table opts.workPath opts.userInterestsTableName then some (.synced []) else none

theorem emptyTables_files (opts : ModelOptions) {path prefix_ : String} {name : FileName}
    (inside : name ∈ files path prefix_) : emptyTables opts name = none := by
  rcases inside with rfl | rfl | ⟨n, rfl⟩ <;> exact if_neg (by simp)

theorem DistTable.reload_empty {σ : Type} {virtual : Virtual σ} {table : DistTable σ} {cleared : σ} (format : ItemTagFormat)
    (before : virtual.reloadBefore table.fields = (.ok (), cleared))
    (present : disk (.table table.workPath table.tableName) = some (.synced [])) :
    Completes (DistTable.reload format virtual table) disk ((virtual.reloadCompleted cleared).1,
      { table with fields := (virtual.reloadCompleted cleared).2 }) disk :=
  have parses : DistTable.Parses format (DistTable.records (.synced [])) [] := rfl
  DistTable.reload_completes before present parses

/-- The model can be opened there. -/
theorem Model.openModel_emptyTables (loads : TableLoads υ ι) (format : ItemTagFormat)
    (differ : opts.newsTrendsLogPrefix ≠ opts.userInterestsLogPrefix) {userDb userDb' : υ} {itemDb itemDb' : ι}
    (usersLoad : loads.loadUserTable userDb = (.ok (), userDb'))
    (itemsLoad : loads.loadItemTable itemDb = (.ok (), itemDb')) :
    ∃ model after, Completes (openModel loads format (.ok ()) opts ctime userDb itemDb) (emptyTables opts)
      (.ok (), true, model) after ∧ model.userDb = userDb' ∧ model.itemDb = itemDb' := by
  obtain ⟨⟨status, opened⟩, middle, opens, ⟨ok, -, same⟩, frame⟩ := Recorded.ends_init (Trends.virtual format) opts.workPath
    opts.newsTrendsLogPrefix opts.newsTrendsTableName opts.newsTrendsTimeWindow (NewsTrends.new opts).fields
    fun _ => emptyTables_files opts
  obtain rfl : status = .ok () := ok
  have fresh : ∀ name, name ∈ files opts.workPath opts.userInterestsLogPrefix → middle name = none := fun name inside =>
    (frame name fun inside' => files_disjoint differ inside' inside).trans (emptyTables_files opts inside)
  obtain ⟨⟨status, table⟩, last, inits, ⟨ok, -, path, name⟩, frame'⟩ := Tracks.ends_init opts ctime fresh
  obtain rfl : status = .ok () := ok
  have tables (name : String) (listed : emptyTables opts (.table opts.workPath name) = some (.synced [])) :
      last (.table opts.workPath name) = some (.synced []) := by
    rw [frame' _ (by rintro (other | other | ⟨n, other⟩) <;> cases other),
      frame _ (by rintro (other | other | ⟨n, other⟩) <;> cases other), listed]
  have category : emptyTables opts (.plain opts.categoryTableName) = some (.synced []) := if_pos (Or.inl rfl)
  have news : last (.table opened.workPath opened.tableName) = some (.synced []) := by
    rw [show opened = _ from same]
    exact tables _ (if_pos (Or.inr (Or.inl rfl)))
  have interests : last (.table table.workPath table.tableName) = some (.synced []) := by
    rw [show table.workPath = _ from path, show table.tableName = _ from name]
    exact tables _ (if_pos (Or.inr (Or.inr rfl)))
  have initialized : ∃ model, Completes (initModel loads format (new opts ctime userDb itemDb)) (emptyTables opts)
      (.ok (), model) last ∧ model.userDb = userDb' ∧ model.itemDb = itemDb' ∧ model.userInterests = table := by
    unfold initModel
    rw [show (new opts ctime userDb itemDb).userDb = userDb from rfl, usersLoad,
      show (new opts ctime userDb itemDb).itemDb = itemDb from rfl, itemsLoad]
    exact ⟨_, .bind (loadCategory_completes _ category) (.bind opens (.bind inits
      (.bind (DistTable.reload_empty format rfl news) (.pure _ _)))), rfl, rfl, rfl⟩
  obtain ⟨model, initialized, sameUsers, sameItems, rfl⟩ := initialized
  exact ⟨_, _, .bind initialized (.bind (DistTable.reload_empty format rfl interests) (.pure _ _)), sameUsers, sameItems⟩

end Opening

/-- The runs of one process that opens the model in a directory where the two logs have no files. -/
inductive OpenReach {υ ι : Type} (users : UserDB υ) (items : ItemDB ι) (loads : TableLoads υ ι) (format : ItemTagFormat)
    (opts : ModelOptions) (ctime : Int) : List (OpenModel υ ι × OpenCall) → OpenModel υ ι → Prop
  | run {locked userDb itemDb model isInitModel disk disk' taken service} :
      (∀ name, name ∈ files opts.workPath opts.newsTrendsLogPrefix → disk name = none) →
      (∀ name, name ∈ files opts.workPath opts.userInterestsLogPrefix → disk name = none) →
      Completes (Model.openModel loads format locked opts ctime userDb itemDb) disk (.ok (), isInitModel, model) disk' →
      Run.Traced (OpenStep users items loads format) ⟨model, isInitModel, disk'⟩ taken service →
      OpenReach users items loads format opts ctime taken service

section Run
variable {υ ι : Type} {users : UserDB υ} {items : ItemDB ι} {loads : TableLoads υ ι} {format : ItemTagFormat}
variable {opts : ModelOptions} {ctime : Int} {service start : OpenModel υ ι} {h : History}
variable {taken before after : List (OpenModel υ ι × OpenCall)}

theorem OpenModel.Tells.run (differ : opts.newsTrendsLogPrefix ≠ opts.userInterestsLogPrefix) (tells : Tells opts start h)
    (run : Run.Traced (OpenStep users items loads format) start taken service) :
    Tells opts service ((interestsCalls users items taken).foldl (History.step opts) h) := by
  induction run with
  | start => exact tells
  | @next taken state pair _ _ step ih =>
    obtain ⟨rfl, step⟩ := step
    rw [interestsCalls, List.flatMap_append, List.foldl_append, List.flatMap_singleton]
    exact (ih.step differ step).1

/-- Without a training the news trends stay as they are. -/
theorem OpenModel.Tells.keeps_trends (differ : opts.newsTrendsLogPrefix ≠ opts.userInterestsLogPrefix)
    (tells : Tells opts start h) (run : Run.Traced (OpenStep users items loads format) start taken service)
    (noTrain : ∀ pair ∈ taken, ∀ now now', pair.2 ≠ .train now now') :
    service.model.newsTrends.fields = start.model.newsTrends.fields := by
  induction run with
  | start => rfl
  | @next taken state pair _ previous step ih =>
    obtain ⟨rfl, step⟩ := step
    have others := ih fun other member => noTrain other (List.mem_append_left _ member)
    have this := noTrain pair (List.mem_append_right _ (List.mem_singleton_self _))
    have kept := ((tells.run differ previous).step differ step).2.1
    cases called : pair.2 with
    | train now now' => exact absurd called (this now now')
    | action | item | flush | reload | rollover =>
      rw [called] at kept
      exact kept.trans others

theorem OpenReach.next {call : OpenCall} {next : OpenModel υ ι}
    (reach : OpenReach users items loads format opts ctime taken service)
    (step : OpenStep users items loads format service call next) :
    OpenReach users items loads format opts ctime (taken ++ [(service, call)]) next := by
  obtain ⟨news, interests, opened, run⟩ := reach
  exact .run news interests opened (run.next ⟨rfl, step⟩)

theorem OpenReach.tells (differ : opts.newsTrendsLogPrefix ≠ opts.userInterestsLogPrefix)
    (reach : OpenReach users items loads format opts ctime taken service) :
    OpenModel.Tells opts service (.run opts ctime (interestsCalls users items taken)) := by
  obtain ⟨news, interests, opened, run⟩ := reach
  exact (Model.opened_tells differ news interests opened).run differ run

/-- What the news trends serve is the histogram of the last training: of the recent ones among the clicks that the actions
before it had added to the logs which were rolled last. -/
theorem trends_of_last_training (differ : opts.newsTrendsLogPrefix ≠ opts.userInterestsLogPrefix) {now now' : Int}
    {trained : OpenModel υ ι}
    (reach : OpenReach users items loads format opts ctime (before ++ (trained, .train now now') :: after) service)
    (noTrain : ∀ pair ∈ after, ∀ now now', pair.2 ≠ .train now now') :
    service.model.newsTrends.fields.mapDist.Shares
      (recentCategories (windowStart now opts.newsTrendsTimeWindow)
        ((History.run opts ctime (interestsCalls users items before)).recentClicks opts.newsTrendsTimeWindow)) := by
  obtain ⟨news, interests, opened, run⟩ := reach
  obtain ⟨state, first, rest⟩ := run.split
  obtain ⟨state', step, last⟩ := Run.split (show Run _ state ([(trained, .train now now')] ++ after) service from rest)
  obtain ⟨rfl, step⟩ := Run.of_single step
  have tells := (Model.opened_tells differ news interests opened).run differ first
  obtain ⟨kept, shares, -⟩ := tells.step differ step
  rw [kept.keeps_trends differ last noTrain]
  exact shares

end Run

def loadsAll : TableLoads (List (UInt64 × UInt64)) Unit :=
  ⟨fun pairs => (.ok (), pairs), fun items => (.ok (), items)⟩

def hereOptions : ModelOptions := { workPath := "." }

theorem here_differ : hereOptions.newsTrendsLogPrefix ≠ hereOptions.userInterestsLogPrefix := by decide

def onlyClick : LogEvent := .click ⟨7, 3, 90000⟩

/-- A click is added, and the logs are rolled. -/
theorem clicked_and_rolled : ∃ taken service,
    OpenReach readPairs oneItem loadsAll DistTable.noTags hereOptions 100000 taken service ∧
      interestsCalls readPairs oneItem taken = [.add onlyClick, .rollover] := by
  have opens : ∃ model after, Completes (Model.openModel loadsAll DistTable.noTags (.ok ()) hereOptions 100000 [] ())
      (emptyTables hereOptions) (.ok (), true, model) after ∧ model.userDb = [] ∧ model.itemDb = () :=
    Model.openModel_emptyTables loadsAll DistTable.noTags here_differ rfl rfl
  obtain ⟨model, disk, opened, userDb, -⟩ := opens
  have news : ∀ name, name ∈ files hereOptions.workPath hereOptions.newsTrendsLogPrefix →
    emptyTables hereOptions name = none := fun _ => emptyTables_files _
  have interests : ∀ name, name ∈ files hereOptions.workPath hereOptions.userInterestsLogPrefix →
    emptyTables hereOptions name = none := fun _ => emptyTables_files _
  have tells := Model.opened_tells here_differ news interests opened
  have updates : Ends (Model.updateAction readPairs oneItem model ⟨7, 5, .click, 90000⟩) disk _ :=
    tells.ends_updateAction here_differ _
  obtain ⟨⟨status, model'⟩, disk', adds, tells', -⟩ := updates
  have events : actionEvents readPairs oneItem model ⟨7, 5, .click, 90000⟩ = [onlyClick] := by
    rw [actionEvents, userDb]
    rfl
  obtain ⟨⟨status', model''⟩, disk'', rolls, -, -⟩ := tells'.ends_rollover here_differ (by
    rw [events]
    decide)
  have run : Run.Traced (OpenStep readPairs oneItem loadsAll DistTable.noTags) ⟨model, true, disk⟩
      [(⟨model, true, disk⟩, .action ⟨7, 5, .click, 90000⟩), (⟨model', true, disk'⟩, .rollover)] ⟨model'', true, disk''⟩ :=
    .cons ⟨rfl, .action adds⟩ (.cons ⟨rfl, .rollover rolls⟩ .start)
  refine ⟨_, _, .run news interests opened run, ?_⟩
  rw [interestsCalls, List.flatMap_cons, List.flatMap_singleton, OpenCall.interestsCalls, events]
  rfl

theorem recentClicks_onlyClick :
    (History.run hereOptions 100000 [.add onlyClick, .rollover]).recentClicks hereOptions.newsTrendsTimeWindow =
      {⟨7, 3, 90000⟩} := by
  decide +kernel

theorem recentCategories_onlyClick :
    recentCategories (windowStart 100000 hereOptions.newsTrendsTimeWindow) {⟨7, 3, 90000⟩} = {3} := by
  decide +kernel

theorem click_is_the_trend : ∃ service : OpenModel (List (UInt64 × UInt64)) Unit,
    service.model.newsTrends.fields.mapDist.Shares {3} := by
  obtain ⟨taken, service, reach, calls⟩ := clicked_and_rolled
  obtain ⟨⟨status, model⟩, disk, trains, -⟩ :=
    OpenModel.Tells.ends_train DistTable.noTags (reach.tells here_differ) 100000 100000
  have reach' := reach.next (.train trains)
  have trained := trends_of_last_training here_differ reach' fun pair none_ => absurd none_ List.not_mem_nil
  rw [calls, recentClicks_onlyClick, recentCategories_onlyClick] at trained
  exact ⟨_, trained⟩

end ContentBased
