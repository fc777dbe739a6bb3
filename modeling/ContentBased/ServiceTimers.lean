import ContentBased.UserInterests
import ContentBased.Library.Run
import ContentBased.Library.Timers

namespace ContentBased

/-- The jobs of `persistent_library`. -/
inductive Job where
  | flush
  | train
  | reload
  | rollover
deriving DecidableEq, Repr

/-- When a timer goes off next after a time: always later. -/
structure Timer where
  next : Int → Int
  later : ∀ time, time < next time

/-- The next time as it is stored. -/
def Timer.stored (timer : Timer) (time : Int) : Int32 := Int32.ofInt (timer.next time)

/-- The members of `ServiceGlue`. Of the model that is served (`content_based_`) only what the jobs report and leave matters
here. -/
structure ServiceGlue (γ : Type) where
  nextFlushTime : Int32
  chronoFlush : Timer
  nextTrainTime : Int32
  chronoTrain : Timer
  nextRolloverTime : Int32
  chronoRollover : Timer
  nextReloadTime : Int32
  chronoReload : Timer
  contentBased : γ

def ModelOptions.timer (options : ModelOptions) : Job → String
  | .flush => options.flushTimer
  | .train => options.trainTimer
  | .reload => options.reloadTimer
  | .rollover => options.rolloverTimer

namespace ServiceGlue
variable {γ : Type}

def nextTime (glue : ServiceGlue γ) : Job → Int32
  | .flush => glue.nextFlushTime
  | .train => glue.nextTrainTime
  | .reload => glue.nextReloadTime
  | .rollover => glue.nextRolloverTime

def chrono (glue : ServiceGlue γ) : Job → Timer
  | .flush => glue.chronoFlush
  | .train => glue.chronoTrain
  | .reload => glue.chronoReload
  | .rollover => glue.chronoRollover

/-- `now job` is what the clock says when the timer of the job is set up. -/
def initModule (parse : String → Except Failure Timer) (options : ModelOptions) (now : Job → Int)
    (contentBased : γ) : Except Failure (ServiceGlue γ) := do
  let chronoFlush ← parse options.flushTimer
  let nextFlushTime := chronoFlush.stored (now .flush)
  let chronoTrain ← parse options.trainTimer
  let nextTrainTime := chronoTrain.stored (now .train)
  let chronoRollover ← parse options.rolloverTimer
  let nextRolloverTime := chronoRollover.stored (now .rollover)
  let chronoReload ← parse options.reloadTimer
  let nextReloadTime := chronoReload.stored (now .reload)
  return ⟨nextFlushTime, chronoFlush, nextTrainTime, chronoTrain, nextRolloverTime, chronoRollover,
    nextReloadTime, chronoReload, contentBased⟩

/-- One block of `persistent_library`: a job whose time has passed is run and its timer is set.
A job that fails ends the process (`LOG(FATAL)`). -/
def runDue (jobs : Job → γ → Status × γ) (job : Job) (nextTime ctime : Int32) (set : ServiceGlue γ → ServiceGlue γ)
    (glue : ServiceGlue γ) : Except Failure (List Job × ServiceGlue γ) :=
  if nextTime < ctime then
    match jobs job glue.contentBased with
    | (.error failure, _) => .error failure
    | (.ok (), contentBased) => .ok ([job], set { glue with contentBased })
  else .ok ([], glue)

/-- The jobs that were run, and the service after them. -/
def persistentLibrary (jobs : Job → γ → Status × γ) (ctime : Int32) (glue : ServiceGlue γ) :
    Except Failure (List Job × ServiceGlue γ) := do
  let (flushed, glue) ← runDue jobs .flush glue.nextFlushTime ctime
    (fun glue => { glue with nextFlushTime := glue.chronoFlush.stored glue.nextFlushTime.toInt }) glue
  let (trained, glue) ← runDue jobs .train glue.nextTrainTime ctime
    (fun glue => { glue with nextTrainTime := glue.chronoTrain.stored glue.nextFlushTime.toInt }) glue
  let (reloaded, glue) ← runDue jobs .reload glue.nextReloadTime ctime
    (fun glue => { glue with nextReloadTime := glue.chronoReload.stored glue.nextReloadTime.toInt }) glue
  let (rolled, glue) ← runDue jobs .rollover glue.nextRolloverTime ctime
    (fun glue => { glue with nextRolloverTime := glue.chronoRollover.stored glue.nextRolloverTime.toInt }) glue
  return (flushed ++ trained ++ reloaded ++ rolled, glue)

/-- What the timer of a job makes of a next time. -/
def timers (glue : ServiceGlue γ) (job : Job) (time : Int32) : Int32 := (glue.chrono job).stored time.toInt

/-- The next flush time as the block of the training finds it. -/
def flushTimeAt (glue : ServiceGlue γ) (ctime : Int32) : Int32 :=
  if glue.nextFlushTime < ctime then glue.chronoFlush.stored glue.nextFlushTime.toInt else glue.nextFlushTime

/-- The two services have the same timers and next times but for this job. -/
def DifferOnly (job : Job) (left right : ServiceGlue γ) : Prop :=
  ∀ other, other ≠ job → left.chrono other = right.chrono other ∧ left.nextTime other = right.nextTime other

theorem initModule_inv {parse : String → Except Failure Timer} {options : ModelOptions} {now : Job → Int}
    {contentBased : γ} {glue : ServiceGlue γ} (init : initModule parse options now contentBased = .ok glue) (job : Job) :
    parse (options.timer job) = .ok (glue.chrono job) ∧ glue.nextTime job = (glue.chrono job).stored (now job) := by
  unfold initModule at init
  cases flush : parse options.flushTimer with
  | error => rw [flush] at init; cases init
  | ok chronoFlush =>
  cases train : parse options.trainTimer with
  | error => rw [flush, train] at init; cases init
  | ok chronoTrain =>
  cases rollover : parse options.rolloverTimer with
  | error => rw [flush, train, rollover] at init; cases init
  | ok chronoRollover =>
  cases reload : parse options.reloadTimer with
  | error => rw [flush, train, rollover, reload] at init; cases init
  | ok chronoReload =>
    rw [flush, train, rollover, reload] at init
    cases init
    cases job with
    | flush => exact ⟨flush, rfl⟩
    | train => exact ⟨train, rfl⟩
    | reload => exact ⟨reload, rfl⟩
    | rollover => exact ⟨rollover, rfl⟩

/-- Services set up at the same time with one timer different differ in that timer only. -/
theorem initModule_differOnly {parse : String → Except Failure Timer} {job : Job} {left right : ModelOptions}
    (others : ∀ other, other ≠ job → left.timer other = right.timer other) {now : Job → Int}
    {leftContent rightContent : γ} {leftGlue rightGlue : ServiceGlue γ}
    (leftInit : initModule parse left now leftContent = .ok leftGlue)
    (rightInit : initModule parse right now rightContent = .ok rightGlue) : DifferOnly job leftGlue rightGlue := by
  intro other distinct
  obtain ⟨leftParsed, leftTime⟩ := initModule_inv leftInit other
  obtain ⟨rightParsed, rightTime⟩ := initModule_inv rightInit other
  rw [others other distinct, rightParsed] at leftParsed
  have same := Except.ok.inj leftParsed
  exact ⟨same.symm, by rw [leftTime, rightTime, same]⟩

theorem runDue_inv (job : Job) (value : Int32) {jobs : Job → γ → Status × γ} {ctime : Int32}
    {set : ServiceGlue γ → ServiceGlue γ} {glue after : ServiceGlue γ} {ran : List Job}
    (sets : ∀ contentBased other, (set { glue with contentBased }).chrono other = glue.chrono other ∧
      (set { glue with contentBased }).nextTime other = Function.update glue.nextTime job value other)
    (run : runDue jobs job (glue.nextTime job) ctime set glue = .ok (ran, after)) :
    ran = (if glue.nextTime job < ctime then [job] else []) ∧ after.chrono = glue.chrono ∧
      after.nextTime = Function.update glue.nextTime job (if glue.nextTime job < ctime then value else glue.nextTime job) := by
  unfold runDue at run
  by_cases due : glue.nextTime job < ctime
  · rw [if_pos due] at run
    simp only [if_pos due]
    rcases called : jobs job glue.contentBased with ⟨failure | _, contentBased⟩
    · rw [called] at run
      cases run
    · rw [called] at run
      cases run
      exact ⟨rfl, funext fun other => (sets contentBased other).1, funext fun other => (sets contentBased other).2⟩
  · rw [if_neg due] at run
    simp only [if_neg due]
    cases run
    exact ⟨rfl, rfl, (Function.update_eq_self _ _).symm⟩

/-- A tick runs the jobs whose next time has passed, and gives each the time that its own
timer has after its own time, but for the training, which is counted from the flush. -/
theorem persistentLibrary_inv {jobs : Job → γ → Status × γ} {ctime : Int32} {glue after : ServiceGlue γ} {ran : List Job}
    (run : persistentLibrary jobs ctime glue = .ok (ran, after)) :
    (∀ job, job ∈ ran ↔ glue.nextTime job < ctime) ∧ after.chrono = glue.chrono ∧
      (∀ job, job ≠ .train → after.nextTime job = Timers.tick glue.timers ctime glue.nextTime job) ∧
      after.nextTrainTime =
        if glue.nextTrainTime < ctime then glue.chronoTrain.stored (glue.flushTimeAt ctime).toInt else glue.nextTrainTime := by
  obtain ⟨⟨_, flushed⟩, flush, run⟩ := Except.bind_inv run
  obtain ⟨⟨_, trained⟩, train, run⟩ := Except.bind_inv run
  obtain ⟨⟨_, reloaded⟩, reload, run⟩ := Except.bind_inv run
  obtain ⟨⟨_, rolled⟩, rollover, run⟩ := Except.bind_inv run
  obtain ⟨rfl, rfl⟩ := Prod.mk.inj (Except.ok.inj run)
  obtain ⟨rfl, flushChrono, flushTimes⟩ := runDue_inv .flush (glue.chronoFlush.stored glue.nextFlushTime.toInt)
    (fun _ other => by cases other <;> exact ⟨rfl, rfl⟩) flush
  obtain ⟨rfl, trainChrono, trainTimes⟩ := runDue_inv .train (flushed.chronoTrain.stored flushed.nextFlushTime.toInt)
    (fun _ other => by cases other <;> exact ⟨rfl, rfl⟩) train
  obtain ⟨rfl, reloadChrono, reloadTimes⟩ := runDue_inv .reload (trained.chronoReload.stored trained.nextReloadTime.toInt)
    (fun _ other => by cases other <;> exact ⟨rfl, rfl⟩) reload
  obtain ⟨rfl, rolloverChrono, rolloverTimes⟩ := runDue_inv .rollover (reloaded.chronoRollover.stored reloaded.nextRolloverTime.toInt)
    (fun _ other => by cases other <;> exact ⟨rfl, rfl⟩) rollover
  have chronos := reloadChrono.trans (trainChrono.trans flushChrono)
  have flushTime : flushed.nextFlushTime = glue.flushTimeAt ctime := congrFun flushTimes .flush
  have trainTimer : flushed.chronoTrain = glue.chronoTrain := congrFun flushChrono .train
  have reloadTimer : trained.chronoReload = glue.chronoReload := congrFun (trainChrono.trans flushChrono) .reload
  have reloadTime : trained.nextReloadTime = glue.nextReloadTime :=
    (congrFun trainTimes .reload).trans (congrFun flushTimes .reload)
  have rolloverTimer : reloaded.chronoRollover = glue.chronoRollover := congrFun chronos .rollover
  have rolloverTime : reloaded.nextRolloverTime = glue.nextRolloverTime :=
    (congrFun reloadTimes .rollover).trans ((congrFun trainTimes .rollover).trans (congrFun flushTimes .rollover))
  rw [flushTime, trainTimer] at trainTimes
  rw [reloadTimer, reloadTime] at reloadTimes
  rw [rolloverTimer, rolloverTime] at rolloverTimes
  refine ⟨fun job => ?_, rolloverChrono.trans chronos, fun job distinct => ?_, ?_⟩
  · cases job <;> simp [reloadTimes, trainTimes, flushTimes]
  · cases job <;> simp [rolloverTimes, reloadTimes, trainTimes, flushTimes] at distinct ⊢ <;> rfl
  · change rolled.nextTime .train = _
    simp [rolloverTimes, reloadTimes, trainTimes, flushTimes]
    rfl

end ServiceGlue

/-- A tick of a run: its time, the service before and after it and the jobs that were run. -/
structure Tick (γ : Type) where
  ctime : Int32
  before : ServiceGlue γ
  ran : List Job
  after : ServiceGlue γ

section
variable {γ : Type} {jobs : Job → γ → Status × γ}

/-- A tick in which no job fails. -/
inductive ServiceStep (jobs : Job → γ → Status × γ) : ServiceGlue γ → Tick γ → ServiceGlue γ → Prop
  | tick (ctime) {glue ran after} : glue.persistentLibrary jobs ctime = .ok (ran, after) →
      ServiceStep jobs glue ⟨ctime, glue, ran, after⟩ after

abbrev ServiceReach (jobs : Job → γ → Status × γ) (initial : ServiceGlue γ) : List (Tick γ) → ServiceGlue γ → Prop :=
  Run (ServiceStep jobs) initial

/-- In which of the ticks the job was run. -/
def ranAt (ticks : List (Tick γ)) (job : Job) : List Bool :=
  ticks.map fun tick => decide (job ∈ tick.ran)

/-- After every tick the next time of a job is what its own timer comes to from its initial
time in as many rounds as the job was run. -/
def FollowOwnTimers (initial : ServiceGlue γ) (ticks : List (Tick γ)) : Prop :=
  ∀ earlier tick, earlier ++ [tick] <+: ticks → ∀ job, tick.after.nextTime job =
    (initial.timers job)^[(ranAt (earlier ++ [tick]) job).count true] (initial.nextTime job)

/-- If the training is run, its timer goes off after the next flush time just when it does
after the training's own. -/
def Tick.Aligned (tick : Tick γ) : Prop :=
  tick.before.nextTrainTime < tick.ctime →
    tick.before.chronoTrain.stored (tick.before.flushTimeAt tick.ctime).toInt =
      tick.before.chronoTrain.stored tick.before.nextTrainTime.toInt

/-- In both runs every timer follows its own expression, and all jobs but this one are run in
the same ticks. -/
structure Independent (job : Job) (left right : ServiceGlue γ) (leftTicks rightTicks : List (Tick γ)) : Prop where
  left : FollowOwnTimers left leftTicks
  right : FollowOwnTimers right rightTicks
  others : ∀ other, other ≠ job → ranAt leftTicks other = ranAt rightTicks other

theorem ServiceStep.inv {glue after : ServiceGlue γ} {tick : Tick γ} (taken : ServiceStep jobs glue tick after) :
    tick.before = glue ∧ tick.after = after ∧ glue.persistentLibrary jobs tick.ctime = .ok (tick.ran, after) := by
  cases taken with
  | tick _ run => exact ⟨rfl, rfl, run⟩

theorem ServiceStep.ran_eq {glue after : ServiceGlue γ} {tick : Tick γ} (taken : ServiceStep jobs glue tick after)
    (job : Job) : decide (job ∈ tick.ran) = decide (glue.nextTime job < tick.ctime) :=
  decide_eq_decide.mpr ((ServiceGlue.persistentLibrary_inv taken.inv.2.2).1 job)

theorem ServiceGlue.timers_congr {left right : ServiceGlue γ} {job : Job} (same : left.chrono job = right.chrono job) :
    left.timers job = right.timers job := by
  funext time
  rw [timers, timers, same]

theorem ServiceStep.timers_eq {glue after : ServiceGlue γ} {tick : Tick γ} (taken : ServiceStep jobs glue tick after) :
    after.timers = glue.timers :=
  funext fun job => ServiceGlue.timers_congr (congrFun (ServiceGlue.persistentLibrary_inv taken.inv.2.2).2.1 job)

/-- A tick moves the next times as independent timers do exactly when it is aligned. -/
theorem ServiceStep.aligned_iff {glue after : ServiceGlue γ} {tick : Tick γ} (taken : ServiceStep jobs glue tick after) :
    tick.Aligned ↔ after.nextTime = Timers.tick glue.timers tick.ctime glue.nextTime := by
  obtain ⟨same, _, run⟩ := taken.inv
  obtain ⟨_, _, others, train⟩ := ServiceGlue.persistentLibrary_inv run
  rw [Tick.Aligned, same]
  constructor
  · intro aligned
    funext job
    by_cases training : job = .train
    · subst training
      refine train.trans ?_
      by_cases due : glue.nextTrainTime < tick.ctime
      · rw [if_pos due]
        exact (aligned due).trans (if_pos due).symm
      · rw [if_neg due]
        exact (if_neg due).symm
    · exact others job training
  · intro ticked due
    rw [if_pos due] at train
    exact train.symm.trans ((congrFun ticked .train).trans (if_pos due))

theorem ranAt_concat (ticks : List (Tick γ)) (tick : Tick γ) (job : Job) :
    ranAt (ticks ++ [tick]) job = ranAt ticks job ++ [decide (job ∈ tick.ran)] := by
  simp [ranAt]

/-- Aligned ticks run the service as four independent timers. -/
theorem ServiceReach.follows_timers {initial glue : ServiceGlue γ} {ticks : List (Tick γ)}
    (reach : ServiceReach jobs initial ticks glue) (aligned : ∀ tick ∈ ticks, tick.Aligned) :
    glue.timers = initial.timers ∧
      glue.nextTime = Timers.after initial.timers initial.nextTime (ticks.map Tick.ctime) ∧
      ∀ job, ranAt ticks job = Timers.due initial.timers initial.nextTime (ticks.map Tick.ctime) job := by
  induction reach with
  | start => exact ⟨rfl, rfl, fun _ => rfl⟩
  | @next ticks glue tick after _ taken ih =>
    obtain ⟨same, times, ran⟩ := ih fun earlier member => aligned earlier (List.mem_append_left _ member)
    have ticked := taken.aligned_iff.mp (aligned tick (by simp))
    rw [List.map_append, List.map_singleton]
    refine ⟨taken.timers_eq.trans same, ?_, fun job => ?_⟩
    · rw [ticked, Timers.after_concat, same, times]
    · rw [ranAt_concat, Timers.due_concat, ran job, taken.ran_eq job, times]

/-- The next times are those of the own timers after every tick exactly when every tick is
aligned. -/
theorem ServiceReach.follow_iff {initial glue : ServiceGlue γ} {ticks : List (Tick γ)}
    (reach : ServiceReach jobs initial ticks glue) :
    FollowOwnTimers initial ticks ↔ ∀ tick ∈ ticks, tick.Aligned := by
  induction reach with
  | start => simp [FollowOwnTimers]
  | @next ticks glue tick after previous taken ih =>
    constructor
    · intro follow
      have earlier : FollowOwnTimers initial ticks := fun front tick within =>
        follow front tick (within.trans (List.prefix_append _ _))
      have aligned := ih.mp earlier
      obtain ⟨same, times, ran⟩ := ServiceReach.follows_timers previous aligned
      have last : tick.Aligned := by
        rw [taken.aligned_iff]
        funext job
        have own := follow ticks tick (List.prefix_refl _) job
        rw [taken.inv.2.1, ranAt_concat, taken.ran_eq job, List.count_append] at own
        have now := Timers.after_eq_iterate initial.timers initial.nextTime (ticks.map Tick.ctime) job
        rw [← times, ← ran job] at now
        rw [own, Timers.tick, same]
        by_cases due : glue.nextTime job < tick.ctime
        · rw [if_pos due, decide_eq_true due, List.count_singleton_self, Function.iterate_succ_apply', ← now]
        · rw [if_neg due, decide_eq_false due, now]
          rfl
      intro tick' member
      rcases List.mem_append.mp member with member | member
      · exact aligned tick' member
      · rwa [List.mem_singleton.mp member]
    · intro aligned front tick' within job
      rcases List.prefix_concat_iff.mp within with whole | within
      · obtain ⟨rfl, same⟩ := List.append_inj' whole rfl
        cases same
        obtain ⟨_, times, ran⟩ := ServiceReach.follows_timers (.next previous taken) aligned
        rw [taken.inv.2.1, ran job, times, Timers.after_eq_iterate]
      · exact ih.mpr (fun earlier member => aligned earlier (List.mem_append_left _ member)) front tick' within job

/-- Two runs that differ in the timer of one job only run the others alike, and every timer in
them follows its own expression, exactly when all their ticks are aligned. -/
theorem timers_independent_iff {job : Job} {left right leftEnd rightEnd : ServiceGlue γ}
    {leftTicks rightTicks : List (Tick γ)} (differ : left.DifferOnly job right)
    (leftReach : ServiceReach jobs left leftTicks leftEnd) (rightReach : ServiceReach jobs right rightTicks rightEnd)
    (sameTimes : leftTicks.map Tick.ctime = rightTicks.map Tick.ctime) :
    Independent job left right leftTicks rightTicks ↔
      (∀ tick ∈ leftTicks, tick.Aligned) ∧ ∀ tick ∈ rightTicks, tick.Aligned := by
  constructor
  · intro independent
    exact ⟨leftReach.follow_iff.mp independent.left, rightReach.follow_iff.mp independent.right⟩
  · rintro ⟨leftAligned, rightAligned⟩
    refine ⟨leftReach.follow_iff.mpr leftAligned, rightReach.follow_iff.mpr rightAligned, fun other distinct => ?_⟩
    obtain ⟨sameTimer, sameTime⟩ := differ other distinct
    rw [(leftReach.follows_timers leftAligned).2.2 other, (rightReach.follows_timers rightAligned).2.2 other, sameTimes]
    exact Timers.due_congr (ServiceGlue.timers_congr sameTimer) sameTime _

end

/-- A timer that goes off at every multiple of so many seconds. -/
def everySeconds (seconds : Int) (positive : 0 < seconds) : Timer :=
  ⟨fun time => (time / seconds + 1) * seconds, fun time => Int.lt_ediv_add_one_mul_self time positive⟩

def everyTenMinutes : Timer := everySeconds 600 (by decide)

def hourly : Timer := everySeconds 3600 (by decide)

def daily : Timer := everySeconds 86400 (by decide)

/-- A service set up at this time that trains every hour and rolls over every day. -/
def hourlyTraining (flush reload : Timer) (now : Int) : ServiceGlue Unit where
  nextFlushTime := flush.stored now
  chronoFlush := flush
  nextTrainTime := hourly.stored now
  chronoTrain := hourly
  nextRolloverTime := daily.stored now
  chronoRollover := daily
  nextReloadTime := reload.stored now
  chronoReload := reload
  contentBased := ()

theorem hourlyTraining_differOnly_reload (flush left right : Timer) (now : Int) :
    (hourlyTraining flush left now).DifferOnly .reload (hourlyTraining flush right now) := by
  intro other distinct
  cases other with
  | reload => exact absurd rfl distinct
  | _ => exact ⟨rfl, rfl⟩

theorem hourlyTraining_differOnly_flush (left right reload : Timer) (now : Int) :
    (hourlyTraining left reload now).DifferOnly .flush (hourlyTraining right reload now) := by
  intro other distinct
  cases other with
  | flush => exact absurd rfl distinct
  | _ => exact ⟨rfl, rfl⟩

/-- The next flush and the next training fall within one hour. -/
theorem reload_timers_independent : ∃ leftTicks rightTicks leftEnd rightEnd,
    ServiceReach (fun _ content => (.ok (), content)) (hourlyTraining everyTenMinutes daily 3000) leftTicks leftEnd ∧
    ServiceReach (fun _ content => (.ok (), content)) (hourlyTraining everyTenMinutes hourly 3000) rightTicks rightEnd ∧
    ranAt leftTicks .train = [true] ∧
    Independent .reload (hourlyTraining everyTenMinutes daily 3000) (hourlyTraining everyTenMinutes hourly 3000)
      leftTicks rightTicks := by
  obtain ⟨leftTick, leftEnd, leftReach, leftTime, leftRan, leftAligned⟩ : ∃ tick after,
      ServiceReach (fun _ content => (.ok (), content)) (hourlyTraining everyTenMinutes daily 3000) [tick] after ∧
        tick.ctime = 3601 ∧ tick.ran = [.flush, .train] ∧ tick.Aligned :=
    ⟨_, _, .next .start (.tick 3601 rfl), rfl, rfl, fun _ => by decide⟩
  obtain ⟨rightTick, rightEnd, rightReach, rightTime, rightAligned⟩ : ∃ tick after,
      ServiceReach (fun _ content => (.ok (), content)) (hourlyTraining everyTenMinutes hourly 3000) [tick] after ∧
        tick.ctime = 3601 ∧ tick.Aligned :=
    ⟨_, _, .next .start (.tick 3601 rfl), rfl, fun _ => by decide⟩
  refine ⟨[leftTick], [rightTick], leftEnd, rightEnd, leftReach, rightReach, by simp [ranAt, leftRan], ?_⟩
  refine (timers_independent_iff (hourlyTraining_differOnly_reload _ _ _ _) leftReach rightReach
    (by simp [leftTime, rightTime])).mpr ⟨?_, ?_⟩
  · simpa using leftAligned
  · simpa using rightAligned

/-- With a flush every day the hourly training that was run at 3601 waits for a day, with a
flush every ten minutes it is run again within the hour. -/
theorem training_waits_for_flush : ∃ leftTicks rightTicks leftEnd rightEnd,
    (hourlyTraining daily daily 0).DifferOnly .flush (hourlyTraining everyTenMinutes daily 0) ∧
    ServiceReach (fun _ content => (.ok (), content)) (hourlyTraining daily daily 0) leftTicks leftEnd ∧
    ServiceReach (fun _ content => (.ok (), content)) (hourlyTraining everyTenMinutes daily 0) rightTicks rightEnd ∧
    leftTicks.map Tick.ctime = [3601, 7300] ∧ rightTicks.map Tick.ctime = [3601, 7300] ∧
    ranAt leftTicks .train = [true, false] ∧ ranAt rightTicks .train = [true, true] ∧
    ¬ Independent .flush (hourlyTraining daily daily 0) (hourlyTraining everyTenMinutes daily 0) leftTicks rightTicks := by
  refine ⟨_, _, _, _, hourlyTraining_differOnly_flush _ _ _ _, .next (.next .start (.tick 3601 rfl)) (.tick 7300 rfl),
    .next (.next .start (.tick 3601 rfl)) (.tick 7300 rfl), rfl, rfl, rfl, rfl, fun independent => ?_⟩
  have training := independent.others .train (by decide)
  revert training
  decide

end ContentBased
