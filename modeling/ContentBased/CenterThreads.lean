import ContentBased.Library.KeyedLocks
import ContentBased.QueryReply

namespace ContentBased.FrameworkCache

/-- `put` of a list at a time, as long as its buffer of 1024 bytes takes it. -/
def put (list : List UInt64) (now : Int32) : Option Entry :=
  if fits : 12 + 8 * list.length ≤ 1024 then
    some {
      searchTime := 0
      updateTime := now
      list
      size_lt := by omega }
  else none

end ContentBased.FrameworkCache

namespace ContentBased.FrameworkCenter
open FrameworkCache KeyedLocks

/-- What a thread that answers a query is given. -/
structure QueryTask where
  query : Query
  flagLog : Int32

def QueryTask.requestNum (task : QueryTask) : Int32 := if 20 < task.query.requestNum then 20 else task.query.requestNum

/-- How far a thread has come with the cache, in one of the two functions `process_query`: what it was asked for, the value
that `get` has popped, the time it has read, what it has handed out, the outcome when it is reported, and the end; and a
list that is to be put or was put. -/
inductive CacheWork where
  | asked (task : QueryTask)
  | popped (task : QueryTask) (value : Option Entry)
  | timed (task : QueryTask) (entry : Entry) (now : Int32)
  | gotten (task : QueryTask) (got : Got) (now : Option Int32)
  | reported (task : QueryTask) (got : Got) (now : Option Int32) (outcome : Outcome)
  | finished (task : QueryTask) (got : Got) (now : Option Int32) (outcome : Outcome)
  | listed (list : List UInt64)
  | stored (list : List UInt64) (now : Int32)

/-- What the threads share besides the cache: the clock, the requests to flush the cache that wait or that a thread is
working on, and what `process_feedback` was called with. -/
structure Shared (Thread : Type) where
  clock : Int32
  flushCache : List (UInt64 × Int32)
  flushing : Thread → Option (UInt64 × Int32)
  pushed : List (UInt64 × Int32 × List UInt64)

variable {Thread : Type}

/-- A thread of the pool is given a task at any time; a thread that flushes the cache has a list for the user. -/
inductive Calls [DecidableEq Thread] : Thread → UInt64 → CacheWork → Shared Thread → Shared Thread → Prop
  | task {thread task shared} : Calls thread task.query.userId (.asked task) shared shared
  | flush {thread uid log list shared} (flushing : shared.flushing thread = some (uid, log)) :
      Calls thread uid (.listed list) shared { shared with flushing := Function.update shared.flushing thread none }

/-- The steps between `m_flags.add` and `m_flags.del`. -/
inductive Works (config : Config) :
    UInt64 → Shared Thread → CacheWork → Option Entry → Shared Thread → CacheWork → Option Entry → Prop
  | pop {shared task cell} : Works config task.query.userId shared (.asked task) cell shared (.popped task cell) cell
  | miss {shared task cell} :
      Works config task.query.userId shared (.popped task none) cell shared
        (.gotten task ⟨some (-1), 0, [], none⟩ none) cell
  | time {shared task entry cell} :
      Works config task.query.userId shared (.popped task (some entry)) cell shared (.timed task entry shared.clock) cell
  | add {shared task entry now rand got cell} (ran : get config (some entry) task.requestNum rand now = some got) :
      Works config task.query.userId shared (.timed task entry now) cell shared (.gotten task got (some now)) got.entry
  | report {shared task got now cell} (isNewUser : Bool) (unset : Int32) :
      Works config task.query.userId shared (.gotten task got now) cell
        { shared with pushed := shared.pushed ++ (Outcome.of task.query isNewUser unset got).feedback.toList }
        (.reported task got now (Outcome.of task.query isNewUser unset got)) cell
  | push {shared task got now outcome cell} (flushes : outcome.flushed = true) :
      Works config task.query.userId shared (.reported task got now outcome) cell
        { shared with flushCache := shared.flushCache ++ [(task.query.userId, task.flagLog)] }
        (.finished task got now outcome) cell
  -- also where the queue takes no more
  | skip {shared task got now outcome cell} :
      Works config task.query.userId shared (.reported task got now outcome) cell shared
        (.finished task got now outcome) cell
  | put {uid shared list entry cell} (ran : put list shared.clock = some entry) :
      Works config uid shared (.listed list) cell shared (.stored list shared.clock) (some entry)

/-- What happens without a lock. A thread takes a request to flush the cache, and may fail at it. -/
inductive Others [DecidableEq Thread] : Shared Thread → Shared Thread → Prop
  | tick {shared} {clock : Int32} (later : shared.clock.toInt ≤ clock.toInt) : Others shared { shared with clock }
  | take {shared thread request waiting} (first : shared.flushCache = request :: waiting)
      (idle : shared.flushing thread = none) :
      Others shared { shared with
        flushCache := waiting
        flushing := Function.update shared.flushing thread (some request) }
  | fail {shared thread} : Others shared { shared with flushing := Function.update shared.flushing thread none }

inductive Ends : CacheWork → Prop
  | finished {task got now outcome} : Ends (.finished task got now outcome)
  | stored {list now} : Ends (.stored list now)

/-- The threads of the center at the lock of a user. -/
def center (Thread : Type) [DecidableEq Thread] (config : Config) :
    Sections Thread UInt64 (Option Entry) CacheWork (Shared Thread) where
  calls := Calls
  works := Works config
  ends := Ends
  others := Others

/-- A run of the threads. -/
abbrev CenterRun [DecidableEq Thread] (config : Config)
    (start : State Thread UInt64 (Option Entry) CacheWork (Shared Thread)) (actions : List (Action Thread UInt64 CacheWork))
    (state : State Thread UInt64 (Option Entry) CacheWork (Shared Thread)) :
    Prop :=
  Run (Step (center Thread config)) start actions state

/-- One thread alone, which answers a query or puts a list as a whole. -/
inductive Served (config : Config) :
    (UInt64 → Option Entry) → UInt64 × CacheWork × CacheWork → (UInt64 → Option Entry) → Prop
  | query {entries task isNewUser rand now unset got outcome seen}
      (ran : get config (entries task.query.userId) task.requestNum rand now = some got)
      (comes : processQuery config (entries task.query.userId) task.query isNewUser rand now unset = some outcome)
      (read : seen = (entries task.query.userId).map fun _ => now) :
      Served config entries (task.query.userId, .asked task, .finished task got seen outcome)
        (Function.update entries task.query.userId outcome.entry)
  | put {entries uid list now entry} (ran : put list now = some entry) :
      Served config entries (uid, .listed list, .stored list now) (Function.update entries uid (some entry))

section Sections
variable {config : Config} {uid : UInt64} {start work : CacheWork} {before cell : Option Entry}

/-- What has been done of a section that was started with a value of the cache. -/
def Reached (config : Config) (start : CacheWork) (before : Option Entry) : CacheWork × Option Entry → Prop
  | (.asked task, cell) => start = .asked task ∧ cell = before
  | (.popped task value, cell) => start = .asked task ∧ cell = before ∧ value = before
  | (.timed task entry _, cell) => start = .asked task ∧ cell = before ∧ some entry = before
  | (.gotten task got seen, cell) => start = .asked task ∧ cell = got.entry ∧
      ∃ rand now, get config before task.requestNum rand now = some got ∧ seen = before.map fun _ => now
  | (.reported task got seen outcome, cell) | (.finished task got seen outcome, cell) =>
      start = .asked task ∧ cell = got.entry ∧
        (∃ rand now, get config before task.requestNum rand now = some got ∧ seen = before.map fun _ => now) ∧
        ∃ isNewUser unset, outcome = Outcome.of task.query isNewUser unset got
  | (.listed list, cell) => start = .listed list ∧ cell = before
  | (.stored list now, cell) => start = .listed list ∧ ∃ entry, put list now = some entry ∧ cell = some entry

theorem Reached.step {shared shared' : Shared Thread} {next : CacheWork} {cell' : Option Entry}
    (reached : Reached config start before (work, cell)) (worked : Works config uid shared work cell shared' next cell') :
    Reached config start before (next, cell') := by
  cases worked with
  | pop => exact ⟨reached.1, reached.2, reached.2⟩
  | miss =>
    obtain ⟨asked, same, missing⟩ := reached
    subst missing
    exact ⟨asked, same, 0, 0, rfl, rfl⟩
  | time => exact reached
  | add ran =>
    obtain ⟨asked, same, found⟩ := reached
    subst found
    exact ⟨asked, rfl, _, _, ran, rfl⟩
  | report isNewUser unset => exact ⟨reached.1, reached.2.1, reached.2.2, isNewUser, unset, rfl⟩
  | push flushes => exact reached
  | skip => exact reached
  | put ran =>
    obtain ⟨asked, -⟩ := reached
    exact ⟨asked, _, ran, rfl⟩

variable [DecidableEq Thread]

theorem reached_of_works (called : ∃ (thread : Thread) (env env' : Shared Thread), Calls thread uid start env env')
    (works : (center Thread config).Works uid (start, before) (work, cell)) :
    Reached config start before (work, cell) := by
  have first : Reached config start before (start, before) := by
    obtain ⟨thread, env, env', called⟩ := called
    cases called with
    | task => exact ⟨rfl, rfl⟩
    | flush flushing => exact ⟨rfl, rfl⟩
  generalize reached : (work, cell) = after at works
  clear reached
  induction works with
  | refl => exact first
  | tail _ worked ih =>
    obtain ⟨env, env', worked⟩ := worked
    exact ih.step worked

/-- A section of the lock is one call of `process_query`, or of `put`. -/
theorem served_of_atOnce {entries entries' : UInt64 → Option Entry} {section_ : UInt64 × CacheWork × CacheWork}
    (once : (center Thread config).AtOnce entries section_ entries') : Served config entries section_ entries' := by
  obtain ⟨uid, start, final⟩ := section_
  obtain ⟨cell, ⟨called, works, ended⟩, rfl⟩ := once
  have reached := reached_of_works called works
  obtain ⟨thread, env, env', called⟩ := called
  cases ended with
  | @finished task got seen outcome =>
    obtain ⟨rfl, rfl, ⟨rand, now, ran, read⟩, isNewUser, unset, rfl⟩ := reached
    have comes : processQuery config (entries uid) task.query isNewUser rand now unset =
        some (Outcome.of task.query isNewUser unset got) := by
      rw [processQuery_eq]
      exact congrArg (Option.map _) ran
    cases called
    exact .query ran comes read
  | @stored list now =>
    obtain ⟨rfl, entry, ran, rfl⟩ := reached
    exact .put ran

end Sections

/-- A thread alone answers a query of a user that the cache knows. -/
theorem answers [DecidableEq Thread] {config : Config}
    {start : State Thread UInt64 (Option Entry) CacheWork (Shared Thread)}
    {entry : Entry} {rand : Nat} {got : Got} (thread : Thread) (task : QueryTask) (isNewUser : Bool) (unset : Int32)
    (quiet : Quiet start) (value : start.cells task.query.userId = some entry)
    (ran : get config (some entry) task.requestNum rand start.env.clock = some got) :
    ∃ actions state, CenterRun config start actions state ∧ Quiet state ∧
      state.cells = Function.update start.cells task.query.userId got.entry ∧ state.env.clock = start.env.clock ∧
      completed actions = [(task.query.userId, .asked task,
        .finished task got (some start.env.clock) (.of task.query isNewUser unset got))] := by
  let outcome : Outcome := .of task.query isNewUser unset got
  let reports : Shared Thread := { start.env with pushed := start.env.pushed ++ outcome.feedback.toList }
  let from_ : Shared Thread × CacheWork × Option Entry := (start.env, .asked task, some entry)
  have popped : (center Thread config).WorksAlone task.query.userId from_
    (start.env, .popped task (some entry), some entry) := .single .pop
  have timed : (center Thread config).WorksAlone task.query.userId from_
    (start.env, .timed task entry start.env.clock, some entry) := popped.tail .time
  have gotten : (center Thread config).WorksAlone task.query.userId from_
    (start.env, .gotten task got (some start.env.clock), got.entry) := timed.tail (.add ran)
  have reported : (center Thread config).WorksAlone task.query.userId from_
    (reports, .reported task got (some start.env.clock) outcome, got.entry) := gotten.tail (.report isNewUser unset)
  have finished : (center Thread config).WorksAlone task.query.userId from_
    (reports, .finished task got (some start.env.clock) outcome, got.entry) := reported.tail .skip
  have free : task.query.userId ∉ start.flags := by
    rw [quiet.flags]
    exact Set.notMem_empty _
  have works : (center Thread config).WorksAlone task.query.userId
      (start.env, .asked task, start.cells task.query.userId)
      (reports, .finished task got (some start.env.clock) outcome, got.entry) := by rwa [value]
  obtain ⟨actions, run, done⟩ := alone (quiet.outside thread) free Calls.task works Ends.finished
  exact ⟨actions, _, run, ⟨quiet.flags, quiet.outside⟩, rfl, rfl, done⟩

section Samples

def sampleConfig : Config := ⟨10, 3600⟩

def fiveSix : Entry := ⟨0, 1000, [5, 6], by decide⟩

/-- A user with two ids, and no thread at the cache. -/
def twoIds : State Bool UInt64 (Option Entry) CacheWork (Shared Bool) where
  flags := ∅
  cells uid := if uid = 9 then some fiveSix else none
  places _ := .outside
  env := ⟨1030, [], fun _ => none, []⟩

def oneId : QueryTask := ⟨⟨9, 1⟩, 0⟩

def six : Entry := ⟨1030, 1000, [6], by decide⟩

def firstId : Got := ⟨some 1, 1, [5], some six⟩

theorem quiet_twoIds : Quiet twoIds := ⟨rfl, fun _ => rfl⟩

theorem get_firstId : get sampleConfig (some fiveSix) oneId.requestNum 0 1030 = some firstId := by
  have asked : oneId.requestNum = 1 := by decide +kernel
  have count : returnCount fiveSix 1 0 = 1 := by decide +kernel
  have returned : (returnCount fiveSix 1 0).toInt = (1 : Nat) := by decide +kernel
  have left_ : (fiveSix.num - returnCount fiveSix 1 0).toInt = (fiveSix.list.drop 1).length := by decide +kernel
  have fresh : 1030 - fiveSix.updateTime < sampleConfig.flushTime := by decide +kernel
  have late : 60 < 1030 - fiveSix.searchTime := by decide +kernel
  have short : ((fiveSix.list.drop 1).length : Int) ≤ sampleConfig.flushCount.toInt := by decide +kernel
  have small : ¬ 254 < (fiveSix.list.drop 1).length := by decide +kernel
  rw [asked, get_of_fresh fresh returned left_, if_neg small, if_pos short, if_pos late, count]
  rfl

theorem hands_out_first : ∃ actions state, CenterRun sampleConfig twoIds actions state ∧ Quiet state ∧
    state.cells 9 = firstId.entry ∧ state.env.clock = 1030 ∧
    completed actions = [(9, .asked oneId, .finished oneId firstId (some 1030) (.of oneId.query false 0 firstId))] := by
  obtain ⟨actions, state, run, quiet, cells, clock, done⟩ := answers false oneId false 0 quiet_twoIds rfl get_firstId
  exact ⟨actions, state, run, quiet, by rw [cells]; rfl, clock, done⟩

end Samples

section Runs
variable [DecidableEq Thread] {config : Config} {start state : State Thread UInt64 (Option Entry) CacheWork (Shared Thread)}
  {actions : List (Action Thread UInt64 CacheWork)}

/-- Whatever the threads do in between, the calls that are completed were served one after the other, as by one thread,
and a user whose lock is free has the value that this leaves. Inside the lock of a user there is exactly one thread while
its flag is there, and none while it is not. -/
theorem run_is_serial (quiet : Quiet start) (run : CenterRun config start actions state) :
    ∃ entries, Run (Served config) start.cells (completed actions) entries ∧
      (∀ uid ∉ state.flags, state.cells uid = entries uid) ∧
      (∀ uid ∈ state.flags, ∃! thread, ∃ begun work, state.places thread = .inside uid begun work) ∧
      ∀ uid ∉ state.flags, ∀ thread begun work, state.places thread ≠ .inside uid begun work := by
  obtain ⟨entries, done, settled⟩ := serial quiet run
  refine ⟨entries, done.mono served_of_atOnce, settled.free, fun uid marked => ?_,
    fun uid free thread begun work inside => ?_⟩
  · obtain ⟨thread, begun, work, inside⟩ := (settled.flagged_iff uid).mp marked
    refine ⟨thread, ⟨begun, work, inside⟩, ?_⟩
    rintro other ⟨begun', work', inside'⟩
    exact settled.alone inside' inside
  · exact free ((settled.flagged_iff uid).mpr ⟨thread, begun, work, inside⟩)

theorem sample_is_serial : ∃ actions state, CenterRun sampleConfig twoIds actions state ∧
    completed actions = [(9, .asked oneId, .finished oneId firstId (some 1030) (.of oneId.query false 0 firstId))] ∧
    ∃ entries, Run (Served sampleConfig) twoIds.cells (completed actions) entries ∧
      (∀ uid ∉ state.flags, state.cells uid = entries uid) ∧
      (∀ uid ∈ state.flags, ∃! thread, ∃ begun work, state.places thread = .inside uid begun work) ∧
      ∀ uid ∉ state.flags, ∀ thread begun work, state.places thread ≠ .inside uid begun work := by
  obtain ⟨actions, state, run, -, -, -, done⟩ := hands_out_first
  exact ⟨actions, state, run, done, run_is_serial quiet_twoIds run⟩

end Runs

section HandedOut
variable {config : Config}

/-- What a read hands out and what it leaves are the list, or nothing. -/
theorem split_of_get {entry : Entry} {reqNum now : Int32} {rand : Nat} {got : Got}
    (ran : get config (some entry) reqNum rand now = some got) :
    got.retLst ++ ids got.entry = entry.list ∨ got.retLst = [] ∧ ids got.entry = [] := by
  cases gets_of_get ran with
  | @searched returned | @unset returned | @enough returned => exact .inl (List.take_append_drop returned entry.list)
  | expired | gone => exact .inr ⟨rfl, rfl⟩

/-- A code that is set says that ids may come with it, or there are none. -/
theorem coded_of_get {entry : Option Entry} {reqNum now code : Int32} {rand : Nat} {got : Got}
    (ran : get config entry reqNum rand now = some got) (set : got.code = some code) :
    (code = 1 ∨ code = 2) ∨ got.retLst = [] := by
  cases entry with
  | none =>
    obtain rfl := Option.some.inj ran
    exact .inr rfl
  | some entry =>
    cases gets_of_get ran with
    | searched => exact .inl (.inl (Option.some.inj set).symm)
    | unset => cases set
    | enough => exact .inl (.inr (Option.some.inj set).symm)
    | expired | gone => exact .inr rfl

/-- The ids that a query takes out of the cache. -/
def CacheWork.taken : CacheWork → List UInt64
  | .finished _ got _ _ => got.retLst
  | _ => []

/-- The ids that the reply lists. -/
def CacheWork.shown : CacheWork → List UInt64
  | .finished _ got _ outcome => listedIds outcome.retVal got.retLst
  | _ => []

/-- The cache has not left its code unset. -/
def CacheWork.Coded : CacheWork → Prop
  | .finished _ got _ _ => got.code.isSome
  | _ => True

/-- The list that was last put for a user, and of it the ids that were taken and those that were shown since. -/
structure HandedOut where
  list : List UInt64
  taken : List UInt64
  shown : List UInt64
deriving DecidableEq, Repr

def handOut (uid : UInt64) (since : HandedOut) : UInt64 × CacheWork × CacheWork → HandedOut
  | (user, _, .stored list _) => if user = uid then ⟨list, [], []⟩ else since
  | (user, _, work) =>
    if user = uid then { since with taken := since.taken ++ work.taken, shown := since.shown ++ work.shown } else since

/-- From a value of the cache on, what the calls one after the other have handed out. -/
def handedOutSince (uid : UInt64) (entry : Option Entry) (done : List (UInt64 × CacheWork × CacheWork)) : HandedOut :=
  done.foldl (handOut uid) ⟨ids entry, [], []⟩

@[simp] theorem handOut_finished (uid : UInt64) (since : HandedOut) (begun : CacheWork) (task : QueryTask) (got : Got)
    (now : Option Int32) (outcome : Outcome) : handOut uid since (uid, begun, .finished task got now outcome) =
      ⟨since.list, since.taken ++ got.retLst, since.shown ++ listedIds outcome.retVal got.retLst⟩ := if_pos rfl

@[simp] theorem handOut_stored (uid : UInt64) (since : HandedOut) (begun : CacheWork) (list : List UInt64) (now : Int32) :
    handOut uid since (uid, begun, .stored list now) = ⟨list, [], []⟩ := if_pos rfl

theorem handOut_of_ne {uid : UInt64} {served : UInt64 × CacheWork × CacheWork} (apart : served.1 ≠ uid)
    (since : HandedOut) : handOut uid since served = since := by
  unfold handOut
  split <;> exact if_neg apart

/-- What of a list is out and what is not: the ids that were taken are the front, and those that the cache has come next.
Of those that were taken some may not have been shown. -/
structure Fronts (since : HandedOut) (entry : Option Entry) : Prop where
  front : since.taken ++ ids entry <+: since.list
  shown : since.shown.Sublist since.taken

theorem Fronts.start (entry : Option Entry) : Fronts ⟨ids entry, [], []⟩ entry := ⟨List.prefix_rfl, .slnil⟩

theorem listedIds_sublist (retVal : Int32) (retLst : List UInt64) : (listedIds retVal retLst).Sublist retLst := by
  unfold listedIds
  split
  · exact .refl _
  · exact List.nil_sublist _

theorem Served.handOut {entries entries' : UInt64 → Option Entry} {served : UInt64 × CacheWork × CacheWork}
    (call : Served config entries served entries') (uid : UInt64) {since : HandedOut}
    (fronts : Fronts since (entries uid)) : Fronts (handOut uid since served) (entries' uid) := by
  by_cases same : served.1 = uid
  · subst same
    cases call with
    | @query task isNewUser rand now unset got outcome seen ran comes read =>
      have left_ : outcome.entry = got.entry := by
        rw [outcome_of_got ran comes]
        rfl
      obtain ⟨front, shown⟩ := fronts
      rw [handOut_finished, Function.update_self, left_]
      refine ⟨?_, shown.append (listedIds_sublist _ _)⟩
      rw [List.append_assoc]
      change since.taken ++ ids (entries task.query.userId) <+: since.list at front
      cases value : entries task.query.userId with
      | none =>
        rw [value] at ran front
        obtain rfl := Option.some.inj ran
        exact front
      | some entry =>
        rw [value] at ran front
        rcases split_of_get ran with whole | ⟨nothing, gone⟩
        · rw [whole]
          exact front
        · rw [nothing, gone]
          exact ((List.prefix_append_right_inj since.taken).mpr List.nil_prefix).trans front
    | @put uid list now entry ran =>
      rw [handOut_stored, Function.update_self]
      unfold FrameworkCache.put at ran
      split at ran
      · obtain rfl := Option.some.inj ran
        exact ⟨List.prefix_rfl, .slnil⟩
      · cases ran
  · have kept : entries' uid = entries uid := by
      cases call with
      | query => exact Function.update_of_ne (Ne.symm same) ..
      | put => exact Function.update_of_ne (Ne.symm same) ..
    rw [handOut_of_ne same, kept]
    exact fronts

variable [DecidableEq Thread] {start state : State Thread UInt64 (Option Entry) CacheWork (Shared Thread)}
  {actions : List (Action Thread UInt64 CacheWork)}

theorem handed_out_of_served {entries entries' : UInt64 → Option Entry} {done : List (UInt64 × CacheWork × CacheWork)}
    (run : Run (Served config) entries done entries') (uid : UInt64) :
    Fronts (handedOutSince uid (entries uid) done) (entries' uid) := by
  induction run with
  | start => exact .start _
  | next _ call ih =>
    rw [handedOutSince, List.foldl_concat]
    exact call.handOut uid ih

/-- With a code that the cache has set, a reply lists what was taken. -/
theorem Served.shown_of_coded {entries entries' : UInt64 → Option Entry} {served : UInt64 × CacheWork × CacheWork}
    (call : Served config entries served entries') (coded : served.2.2.Coded) : served.2.2.shown = served.2.2.taken := by
  cases call with
  | @query task isNewUser rand now unset got outcome seen ran comes read =>
    obtain ⟨code, set⟩ := Option.isSome_iff_exists.mp coded
    have retVal : outcome.retVal = code := by
      rw [outcome_of_got ran comes, Outcome.of, set]
      rfl
    rcases coded_of_get ran set with known | nothing
    · exact if_pos (by rwa [retVal])
    · change listedIds outcome.retVal got.retLst = got.retLst
      rw [nothing]
      exact List.sublist_nil.mp (listedIds_sublist _ _)
  | put ran => rfl

theorem shown_eq_taken {entries entries' : UInt64 → Option Entry} {done : List (UInt64 × CacheWork × CacheWork)}
    (run : Run (Served config) entries done entries') (uid : UInt64)
    (coded : ∀ served ∈ done, served.1 = uid → served.2.2.Coded) :
    (handedOutSince uid (entries uid) done).shown = (handedOutSince uid (entries uid) done).taken := by
  induction run with
  | start => rfl
  | @next done entries' served after _ call ih =>
    have before := ih fun served member => coded served (List.mem_append_left _ member)
    rw [handedOutSince, List.foldl_concat]
    by_cases same : served.1 = uid
    · have here := call.shown_of_coded (coded served (List.mem_concat_self ..) same)
      subst same
      cases call with
      | query =>
        rw [handOut_finished]
        exact congrArg₂ (· ++ ·) before here
      | put => rw [handOut_stored]
    · rw [handOut_of_ne same]
      exact before

end HandedOut

end ContentBased.FrameworkCenter
