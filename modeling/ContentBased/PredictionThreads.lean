import ContentBased.Ranking
import ContentBased.ServedMaps

/-! Predictions that are made while the jobs and the updates go on. -/
namespace ContentBased
open Std DoubleBuffer Function

/-- The mixture of the three sources for the categories of the table. -/
def mixed (options : ModelOptions) (categories : List Int32) (longTerm current newsTrends : Tally Int32) : List ItemTag :=
  if 0 < longTerm.size ∧ 0 < current.size then
    categories.filterMap fun category => (longTerm[category]?).bind fun power => (current[category]?).map fun power' =>
      ⟨category, options.userInterestsMixAlpha * power / totalDistribution longTerm +
        (1 - options.userInterestsMixAlpha) * power' / totalDistribution current⟩
  else if 0 < current.size then
    categories.filterMap fun category => (current[category]?).map fun power => ⟨category, power⟩
  else if 0 < longTerm.size then
    categories.filterMap fun category => (longTerm[category]?).map fun power => ⟨category, power⟩
  else newsTrends.toList.map fun entry => ⟨entry.1, entry.2⟩

/-- The user whose long-term interests count for a user. -/
def dbgUserId (userId : UInt64) : UInt64 := if userId = 310744 then 36706 else userId

namespace Model
variable {υ ι : Type}

theorem mixture_eq_mixed (options : ModelOptions) (model : Model υ ι Trends) (userId : UInt64) :
    model.mixture options userId =
      mixed options model.category.keys (model.longTermInterests userId) (model.currentInterests userId)
        model.newsTrends.fields.mapDist := by
  rw [mixture_eq, mixed]
  refine if_congr Iff.rfl (List.filterMap_congr fun category _ => ?_) rfl
  cases (model.longTermInterests userId)[category]? with
  | none => rfl
  | some power => cases (model.currentInterests userId)[category]? <;> rfl

/-- The model with these interests and these trends. -/
def serving (model : Model υ ι Trends) (interests : Interests) (trends : Trends) : Model υ ι Trends :=
  { model with
    userInterests := { model.userInterests with fields := interests }
    newsTrends := { model.newsTrends with fields := trends } }

/-- The current interests do not depend on the long-term ones. -/
theorem currentInterests_serving (model : Model υ ι Trends) (interests : Interests) (userDist : TallyTable UInt64 Int32)
    (trends : Trends) (userId : UInt64) :
    (model.serving { interests with userDist } trends).currentInterests userId =
      (Interests.queryUserCurrentInterests Interests.exact interests userId model.category).run.2 := by
  have same : Interests.queryUserCurrentInterests Interests.exact { interests with userDist } userId model.category =
      Interests.queryUserCurrentInterests Interests.exact interests userId model.category := by
    apply Interests.queryUserCurrentInterests_congr <;> rfl
  exact congrArg (fun answer => (Id.run answer).2) same

end Model

/-- Where a thread is in `predictUserInterests`, with the maps that it has got. It is lost when it has read a map that was
changed under its iterators. -/
inductive PredictPlace where
  | outside
  | longTerm (userId : UInt64)
  | current (userId : UInt64) (longTerm : Tally Int32)
  | newsTrends (longTerm current : Tally Int32)
  | reading (longTerm current : Tally Int32)
  | lost

structure Predicting (Thread : Type) where
  interests : System Thread Interests UserTable UserQuery
  trends : System Thread Trends TrendsTable TrendsQuery
  places : Thread → PredictPlace

/-- What is done to the tables, and what the threads do: a prediction begins, looks at the map of the users and finds the
interests of its user there, counts up the current interests, notes the map of the trends, looks at it and ends. -/
inductive PredictEvent (Thread : Type) where
  | interests (call : InterestsMaking)
  | trends (call : TrendsMaking)
  | predict (thread : Thread) (userId : UInt64)
  | look (thread : Thread)
  | found (thread : Thread) (answer : MapAnswer)
  | count (thread : Thread)
  | note (thread : Thread)
  | glance (thread : Thread)
  | predicted (thread : Thread) (answer : Option MapAnswer) (dist : Option (List ItemTag))

section Steps
variable {Thread : Type} [DecidableEq Thread]

/-- The current interests are counted up under the lock of the counts, so in one step. -/
inductive PredictStep (options : ModelOptions) (category : ExtTreeMap Int32 Bytes) :
    Predicting Thread → PredictEvent Thread → Predicting Thread → Prop
  | interests {state call after} (made : Step InterestsMaking.making UserQuery.look state.interests (.call call) after) :
      PredictStep options category state (.interests call) { state with interests := after }
  | trends {state call after} (made : Step TrendsMaking.making TrendsQuery.look state.trends (.call call) after) :
      PredictStep options category state (.trends call) { state with trends := after }
  | predict {state thread userId after} (place : state.places thread = .outside)
      (began : Step InterestsMaking.making UserQuery.look state.interests
        (.start thread (.find (dbgUserId userId))) after) :
      PredictStep options category state (.predict thread userId)
        { state with interests := after, places := update state.places thread (.longTerm userId) }
  | look {state thread userId after} (place : state.places thread = .longTerm userId)
      (looked : Step InterestsMaking.making UserQuery.look state.interests (.look thread) after) :
      PredictStep options category state (.look thread) { state with interests := after }
  | found {state thread userId answer after} (place : state.places thread = .longTerm userId)
      (answered : Step InterestsMaking.making UserQuery.look state.interests (.answer thread answer) after) :
      PredictStep options category state (.found thread answer)
        { state with
          interests := after
          places := update state.places thread (answer.elim .lost fun found => .current userId found.2) }
  | count {state thread userId longTerm} (place : state.places thread = .current userId longTerm) :
      PredictStep options category state (.count thread)
        { state with
          places := update state.places thread (.newsTrends longTerm
            (Interests.queryUserCurrentInterests Interests.exact state.interests.buffers.maker userId category).run.2) }
  | note {state thread longTerm current after} (place : state.places thread = .newsTrends longTerm current)
      (began : Step TrendsMaking.making TrendsQuery.look state.trends (.start thread .start) after) :
      PredictStep options category state (.note thread)
        { state with trends := after, places := update state.places thread (.reading longTerm current) }
  | glance {state thread longTerm current after} (place : state.places thread = .reading longTerm current)
      (looked : Step TrendsMaking.making TrendsQuery.look state.trends (.look thread) after) :
      PredictStep options category state (.glance thread) { state with trends := after }
  | predicted {state thread longTerm current answer after} (place : state.places thread = .reading longTerm current)
      (answered : Step TrendsMaking.making TrendsQuery.look state.trends (.answer thread answer) after) :
      PredictStep options category state
        (.predicted thread (some answer)
          (answer.map fun found => mixed options category.keys longTerm current found.2))
        { state with trends := after, places := update state.places thread .outside }
  | lost {state thread} (place : state.places thread = .lost) :
      PredictStep options category state (.predicted thread none none) state

end Steps

namespace PredictEvent
variable {Thread : Type}

def interests? : PredictEvent Thread → Option (Event Thread InterestsMaking UserQuery MapAnswer)
  | .interests call => some (.call call)
  | .predict thread userId => some (.start thread (.find (dbgUserId userId)))
  | .look thread => some (.look thread)
  | .found thread answer => some (.answer thread answer)
  | _ => none

def trends? : PredictEvent Thread → Option (Event Thread TrendsMaking TrendsQuery MapAnswer)
  | .trends call => some (.call call)
  | .note thread => some (.start thread .start)
  | .glance thread => some (.look thread)
  | .predicted thread (some answer) _ => some (.answer thread answer)
  | _ => none

/-- The thread that comes to another place. -/
def moves? : PredictEvent Thread → Option Thread
  | .predict thread _ | .found thread _ | .count thread | .note thread | .predicted thread _ _ => some thread
  | _ => none

end PredictEvent

/-- How a thread goes from place to place. -/
inductive PredictMove {Thread : Type} (options : ModelOptions) (category : ExtTreeMap Int32 Bytes) (fields : Interests)
    (thread : Thread) : PredictPlace → PredictEvent Thread → PredictPlace → Prop
  | predict (userId : UInt64) :
      PredictMove options category fields thread .outside (.predict thread userId) (.longTerm userId)
  | found (userId : UInt64) (answer : MapAnswer) :
      PredictMove options category fields thread (.longTerm userId) (.found thread answer)
        (answer.elim .lost fun found => .current userId found.2)
  | count (userId : UInt64) (longTerm : Tally Int32) :
      PredictMove options category fields thread (.current userId longTerm) (.count thread)
        (.newsTrends longTerm
          (Interests.queryUserCurrentInterests Interests.exact fields userId category).run.2)
  | note (longTerm current : Tally Int32) :
      PredictMove options category fields thread (.newsTrends longTerm current) (.note thread) (.reading longTerm current)
  | predicted (longTerm current : Tally Int32) (answer : MapAnswer) :
      PredictMove options category fields thread (.reading longTerm current)
        (.predicted thread (some answer) (answer.map fun found => mixed options category.keys longTerm current found.2))
        .outside
  | lost : PredictMove options category fields thread .lost (.predicted thread none none) .lost

section Calls
variable {Thread : Type}

def interestsMade (events : List (PredictEvent Thread)) : List InterestsMaking :=
  callsOf (events.filterMap PredictEvent.interests?)

def trendsMade (events : List (PredictEvent Thread)) : List TrendsMaking :=
  callsOf (events.filterMap PredictEvent.trends?)

/-- The interests and the trends once all that has been done to them. -/
def Predicting.interestsAfter (state : Predicting Thread) (events : List (PredictEvent Thread)) : Interests :=
  (interestsMade events).foldl InterestsMaking.run state.interests.buffers.maker

def Predicting.trendsAfter (state : Predicting Thread) (events : List (PredictEvent Thread)) : Trends :=
  (trendsMade events).foldl TrendsMaking.run state.trends.buffers.maker

/-- The fields of the tables are the maps in the memory. -/
structure Predicting.InUse (state : Predicting Thread) : Prop where
  interests : Mirrored Interests.userDist Interests.userDistBak UserTable.dist state.interests.buffers
  trends : Mirrored Trends.mapDist Trends.mapDistTraining TrendsTable.dist state.trends.buffers

theorem interestsMade_append (front back : List (PredictEvent Thread)) :
    interestsMade (front ++ back) = interestsMade front ++ interestsMade back := by
  simp only [interestsMade, callsOf, List.filterMap_append]

theorem trendsMade_append (front back : List (PredictEvent Thread)) :
    trendsMade (front ++ back) = trendsMade front ++ trendsMade back := by
  simp only [trendsMade, callsOf, List.filterMap_append]

end Calls

section Runs
variable {Thread : Type} [DecidableEq Thread] {options : ModelOptions} {category : ExtTreeMap Int32 Bytes}
  {state after : Predicting Thread} {events : List (PredictEvent Thread)} {event : PredictEvent Thread} {thread : Thread}
  {userId : UInt64} {longTerm current : Tally Int32}

theorem run_interests (run : Run (PredictStep options category) state events after) :
    Run (Step InterestsMaking.making UserQuery.look) state.interests (events.filterMap PredictEvent.interests?)
      after.interests := by
  refine run.project Predicting.interests _ fun taken => ?_
  cases taken with
  | interests made => exact Or.inr ⟨_, rfl, made⟩
  | predict place began => exact Or.inr ⟨_, rfl, began⟩
  | look place looked => exact Or.inr ⟨_, rfl, looked⟩
  | found place answered => exact Or.inr ⟨_, rfl, answered⟩
  | _ => exact Or.inl ⟨rfl, rfl⟩

theorem run_trends (run : Run (PredictStep options category) state events after) :
    Run (Step TrendsMaking.making TrendsQuery.look) state.trends (events.filterMap PredictEvent.trends?) after.trends := by
  refine run.project Predicting.trends _ fun taken => ?_
  cases taken with
  | trends made => exact Or.inr ⟨_, rfl, made⟩
  | note place began => exact Or.inr ⟨_, rfl, began⟩
  | glance place looked => exact Or.inr ⟨_, rfl, looked⟩
  | predicted place answered => exact Or.inr ⟨_, rfl, answered⟩
  | _ => exact Or.inl ⟨rfl, rfl⟩

theorem maker_of_run (run : Run (PredictStep options category) state events after) :
    after.interests.buffers.maker = state.interestsAfter events := by
  rw [buffers_of_run (run_interests run), Buffers.maker_foldl]
  rfl

/-- A thread stays where it is, or the event is one of its own. -/
theorem PredictStep.moved (taken : PredictStep options category state event after) (thread : Thread) :
    after.places thread = state.places thread ∧ event.moves? ≠ some thread ∨
      PredictMove options category state.interests.buffers.maker thread (state.places thread) event
        (after.places thread) := by
  have stays {other : Thread} (apart : thread ≠ other) (place : PredictPlace) :
      update state.places other place thread = state.places thread ∧ some other ≠ some thread :=
    ⟨update_of_ne apart _ _, fun same => apart (Option.some.inj same).symm⟩
  cases taken with
  | interests | trends | look | glance => exact Or.inl ⟨rfl, nofun⟩
  | @predict other userId _ place began =>
    by_cases same : thread = other
    · subst same
      refine Or.inr ?_
      simp only [place, update_self]
      exact .predict userId
    · exact Or.inl (stays same _)
  | @found other userId answer _ place answered =>
    by_cases same : thread = other
    · subst same
      refine Or.inr ?_
      simp only [place, update_self]
      exact .found userId answer
    · exact Or.inl (stays same _)
  | @count other userId longTerm place =>
    by_cases same : thread = other
    · subst same
      refine Or.inr ?_
      simp only [place, update_self]
      exact .count userId longTerm
    · exact Or.inl (stays same _)
  | @note other longTerm current _ place began =>
    by_cases same : thread = other
    · subst same
      refine Or.inr ?_
      simp only [place, update_self]
      exact .note longTerm current
    · exact Or.inl (stays same _)
  | @predicted other longTerm current answer _ place answered =>
    by_cases same : thread = other
    · subst same
      refine Or.inr ?_
      simp only [place, update_self]
      exact .predicted longTerm current answer
    · exact Or.inl (stays same _)
  | @lost other place =>
    by_cases same : thread = other
    · subst same
      refine Or.inr ?_
      rw [place]
      exact .lost
    · exact Or.inl ⟨rfl, fun same' => same (Option.some.inj same').symm⟩

/-- A thread leaves its place by a move of its own, before the last event of the run or by it. -/
theorem leaves_place {place : PredictPlace} {final : PredictEvent Thread}
    (run : Run (PredictStep options category) state (events ++ [final]) after) (first : state.places thread = place)
    (gone : final.moves? = some thread) :
    ∃ front event here next, Run (PredictStep options category) state front here ∧
      (∀ event ∈ front, event.moves? ≠ some thread) ∧ PredictStep options category here event next ∧
      PredictMove options category here.interests.buffers.maker thread place event (next.places thread) ∧
      (final = event ∧ events = front ∨
        ∃ back, events = front ++ event :: back ∧ Run (PredictStep options category) next (back ++ [final]) after) := by
  have moves := @Run.leaves _ _ _ _ (fun state => state.places thread = place)
    (fun event : PredictEvent Thread => event.moves? ≠ some thread)
    (fun state event after =>
      PredictMove options category state.interests.buffers.maker thread place event (after.places thread))
    (fun taken here => by
      rcases taken.moved thread with ⟨same, other⟩ | moved
      · exact Or.inl ⟨same.trans here, other⟩
      · rw [here] at moved
        exact Or.inr moved) _ _ run first
  rcases moves with ⟨-, all⟩ | ⟨front, event, back, here, next, split, run, quiet, taken, moved, later⟩
  · exact absurd gone (all final (List.mem_append_right events (List.mem_singleton_self final)))
  · refine ⟨front, event, here, next, run, quiet, taken, moved, ?_⟩
    rcases List.concat_eq_append_cons.mp split with ⟨-, whole, last⟩ | ⟨back, rfl, between⟩
    · exact Or.inl ⟨last, whole⟩
    · exact Or.inr ⟨back, between, later⟩

theorem trends_of_run (run : Run (PredictStep options category) state events after) :
    after.trends.buffers.maker = state.trendsAfter events := by
  rw [buffers_of_run (run_trends run), Buffers.maker_foldl]
  rfl

theorem Predicting.InUse.run (inUse : state.InUse) (run : Run (PredictStep options category) state events after) :
    after.InUse where
  interests := by
    rw [buffers_of_run (run_interests run)]
    exact inUse.interests.foldl InterestsMaking.mirroring _
  trends := by
    rw [buffers_of_run (run_trends run)]
    exact inUse.trends.foldl TrendsMaking.mirroring _

variable {began here next : Predicting Thread} {during : List (PredictEvent Thread)} {answer : MapAnswer}

/-- A thread that finds the interests of a user finds those that were served when it began. -/
theorem found_answer (inUse : state.InUse) (begins : PredictStep options category state (.predict thread userId) began)
    (run : Run (PredictStep options category) began during here) (quiet : ∀ event ∈ during, event.moves? ≠ some thread)
    (found : PredictStep options category here (.found thread answer) next)
    (apart : ¬ Overtakes InterestsMaking.making (interestsMade during)) :
    answer = some (state.interests.buffers.maker.queryUserInterests (dbgUserId userId)) := by
  have whole := run_interests (Run.next (Run.cons begins run) found)
  rw [List.filterMap_append] at whole
  have own : ∀ other, .answer thread other ∉ during.filterMap PredictEvent.interests? := by
    intro other member
    obtain ⟨event, inside, shown⟩ := List.mem_filterMap.mp member
    cases event <;> cases shown
    exact quiet _ inside rfl
  have reads := @answer_of_run _ _ _ _ _ _ _ InterestsMaking.making UserQuery.look _ _ [] _ _ _ _ whole own apart
  exact reads.unique (UserQuery.reads_find inUse.interests.served _)

theorem predicted_answer {dist : Option (List ItemTag)} (inUse : state.InUse)
    (begins : PredictStep options category state (.note thread) began)
    (run : Run (PredictStep options category) began during here) (quiet : ∀ event ∈ during, event.moves? ≠ some thread)
    (ends : PredictStep options category here (.predicted thread (some answer) dist) next)
    (apart : ¬ Overtakes TrendsMaking.making (trendsMade during)) :
    answer = some state.trends.buffers.maker.queryCurrentTrends := by
  have whole := run_trends (Run.next (Run.cons begins run) ends)
  rw [List.filterMap_append] at whole
  have own : ∀ other, .answer thread other ∉ during.filterMap PredictEvent.trends? := by
    intro other member
    obtain ⟨event, inside, shown⟩ := List.mem_filterMap.mp member
    cases event with
    | predicted other' answer' dist' =>
      cases answer' with
      | none => cases shown
      | some answer' =>
        cases shown
        exact quiet _ inside rfl
    | _ => cases shown
  have reads := @answer_of_run _ _ _ _ _ _ _ TrendsMaking.making TrendsQuery.look _ _ [] _ _ _ _ whole own apart
  exact reads.unique (TrendsQuery.reads_start inUse.trends.served)

/-- A prediction that is made while jobs and updates go on is one that is made at once of what there was at three moments:
the long-term interests when it began, the current interests while it counted them up, and the trends when it came to
them. -/
theorem prediction_of_three_moments {υ ι : Type} {model : Model υ ι Trends} {start after : Predicting Thread}
    {before during : List (PredictEvent Thread)} {answer : Option MapAnswer} {dist : Option (List ItemTag)}
    (inUse : start.InUse)
    (run : Run (PredictStep options model.category) start
      (before ++ .predict thread userId :: (during ++ [.predicted thread answer dist])) after)
    (own : ∀ other dist, .predicted thread other dist ∉ during)
    (interestsApart : ¬ Overtakes InterestsMaking.making (interestsMade during))
    (trendsApart : ¬ Overtakes TrendsMaking.making (trendsMade during)) :
    ∃ first second third, during = first ++ .count thread :: second ++ .note thread :: third ∧
      dist = some ((model.serving
        { start.interestsAfter (before ++ first) with userDist := (start.interestsAfter before).userDist }
        (start.trendsAfter (before ++ first ++ second))).mixture options userId) := by
  obtain ⟨s0, run0, rest⟩ := run.split
  obtain ⟨s1, began, rest1⟩ := @Run.split _ _ _ _ [PredictEvent.predict thread userId] _ _ rest
  have began := began.of_single
  have place1 : s1.places thread = .longTerm userId := by
    cases began with
    | predict => exact update_self ..
  -- the long-term interests
  obtain ⟨e1, event1, s2, s3, run1, quiet1, taken1, moved1, later⟩ := leaves_place rest1 place1 rfl
  generalize place3 : s3.places thread = after1 at moved1
  cases moved1 with
  | found _ answer1 =>
  rcases later with ⟨same, -⟩ | ⟨back1, rfl, rest3⟩
  · cases same
  rw [interestsMade_append] at interestsApart
  have answer1_eq := found_answer (inUse.run run0) began run1 quiet1 taken1
    fun overtakes => interestsApart (overtakes.append [] _)
  rw [maker_of_run run0] at answer1_eq
  rw [answer1_eq, Option.elim_some] at place3
  -- the current interests
  obtain ⟨e2, event2, s4, s5, run2, quiet2, taken2, moved2, later⟩ := leaves_place rest3 place3 rfl
  generalize place5 : s5.places thread = after2 at moved2
  cases moved2 with
  | count =>
  rcases later with ⟨same, -⟩ | ⟨back2, rfl, rest5⟩
  · cases same
  have until4 := (((run0.next began).append run1).next taken1).append run2
  rw [maker_of_run until4] at place5
  -- the news trends
  obtain ⟨e3, event3, s6, s7, run3, quiet3, taken3, moved3, later⟩ := leaves_place rest5 place5 rfl
  generalize place7 : s7.places thread = after3 at moved3
  cases moved3 with
  | note =>
  rcases later with ⟨same, -⟩ | ⟨back3, rfl, rest7⟩
  · cases same
  have until6 := (until4.next taken2).append run3
  obtain ⟨e4, event4, s8, s9, run4, quiet4, taken4, moved4, later⟩ := leaves_place rest7 place7 rfl
  generalize s9.places thread = after4 at moved4
  cases moved4 with
  | predicted _ _ answer4 =>
  rcases later with ⟨same, rfl⟩ | ⟨back4, rfl, -⟩
  · cases same
    have suffix : trendsMade (e1 ++ .found thread answer1 :: (e2 ++ .count thread :: (e3 ++ .note thread :: back3))) =
        trendsMade (e1 ++ .found thread answer1 :: (e2 ++ .count thread :: (e3 ++ [.note thread]))) ++
          trendsMade back3 ++ [] := by
      rw [List.append_nil, ← trendsMade_append]
      simp only [List.append_assoc, List.cons_append, List.nil_append]
    have answer4_eq := predicted_answer (inUse.run until6) taken3 run4 quiet4 taken4 fun overtakes => by
      rw [suffix] at trendsApart
      exact trendsApart (overtakes.append _ [])
    rw [trends_of_run until6] at answer4_eq
    have counted : start.interestsAfter (before ++ [.predict thread userId] ++ e1 ++ [.found thread answer1] ++ e2) =
        start.interestsAfter (before ++ (e1 ++ [.found thread answer1] ++ e2)) := by
      simp only [Predicting.interestsAfter, interestsMade_append, List.append_assoc]
      rfl
    have trained : start.trendsAfter (before ++ [.predict thread userId] ++ e1 ++ [.found thread answer1] ++ e2 ++
        [.count thread] ++ e3) = start.trendsAfter (before ++ (e1 ++ [.found thread answer1] ++ e2) ++ e3) := by
      simp only [Predicting.trendsAfter, trendsMade_append, List.append_assoc]
      rfl
    refine ⟨e1 ++ [.found thread answer1] ++ e2, e3, back3, by simp, ?_⟩
    rw [answer4_eq, Option.map_some, counted, trained, Model.mixture_eq_mixed, Model.currentInterests_serving]
    rfl
  · exact (own _ _ (List.mem_append_right e1 (List.mem_cons_of_mem _ (List.mem_append_right e2 (List.mem_cons_of_mem _
      (List.mem_append_right e3 (List.mem_cons_of_mem _ (List.mem_append_right e4 List.mem_cons_self)))))))).elim

end Runs

/-- One user with one interest. -/
def oneServed : Predicting Unit where
  interests := ⟨⟨(Model.remembered [(5, 1)]).userInterests.fields,
    fun served => ⟨if served then (Model.remembered [(5, 1)]).userInterests.fields.userDist else ∅, 0⟩, true⟩,
    fun _ => none⟩
  trends := ⟨⟨(Model.remembered [(5, 1)]).newsTrends.fields, fun _ => ⟨∅, 0⟩, true⟩, fun _ => none⟩
  places _ := .outside

/-- A reload puts an empty map in its place while the interests of the user are read. -/
def duringReload : List (PredictEvent Unit) :=
  [.interests .reloadBefore, .look (), .interests .reloadCompleted, .look (),
    .found () (some ((Model.remembered [(5, 1)]).userInterests.fields.queryUserInterests 1)), .count (), .note (),
    .glance ()]

theorem prediction_during_reload : ∃ dist after, Run (PredictStep { workPath := "" } (Model.remembered [(5, 1)]).category)
      oneServed ([] ++ .predict () 1 :: (duringReload ++ [.predicted () (some (some (.ok (), ∅))) dist])) after ∧
    dist = some [⟨5, 1⟩] ∧
    ∃ first second third, duringReload = first ++ .count () :: second ++ .note () :: third ∧
      dist = some (((Model.remembered [(5, 1)]).serving
        { oneServed.interestsAfter ([] ++ first) with userDist := (oneServed.interestsAfter []).userDist }
        (oneServed.trendsAfter ([] ++ first ++ second))).mixture { workPath := "" } 1) := by
  have interestsApart : ¬ Overtakes InterestsMaking.making (interestsMade duringReload) := by
    rintro ⟨before, swap, after, edit, split, swaps, member, edits⟩
    change [InterestsMaking.reloadBefore, .reloadCompleted] = before ++ swap :: after at split
    rcases before with _ | ⟨first, _ | ⟨second, before⟩⟩
    · cases split
      cases swaps
    · cases split
      cases member
    · have lengths := congrArg List.length split
      simp at lengths
  have trendsApart : ¬ Overtakes TrendsMaking.making (trendsMade duringReload) := by
    rintro ⟨before, swap, after, edit, split, -⟩
    cases before <;> cases split
  have inUse : oneServed.InUse := ⟨⟨rfl, rfl⟩, ⟨rfl, rfl⟩⟩
  have run : ∃ dist after, Run (PredictStep { workPath := "" } (Model.remembered [(5, 1)]).category) oneServed
      ([] ++ .predict () 1 :: (duringReload ++ [.predicted () (some (some (.ok (), ∅))) dist])) after ∧
      dist = some [⟨5, 1⟩] := by
    exact ⟨_, _, .cons (.predict rfl (.start rfl)) <| .cons (.interests .call) <| .cons (.look rfl (.look rfl rfl)) <|
      .cons (.interests .call) <| .cons (.look rfl (.look rfl rfl)) <| .cons (.found rfl (.answer rfl rfl)) <|
      .cons (.count rfl) <| .cons (.note rfl (.start rfl)) <| .cons (.glance rfl (.look rfl rfl)) <|
      .cons (.predicted rfl (.answer rfl rfl)) .start, rfl⟩
  obtain ⟨dist, after, run, value⟩ := run
  refine ⟨dist, after, run, value, prediction_of_three_moments inUse run ?_ interestsApart trendsApart⟩
  intro other dist member
  simp [duringReload] at member

end ContentBased
