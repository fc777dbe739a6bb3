import ContentBased.FailedAction

namespace ContentBased
open RecordDisk

/-- Where a request of `updateAction` stands: before one of its calls, or at its end. -/
inductive Pc where
  | check
  | mark
  | fetch
  | news (click : CategoryClick) (rest : List Int)
  | interests (click : CategoryClick) (rest : List Int)
  | done (status : Status)
deriving DecidableEq

section
variable {υ ι ν : Type}

/-- The request at the head of the loop over the keys of the item: at the next category, or at
its end. -/
def Pc.loop (items : ItemDB ι) (click : CategoryClick) : List Int → Pc
  | [] => .done (.ok ())
  | key :: rest =>
    if (items.typeId key).type ≠ .category then Pc.loop items click rest
    else .news { click with categoryId := (items.typeId key).id } rest

def Pc.start (action : Action) : Pc :=
  if action.action ≠ .click ∧ action.action ≠ .like ∧ action.action ≠ .comment ∧
      action.action ≠ .favorite ∧ action.action ≠ .share then .done (.ok ())
  else .check

/-- One call of `updateAction`, which nothing interrupts. -/
def Model.advance (users : UserDB υ) (items : ItemDB ι) (action : Action) (pc : Pc) (model : Model υ ι ν) :
    Program (Pc × Model υ ι ν) :=
  match pc with
  | .check =>
    let lastModified := users.findUserReaded model.userDb action.userId action.itemId
    if lastModified.isSome ∧ 0 < lastModified.getD 0 then return (.done (.ok ()), model)
    else return (.mark, model)
  | .mark =>
    match users.updateAction model.userDb action with
    | (.error failure, userDb) => return (.done (.error failure), { model with userDb })
    | (.ok (), userDb) => return (.fetch, { model with userDb })
  | .fetch =>
    match items.fetchItemBelongsTo model.itemDb action.itemId with
    | .error failure => return (.done (.error failure), model)
    | .ok belongsTo => return (Pc.loop items ⟨action.userId, 0, action.clickTime⟩ belongsTo, model)
  | .news click rest => do
    match ← model.newsTrends.addClick click with
    | .error failure => return (.done (.error failure), model)
    | .ok () => return (.interests click rest, model)
  | .interests click rest => do
    match ← UserInterests.addClick model.userInterests click with
    | (.error failure, userInterests) => return (.done (.error failure), { model with userInterests })
    | (.ok (), userInterests) => return (Pc.loop items click rest, { model with userInterests })
  | .done status => return (.done status, model)

/-- What a request that stands there does from now on if nothing comes between. -/
def Model.remaining (users : UserDB υ) (items : ItemDB ι) (action : Action) (model : Model υ ι ν) :
    Pc → Program (Status × Model υ ι ν)
  | .check => updateAction users items model action
  | .mark => fromMark users items action model
  | .fetch => fromFetch items action model
  | .news click rest => fromNews items click rest model
  | .interests click rest => fromInterests items click rest model
  | .done status => return (status, model)

theorem Model.remaining_loop (users : UserDB υ) (items : ItemDB ι) (action : Action) (model : Model υ ι ν)
    (click : CategoryClick) (keys : List Int) :
    remaining users items action model (Pc.loop items click keys) = addClicks items click keys model := by
  induction keys with
  | nil => rfl
  | cons key rest ih =>
    rw [Pc.loop]
    by_cases category : (items.typeId key).type ≠ .category
    · rw [if_pos category, ih]
      exact (if_pos category).symm
    · rw [if_neg category]
      exact (addClicks_category items click rest model (not_not.mp category)).symm

theorem Pc.counted_of_start {action : Action} (start : Pc.start action = .check) : action.action.Counted := by
  rw [ActionType.counted_iff]
  intro other
  rw [Pc.start, if_pos other] at start
  cases start

theorem Model.remaining_start (users : UserDB υ) (items : ItemDB ι) (action : Action) (model : Model υ ι ν) :
    remaining users items action model (Pc.start action) = updateAction users items model action := by
  unfold Pc.start
  split
  · next other => exact (if_pos other).symm
  · rfl

/-- A call and what remains after it is what remained before it. -/
theorem Model.advance_remaining (users : UserDB υ) (items : ItemDB ι) (action : Action) (model : Model υ ι ν) (pc : Pc)
    (counted : pc = .check → action.action.Counted) :
    (advance users items action pc model >>= fun result => remaining users items action result.2 result.1) =
      remaining users items action model pc := by
  cases pc with
  | check =>
    by_cases repeated : users.Marked model.userDb action.userId action.itemId
    · rw [remaining, updateAction_marked users items model repeated]
      rw [users.marked_iff] at repeated
      simp only [advance, if_pos repeated]
      rfl
    · rw [remaining, updateAction_fresh users items model (counted rfl) repeated]
      rw [users.marked_iff] at repeated
      simp only [advance, if_neg repeated]
      rfl
  | mark =>
    simp only [advance, remaining, fromMark]
    rcases users.updateAction model.userDb action with ⟨_ | _, userDb⟩ <;> rfl
  | fetch =>
    simp only [advance, remaining, fromFetch]
    cases items.fetchItemBelongsTo model.itemDb action.itemId with
    | error failure => rfl
    | ok belongsTo => exact remaining_loop users items action model _ belongsTo
  | news click rest =>
    simp only [advance, remaining, fromNews, bind_assoc]
    refine congrArg (model.newsTrends.addClick click >>= ·) (funext fun status => ?_)
    cases status <;> rfl
  | interests click rest =>
    simp only [advance, remaining, fromInterests, bind_assoc]
    refine congrArg (UserInterests.addClick model.userInterests click >>= ·) (funext fun result => ?_)
    rcases result with ⟨_ | _, userInterests⟩
    · rfl
    · exact remaining_loop users items action _ click rest
  | done status => rfl

end

/-- The model with the requests `ρ` that work on it. -/
structure RequestsState (ρ υ ι ν : Type) where
  model : Model υ ι ν
  pcs : ρ → Pc
  world : World FileName Bytes Failure

/-- A step of a run: whose it is, and where all the requests stood. -/
structure RequestStep (ρ : Type) where
  request : ρ
  pcs : ρ → Pc

section
variable {ρ υ ι ν : Type} [DecidableEq ρ] (users : UserDB υ) (items : ItemDB ι) (actions : ρ → Action)

/-- Any of the requests makes its next call. -/
inductive RequestsStep : RequestsState ρ υ ι ν → RequestStep ρ → RequestsState ρ υ ι ν → Prop
  | call (request) {state pc model world} :
      Model.advance users items (actions request) (state.pcs request) state.model state.world =
        .ok ((pc, model), world) →
      RequestsStep state ⟨request, state.pcs⟩ ⟨model, Function.update state.pcs request pc, world⟩

/-- The runs in which the requests make their calls in any order. -/
abbrev RequestsReach (model : Model υ ι ν) (world : World FileName Bytes Failure) :
    List (RequestStep ρ) → RequestsState ρ υ ι ν → Prop :=
  Run (RequestsStep users items actions) ⟨model, fun request => Pc.start (actions request), world⟩

/-- The two actions are of one user on one item. -/
def Action.SamePair (left right : Action) : Prop :=
  left.userId = right.userId ∧ left.itemId = right.itemId

/-- The request is past its marking and not at its end. -/
def Pc.Marked : Pc → Prop
  | .fetch | .news _ _ | .interests _ _ => True
  | _ => False

/-- The next call of the request adds a click to one of the logs. -/
def Pc.Adds : Pc → Prop
  | .news _ _ | .interests _ _ => True
  | _ => False

theorem Pc.Adds.marked {pc : Pc} (adds : pc.Adds) : pc.Marked := by
  cases pc <;> trivial

def RequestStep.AddsClick (step : RequestStep ρ) : Prop :=
  (step.pcs step.request).Adds

/-- All the clicks that are added for one user and item come from one request. -/
def CountedOnce (steps : List (RequestStep ρ)) : Prop :=
  ∀ first ∈ steps, ∀ second ∈ steps, first.AddsClick → second.AddsClick →
    (actions first.request).SamePair (actions second.request) → first.request = second.request

/-- No request makes its check while one for the same user and item is about to mark it. -/
def RequestStep.Undisturbed (step : RequestStep ρ) : Prop :=
  step.pcs step.request = .check → ∀ other, (actions step.request).SamePair (actions other) → step.pcs other ≠ .mark

/-- An update leaves the marks there are. -/
def UserDB.KeepsMarks : Prop :=
  ∀ userDb action userId itemId, users.Marked userDb userId itemId →
    users.Marked (users.updateAction userDb action).2 userId itemId

/-- The request has not ended after its marking, or it has added a click. -/
def PastMarking (steps : List (RequestStep ρ)) (state : RequestsState ρ υ ι ν) (request : ρ) : Prop :=
  (state.pcs request).Marked ∨ ∃ step ∈ steps, step.request = request ∧ step.AddsClick

/-- Of the requests for one user and item at most one has found it unmarked and gone on, and the
item is marked once that request is past its marking. -/
structure Exclusive (steps : List (RequestStep ρ)) (state : RequestsState ρ υ ι ν) : Prop where
  single : ∀ left right, (actions left).SamePair (actions right) →
    (state.pcs left = .mark ∨ PastMarking steps state left) →
    (state.pcs right = .mark ∨ PastMarking steps state right) → left = right
  marked : ∀ request, PastMarking steps state request →
    users.Marked state.model.userDb (actions request).userId (actions request).itemId

theorem Pc.loop_cases (items : ItemDB ι) (click : CategoryClick) (keys : List Int) :
    (Pc.loop items click keys).Marked ∨ ∃ status, Pc.loop items click keys = .done status := by
  induction keys with
  | nil => exact Or.inr ⟨_, rfl⟩
  | cons key rest ih =>
    rw [Pc.loop]
    by_cases category : (items.typeId key).type ≠ .category
    · rwa [if_pos category]
    · rw [if_neg category]
      exact Or.inl trivial

/-- What a call can do to the user table, and where it can bring its request. -/
theorem Model.advance_cases {action : Action} {pc next : Pc} {model after : Model υ ι ν}
    {world world' : World FileName Bytes Failure}
    (run : advance users items action pc model world = .ok ((next, after), world')) :
    (pc = .check ∧ ¬ users.Marked model.userDb action.userId action.itemId ∧ next = .mark ∧ after.userDb = model.userDb) ∨
      (pc = .mark ∧ after.userDb = (users.updateAction model.userDb action).2 ∧
        (next.Marked ∧ (users.updateAction model.userDb action).1 = .ok () ∨ ∃ status, next = .done status)) ∨
      (pc.Marked ∧ next.Marked ∧ after.userDb = model.userDb) ∨
      (∃ status, next = .done status) ∧ after.userDb = model.userDb := by
  cases pc with
  | check =>
    by_cases repeated : users.Marked model.userDb action.userId action.itemId
    · rw [users.marked_iff] at repeated
      simp only [advance, if_pos repeated] at run
      cases run
      exact Or.inr (Or.inr (Or.inr ⟨⟨_, rfl⟩, rfl⟩))
    · have unread := repeated
      rw [users.marked_iff] at unread
      simp only [advance, if_neg unread] at run
      cases run
      exact Or.inl ⟨rfl, repeated, rfl, rfl⟩
  | mark =>
    refine Or.inr (Or.inl ⟨rfl, ?_⟩)
    simp only [advance] at run
    rcases updated : users.updateAction model.userDb action with ⟨_ | _, userDb⟩
    · rw [updated] at run
      cases run
      exact ⟨rfl, Or.inr ⟨_, rfl⟩⟩
    · rw [updated] at run
      cases run
      exact ⟨rfl, Or.inl ⟨trivial, rfl⟩⟩
  | fetch =>
    refine Or.inr (Or.inr ?_)
    simp only [advance] at run
    cases fetched : items.fetchItemBelongsTo model.itemDb action.itemId with
    | error failure =>
      rw [fetched] at run
      cases run
      exact Or.inr ⟨⟨_, rfl⟩, rfl⟩
    | ok belongsTo =>
      rw [fetched] at run
      cases run
      rcases Pc.loop_cases items ⟨action.userId, 0, action.clickTime⟩ belongsTo with adding | ended
      · exact Or.inl ⟨trivial, adding, rfl⟩
      · exact Or.inr ⟨ended, rfl⟩
  | news click rest =>
    refine Or.inr (Or.inr ?_)
    obtain ⟨status, _, _, run⟩ := bind_inv run
    cases status with
    | error failure =>
      cases run
      exact Or.inr ⟨⟨_, rfl⟩, rfl⟩
    | ok _ =>
      cases run
      exact Or.inl ⟨trivial, trivial, rfl⟩
  | interests click rest =>
    refine Or.inr (Or.inr ?_)
    obtain ⟨⟨status, userInterests⟩, _, _, run⟩ := bind_inv run
    cases status with
    | error failure =>
      cases run
      exact Or.inr ⟨⟨_, rfl⟩, rfl⟩
    | ok _ =>
      cases run
      rcases Pc.loop_cases items click rest with adding | ended
      · exact Or.inl ⟨trivial, adding, rfl⟩
      · exact Or.inr ⟨ended, rfl⟩
  | done status =>
    cases run
    exact Or.inr (Or.inr (Or.inr ⟨⟨_, rfl⟩, rfl⟩))

variable {users items actions}

theorem RequestsStep.inv {state after : RequestsState ρ υ ι ν} {step : RequestStep ρ}
    (taken : RequestsStep users items actions state step after) :
    step.pcs = state.pcs ∧ ∃ next, after.pcs = Function.update state.pcs step.request next ∧
      Model.advance users items (actions step.request) (state.pcs step.request) state.model state.world =
        .ok ((next, after.model), after.world) := by
  cases taken with
  | call _ run => exact ⟨rfl, _, rfl, run⟩

theorem RequestsStep.keeps_marks (keeps : users.KeepsMarks) {state after : RequestsState ρ υ ι ν} {step : RequestStep ρ}
    (taken : RequestsStep users items actions state step after) {userId itemId : UInt64}
    (marked : users.Marked state.model.userDb userId itemId) : users.Marked after.model.userDb userId itemId := by
  obtain ⟨_, next, _, run⟩ := taken.inv
  rcases Model.advance_cases users items run with ⟨_, _, _, same⟩ | ⟨_, same, _⟩ | ⟨_, _, same⟩ | ⟨_, same⟩
  · rwa [same]
  · rw [same]
    exact keeps _ _ _ _ marked
  · rwa [same]
  · rwa [same]

/-- A request comes past its marking only by marking the item. -/
theorem RequestsStep.past_marking {state after : RequestsState ρ υ ι ν} {steps : List (RequestStep ρ)}
    {step : RequestStep ρ} (taken : RequestsStep users items actions state step after) {request : ρ}
    (past : PastMarking (steps ++ [step]) after request) :
    PastMarking steps state request ∨ state.pcs request = .mark ∧
      (users.updateAction state.model.userDb (actions request)).1 = .ok () ∧
        after.model.userDb = (users.updateAction state.model.userDb (actions request)).2 := by
  obtain ⟨before, next, moved, run⟩ := taken.inv
  rcases past with marked | ⟨earlier, member, same, adds⟩
  · by_cases own : request = step.request
    · subst own
      rw [moved, Function.update_self] at marked
      rcases Model.advance_cases users items run with
        ⟨_, _, rfl, _⟩ | ⟨marking, same, ⟨_, updated⟩ | ⟨status, rfl⟩⟩ | ⟨started, _, _⟩ | ⟨⟨status, rfl⟩, _⟩
      · cases marked
      · exact Or.inr ⟨marking, updated, same⟩
      · cases marked
      · exact Or.inl (Or.inl started)
      · cases marked
    · rw [moved, Function.update_of_ne own] at marked
      exact Or.inl (Or.inl marked)
  · rcases List.mem_append.mp member with member | member
    · exact Or.inl (Or.inr ⟨earlier, member, same, adds⟩)
    · cases List.mem_singleton.mp member
      subst same
      exact Or.inl (Or.inl (before ▸ adds.marked))

/-- A request comes to its marking only by finding the item unmarked. -/
theorem RequestsStep.involved {state after : RequestsState ρ υ ι ν} {steps : List (RequestStep ρ)}
    {step : RequestStep ρ} (taken : RequestsStep users items actions state step after) {request : ρ}
    (involved : after.pcs request = .mark ∨ PastMarking (steps ++ [step]) after request) :
    (state.pcs request = .mark ∨ PastMarking steps state request) ∨
      step.request = request ∧ step.pcs request = .check ∧
        ¬ users.Marked state.model.userDb (actions request).userId (actions request).itemId := by
  rcases involved with marking | past
  · obtain ⟨before, next, moved, run⟩ := taken.inv
    by_cases own : request = step.request
    · subst own
      rw [moved, Function.update_self] at marking
      subst marking
      rcases Model.advance_cases users items run with
        ⟨check, fresh, _, _⟩ | ⟨marking, _, _⟩ | ⟨_, impossible, _⟩ | ⟨⟨status, impossible⟩, _⟩
      · exact Or.inr ⟨rfl, before ▸ check, fresh⟩
      · exact Or.inl (Or.inl marking)
      · cases impossible
      · cases impossible
    · rw [moved, Function.update_of_ne own] at marking
      exact Or.inl (Or.inl marking)
  · rcases taken.past_marking past with past | ⟨marking, _, _⟩
    · exact Or.inl (Or.inr past)
    · exact Or.inl (Or.inl marking)

omit [DecidableEq ρ] in
theorem Exclusive.start (model : Model υ ι ν) (world : World FileName Bytes Failure) :
    Exclusive users actions [] ⟨model, fun request => Pc.start (actions request), world⟩ := by
  have unmarked (request : ρ) : Pc.start (actions request) ≠ .mark ∧ ¬ (Pc.start (actions request)).Marked := by
    unfold Pc.start
    split <;> exact ⟨nofun, id⟩
  have none {request : ρ}
      (past : PastMarking [] ⟨model, fun request => Pc.start (actions request), world⟩ request) : False := by
    rcases past with marked | ⟨step, member, _⟩
    · exact (unmarked request).2 marked
    · cases member
  constructor
  · rintro left right pair (marking | past) _
    · exact absurd marking (unmarked left).1
    · exact (none past).elim
  · intro request past
    exact (none past).elim

theorem Exclusive.step (marks : users.MarksUpdated) (keeps : users.KeepsMarks) {state after : RequestsState ρ υ ι ν}
    {steps : List (RequestStep ρ)} {step : RequestStep ρ} (exclusive : Exclusive users actions steps state)
    (taken : RequestsStep users items actions state step after) (undisturbed : step.Undisturbed actions) :
    Exclusive users actions (steps ++ [step]) after := by
  have before := taken.inv.1
  -- a request that starts to mark meets no other one for the same item
  have alone {left right : ρ} (pair : (actions left).SamePair (actions right)) (current : step.request = left)
      (check : step.pcs left = .check)
      (fresh : ¬ users.Marked state.model.userDb (actions left).userId (actions left).itemId)
      (involved : state.pcs right = .mark ∨ PastMarking steps state right) : False := by
    subst current
    rcases involved with marking | past
    · exact undisturbed check right pair (before ▸ marking)
    · rw [pair.1, pair.2] at fresh
      exact fresh (exclusive.marked right past)
  constructor
  · intro left right pair leftInvolved rightInvolved
    rcases taken.involved leftInvolved with leftInvolved | ⟨leftCurrent, leftCheck, leftFresh⟩ <;>
    rcases taken.involved rightInvolved with rightInvolved | ⟨rightCurrent, rightCheck, rightFresh⟩
    · exact exclusive.single left right pair leftInvolved rightInvolved
    · exact (alone ⟨pair.1.symm, pair.2.symm⟩ rightCurrent rightCheck rightFresh leftInvolved).elim
    · exact (alone pair leftCurrent leftCheck leftFresh rightInvolved).elim
    · exact leftCurrent.symm.trans rightCurrent
  · intro request past
    rcases taken.past_marking past with past | ⟨_, updated, same⟩
    · exact taken.keeps_marks keeps (exclusive.marked request past)
    · rw [same]
      exact marks _ _ updated

/-- In every run in which no request makes its check while another one for the same user and
item is about to mark it, the clicks for one user and item come from one request. -/
theorem counted_once_of_undisturbed (marks : users.MarksUpdated) (keeps : users.KeepsMarks) {model : Model υ ι ν}
    {world : World FileName Bytes Failure} {steps : List (RequestStep ρ)} {state : RequestsState ρ υ ι ν}
    (reach : RequestsReach users items actions model world steps state)
    (undisturbed : ∀ step ∈ steps, step.Undisturbed actions) : CountedOnce actions steps := by
  have exclusive : Exclusive users actions steps state := by
    induction reach with
    | start => exact Exclusive.start model world
    | @next steps state step after _ taken ih =>
      have earlier := ih fun earlier member => undisturbed earlier (List.mem_append_left _ member)
      exact earlier.step marks keeps taken (undisturbed step (by simp))
  intro first firstMember second secondMember firstAdds secondAdds pair
  exact exclusive.single _ _ pair (Or.inr (Or.inr ⟨first, firstMember, rfl, firstAdds⟩))
    (Or.inr (Or.inr ⟨second, secondMember, rfl, secondAdds⟩))

/-- A request that nothing comes between does what `updateAction` does. -/
theorem RequestsReach.alone {model : Model υ ι ν} {world : World FileName Bytes Failure}
    {steps : List (RequestStep ρ)} {state : RequestsState ρ υ ι ν}
    (reach : RequestsReach users items actions model world steps state) {request : ρ}
    (own : ∀ step ∈ steps, step.request = request) {status : Status} (ended : state.pcs request = .done status) :
    Model.updateAction users items model (actions request) world = .ok ((status, state.model), state.world) := by
  have kept : Model.remaining users items (actions request) state.model (state.pcs request) state.world =
        Model.updateAction users items model (actions request) world ∧
      (state.pcs request = .check → (actions request).action.Counted) := by
    clear ended
    induction reach with
    | start =>
      exact ⟨congrFun (Model.remaining_start users items (actions request) model) world, Pc.counted_of_start⟩
    | @next steps state step after _ taken ih =>
      obtain ⟨same, counted⟩ := ih fun earlier member => own earlier (List.mem_append_left _ member)
      obtain ⟨_, next, moved, run⟩ := taken.inv
      have current := own step (by simp)
      subst current
      rw [moved, Function.update_self]
      refine ⟨?_, ?_⟩
      · rw [← same, ← Model.advance_remaining users items _ state.model _ counted, bind_of_ok run]
      · intro check
        subst check
        rcases Model.advance_cases users items run with
          ⟨_, _, impossible, _⟩ | ⟨_, _, ⟨impossible, _⟩ | ⟨_, impossible⟩⟩ | ⟨_, impossible, _⟩ | ⟨⟨_, impossible⟩, _⟩ <;>
        cases impossible
  rw [← kept.1, ended]
  rfl

end

theorem readPairs_keepsMarks : readPairs.KeepsMarks := by
  intro pairs action userId itemId marked
  obtain ⟨lastModified, found, _⟩ := marked
  have member : (userId, itemId) ∈ pairs := by
    by_contra missing
    rw [show readPairs.findUserReaded pairs userId itemId = none from if_neg missing] at found
    cases found
  exact ⟨1, if_pos (List.mem_cons_of_mem _ member), by decide⟩

/-- The click of user 7 on item 5. -/
def sameClick (_ : Bool) : Action := ⟨7, 5, .click, 90000⟩

/-- The second request comes once the first has marked the item. -/
theorem second_request_passed_over : ∃ steps state,
    RequestsReach readPairs oneItem sameClick openedModel ⟨fun _ => none, []⟩ steps state ∧
      steps.map RequestStep.request = [false, false, true, false, false, false] ∧
      CountedOnce sameClick steps := by
  obtain ⟨steps, state, reach, order, pcs⟩ : ∃ steps state,
      RequestsReach readPairs oneItem sameClick openedModel ⟨fun _ => none, []⟩ steps state ∧
        steps.map RequestStep.request = [false, false, true, false, false, false] ∧
        ∀ step ∈ steps, step.pcs step.request = .check → ∀ other, step.pcs other ≠ .mark := by
    refine ⟨_, _, .next (.next (.next (.next (.next (.next .start (.call false rfl)) (.call false rfl)) (.call true rfl))
      (.call false rfl)) (.call false rfl)) (.call false rfl), rfl, by decide⟩
  refine ⟨steps, state, reach, order, ?_⟩
  exact counted_once_of_undisturbed readPairs_marksUpdated readPairs_keepsMarks reach
    fun step member check other _ => pcs step member check other

/-- Two clicks of one user on one item are both found to be the first, and both come into the
logs. -/
theorem click_counted_twice : ∃ steps state,
    RequestsReach readPairs oneItem sameClick openedModel ⟨fun _ => some (.synced []), []⟩ steps state ∧
      state.pcs false = .done (.ok ()) ∧ state.pcs true = .done (.ok ()) ∧
      (∀ log ∈ ["news-trends", "user-interests"],
        ((state.world.disk (.writing "." log)).getD (.synced [])).content.length = 2) ∧ ¬ CountedOnce sameClick steps := by
  refine ⟨_, _, .next (.next (.next (.next (.next (.next (.next (.next (.next (.next .start (.call false rfl))
    (.call true rfl)) (.call false rfl)) (.call true rfl)) (.call false rfl)) (.call true rfl)) (.call false rfl)) (.call true rfl))
    (.call false rfl)) (.call true rfl), rfl, rfl, by decide, fun once => ?_⟩
  have same := once _ (List.mem_append_left _ (List.mem_append_right _ List.mem_cons_self)) _
    (List.mem_append_right _ List.mem_cons_self) trivial trivial ⟨rfl, rfl⟩
  cases same

end ContentBased
