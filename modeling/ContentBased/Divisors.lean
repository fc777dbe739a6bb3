import ContentBased.HookRuns
import ContentBased.CurrentInterests

namespace ContentBased
open Std (ExtTreeMap)

namespace Interests

theorem trainUserCategory_entry {userId other : UInt64} {categoryId category : Int32} {count : Int} {fields : Interests} :
    category ∈ (trainUserCategory userId categoryId count fields).currentUserDist.getD other ∅ ↔
      (userId, categoryId) = (other, category) ∨ category ∈ fields.currentUserDist.getD other ∅ := by
  unfold trainUserCategory
  by_cases sameUser : userId = other
  · subst sameUser
    simp [ExtTreeMap.mem_insert]
  · simp [ExtTreeMap.getD_insert, sameUser]

/-- The states that trainings, moves of the window and eliminations of events that were counted lead to from empty
maps, with the events that were counted and those that were taken off again. -/
inductive Adjusted (opts : ModelOptions) : List LogEvent → List LogEvent → Interests → Prop
  | start {fields : Interests} : fields.options = opts → fields.currentDist = ∅ → fields.currentUserDist = ∅ →
      Adjusted opts [] [] fields
  | train {counted removed : List LogEvent} {fields : Interests} (event : LogEvent) :
      Adjusted opts counted removed fields →
      Adjusted opts (if fields.currentDay < event.publishTime then counted ++ [event] else counted) removed
        (event.handle trainClick trainItem fields)
  | advance {counted removed : List LogEvent} {fields : Interests} (day : Int) : Adjusted opts counted removed fields →
      Adjusted opts counted removed { fields with currentDay := day }
  | eliminate {counted removed : List LogEvent} {fields : Interests} (event : LogEvent) :
      Adjusted opts counted removed fields → event ∈ counted →
      Adjusted opts counted (if event.publishTime ≤ fields.currentDay then removed ++ [event] else removed)
        (event.handle eliminateClick eliminateItem fields)

/-- The entries of the maps are those of the counted events, and the overall counts are what is left of them. -/
structure Remaining (opts : ModelOptions) (counted removed : List LogEvent) (fields : Interests) : Prop where
  options : fields.options = opts
  dist : ∀ category, fields.currentDist.getD category 0 =
    (counted.filterMap (LogEvent.category opts.userInterestsPriorProbType)).count category -
      (removed.filterMap (LogEvent.category opts.userInterestsPriorProbType)).count category
  entries : ∀ category, category ∈ fields.currentDist ↔
    category ∈ counted.filterMap (LogEvent.category opts.userInterestsPriorProbType)
  users : ∀ userId, userId ∈ fields.currentUserDist ↔ ∃ category, (userId, category) ∈ clicked counted
  userEntries : ∀ userId category, category ∈ fields.currentUserDist.getD userId ∅ ↔ (userId, category) ∈ clicked counted

section
variable (event : LogEvent) (count : Int) (fields : Interests)

/-- What an event does to the counts of a state with these options and maps. -/
structure Adjusts (after : Interests) : Prop where
  options : after.options = fields.options
  dist : ∀ category, after.currentDist.getD category 0 = fields.currentDist.getD category 0 +
    if event.category fields.options.userInterestsPriorProbType = some category then (count : ℚ) else 0
  entries : ∀ category, category ∈ after.currentDist ↔
    event.category fields.options.userInterestsPriorProbType = some category ∨ category ∈ fields.currentDist
  users : ∀ userId, userId ∈ after.currentUserDist ↔
    (∃ category, event.userCategory = some (userId, category)) ∨ userId ∈ fields.currentUserDist
  userEntries : ∀ userId category, category ∈ after.currentUserDist.getD userId ∅ ↔
    event.userCategory = some (userId, category) ∨ category ∈ fields.currentUserDist.getD userId ∅

theorem adjust_adjusts : Adjusts event count fields (adjust event count fields) := by
  unfold adjust
  cases category : event.category fields.options.userInterestsPriorProbType with
  | none =>
    cases user : event.userCategory with
    | none => exact ⟨rfl, by simp [category], by simp [category], by simp [user], by simp [user]⟩
    | some pair =>
      refine ⟨rfl, by simp [category, trainUserCategory], by simp [category, trainUserCategory], fun userId => ?_, ?_⟩
      · rw [trainUserCategory_mem]
        simp [user, Prod.ext_iff]
      · intro userId category'
        rw [trainUserCategory_entry]
        simp [user]
  | some categoryId =>
    have dist := trainCategory_getD categoryId count fields
    have entries (other : Int32) := @trainCategory_mem categoryId other count fields
    cases user : event.userCategory with
    | none =>
      refine ⟨rfl, ?_, ?_, by simp [user, trainCategory], by simp [user, trainCategory]⟩
      · simpa [category] using dist
      · simpa [category] using entries
    | some pair =>
      refine ⟨rfl, ?_, ?_, fun userId => ?_, ?_⟩
      · simpa [category, trainUserCategory] using dist
      · simpa [category, trainUserCategory] using entries
      · rw [trainUserCategory_mem]
        simp [user, Prod.ext_iff, trainCategory]
      · intro userId category'
        rw [trainUserCategory_entry]
        simp [user, trainCategory]

end

section
variable {opts : ModelOptions} {counted removed : List LogEvent} {fields after : Interests} {event : LogEvent}

theorem Remaining.count (remaining : Remaining opts counted removed fields) (adjusts : Adjusts event 1 fields after) :
    Remaining opts (counted ++ [event]) removed after := by
  obtain ⟨rfl, dist, entries, users, userEntries⟩ := remaining
  obtain ⟨options, dist', entries', users', userEntries'⟩ := adjusts
  refine ⟨options, fun category => ?_, fun category => ?_, fun userId => ?_, fun userId category => ?_⟩
  · rw [dist', dist, List.count_filterMap_snoc]
    push_cast
    ring
  · rw [entries', entries, List.mem_filterMap_snoc]
  · simp only [users', users, clicked, List.mem_filterMap_snoc, exists_or]
  · simp only [userEntries', userEntries, clicked, List.mem_filterMap_snoc]

/-- Taking off an event that was counted leaves all entries where they are. -/
theorem Remaining.takeOff (remaining : Remaining opts counted removed fields) (member : event ∈ counted)
    (adjusts : Adjusts event (-1) fields after) : Remaining opts counted (removed ++ [event]) after := by
  obtain ⟨rfl, dist, entries, users, userEntries⟩ := remaining
  obtain ⟨options, dist', entries', users', userEntries'⟩ := adjusts
  have inUsers {pair : UInt64 × Int32} (counts : event.userCategory = some pair) : pair ∈ clicked counted :=
    List.mem_filterMap.mpr ⟨event, member, counts⟩
  refine ⟨options, fun category => ?_, fun category => ?_, fun userId => ?_, fun userId category => ?_⟩
  · rw [dist', dist, List.count_filterMap_snoc]
    push_cast
    split <;> ring
  · rw [entries', entries]
    exact or_iff_right_of_imp fun counts => List.mem_filterMap.mpr ⟨event, member, counts⟩
  · rw [users', users]
    exact or_iff_right_of_imp fun ⟨category, counts⟩ => ⟨category, inUsers counts⟩
  · rw [userEntries', userEntries]
    exact or_iff_right_of_imp inUsers

theorem Adjusted.remaining (adjusted : Adjusted opts counted removed fields) : Remaining opts counted removed fields := by
  induction adjusted with
  | start same noDist noUsers =>
    exact ⟨same, by simp [noDist], by simp [noDist], by simp [noUsers, clicked], by simp [noUsers, clicked]⟩
  | @train counted removed fields event _ ih =>
    rw [train_eq_adjust]
    by_cases inside : fields.currentDay < event.publishTime
    · rw [if_pos inside, if_pos inside]
      exact ih.count (adjust_adjusts event 1 fields)
    · rw [if_neg inside, if_neg inside]
      exact ih
  | advance day _ ih => exact ⟨ih.options, ih.dist, ih.entries, ih.users, ih.userEntries⟩
  | @eliminate counted removed fields event _ member ih =>
    rw [eliminate_eq_adjust]
    by_cases expired : event.publishTime ≤ fields.currentDay
    · rw [if_pos expired, if_pos expired]
      exact ih.takeOff member (adjust_adjusts event (-1) fields)
    · rw [if_neg expired, if_neg expired]
      exact ih

end

section
variable {fields : Interests}

/-- The divisions for one category have divisors unless the category is entered in both maps and its overall count is zero. -/
theorem currentInterest_divides (dist : Tally Int32) {userTotal priorTotal : ℚ}
    (clicks : 0 < fields.options.userInterestsVisualClicks) (user : 0 < userTotal) (prior : 0 < priorTotal) (category : Int32) :
    (currentInterest checked fields dist userTotal priorTotal category).isSome ↔
      (category ∈ fields.currentDist → category ∈ dist → fields.currentDist.getD category 0 ≠ 0) := by
  have total : ¬ userTotal + fields.options.userInterestsVisualClicks = 0 := by linarith
  rw [currentInterest]
  cases overall : fields.currentDist[category]? with
  | none =>
    have absent : category ∉ fields.currentDist := by simpa using overall
    simp [checked, total, absent]
  | some count =>
    have there : category ∈ fields.currentDist := ExtTreeMap.mem_iff_isSome_getElem?.mpr (by rw [overall]; rfl)
    cases ofUser : dist[category]? with
    | none =>
      have absent : category ∉ dist := by simpa using ofUser
      simp [checked, total, absent]
    | some number =>
      have there' : category ∈ dist := ExtTreeMap.mem_iff_isSome_getElem?.mpr (by rw [ofUser]; rfl)
      rw [ExtTreeMap.getD_eq_getD_getElem?, overall]
      by_cases zero : count = 0
      · simp [checked, user.ne', prior.ne', there, there', zero]
      · simp [checked, user.ne', prior.ne', total, there, there', zero]

theorem enterInterests_isSome (fields : Interests) (dist : Tally Int32) (userTotal priorTotal : ℚ) (categories : List Int32)
    (trends : Tally Int32) :
    (enterInterests checked fields dist userTotal priorTotal categories trends).isSome ↔
      ∀ category ∈ categories, (currentInterest checked fields dist userTotal priorTotal category).isSome := by
  induction categories generalizing trends with
  | nil => simp [enterInterests]
  | cons category categories ih =>
    rw [enterInterests, List.forall_mem_cons]
    cases interest : currentInterest checked fields dist userTotal priorTotal category with
    | none => simp
    | some value => simpa using ih _

end

end Interests

end ContentBased
