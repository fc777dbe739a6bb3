import ContentBased.InterestsRun

namespace ContentBased
open Std (ExtTreeMap)

/-- The user and category of each click that was counted. -/
def clicked (events : List LogEvent) : List (UInt64 × Int32) := events.filterMap LogEvent.userCategory

/-- With the clicks as prior, both maps count the same events. -/
theorem category_click (events : List LogEvent) :
    events.filterMap (LogEvent.category 0) = (clicked events).map Prod.snd := by
  induction events with
  | nil => rfl
  | cons event events ih =>
    cases event with
    | click message =>
      rw [clicked, List.filterMap_cons_some (show LogEvent.category 0 (.click message) = some message.categoryId from rfl),
        List.filterMap_cons_some (show LogEvent.userCategory (.click message) = _ from rfl), List.map_cons, ih]
      rfl
    | item message =>
      rw [clicked, List.filterMap_cons_none (show LogEvent.category 0 (.item message) = none from rfl),
        List.filterMap_cons_none (show LogEvent.userCategory (.item message) = none from rfl), ih]
      rfl

namespace Interests

/-- The states that events lead to from empty maps while the window moves on, with the events that
were counted. -/
inductive Reached (opts : ModelOptions) : List LogEvent → Interests → Prop
  | start {fields : Interests} : fields.options = opts → fields.currentDist = ∅ → fields.currentUserDist = ∅ →
      Reached opts [] fields
  | train {events : List LogEvent} {fields : Interests} (event : LogEvent) : Reached opts events fields →
      Reached opts (if fields.currentDay < event.publishTime then events ++ [event] else events)
        (event.handle trainClick trainItem fields)
  | advance {events : List LogEvent} {fields : Interests} (day : Int) : Reached opts events fields →
      Reached opts events { fields with currentDay := day }

theorem Reached.counted {opts : ModelOptions} {events : List LogEvent} {fields : Interests}
    (reached : Reached opts events fields) : fields.Counted opts fields.currentDay events := by
  induction reached with
  | start same noDist noUsers => exact ⟨same, rfl, by rw [noDist]; exact .empty, by rw [noUsers]; exact .empty⟩
  | train event _ ih =>
    have trained := ih.train event
    exact ⟨trained.options, rfl, trained.dist, trained.users⟩
  | advance day _ ih => exact ⟨ih.options, rfl, ih.dist, ih.users⟩

/-- What the counted clicks make of a category for a user, with `G` simulated clicks. -/
def interest (pairs : List (UInt64 × Int32)) (G : ℚ) (userId : UInt64) (category : Int32) : ℚ :=
  ((TallyTable.row pairs userId).count category * pairs.length / (pairs.map Prod.snd).count category + G) /
    ((TallyTable.row pairs userId).length + G)

theorem enterInterests_eq {m : Type → Type} [Monad m] [LawfulMonad m] {divide : ℚ → ℚ → m ℚ} {fields : Interests}
    {dist : Tally Int32} {userTotal priorTotal : ℚ} {value : Int32 → ℚ}
    (each : ∀ category, currentInterest divide fields dist userTotal priorTotal category = pure (value category))
    (categories : List Int32) (trends : Tally Int32) :
    enterInterests divide fields dist userTotal priorTotal categories trends =
      pure (categories.foldl (fun trends category => trends.insertIfNew category (value category)) trends) := by
  induction categories generalizing trends with
  | nil => rfl
  | cons category categories ih =>
    rw [enterInterests, each, pure_bind, ih]
    rfl

section
variable {fields : Interests} {opts : ModelOptions} {day : Int} {events : List LogEvent}

/-- Every division has a divisor, and all three branches come to the one formula. -/
theorem Counted.currentInterest_eq (counted : fields.Counted opts day events)
    (prior : opts.userInterestsPriorProbType = 0) (clicks : 0 ≤ opts.userInterestsVisualClicks) {userId : UInt64}
    (active : TallyTable.row (clicked events) userId ≠ []) (category : Int32) :
    currentInterest checked fields (fields.currentUserDist.getD userId ∅)
        (TallyTable.row (clicked events) userId).length (clicked events).length category =
      some (interest (clicked events) opts.userInterestsVisualClicks userId category) := by
  obtain ⟨rfl, -, dist, users⟩ := counted
  have ofUser := (users userId).1 category
  have overall := dist category
  rw [prior, category_click] at overall
  have userTotal : (0 : ℚ) < (TallyTable.row (clicked events) userId).length := by
    exact_mod_cast List.length_pos_iff.mpr active
  have within := TallyTable.count_row_le (clicked events) userId category
  have divisor : ¬ ((TallyTable.row (clicked events) userId).length + fields.options.userInterestsVisualClicks : ℚ) = 0 := by
    linarith
  by_cases absent : ((clicked events).map Prod.snd).count category = 0
  · have unclicked : (TallyTable.row (clicked events) userId).count category = 0 := by omega
    simp only [absent, if_true] at overall
    simp only [currentInterest, overall, checked, if_neg divisor, interest, unclicked]
    simp
  · have some_ : (0 : ℚ) < ((clicked events).map Prod.snd).count category := by
      exact_mod_cast Nat.pos_of_ne_zero absent
    have total : (0 : ℚ) < (clicked events).length := by
      have bound := List.count_le_length (l := (clicked events).map Prod.snd) (a := category)
      rw [List.length_map] at bound
      exact some_.trans_le (by exact_mod_cast bound)
    simp only [absent, if_false] at overall
    change (fields.currentUserDist.getD userId ∅)[category]? = _ at ofUser
    by_cases unclicked : (TallyTable.row (clicked events) userId).count category = 0
    · have none_ : (fields.currentUserDist.getD userId ∅)[category]? = none := by
        rw [ofUser]
        exact if_pos unclicked
      simp only [currentInterest, overall, none_, checked, if_neg divisor, interest, unclicked]
      simp
    · have some' : (fields.currentUserDist.getD userId ∅)[category]? =
          some ((TallyTable.row (clicked events) userId).count category : ℚ) := by
        rw [ofUser]
        exact if_neg unclicked
      have share : ¬ (((clicked events).map Prod.snd).count category * 1 / (clicked events).length : ℚ) = 0 := by
        rw [mul_one]
        exact (div_pos some_ total).ne'
      simp only [currentInterest, overall, some', checked, if_neg userTotal.ne', if_neg total.ne', if_neg share,
        if_neg divisor, interest, Option.bind_eq_bind, Option.bind_some, Option.some.injEq]
      field_simp

/-- The query enters each category of the table with its interest, and no divisor is zero on the way. -/
theorem Counted.queryUserCurrentInterests (counted : fields.Counted opts day events)
    (prior : opts.userInterestsPriorProbType = 0) (clicks : 0 ≤ opts.userInterestsVisualClicks) {userId : UInt64}
    (active : TallyTable.row (clicked events) userId ≠ []) (mapCategory : ExtTreeMap Int32 Bytes) :
    ∃ trends, Interests.queryUserCurrentInterests checked fields userId mapCategory = some (.ok (), trends) ∧
      ∀ category ∈ mapCategory,
        trends[category]? = some (interest (clicked events) opts.userInterestsVisualClicks userId category) := by
  have each := counted.currentInterest_eq prior clicks active
  obtain ⟨rfl, -, dist, users⟩ := counted
  rw [prior, category_click] at dist
  have known : userId ∈ fields.currentUserDist := (users userId).2.mpr active
  obtain ⟨ofUser, present⟩ : ∃ ofUser, fields.currentUserDist[userId]? = some ofUser :=
    Option.isSome_iff_exists.mp (ExtTreeMap.mem_iff_isSome_getElem?.mp known)
  have same : fields.currentUserDist.getD userId ∅ = ofUser := by
    rw [ExtTreeMap.getD_eq_getD_getElem?, present, Option.getD_some]
  have userTotal : ofUser.total = (TallyTable.row (clicked events) userId).length := by
    rw [← same]
    exact (users userId).1.total
  have priorTotal : fields.currentDist.total = (clicked events).length := by
    rw [dist.total, List.length_map]
  have someClicks : ¬ ((TallyTable.row (clicked events) userId).length : ℚ) ≤ 0 := by
    rw [not_le]
    exact_mod_cast List.length_pos_iff.mpr active
  have somePrior : ¬ ((clicked events).length : ℚ) ≤ 0 := by
    rw [not_le]
    exact_mod_cast (List.length_pos_iff.mpr active).trans_le (TallyTable.length_row_le _ _)
  rw [same] at each
  have entered := enterInterests_eq each mapCategory.keys ∅
  refine ⟨mapCategory.keys.foldl (fun trends category => trends.insertIfNew category
    (interest (clicked events) fields.options.userInterestsVisualClicks userId category)) ∅, ?_, fun category member => ?_⟩
  · simp only [Interests.queryUserCurrentInterests, present, userTotal, priorTotal, if_neg someClicks, if_neg somePrior,
      entered]
    rfl
  · exact ExtTreeMap.getElem?_foldl_insertIfNew_of_mem _ (by simp) (ExtTreeMap.mem_keys.mpr member)

end

/-- Weighted with the share of each category of all clicks, the interests of a user add up to one. -/
theorem sum_interest {pairs : List (UInt64 × Int32)} {userId : UInt64} {G : ℚ} (clicks : 0 ≤ G)
    (active : TallyTable.row pairs userId ≠ []) :
    ∑ category ∈ (pairs.map Prod.snd).toFinset,
      ((pairs.map Prod.snd).count category : ℚ) / pairs.length * interest pairs G userId category = 1 := by
  have userTotal : (0 : ℚ) < (TallyTable.row pairs userId).length := by
    exact_mod_cast List.length_pos_iff.mpr active
  have total : (0 : ℚ) < pairs.length := userTotal.trans_le (by exact_mod_cast TallyTable.length_row_le pairs userId)
  have term : ∀ category ∈ (pairs.map Prod.snd).toFinset,
      ((pairs.map Prod.snd).count category : ℚ) / pairs.length * interest pairs G userId category =
        ((TallyTable.row pairs userId).count category + (pairs.map Prod.snd).count category * (G / pairs.length)) /
          ((TallyTable.row pairs userId).length + G) := by
    intro category member
    have some_ : (0 : ℚ) < (pairs.map Prod.snd).count category := by
      exact_mod_cast List.count_pos_iff.mpr (List.mem_toFinset.mp member)
    rw [interest]
    field_simp
  have ofUser : ∑ category ∈ (pairs.map Prod.snd).toFinset, (TallyTable.row pairs userId).count category =
      (TallyTable.row pairs userId).length := by
    rw [← List.sum_toFinset_count_eq_length]
    refine (Finset.sum_subset (fun category member => ?_) fun category _ absent => ?_).symm
    · rw [List.mem_toFinset, ← List.count_pos_iff] at member ⊢
      exact member.trans_le (TallyTable.count_row_le pairs userId category)
    · rw [List.mem_toFinset] at absent
      exact List.count_eq_zero_of_not_mem absent
  have overall : ∑ category ∈ (pairs.map Prod.snd).toFinset, (pairs.map Prod.snd).count category = pairs.length := by
    rw [List.sum_toFinset_count_eq_length, List.length_map]
  rw [Finset.sum_congr rfl term, ← Finset.sum_div, Finset.sum_add_distrib, ← Finset.sum_mul, ← Nat.cast_sum,
    ← Nat.cast_sum, ofUser, overall]
  field_simp

theorem row_clicked_ne_nil {events : List LogEvent} {click : CategoryClick} (member : .click click ∈ events) :
    TallyTable.row (clicked events) click.userId ≠ [] := by
  have pair : (click.userId, click.categoryId) ∈ clicked events := List.mem_filterMap.mpr ⟨_, member, rfl⟩
  refine List.ne_nil_of_mem (a := click.categoryId) (List.mem_filterMap.mpr ⟨_, pair, ?_⟩)
  rw [if_pos rfl]

theorem Reached.count {opts : ModelOptions} {events : List LogEvent} {fields : Interests}
    (reached : Reached opts events fields) (event : LogEvent) (inside : fields.currentDay < event.publishTime) :
    Reached opts (events ++ [event]) (event.handle trainClick trainItem fields) := by
  have trained := reached.train event
  rwa [if_pos inside] at trained

/-- User 1 clicks on category 1, with the options as they come. -/
theorem reached_click : Reached { workPath := "" } [.click ⟨1, 1, 1⟩]
    (trainClick ⟨1, 1, 1⟩ ⟨{ workPath := "" }, 0, ∅, ∅, ∅, ∅⟩).2 :=
  have start : Reached { workPath := "" } [] ⟨{ workPath := "" }, 0, ∅, ∅, ∅, ∅⟩ := .start rfl rfl rfl
  start.count (.click ⟨1, 1, 1⟩) (by decide)

theorem click_mem : LogEvent.click ⟨1, 1, 1⟩ ∈ [LogEvent.click ⟨1, 1, 1⟩] := List.mem_singleton.mpr rfl

/-- A click on a category raises its interest at least to where any other one was below. -/
theorem interest_snoc_le {pairs : List (UInt64 × Int32)} {userId : UInt64} {G : ℚ} (clicks : 0 ≤ G)
    (active : TallyTable.row pairs userId ≠ []) {c d : Int32}
    (order : interest pairs G userId d ≤ interest pairs G userId c) :
    interest (pairs ++ [(userId, c)]) G userId d ≤ interest (pairs ++ [(userId, c)]) G userId c := by
  by_cases same : d = c
  · rw [same]
  have userTotal : (0 : ℚ) < (TallyTable.row pairs userId).length + G := by
    have some_ : (0 : ℚ) < (TallyTable.row pairs userId).length := by exact_mod_cast List.length_pos_iff.mpr active
    linarith
  have total : (0 : ℚ) < pairs.length := by
    exact_mod_cast (List.length_pos_iff.mpr active).trans_le (TallyTable.length_row_le pairs userId)
  -- the shares of the user in the clicks on both categories
  have shares : ((TallyTable.row pairs userId).count d / (pairs.map Prod.snd).count d : ℚ) ≤
      (TallyTable.row pairs userId).count c / (pairs.map Prod.snd).count c := by
    rw [interest, interest, div_le_div_iff_of_pos_right userTotal, add_le_add_iff_right, mul_div_right_comm,
      mul_div_right_comm, mul_le_mul_iff_of_pos_right total] at order
    exact order
  have raised : ((TallyTable.row pairs userId).count c / (pairs.map Prod.snd).count c : ℚ) ≤
      ((TallyTable.row pairs userId).count c + 1) / ((pairs.map Prod.snd).count c + 1) := by
    have within : ((TallyTable.row pairs userId).count c : ℚ) ≤ (pairs.map Prod.snd).count c := by
      exact_mod_cast TallyTable.count_row_le pairs userId c
    by_cases unclicked : (pairs.map Prod.snd).count c = 0
    · rw [unclicked, Nat.cast_zero, div_zero]
      positivity
    · have some_ : (0 : ℚ) < (pairs.map Prod.snd).count c := by exact_mod_cast Nat.pos_of_ne_zero unclicked
      rw [div_le_div_iff₀ some_ (by linarith)]
      linarith
  have row : TallyTable.row (pairs ++ [(userId, c)]) userId = TallyTable.row pairs userId ++ [c] := by
    rw [TallyTable.row_snoc, if_pos rfl]
  have other : ¬ c = d := fun equal => same equal.symm
  have grown : (0 : ℚ) ≤ (pairs.length + 1 : ℕ) := Nat.cast_nonneg _
  rw [interest, interest, row, List.map_append, List.map_singleton, List.count_append, List.count_append,
    List.count_append, List.count_append, List.count_singleton_self, List.count_singleton, List.length_append,
    List.length_append, List.length_singleton, List.length_singleton]
  simp only [beq_iff_eq, other, if_false, Nat.add_zero]
  refine div_le_div_of_nonneg_right (add_le_add_left ?_ G) (by push_cast; linarith)
  rw [mul_div_right_comm, mul_div_right_comm]
  refine mul_le_mul_of_nonneg_right ?_ grown
  push_cast
  exact shares.trans raised

/-- A counted click of a user keeps the clicked category above each that it was above, and both queries enter both
categories. -/
theorem click_keeps_order {opts : ModelOptions} {events : List LogEvent} {fields : Interests}
    (reached : Reached opts events fields) (prior : opts.userInterestsPriorProbType = 0)
    (clicks : 0 ≤ opts.userInterestsVisualClicks) {click : CategoryClick} (member : .click click ∈ events)
    {mapCategory : ExtTreeMap Int32 Bytes} {c d : Int32} (cInTable : c ∈ mapCategory) (dInTable : d ∈ mapCategory)
    {publishTime : Int32} (inside : fields.currentDay < publishTime.toInt) :
    ∃ trends trends', queryUserCurrentInterests checked fields click.userId mapCategory = some (.ok (), trends) ∧
      queryUserCurrentInterests checked (trainClick ⟨click.userId, c, publishTime⟩ fields).2 click.userId mapCategory =
        some (.ok (), trends') ∧
      (c ∈ trends ∧ d ∈ trends) ∧ (c ∈ trends' ∧ d ∈ trends') ∧
      (trends.getD d 0 ≤ trends.getD c 0 → trends'.getD d 0 ≤ trends'.getD c 0) := by
  have active := row_clicked_ne_nil member
  obtain ⟨trends, query, values⟩ := reached.counted.queryUserCurrentInterests prior clicks active mapCategory
  have after := reached.count (.click ⟨click.userId, c, publishTime⟩) inside
  have active' := row_clicked_ne_nil (List.mem_append_left [.click ⟨click.userId, c, publishTime⟩] member)
  obtain ⟨trends', query', values'⟩ := after.counted.queryUserCurrentInterests prior clicks active' mapCategory
  have grown : clicked (events ++ [.click ⟨click.userId, c, publishTime⟩]) =
      clicked events ++ [(click.userId, c)] := by
    rw [clicked, List.filterMap_append]
    rfl
  have atC := values c cInTable
  have atD := values d dInTable
  have atC' := values' c cInTable
  have atD' := values' d dInTable
  have entered {trends : Tally Int32} {category : Int32} {value : ℚ} (found : trends[category]? = some value) :
      category ∈ trends := ExtTreeMap.mem_iff_isSome_getElem?.mpr (Option.isSome_of_eq_some found)
  refine ⟨trends, trends', query, query', ⟨entered atC, entered atD⟩, ⟨entered atC', entered atD'⟩, fun order => ?_⟩
  simp only [ExtTreeMap.getD_eq_getD_getElem?, atC, atD, atC', atD', Option.getD_some, grown] at order ⊢
  exact interest_snoc_le clicks active order

theorem click_keeps_order_click : ∃ trends trends',
    queryUserCurrentInterests checked (trainClick ⟨1, 1, 1⟩ ⟨{ workPath := "" }, 0, ∅, ∅, ∅, ∅⟩).2 1
      (((∅ : ExtTreeMap Int32 Bytes).insert 1 []).insert 2 []) = some (.ok (), trends) ∧
    queryUserCurrentInterests checked
      (trainClick ⟨1, 1, 2⟩ (trainClick ⟨1, 1, 1⟩ ⟨{ workPath := "" }, 0, ∅, ∅, ∅, ∅⟩).2).2 1
      (((∅ : ExtTreeMap Int32 Bytes).insert 1 []).insert 2 []) = some (.ok (), trends') ∧
    (1 ∈ trends ∧ 2 ∈ trends) ∧ (1 ∈ trends' ∧ 2 ∈ trends') ∧
    (trends.getD 2 0 ≤ trends.getD 1 0 → trends'.getD 2 0 ≤ trends'.getD 1 0) :=
  click_keeps_order reached_click rfl (by norm_num) click_mem (by simp)
    (by simp) (by decide)

end Interests

end ContentBased
