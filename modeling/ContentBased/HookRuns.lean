import ContentBased.UserInterests

namespace ContentBased
open Std (ExtTreeMap)

namespace Interests

theorem trainCategory_getD (categoryId : Int32) (count : Int) (fields : Interests) (other : Int32) :
    (trainCategory categoryId count fields).currentDist.getD other 0 =
      fields.currentDist.getD other 0 + if categoryId = other then (count : ℚ) else 0 :=
  Tally.getD_raise _ _ _ _

theorem trainCategory_mem {categoryId other : Int32} {count : Int} {fields : Interests} :
    other ∈ (trainCategory categoryId count fields).currentDist ↔ categoryId = other ∨ other ∈ fields.currentDist :=
  Tally.mem_raise

/-- The count of a user for a category, zero when there is none. -/
def userCount (fields : Interests) (userId : UInt64) (categoryId : Int32) : ℚ :=
  (fields.currentUserDist.getD userId ∅).getD categoryId 0

/-- A user's count goes no lower than zero, and no other count changes. -/
theorem trainUserCategory_userCount (userId : UInt64) (categoryId : Int32) (count : Int) (fields : Interests)
    (other : UInt64) (category : Int32) :
    (trainUserCategory userId categoryId count fields).userCount other category =
      if userId = other ∧ categoryId = category then max 0 (fields.userCount other category + count)
      else fields.userCount other category := by
  have clamped (value : ℚ) : (if value < 0 then 0 else value) = max 0 value := by
    by_cases negative : value < 0
    · rw [if_pos negative, max_eq_left negative.le]
    · rw [if_neg negative, max_eq_right (not_lt.mp negative)]
  unfold userCount trainUserCategory
  by_cases sameUser : userId = other
  · subst sameUser
    simp only [ExtTreeMap.getD_insert_self, true_and]
    generalize fields.currentUserDist.getD userId ∅ = dist
    by_cases same : categoryId = category
    · subst same
      rw [ExtTreeMap.getD_insert_self, if_pos rfl, ExtTreeMap.getD_eq_getD_getElem?, ← clamped]
      cases dist[categoryId]? with
      | some value => rfl
      | none => simp
    · simp [ExtTreeMap.getD_insert, same]
  · simp [ExtTreeMap.getD_insert, sameUser]

theorem trainUserCategory_mem {userId other : UInt64} {categoryId : Int32} {count : Int} {fields : Interests} :
    other ∈ (trainUserCategory userId categoryId count fields).currentUserDist ↔
      userId = other ∨ other ∈ fields.currentUserDist := by
  simp [trainUserCategory, ExtTreeMap.mem_insert]

end Interests

/-- A click that was passed to `trainClick`: whether it was counted, whether it has been passed to `eliminateClick`
since, and whether it was removed then. -/
structure Booking where
  click : CategoryClick
  counted : Bool
  eliminated : Bool
  removed : Bool
deriving DecidableEq, Repr

namespace Booking

/-- A click counts for its user and category from when it is counted until it is removed. -/
def outstanding (booking : Booking) : Option (UInt64 × Int32) :=
  if booking.counted && !booking.removed then some (booking.click.userId, booking.click.categoryId) else none

end Booking

namespace Interests

/-- The states that trainings, moves of the window and eliminations lead to from empty maps. A click is eliminated
at most once, and only after it was trained. -/
inductive Booked (opts : ModelOptions) : List Booking → Interests → Prop
  | start {fields : Interests} : fields.options = opts → fields.currentDist = ∅ → fields.currentUserDist = ∅ →
      Booked opts [] fields
  | train {bookings : List Booking} {fields : Interests} (click : CategoryClick) : Booked opts bookings fields →
      Booked opts (bookings ++ [⟨click, decide (fields.currentDay < click.publishTime.toInt), false, false⟩])
        (trainClick click fields).2
  | advance {bookings : List Booking} {fields : Interests} (day : Int) : Booked opts bookings fields →
      Booked opts bookings { fields with currentDay := day }
  | eliminate {before after : List Booking} {booking : Booking} {fields : Interests} :
      Booked opts (before ++ booking :: after) fields → booking.eliminated = false →
      Booked opts (before ++ { booking with
        eliminated := true, removed := decide (booking.click.publishTime.toInt ≤ fields.currentDay) } :: after)
        (eliminateClick booking.click fields).2

/-- The count of each category is what its outstanding clicks add up to, of all users and overall. -/
structure Balanced (fields : Interests) (bookings : List Booking) : Prop where
  nonneg : ∀ category, 0 ≤ fields.currentDist.getD category 0
  users : ∀ category, fields.currentDist.getD category 0 =
    (fields.currentUserDist.toList.map fun entry => entry.2.getD category 0).sum
  outstanding : ∀ category, fields.currentDist.getD category 0 =
    ((bookings.filterMap Booking.outstanding).map Prod.snd).count category

theorem adjust_prior {fields : Interests} (prior : 0 = fields.options.userInterestsPriorProbType) (click : CategoryClick)
    (count : Int) : adjust (.click click) count fields =
      (fields.trainCategory click.categoryId count).trainUserCategory click.userId click.categoryId count := by
  rw [adjust_click, if_pos prior]

theorem trainClick_prior {fields : Interests} (prior : 0 = fields.options.userInterestsPriorProbType) (click : CategoryClick) :
    (trainClick click fields).2 = if fields.currentDay < click.publishTime.toInt
      then (fields.trainCategory click.categoryId 1).trainUserCategory click.userId click.categoryId 1 else fields :=
  adjust_prior prior click 1 ▸ train_eq_adjust (.click click) fields

theorem eliminateClick_prior {fields : Interests} (prior : 0 = fields.options.userInterestsPriorProbType)
    (click : CategoryClick) : (eliminateClick click fields).2 = if click.publishTime.toInt ≤ fields.currentDay
      then (fields.trainCategory click.categoryId (-1)).trainUserCategory click.userId click.categoryId (-1) else fields :=
  adjust_prior prior click (-1) ▸ eliminate_eq_adjust (.click click) fields

/-- How many of the bookings are of this kind and for this category. -/
def number (kind : Booking → Bool) (bookings : List Booking) (category : Int32) : Nat :=
  bookings.countP fun booking => kind booking && booking.click.categoryId == category

/-- What holds in every state. The users' counts are only right while no click is removed that was not counted. -/
structure Books (opts : ModelOptions) (bookings : List Booking) (fields : Interests) : Prop where
  options : fields.options = opts
  dist : ∀ category, fields.currentDist.getD category 0 =
    number Booking.counted bookings category - number Booking.removed bookings category
  pending : ∀ booking ∈ bookings, booking.eliminated = false → booking.removed = false
  known : ∀ booking ∈ bookings, booking.counted = true → booking.click.userId ∈ fields.currentUserDist
  users : (∀ booking ∈ bookings, booking.removed = true → booking.counted = true) → ∀ userId category,
    fields.userCount userId category = (bookings.filterMap Booking.outstanding).count (userId, category)

section
variable {opts : ModelOptions} {bookings before after : List Booking} {booking : Booking} {fields : Interests}

theorem Books.train (books : Books opts bookings fields) (prior : opts.userInterestsPriorProbType = 0)
    (click : CategoryClick) :
    Books opts (bookings ++ [⟨click, decide (fields.currentDay < click.publishTime.toInt), false, false⟩])
      (trainClick click fields).2 := by
  obtain ⟨rfl, dist, pending, known, users⟩ := books
  rw [trainClick_prior prior.symm]
  by_cases inside : fields.currentDay < click.publishTime.toInt
  · rw [if_pos inside, decide_eq_true inside]
    refine ⟨rfl, fun category => ?_, ?_, ?_, fun sound userId category => ?_⟩
    · refine (trainCategory_getD click.categoryId 1 fields category).trans ?_
      rw [dist]
      by_cases same : click.categoryId = category <;> simp [number, same, add_sub_right_comm]
    · rw [List.forall_mem_append, List.forall_mem_singleton]
      exact ⟨pending, fun _ => rfl⟩
    · simp only [List.forall_mem_append, List.forall_mem_singleton, trainUserCategory_mem]
      exact ⟨fun booking member counted => .inr (known booking member counted), fun _ => .inl trivial⟩
    · rw [List.forall_mem_append] at sound
      have kept : (trainCategory click.categoryId 1 fields).userCount userId category = fields.userCount userId category := rfl
      rw [trainUserCategory_userCount, kept, users sound.1, List.filterMap_append, List.count_append]
      by_cases same : click.userId = userId ∧ click.categoryId = category
      · rw [if_pos same, max_eq_right (by positivity)]
        simp [Booking.outstanding, same]
      · rw [if_neg same]
        simp [Booking.outstanding, same]
  · rw [if_neg inside, decide_eq_false inside]
    refine ⟨rfl, fun category => ?_, ?_, ?_, fun sound userId category => ?_⟩
    · rw [dist]
      simp [number]
    · rw [List.forall_mem_append, List.forall_mem_singleton]
      exact ⟨pending, fun _ => rfl⟩
    · rw [List.forall_mem_append, List.forall_mem_singleton]
      exact ⟨known, nofun⟩
    · rw [List.forall_mem_append] at sound
      rw [users sound.1]
      simp [Booking.outstanding]

/-- A counted click that is removed is outstanding once less. -/
theorem count_outstanding_removed (counted : booking.counted = true) (unremoved : booking.removed = false)
    (userId : UInt64) (category : Int32) :
    ((before ++ booking :: after).filterMap Booking.outstanding).count (userId, category) =
      ((before ++ { booking with eliminated := true, removed := true } :: after).filterMap Booking.outstanding).count
        (userId, category) + if booking.click.userId = userId ∧ booking.click.categoryId = category then 1 else 0 := by
  by_cases same : booking.click.userId = userId ∧ booking.click.categoryId = category
  · simp [Booking.outstanding, counted, unremoved, same, Nat.add_assoc]
  · simp [Booking.outstanding, counted, unremoved, same]

theorem Books.eliminate (books : Books opts (before ++ booking :: after) fields)
    (prior : opts.userInterestsPriorProbType = 0) (unused : booking.eliminated = false) :
    Books opts (before ++ { booking with
        eliminated := true, removed := decide (booking.click.publishTime.toInt ≤ fields.currentDay) } :: after)
      (eliminateClick booking.click fields).2 := by
  obtain ⟨rfl, dist, pending, known, users⟩ := books
  rw [List.forall_mem_append, List.forall_mem_cons] at pending known users
  have unremoved := pending.2.1 unused
  rw [eliminateClick_prior prior.symm]
  by_cases expired : booking.click.publishTime.toInt ≤ fields.currentDay
  · rw [if_pos expired, decide_eq_true expired]
    refine ⟨rfl, fun category => ?_, ?_, ?_, fun sound userId category => ?_⟩
    · refine (trainCategory_getD booking.click.categoryId (-1) fields category).trans ?_
      rw [dist]
      by_cases same : booking.click.categoryId = category
      · simp [number, List.countP_cons, same, unremoved]
        ring
      · simp [number, same]
    · rw [List.forall_mem_append, List.forall_mem_cons]
      exact ⟨pending.1, nofun, pending.2.2⟩
    · simp only [List.forall_mem_append, List.forall_mem_cons, trainUserCategory_mem]
      exact ⟨fun other member counted => .inr (known.1 other member counted), fun _ => .inl trivial,
        fun other member counted => .inr (known.2.2 other member counted)⟩
    · rw [List.forall_mem_append, List.forall_mem_cons] at sound
      have counted : booking.counted = true := sound.2.1 rfl
      have before_ := users ⟨sound.1, fun _ => counted, sound.2.2⟩ userId category
      have kept : (trainCategory booking.click.categoryId (-1) fields).userCount userId category =
        fields.userCount userId category := rfl
      rw [trainUserCategory_userCount, kept, before_, count_outstanding_removed counted unremoved]
      by_cases same : booking.click.userId = userId ∧ booking.click.categoryId = category
      · rw [if_pos same, if_pos same]
        push_cast
        rw [add_neg_cancel_right, max_eq_right (by positivity)]
      · rw [if_neg same, if_neg same, Nat.add_zero]
  · rw [if_neg expired, decide_eq_false expired]
    have same : ∀ kind : Booking → Bool, kind { booking with eliminated := true, removed := false } = kind booking →
        ∀ category, number kind (before ++ { booking with eliminated := true, removed := false } :: after) category =
          number kind (before ++ booking :: after) category := by
      intro kind agrees category
      simp [number, List.countP_cons, agrees]
    refine ⟨rfl, fun category => ?_, ?_, ?_, fun sound userId category => ?_⟩
    · rw [same _ rfl, same _ unremoved.symm, dist]
    · rw [List.forall_mem_append, List.forall_mem_cons]
      exact ⟨pending.1, nofun, pending.2.2⟩
    · rw [List.forall_mem_append, List.forall_mem_cons]
      exact known
    · rw [List.forall_mem_append, List.forall_mem_cons] at sound
      rw [users ⟨sound.1, fun removed => absurd (unremoved.symm.trans removed) Bool.false_ne_true, sound.2.2⟩]
      have unchanged : Booking.outstanding { booking with eliminated := true, removed := false } = booking.outstanding := by
        rw [Booking.outstanding, Booking.outstanding, unremoved]
      simp only [List.filterMap_append, List.filterMap_cons, unchanged]

theorem Booked.books (booked : Booked opts bookings fields) (prior : opts.userInterestsPriorProbType = 0) :
    Books opts bookings fields := by
  induction booked with
  | start same noDist noUsers =>
    refine ⟨same, fun category => ?_, nofun, nofun, fun _ userId category => ?_⟩
    · rw [noDist]
      simp [number]
    · rw [userCount, noUsers]
      simp
  | train click _ ih => exact ih.train prior click
  | advance day _ ih => exact ⟨ih.options, ih.dist, ih.pending, ih.known, ih.users⟩
  | eliminate _ unused ih => exact ih.eliminate prior unused

/-- The clicks that were removed without having been counted are what the counts of a category are short of. -/
theorem number_outstanding (bookings : List Booking) (category : Int32) :
    number Booking.removed bookings category + ((bookings.filterMap Booking.outstanding).map Prod.snd).count category =
      number Booking.counted bookings category +
        number (fun booking => !booking.counted && booking.removed) bookings category := by
  induction bookings with
  | nil => rfl
  | cons booking bookings ih =>
    have cases_ : number Booking.removed [booking] category +
        (([booking].filterMap Booking.outstanding).map Prod.snd).count category =
          number Booking.counted [booking] category +
            number (fun booking => !booking.counted && booking.removed) [booking] category := by
      obtain ⟨click, counted, eliminated, removed⟩ := booking
      by_cases same : click.categoryId = category <;> cases counted <;> cases removed <;>
        simp [number, Booking.outstanding, same]
    have split (kind : Booking → Bool) : number kind (booking :: bookings) category =
        number kind [booking] category + number kind bookings category := by
      rw [number, number, number, ← List.countP_append]
      rfl
    have joined : (booking :: bookings).filterMap Booking.outstanding =
        [booking].filterMap Booking.outstanding ++ bookings.filterMap Booking.outstanding := by
      rw [← List.filterMap_append]
      rfl
    rw [split, split, split, joined, List.map_append, List.count_append]
    omega

/-- No category is short of a count exactly while no click is removed that was not counted. -/
theorem no_shortage_iff (bookings : List Booking) :
    (∀ category, number (fun booking => !booking.counted && booking.removed) bookings category = 0) ↔
      ∀ booking ∈ bookings, booking.removed = true → booking.counted = true := by
  simp only [number, List.countP_eq_zero]
  constructor
  · intro none booking member removed
    simpa [removed] using none booking.click.categoryId booking member
  · intro sound category booking member
    cases removed : booking.removed with
    | false => simp
    | true => simp [sound booking member removed]

/-- The overall count of a category is that of its outstanding clicks, less what the category is short of. -/
theorem Books.dist_eq (books : Books opts bookings fields) (category : Int32) :
    fields.currentDist.getD category 0 = ((bookings.filterMap Booking.outstanding).map Prod.snd).count category -
      (number (fun booking => !booking.counted && booking.removed) bookings category : ℚ) := by
  have short : (_ : ℚ) = _ := congrArg Nat.cast (number_outstanding bookings category)
  push_cast at short
  rw [books.dist]
  linarith only [short]

/-- The user of an outstanding click has counts. -/
theorem Books.known_outstanding (books : Books opts bookings fields) :
    ∀ pair ∈ bookings.filterMap Booking.outstanding, pair.1 ∈ fields.currentUserDist.keys.toFinset := by
  intro pair member
  obtain ⟨booking, there, same⟩ := List.mem_filterMap.mp member
  rw [Booking.outstanding] at same
  split at same
  · rename_i open_
    cases same
    rw [List.mem_toFinset, ExtTreeMap.mem_keys]
    exact books.known booking there (Bool.and_eq_true_iff.mp open_).1
  · cases same

end

def opened (day : Int) : Interests := ⟨{ workPath := "" }, day, ∅, ∅, ∅, ∅⟩

end Interests

end ContentBased
