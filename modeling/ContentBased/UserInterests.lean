import ContentBased.TableLog
import ContentBased.Library.Tally

namespace ContentBased
open RecordDisk Std

/-- The options with the values that their constructor gives them. -/
structure ModelOptions where
  workPath : String
  rpcPort : Int32 := 6100
  monitorPort : Int32 := 16100
  marshalerR1 : ℚ := 2 / 5
  marshalerR2 : ℚ := 3 / 5
  marshalerTopt : Int32 := 3
  marshalerP : Int32 := 4
  marshalerN : Int32 := 2
  flushTimer : String := "23/day"
  trainTimer : String := "50/hour"
  rolloverTimer : String := "30/hour"
  reloadTimer : String := "23/day"
  categoryTableName : String := "category.dat"
  newsTrendsTableName : String := "news-trends.dat"
  newsTrendsLogPrefix : String := "news-trends"
  newsTrendsTimeWindow : Int := 48
  userInterestsPriorProbType : Int := 0
  userInterestsVisualClicks : ℚ := 10
  userInterestsTableName : String := "user-interests.dat"
  userInterestsLogPrefix : String := "user-interests"
  userInterestsTimeWindow : Int := 24
  userInterestsMixAlpha : ℚ := 7 / 10
deriving DecidableEq, Repr

def kSecondsPerHour : Int := 3600

/-- The start of a window of so many hours before `now`, as an `int32_t` holds it. -/
def windowStart (now window : Int) : Int := (Int32.ofInt (now - window * kSecondsPerHour)).toInt

namespace LogEvent

def publishTime : LogEvent → Int
  | .click message => message.publishTime.toInt
  | .item message => message.publishTime.toInt

/-- The category an event counts for in `current_dist_`. -/
def category (priorProbType : Int) : LogEvent → Option Int32
  | .click message => if 0 = priorProbType then some message.categoryId else none
  | .item message => if 1 = priorProbType then some message.categoryId else none

/-- The user and category an event counts for in `current_user_dist_`. -/
def userCategory : LogEvent → Option (UInt64 × Int32)
  | .click message => some (message.userId, message.categoryId)
  | .item _ => none

end LogEvent

/-- The fields of `UserInterests`. The counts of `current_dist_` and `current_user_dist_` are
exact numbers, and no user id is set apart in the maps of users. -/
structure Interests where
  options : ModelOptions
  currentDay : Int
  currentDist : Tally Int32
  currentUserDist : TallyTable UInt64 Int32
  userDistBak : TallyTable UInt64 Int32 := ∅
  userDist : TallyTable UInt64 Int32 := ∅

namespace Interests

def trainCategory (categoryId : Int32) (count : Int) (fields : Interests) : Interests :=
  { fields with currentDist := fields.currentDist.raise categoryId count }

/-- A user's count does not fall below zero. -/
def trainUserCategory (userId : UInt64) (categoryId : Int32) (count : Int) (fields : Interests) : Interests :=
  let dist := fields.currentUserDist.getD userId ∅
  let raised : ℚ := match dist[categoryId]? with
    | some value => if value + count < 0 then 0 else value + count
    | none => if count < 0 then 0 else count
  { fields with currentUserDist := fields.currentUserDist.insert userId (dist.insert categoryId raised) }

def reloadBefore (fields : Interests) : Status × Interests := (.ok (), { fields with userDistBak := ∅ })

def reloadCompleted (fields : Interests) : Status × Interests :=
  (.ok (), { fields with userDist := fields.userDistBak, userDistBak := fields.userDist })

/-- `insert` keeps what is already there, of a category as of a user. -/
def loadDistribution (dist : CategoryDistribution) (fields : Interests) : Status × Interests :=
  let mapDist : Tally Int32 := dist.distribution.foldl (fun map tag => map.insertIfNew tag.tagId tag.tagPower) ∅
  (.ok (), { fields with userDistBak := fields.userDistBak.insertIfNew dist.userId mapDist })

def trainBefore (fields : Interests) : Status × Interests :=
  (.ok (), { fields with currentDist := ∅, currentUserDist := ∅ })

def eliminateBefore (now : Int) (fields : Interests) : Status × Interests :=
  (.ok (), { fields with currentDay := windowStart now fields.options.userInterestsTimeWindow })

def needEliminate (fields : Interests) (lastCounter counter : Int) : Bool :=
  if lastCounter - counter < fields.options.userInterestsTimeWindow then false else true

def eliminateClick (click : CategoryClick) (fields : Interests) : Status × Interests :=
  if click.publishTime.toInt ≤ fields.currentDay then
    let fields := if 0 = fields.options.userInterestsPriorProbType then fields.trainCategory click.categoryId (-1) else fields
    (.ok (), fields.trainUserCategory click.userId click.categoryId (-1))
  else (.ok (), fields)

def eliminateItem (item : CategoryItem) (fields : Interests) : Status × Interests :=
  if item.publishTime.toInt ≤ fields.currentDay then
    if 1 = fields.options.userInterestsPriorProbType then (.ok (), fields.trainCategory item.categoryId (-1))
    else (.ok (), fields)
  else (.ok (), fields)

def trainClick (click : CategoryClick) (fields : Interests) : Status × Interests :=
  if fields.currentDay < click.publishTime.toInt then
    let fields := if 0 = fields.options.userInterestsPriorProbType then fields.trainCategory click.categoryId 1 else fields
    (.ok (), fields.trainUserCategory click.userId click.categoryId 1)
  else (.ok (), fields)

def trainItem (item : CategoryItem) (fields : Interests) : Status × Interests :=
  if fields.currentDay < item.publishTime.toInt then
    if 1 = fields.options.userInterestsPriorProbType then (.ok (), fields.trainCategory item.categoryId 1)
    else (.ok (), fields)
  else (.ok (), fields)

def recoveryClick (click : CategoryClick) (fields : Interests) : Status × Interests := trainClick click fields

def recoveryItem (item : CategoryItem) (fields : Interests) : Status × Interests := trainItem item fields

/-- The functions of `DistTable` that `UserInterests` overrides. -/
def virtual : Virtual Interests where
  needEliminate := needEliminate
  reloadBefore := reloadBefore
  reloadCompleted := reloadCompleted
  trainBefore _ := trainBefore
  eliminateBefore := eliminateBefore
  recoveryClick := recoveryClick
  recoveryItem := recoveryItem
  trainClick := trainClick
  trainItem := trainItem
  eliminateClick := eliminateClick
  eliminateItem := eliminateItem
  loadDistribution := loadDistribution

/-- What one more event changes in the two maps: first the count of its category, then that of its user. -/
def adjust (event : LogEvent) (count : Int) (fields : Interests) : Interests :=
  let fields := match event.category fields.options.userInterestsPriorProbType with
    | some categoryId => fields.trainCategory categoryId count
    | none => fields
  match event.userCategory with
  | some (userId, categoryId) => fields.trainUserCategory userId categoryId count
  | none => fields

theorem adjust_click (click : CategoryClick) (count : Int) (fields : Interests) :
    adjust (.click click) count fields =
      ((if 0 = fields.options.userInterestsPriorProbType then fields.trainCategory click.categoryId count
        else fields).trainUserCategory click.userId click.categoryId count) := by
  by_cases prior : 0 = fields.options.userInterestsPriorProbType <;>
    simp [adjust, LogEvent.category, LogEvent.userCategory, prior]

theorem adjust_item (item : CategoryItem) (count : Int) (fields : Interests) :
    adjust (.item item) count fields =
      if 1 = fields.options.userInterestsPriorProbType then fields.trainCategory item.categoryId count else fields := by
  by_cases prior : 1 = fields.options.userInterestsPriorProbType <;>
    simp [adjust, LogEvent.category, LogEvent.userCategory, prior]

/-- Training counts an event that was published inside the window. -/
theorem train_eq_adjust (event : LogEvent) (fields : Interests) :
    event.handle trainClick trainItem fields =
      if fields.currentDay < event.publishTime then adjust event 1 fields else fields := by
  cases event with
  | click message =>
    rw [adjust_click, LogEvent.handle, trainClick]
    exact apply_ite Prod.snd _ _ _
  | item message =>
    rw [adjust_item, LogEvent.handle, trainItem]
    by_cases inside : fields.currentDay < message.publishTime.toInt
    · rw [if_pos inside]
      exact (apply_ite Prod.snd _ _ _).trans (if_pos inside).symm
    · rw [if_neg inside]
      exact (if_neg inside).symm

/-- Elimination takes off an event that was not. -/
theorem eliminate_eq_adjust (event : LogEvent) (fields : Interests) :
    event.handle eliminateClick eliminateItem fields =
      if event.publishTime ≤ fields.currentDay then adjust event (-1) fields else fields := by
  cases event with
  | click message =>
    rw [adjust_click, LogEvent.handle, eliminateClick]
    exact apply_ite Prod.snd _ _ _
  | item message =>
    rw [adjust_item, LogEvent.handle, eliminateItem]
    by_cases expired : message.publishTime.toInt ≤ fields.currentDay
    · rw [if_pos expired]
      exact (apply_ite Prod.snd _ _ _).trans (if_pos expired).symm
    · rw [if_neg expired]
      exact (if_neg expired).symm

/-- `a / b` in exact numbers. -/
def exact (a b : ℚ) : Id ℚ := a / b

/-- `a / b`, which has no value when `b` is zero. -/
def checked (a b : ℚ) : Option ℚ := if b = 0 then none else some (a / b)

section
variable {m : Type → Type} [Monad m] (divide : ℚ → ℚ → m ℚ)

/-- The interest in one category that is entered for a user with the counts `dist`. -/
def currentInterest (fields : Interests) (dist : Tally Int32) (userTotal priorTotal : ℚ) (category : Int32) : m ℚ := do
  let G := fields.options.userInterestsVisualClicks
  match fields.currentDist[category]? with
  | none => divide (G * 1) (userTotal + G)
  | some prior =>
    match dist[category]? with
    | none => divide (G * 1) (userTotal + G)
    | some count =>
      let ptCClick ← divide (count * 1) userTotal
      let ptC ← divide (prior * 1) priorTotal
      let ratio ← divide ptCClick ptC
      let pu := userTotal * ratio
      divide (pu + G) (userTotal + G)

/-- Enters the categories of the table one after another. -/
def enterInterests (fields : Interests) (dist : Tally Int32) (userTotal priorTotal : ℚ) :
    List Int32 → Tally Int32 → m (Tally Int32)
  | [], trends => return trends
  | category :: categories, trends => do
    let interest ← currentInterest divide fields dist userTotal priorTotal category
    enterInterests fields dist userTotal priorTotal categories (trends.insertIfNew category interest)

/-- The function of the divisions that it makes. -/
def queryUserCurrentInterests (fields : Interests) (userId : UInt64) (mapCategory : ExtTreeMap Int32 Bytes) :
    m (Status × Tally Int32) := do
  match fields.currentUserDist[userId]? with
  | none => return (.error ⟨.notFound, "user_id=" ++ toString userId⟩, ∅)
  | some dist =>
    let userTotal := if dist.total ≤ 0 then 1 else dist.total
    let priorTotal := if fields.currentDist.total ≤ 0 then 1 else fields.currentDist.total
    let trends ← enterInterests divide fields dist userTotal priorTotal mapCategory.keys ∅
    return (.ok (), trends)

variable {left right : Interests}

theorem currentInterest_congr (options : left.options = right.options) (dist : left.currentDist = right.currentDist)
    (ofUser : Tally Int32) (userTotal priorTotal : ℚ) (category : Int32) :
    currentInterest divide left ofUser userTotal priorTotal category =
      currentInterest divide right ofUser userTotal priorTotal category := by
  rw [currentInterest, currentInterest, options, dist]

theorem enterInterests_congr (options : left.options = right.options) (dist : left.currentDist = right.currentDist)
    (ofUser : Tally Int32) (userTotal priorTotal : ℚ) (categories : List Int32) (trends : Tally Int32) :
    enterInterests divide left ofUser userTotal priorTotal categories trends =
      enterInterests divide right ofUser userTotal priorTotal categories trends := by
  induction categories generalizing trends with
  | nil => rfl
  | cons category categories ih =>
    rw [enterInterests, enterInterests, currentInterest_congr divide options dist]
    exact bind_congr fun interest => ih _

/-- The query reads the counts of no other user. -/
theorem queryUserCurrentInterests_congr (options : left.options = right.options)
    (dist : left.currentDist = right.currentDist) {userId : UInt64}
    (ofUser : left.currentUserDist[userId]? = right.currentUserDist[userId]?) (mapCategory : ExtTreeMap Int32 Bytes) :
    queryUserCurrentInterests divide left userId mapCategory =
      queryUserCurrentInterests divide right userId mapCategory := by
  rw [queryUserCurrentInterests, queryUserCurrentInterests, ofUser, dist]
  cases right.currentUserDist[userId]? with
  | none => rfl
  | some counts =>
    dsimp only
    rw [enterInterests_congr divide options dist]

end

/-- Gives a copy of the map. -/
def queryCurrentTrends (fields : Interests) : Status × Tally Int32 := (.ok (), fields.currentDist)

def queryUserInterests (fields : Interests) (userId : UInt64) : Status × Tally Int32 :=
  match fields.userDist[userId]? with
  | none => (.error ⟨.notFound, "user_id=" ++ toString userId⟩, ∅)
  | some dist => (.ok (), dist)

/-- There is no value where the end of the map is read. -/
def queryCategoryWeight (fields : Interests) (userId : UInt64) (categoryId : Int32) : Option (Except Failure ℚ) :=
  match fields.userDist[userId]? with
  | none => some (.error ⟨.notFound, "user_id=" ++ toString userId⟩)
  | some dist =>
    match dist[categoryId]? with
    | some _ => some (.error ⟨.notFound, "user_id=" ++ toString userId ++ ", category_id=" ++ toString categoryId⟩)
    | none => none

end Interests

abbrev UserInterests := DistTable Interests

namespace UserInterests

/-- The constructor, at the time `ctime`. -/
def new (opts : ModelOptions) (ctime : Int) : UserInterests :=
  DistTable.new opts.workPath opts.userInterestsLogPrefix opts.userInterestsTableName opts.userInterestsTimeWindow
    ⟨opts, windowStart ctime opts.userInterestsTimeWindow, ∅, ∅, ∅, ∅⟩

def reload (format : ItemTagFormat) (table : UserInterests) : Program (Status × UserInterests) :=
  DistTable.reload format Interests.virtual table

def train (table : UserInterests) : Program (Status × UserInterests) :=
  match Interests.trainBefore table.fields with
  | (.error failure, fields) => return (.error failure, { table with fields })
  | (.ok (), fields) => do
    match ← DistTable.trainPeriodicLog Interests.virtual { table with fields } with
    | (.error failure, table) => return (.error failure, table)
    | (.ok (), table) =>
      let (status, fields) := Interests.virtual.trainCompleted table.fields
      return (status, { table with fields })

def init (table : UserInterests) : Program (Status × UserInterests) := do
  match ← DistTable.init Interests.virtual table with
  | (.error failure, table) => return (.error failure, table)
  | (.ok (), table) => train table

def eliminate (now : Int) (table : UserInterests) : Program (Status × UserInterests) :=
  DistTable.eliminate Interests.virtual now table

/-- Counts the item first and then writes it to the log. -/
def addItem (table : UserInterests) (item : CategoryItem) : Program (Status × UserInterests) := do
  let table := { table with fields := (Interests.recoveryItem item table.fields).2 }
  let status ← DistTable.addItem table item
  return (status, table)

def addClick (table : UserInterests) (click : CategoryClick) : Program (Status × UserInterests) := do
  let table := { table with fields := (Interests.recoveryClick click table.fields).2 }
  let status ← DistTable.addClick table click
  return (status, table)

end UserInterests

end ContentBased
