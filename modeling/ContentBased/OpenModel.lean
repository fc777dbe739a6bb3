import ContentBased.CategoryTable
import ContentBased.InterestsRun
import ContentBased.NewsTrends
import ContentBased.Library.Run

namespace ContentBased
open RecordDisk

/-- What loading the user and the item table reports and leaves. -/
structure TableLoads (υ ι : Type) where
  loadUserTable : υ → Status × υ
  loadItemTable : ι → Status × ι

namespace Model
variable {υ ι : Type}

/-- The constructor, at the time `ctime`. The category table is a global that is empty when the program starts. -/
def new (opts : ModelOptions) (ctime : Int) (userDb : υ) (itemDb : ι) : Model υ ι Trends where
  categoryTableName := opts.categoryTableName
  category := ∅
  isCategoryModified := false
  userDb := userDb
  itemDb := itemDb
  newsTrends := NewsTrends.new opts
  userInterests := UserInterests.new opts ctime

/-- The two times are those at which the two tables read the clock. -/
def train (format : ItemTagFormat) (now now' : Int) (model : Model υ ι Trends) : Program (Status × Model υ ι Trends) := do
  match ← NewsTrends.train format now model.newsTrends with
  | (.error failure, newsTrends) => return (.error failure, { model with newsTrends })
  | (.ok (), newsTrends) =>
    let (status, userInterests) ← UserInterests.eliminate now' model.userInterests
    return (status, { model with newsTrends, userInterests })

def rollover (model : Model υ ι Trends) : Program (Status × Model υ ι Trends) := do
  match ← model.newsTrends.rollover with
  | (.error failure, newsTrends) => return (.error failure, { model with newsTrends })
  | (.ok (), newsTrends) =>
    let (status, userInterests) ← model.userInterests.rollover
    return (status, { model with newsTrends, userInterests })

/-- The part of `reload` that is left out once the model is set up: the tables, the categories and the logs. -/
def initModel (loads : TableLoads υ ι) (format : ItemTagFormat) (model : Model υ ι Trends) :
    Program (Status × Model υ ι Trends) :=
  match loads.loadUserTable model.userDb with
  | (.error failure, userDb) => return (.error failure, { model with userDb })
  | (.ok (), userDb) =>
    match loads.loadItemTable model.itemDb with
    | (.error failure, itemDb) => return (.error failure, { model with userDb, itemDb })
    | (.ok (), itemDb) => do
      match ← loadCategory { model with userDb, itemDb } model.categoryTableName with
      | (.error failure, model) => return (.error failure, model)
      | (.ok (), model) =>
        match ← model.newsTrends.init (Trends.virtual format) with
        | (.error failure, newsTrends) => return (.error failure, { model with newsTrends })
        | (.ok (), newsTrends) =>
          match ← model.userInterests.init with
          | (.error failure, userInterests) => return (.error failure, { model with newsTrends, userInterests })
          | (.ok (), userInterests) =>
            let (status, newsTrends) ← NewsTrends.reload format newsTrends
            return (status, { model with newsTrends, userInterests })

/-- The flag is `kIsInitModel`. -/
def reload (loads : TableLoads υ ι) (format : ItemTagFormat) (isInitModel : Bool) (model : Model υ ι Trends) :
    Program (Status × Bool × Model υ ι Trends) := do
  if isInitModel then
    let (status, userInterests) ← UserInterests.reload format model.userInterests
    return (status, true, { model with userInterests })
  else
    match ← initModel loads format model with
    | (.error failure, model) => return (.error failure, false, model)
    | (.ok (), model) =>
      let (status, userInterests) ← UserInterests.reload format model.userInterests
      return (status, true, { model with userInterests })

/-- `locked` is what the creating and the locking of the lock file report. -/
def openModel (loads : TableLoads υ ι) (format : ItemTagFormat) (locked : Status) (opts : ModelOptions) (ctime : Int)
    (userDb : υ) (itemDb : ι) : Program (Status × Bool × Model υ ι Trends) :=
  match locked with
  | .error failure => return (.error failure, false, new opts ctime userDb itemDb)
  | .ok () => reload loads format false (new opts ctime userDb itemDb)

end Model

/-- The model that the process has opened, and the directory. -/
structure OpenModel (υ ι : Type) where
  model : Model υ ι Trends
  isInitModel : Bool
  disk : Files

inductive OpenCall where
  | action (action : Action)
  | item (item : Item)
  | flush
  | train (now now' : Int)
  | reload
  | rollover

section
variable {υ ι : Type} (users : UserDB υ) (items : ItemDB ι) (loads : TableLoads υ ι) (format : ItemTagFormat)

/-- One call on a model whose file operations all succeed. -/
inductive OpenStep : OpenModel υ ι → OpenCall → OpenModel υ ι → Prop
  | action {model after isInitModel disk disk' action status} :
      Completes (Model.updateAction users items model action) disk (status, after) disk' →
      OpenStep ⟨model, isInitModel, disk⟩ (.action action) ⟨after, isInitModel, disk'⟩
  | item {model after isInitModel disk disk' item status} :
      Completes (Model.updateItem items model item) disk (status, after) disk' →
      OpenStep ⟨model, isInitModel, disk⟩ (.item item) ⟨after, isInitModel, disk'⟩
  | flush {model after isInitModel disk disk' status calls} :
      Completes (Model.flush users items model) disk (status, calls, after) disk' →
      OpenStep ⟨model, isInitModel, disk⟩ .flush ⟨after, isInitModel, disk'⟩
  | train {model after isInitModel disk disk' now now' status} :
      Completes (Model.train format now now' model) disk (status, after) disk' →
      OpenStep ⟨model, isInitModel, disk⟩ (.train now now') ⟨after, isInitModel, disk'⟩
  | reload {model after isInitModel isInitModel' disk disk' status} :
      Completes (Model.reload loads format isInitModel model) disk (status, isInitModel', after) disk' →
      OpenStep ⟨model, isInitModel, disk⟩ .reload ⟨after, isInitModel', disk'⟩
  | rollover {model after isInitModel disk disk' status} :
      Completes (Model.rollover model) disk (status, after) disk' →
      OpenStep ⟨model, isInitModel, disk⟩ .rollover ⟨after, isInitModel, disk'⟩

/-- The clicks that the loop of `updateAction` adds for the keys of an item. -/
def clicksOf (click : CategoryClick) (keys : List Int) : List LogEvent :=
  (keys.filter fun key => (items.typeId key).type = .category).map fun key =>
    .click { click with categoryId := (items.typeId key).id }

/-- What an action adds to the logs. -/
def actionEvents (model : Model υ ι Trends) (action : Action) : List LogEvent :=
  if action.action ≠ .click ∧ action.action ≠ .like ∧ action.action ≠ .comment ∧
      action.action ≠ .favorite ∧ action.action ≠ .share then []
  else
    let lastModified := users.findUserReaded model.userDb action.userId action.itemId
    if lastModified.isSome ∧ 0 < lastModified.getD 0 then []
    else
      match (users.updateAction model.userDb action).1, items.fetchItemBelongsTo model.itemDb action.itemId with
      | .ok (), .ok belongsTo => clicksOf items ⟨action.userId, 0, action.clickTime⟩ belongsTo
      | _, _ => []

/-- What an item adds to the log of the interests. -/
def itemEvents (model : Model υ ι Trends) (item : Item) : List LogEvent :=
  match (items.addItem model.itemDb item).1 with
  | .ok () => item.category.map fun categoryId => .item ⟨item.itemId, categoryId, item.publishTime⟩
  | .error _ => []

/-- What a call means for the user interests. -/
def OpenCall.interestsCalls (service : OpenModel υ ι) : OpenCall → List InterestsCall
  | .action update => (actionEvents users items service.model update).map .add
  | .item update => (itemEvents items service.model update).map .add
  | .train _ now' => [.eliminate now']
  | .rollover => [.rollover]
  | .flush | .reload => []

/-- The calls on the user interests in a run. -/
def interestsCalls (taken : List (OpenModel υ ι × OpenCall)) : List InterestsCall :=
  taken.flatMap fun pair => pair.2.interestsCalls users items pair.1

end

end ContentBased
