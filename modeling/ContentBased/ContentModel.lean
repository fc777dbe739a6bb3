import ContentBased.UserInterests

namespace ContentBased
open RecordDisk Std

inductive ActionType where
  | click
  | like
  | comment
  | favorite
  | share
  | other (value : Int)
deriving DecidableEq, Repr

structure Action where
  userId : UInt64
  itemId : UInt64
  action : ActionType
  clickTime : Int32
deriving DecidableEq, Repr

structure Item where
  itemId : UInt64
  publishTime : Int32
  category : List Int32
deriving DecidableEq, Repr

inductive IdType where
  | category
  | other (value : Int)
deriving DecidableEq, Repr

/-- The two parts of a `type_id_t`. -/
structure TypeId where
  type : IdType
  id : Int32
deriving DecidableEq, Repr

/-- The user table with states `υ`: what its calls report and what they leave. -/
structure UserDB (υ : Type) where
  findUserReaded : υ → UInt64 → UInt64 → Option Int32
  updateAction : υ → Action → Status × υ
  eliminate : υ → Status × υ
  flushTable : υ → Status × υ

/-- The item table with states `ι`, and how the key of a pair is made up of a type and an id. -/
structure ItemDB (ι : Type) where
  fetchItemBelongsTo : ι → UInt64 → Except Failure (List Int)
  typeId : Int → TypeId
  addItem : ι → Item → Status × ι
  eliminate : ι → Status × ι
  flushTable : ι → Status × ι

/-- The members of `ContentBased` and the globals beside it. The fields of the news trends
are of any type: nothing here reads them. -/
structure Model (υ ι ν : Type) where
  categoryTableName : String
  category : ExtTreeMap Int32 Bytes
  isCategoryModified : Bool
  userDb : υ
  itemDb : ι
  newsTrends : DistTable ν
  userInterests : UserInterests

/-- The storage calls of a flush. -/
inductive StorageCall where
  | userEliminate
  | userFlushTable
  | itemEliminate
  | itemFlushTable
deriving DecidableEq, Repr

namespace Model
variable {υ ι ν : Type}

/-- What is printed for a category; the name is printed up to a NUL byte. -/
def categoryLine (entry : Int32 × Bytes) : Bytes :=
  Decimal.decimal entry.1.toInt ++ 124 :: (entry.2.takeWhile (· != 0) ++ [10])

def flushLines (file : FileName) : List (Int32 × Bytes) → Program Unit
  | [] => return ()
  | entry :: rest => do
    let _ ← append file (categoryLine entry) false
    flushLines file rest

/-- What the single writes and the closing of the file report is not looked at. -/
def flushCategory (model : Model υ ι ν) (name : String) : Program (Status × Model υ ι ν) := do
  let tempName := FileName.plain (name ++ ".tmp")
  match ← create tempName with
  | .error errno => return (.error ⟨.ioError, errno.message ++ ", file=" ++ tempName.text⟩, model)
  | .ok () =>
    flushLines tempName model.category.toList
    let _ ← sync tempName
    match ← rename noSuchFile tempName (.plain name) with
    | .ok () => return (.ok (), { model with isCategoryModified := false })
    | .error errno => return (.error (renameError errno tempName (.plain name)), { model with isCategoryModified := false })

/-- The storage calls of `flush`, each with what it reported, and the status `flush` returns. -/
def flushTables (users : UserDB υ) (items : ItemDB ι) (model : Model υ ι ν) :
    Status × List (StorageCall × Status) × Model υ ι ν :=
  let (eliminated, userDb) := users.eliminate model.userDb
  let model := { model with userDb }
  match eliminated with
  | .error failure => (.error failure, [(.userEliminate, eliminated)], model)
  | .ok () =>
    let (flushed, userDb) := users.flushTable model.userDb
    let model := { model with userDb }
    match flushed with
    | .ok () => (flushed, [(.userEliminate, eliminated), (.userFlushTable, flushed)], model)
    | .error _ =>
      let (itemEliminated, itemDb) := items.eliminate model.itemDb
      let model := { model with itemDb }
      match itemEliminated with
      | .error failure =>
        (.error failure, [(.userEliminate, eliminated), (.userFlushTable, flushed), (.itemEliminate, itemEliminated)], model)
      | .ok () =>
        let (itemFlushed, itemDb) := items.flushTable model.itemDb
        let model := { model with itemDb }
        (.ok (), [(.userEliminate, eliminated), (.userFlushTable, flushed), (.itemEliminate, itemEliminated),
          (.itemFlushTable, itemFlushed)], model)

/-- A category table that cannot be written is only reported in the log. -/
def flush (users : UserDB υ) (items : ItemDB ι) (model : Model υ ι ν) :
    Program (Status × List (StorageCall × Status) × Model υ ι ν) := do
  if model.isCategoryModified then
    let (_, model) ← flushCategory model model.categoryTableName
    return flushTables users items model
  else
    return flushTables users items model

/-- The loop of `updateAction` over the keys of the item. -/
def addClicks (items : ItemDB ι) (click : CategoryClick) : List Int → Model υ ι ν → Program (Status × Model υ ι ν)
  | [], model => return (.ok (), model)
  | key :: rest, model =>
    if (items.typeId key).type ≠ .category then addClicks items click rest model
    else do
      let click := { click with categoryId := (items.typeId key).id }
      match ← model.newsTrends.addClick click with
      | .error failure => return (.error failure, model)
      | .ok () =>
        match ← UserInterests.addClick model.userInterests click with
        | (.error failure, userInterests) => return (.error failure, { model with userInterests })
        | (.ok (), userInterests) => addClicks items click rest { model with userInterests }

def updateAction (users : UserDB υ) (items : ItemDB ι) (model : Model υ ι ν) (action : Action) :
    Program (Status × Model υ ι ν) :=
  if action.action ≠ .click ∧ action.action ≠ .like ∧ action.action ≠ .comment ∧
      action.action ≠ .favorite ∧ action.action ≠ .share then
    return (.ok (), model)
  else
    let lastModified := users.findUserReaded model.userDb action.userId action.itemId
    if lastModified.isSome ∧ 0 < lastModified.getD 0 then
      return (.ok (), model)
    else
      match users.updateAction model.userDb action with
      | (.error failure, userDb) => return (.error failure, { model with userDb })
      | (.ok (), userDb) =>
        match items.fetchItemBelongsTo model.itemDb action.itemId with
        | .error failure => return (.error failure, { model with userDb })
        | .ok belongsTo =>
          addClicks items ⟨action.userId, 0, action.clickTime⟩ belongsTo { model with userDb }

/-- The loop of `updateItem` over the categories of the item. -/
def addItems (item : CategoryItem) : List Int32 → Model υ ι ν → Program (Status × Model υ ι ν)
  | [], model => return (.ok (), model)
  | categoryId :: rest, model => do
    let item := { item with categoryId }
    match ← UserInterests.addItem model.userInterests item with
    | (.error failure, userInterests) => return (.error failure, { model with userInterests })
    | (.ok (), userInterests) => addItems item rest { model with userInterests }

def updateItem (items : ItemDB ι) (model : Model υ ι ν) (item : Item) : Program (Status × Model υ ι ν) :=
  match items.addItem model.itemDb item with
  | (.error failure, itemDb) => return (.error failure, { model with itemDb })
  | (.ok (), itemDb) => addItems ⟨item.itemId, 0, item.publishTime⟩ item.category { model with itemDb }

end Model

end ContentBased
