import ContentBased.Supplement
import ContentBased.PeriodicLog

namespace ContentBased
open RecordDisk Decimal PeriodicLog

/-- The virtual functions of a table whose subclass has the fields `σ`. What a subclass
leaves out does nothing. Those that read the clock are given it. -/
structure Virtual (σ : Type) where
  needEliminate : σ → Int → Int → Bool := fun _ _ _ => false
  reloadBefore : σ → Status × σ := fun fields => (.ok (), fields)
  reloadCompleted : σ → Status × σ := fun fields => (.ok (), fields)
  trainBefore : Int → σ → Status × σ := fun _ fields => (.ok (), fields)
  trainCompleted : σ → Status × σ := fun fields => (.ok (), fields)
  eliminateBefore : Int → σ → Status × σ := fun _ fields => (.ok (), fields)
  eliminateCompleted : σ → Status × σ := fun fields => (.ok (), fields)
  recoveryClick : CategoryClick → σ → Status × σ := fun _ fields => (.ok (), fields)
  recoveryItem : CategoryItem → σ → Status × σ := fun _ fields => (.ok (), fields)
  trainClick : CategoryClick → σ → Status × σ := fun _ fields => (.ok (), fields)
  trainItem : CategoryItem → σ → Status × σ := fun _ fields => (.ok (), fields)
  eliminateClick : CategoryClick → σ → Status × σ := fun _ fields => (.ok (), fields)
  eliminateItem : CategoryItem → σ → Status × σ := fun _ fields => (.ok (), fields)
  dumpTable : FileName → σ → Program (Status × σ) := fun _ fields => return (.ok (), fields)
  loadDistribution : CategoryDistribution → σ → Status × σ := fun _ fields => (.ok (), fields)

structure DistTable (σ : Type) where
  workPath : String
  prefix_ : String
  tableName : String
  timeWindowSize : Int
  periodicLog : PeriodicLog
  fields : σ

namespace DistTable
variable {σ : Type}

def new (path prefix_ tableName : String) (timeWindowSize : Int) (fields : σ) : DistTable σ :=
  ⟨path, prefix_, tableName, timeWindowSize, .new path prefix_, fields⟩

def kLogTypeClick : UInt8 := 67

def kLogTypeItem : UInt8 := 73

/-- The first byte of a record tells what the rest of it is. -/
def recoveryAheadLog (virtual : Virtual σ) (data : Bytes) (fields : σ) : Status × σ :=
  match data with
  | [] => (.error ⟨.corruption, "Invalid data"⟩, fields)
  | kind :: body =>
    if kind = kLogTypeClick then
      match CategoryClick.parseFromArray body with
      | some click => virtual.recoveryClick click fields
      | none => (.error ⟨.corruption, "Parse category click failed"⟩, fields)
    else if kind = kLogTypeItem then
      match CategoryItem.parseFromArray body with
      | some item => virtual.recoveryItem item fields
      | none => (.error ⟨.corruption, "Parse category item failed"⟩, fields)
    else (.error ⟨.corruption, "Invalid data"⟩, fields)

/-- `LogVisitor::visit` drops the status. -/
def visit (virtual : Virtual σ) (fields : σ) (data : Bytes) : σ := (recoveryAheadLog virtual data fields).2

def init (virtual : Virtual σ) (table : DistTable σ) : Program (Status × DistTable σ) := do
  let (status, periodicLog, fields) ← table.periodicLog.openLog 0 (some (visit virtual)) table.fields
  return (status, { table with periodicLog, fields })

def rollover (table : DistTable σ) : Program (Status × DistTable σ) := do
  let (status, periodicLog) ← table.periodicLog.rollover
  return (status, { table with periodicLog })

/-- One record of a table; what `loadDistribution` reports is passed over. -/
def loadRecord (format : ItemTagFormat) (virtual : Virtual σ) (fields : σ) (data : Bytes) : Status × σ :=
  match CategoryDistribution.parseFromString format data with
  | none => (.error ⟨.corruption, "Parse category distribution"⟩, fields)
  | some distribution => (.ok (), (virtual.loadDistribution distribution fields).2)

/-- A read that fails ends the loop like an empty record does. -/
def reload (format : ItemTagFormat) (virtual : Virtual σ) (table : DistTable σ) : Program (Status × DistTable σ) :=
  match virtual.reloadBefore table.fields with
  | (.error failure, fields) => return (.error failure, { table with fields })
  | (.ok (), fields) => do
    match ← openReader noSuchFile (.table table.workPath table.tableName) with
    | .error failure => return (.error failure, { table with fields })
    | .ok records =>
      match ← readLoop List.isEmpty (fun fields data => return loadRecord format virtual fields data) records fields with
      | (.error failure, fields) => return (.error failure, { table with fields })
      | (.ok (), fields) =>
        let (status, fields) := virtual.reloadCompleted fields
        return (status, { table with fields })

/-- One record of `readPeriodicLog`. One that does not parse is passed over, and so is what
the functions report. -/
def readRecord (clickf : CategoryClick → σ → Status × σ) (itemf : CategoryItem → σ → Status × σ)
    (fields : σ) (data : Bytes) : σ :=
  match data with
  | [] => fields
  | kind :: body =>
    if kind = kLogTypeClick then
      match CategoryClick.parseFromArray body with
      | some click => (clickf click fields).2
      | none => fields
    else if kind = kLogTypeItem then
      match CategoryItem.parseFromArray body with
      | some item => (itemf item fields).2
      | none => fields
    else fields

def readPeriodicLog (name : FileName) (clickf : CategoryClick → σ → Status × σ)
    (itemf : CategoryItem → σ → Status × σ) (fields : σ) : Program (Status × σ) := do
  match ← openLogReader name with
  | (.error failure, _) => return (.error failure, fields)
  | (.ok (), reader) =>
    let (_, fields) ← readLoop List.isEmpty
      (fun fields data => return (.ok (), readRecord clickf itemf fields data)) reader.records fields
    return (.ok (), fields)

/-- The loop over the rolled logs from the newest down that training and elimination share. A
log that is missing is passed over. -/
def forLogs (body : Iterator → σ → Program (Status × σ)) : Nat → Iterator → σ → Program (Status × σ)
  | 0, _, fields => return (.ok (), fields)
  | turns + 1, iter, fields => do
    if iter.counter < 0 then
      return (.ok (), fields)
    else if ← iter.isFileExist then
      match ← body iter fields with
      | (.error failure, fields) => return (.error failure, fields)
      | (.ok (), fields) => forLogs body turns iter.next fields
    else
      forLogs body turns iter.next fields

/-- A log that cannot be read does not stop the training. -/
def trainLog (virtual : Virtual σ) (iter : Iterator) (fields : σ) : Program (Status × σ) := do
  let (_, fields) ← readPeriodicLog iter.filename virtual.trainClick virtual.trainItem fields
  return (.ok (), fields)

def trainPeriodicLog (virtual : Virtual σ) (table : DistTable σ) : Program (Status × DistTable σ) := do
  let (status, fields) ← forLogs (trainLog virtual) table.timeWindowSize.toNat
    table.periodicLog.getIterator table.fields
  return (status, { table with fields })

def train (virtual : Virtual σ) (now : Int) (table : DistTable σ) : Program (Status × DistTable σ) :=
  match virtual.trainBefore now table.fields with
  | (.error failure, fields) => return (.error failure, { table with fields })
  | (.ok (), fields) => do
    match ← trainPeriodicLog virtual { table with fields } with
    | (.error failure, table) => return (.error failure, table)
    | (.ok (), table) =>
      let fullpath := FileName.table table.workPath table.tableName
      let tmpFullpath := FileName.temporary table.workPath table.tableName
      match ← create tmpFullpath with
      | .error failure => return (.error failure, table)
      | .ok () =>
        match ← virtual.dumpTable tmpFullpath table.fields with
        | (.error failure, fields) => return (.error failure, { table with fields })
        | (.ok (), fields) =>
          match virtual.trainCompleted fields with
          | (.error failure, fields) => return (.error failure, { table with fields })
          | (.ok (), fields) =>
            match ← rename noSuchFile tmpFullpath fullpath with
            | .error errno => return (.error (renameError errno tmpFullpath fullpath), { table with fields })
            | .ok () => return (.ok (), { table with fields })

/-- A log that cannot be read is removed all the same. -/
def eliminateLog (virtual : Virtual σ) (iter : Iterator) (fields : σ) : Program (Status × σ) := do
  if virtual.needEliminate fields iter.lastCounter iter.counter then
    let (_, fields) ← readPeriodicLog iter.filename virtual.eliminateClick virtual.eliminateItem fields
    match ← remove noSuchFile iter.filename with
    | .error errno => return (.error (removeError errno iter.filename), fields)
    | .ok () => return (.ok (), fields)
  else
    return (.ok (), fields)

def eliminatePeriodicLog (virtual : Virtual σ) (table : DistTable σ) : Program (Status × DistTable σ) := do
  let (status, fields) ← forLogs (eliminateLog virtual) table.timeWindowSize.toNat
    table.periodicLog.getIterator table.fields
  return (status, { table with fields })

def eliminate (virtual : Virtual σ) (now : Int) (table : DistTable σ) : Program (Status × DistTable σ) :=
  match virtual.eliminateBefore now table.fields with
  | (.error failure, fields) => return (.error failure, { table with fields })
  | (.ok (), fields) => do
    match ← eliminatePeriodicLog virtual { table with fields } with
    | (.error failure, table) => return (.error failure, table)
    | (.ok (), table) =>
      let (status, fields) := virtual.eliminateCompleted table.fields
      return (status, { table with fields })

def addClick (table : DistTable σ) (click : CategoryClick) : Program Status :=
  match click.appendToString [kLogTypeClick] with
  | some serializedData => table.periodicLog.write serializedData
  | none => return .error ⟨.corruption, "Serialize click: user_id=" ++ toString click.userId ++
      ", category_id=" ++ toString click.categoryId⟩

def addItem (table : DistTable σ) (item : CategoryItem) : Program Status :=
  match item.appendToString [kLogTypeItem] with
  | some serializedData => table.periodicLog.write serializedData
  | none => return .error ⟨.corruption, "Serialize click: item_id=" ++ toString item.itemId ++
      ", category_id=" ++ toString item.categoryId⟩

end DistTable

end ContentBased
