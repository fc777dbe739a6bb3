import ContentBased.Storage

namespace ContentBased
open RecordDisk Decimal

/-- `writer` is null until the log has been opened. -/
structure PeriodicLog where
  lastCounter : Int32
  path : String
  prefix_ : String
  writer : Option WALWriter
deriving DecidableEq, Repr

namespace PeriodicLog
variable {σ : Type}

/-- A log object before `openLog`; its counter is not read before then. -/
def new (path prefix_ : String) : PeriodicLog := ⟨0, path, prefix_, none⟩

/-- One turn of the recovery loop. The first record is the header, the others go to the visitor. -/
def recoverRecord (writer : WALWriter) (visitor : Option (σ → Bytes → σ)) :
    Bool × PeriodicLog × σ → Bytes → Program (Status × Bool × PeriodicLog × σ)
  | (first, log, seen), data => do
    let log := if first then { log with lastCounter := atoi data } else log
    let seen := if first then seen else (visitor.getD fun s _ => s) seen data
    let status ← writer.append data false
    return (status, false, log, seen)

/-- Copies the records of file `name` to the writer. What `flush` and `remove` report is dropped. -/
def recovery (log : PeriodicLog) (name : FileName) (writer : WALWriter)
    (visitor : Option (σ → Bytes → σ)) (seen : σ) : Program (Status × PeriodicLog × σ) := do
  match ← openReader noSuchFile name with
  | .error failure => return (.error failure, log, seen)
  | .ok records =>
    match ← readLoop List.isEmpty (recoverRecord writer visitor) records (true, log, seen) with
    | (.error failure, _, log, seen) => return (.error failure, log, seen)
    | (.ok (), _, log, seen) =>
      let _ ← writer.flush
      let _ ← remove noSuchFile name
      return (.ok (), log, seen)

/-- `PeriodicLog::open`. -/
def openLog (log : PeriodicLog) (counter : Int32) (visitor : Option (σ → Bytes → σ)) (seen : σ) :
    Program (Status × PeriodicLog × σ) := do
  let recoveryName := FileName.recovering log.path log.prefix_
  let writingName := FileName.writing log.path log.prefix_
  let writer := log.writer.getD ⟨writingName, false⟩
  let log := { log with lastCounter := counter, writer := some writer }
  if ← isFile recoveryName then
    match ← writer.create with
    | (.error failure, _) => return (.error failure, log, seen)
    | (.ok (), writer) => recovery { log with writer := some writer } recoveryName writer visitor seen
  else if ← isFile writingName then
    match ← rename noSuchFile writingName recoveryName with
    | .error errno => return (.error (renameError errno writingName recoveryName), log, seen)
    | .ok () =>
      match ← writer.create with
      | (.error failure, _) => return (.error failure, log, seen)
      | (.ok (), writer) => recovery { log with writer := some writer } recoveryName writer visitor seen
  else
    match ← writer.create with
    | (.error failure, _) => return (.error failure, log, seen)
    | (.ok (), writer) =>
      let status ← writer.append (decimal counter.toInt)
      return (status, { log with writer := some writer }, seen)

/-- A rolled file gets the number `lastCounter`, and so does the header of the next one. What becomes of a counter that
overflows is not defined. -/
def rollover (log : PeriodicLog) : Program (Status × PeriodicLog) :=
  match log.writer with
  | none => abort
  | some writer => do
    let logName := FileName.log log.path log.prefix_ log.lastCounter.toInt
    let closed := { log with writer := some writer.close }
    match ← rename noSuchFile writer.filename logName with
    | .error errno => return (.error (renameError errno writer.filename logName), closed)
    | .ok () =>
      match ← writer.close.create with
      | (.error failure, _) => return (.error failure, closed)
      | (.ok (), writer) =>
        let status ← writer.append (decimal log.lastCounter.toInt)
        if log.lastCounter = Int32.maxValue then abort
        else return (status, { log with lastCounter := log.lastCounter + 1, writer := some writer })

def write (log : PeriodicLog) (data : Bytes) : Program Status :=
  match log.writer with
  | none => abort
  | some writer => writer.append data

/-- Walks over the rolled logs from the newest one down. -/
structure Iterator where
  path : String
  prefix_ : String
  lastCounter : Int
  counter : Int
deriving DecidableEq, Repr

def getIterator (log : PeriodicLog) : Iterator :=
  ⟨log.path, log.prefix_, log.lastCounter.toInt - 1, log.lastCounter.toInt - 1⟩

namespace Iterator

def next (iter : Iterator) : Iterator := { iter with counter := iter.counter - 1 }

def filename (iter : Iterator) : FileName := .log iter.path iter.prefix_ iter.counter

def isFileExist (iter : Iterator) : Program Bool := isFile iter.filename

end Iterator

/-- A reader of a rolled log, with the number found in its header and the records still to read. -/
structure Reader where
  numb : Int32
  records : List Bytes
deriving DecidableEq, Repr

/-- `Reader::open`. -/
def openLogReader (name : FileName) : Program (Status × Reader) := do
  match ← openReader noSuchFile name with
  | .error failure => return (.error failure, ⟨0, []⟩)
  | .ok records =>
    match ← RecordDisk.read records with
    | .error failure => return (.error failure, ⟨0, records⟩)
    | .ok data => return (.ok (), ⟨atoi (data.getD []), records.tail⟩)

end PeriodicLog

end ContentBased
