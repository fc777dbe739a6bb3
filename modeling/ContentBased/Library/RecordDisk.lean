import Mathlib

namespace RecordDisk

/-- A file of records. Appends stay `cached` until a flush makes them durable. -/
structure File (ρ : Type) where
  stored : List ρ
  cached : List ρ
deriving DecidableEq, Repr

namespace File
variable {ρ : Type}

def content (file : File ρ) : List ρ := file.stored ++ file.cached

/-- A file whose records are all durable. -/
def synced (records : List ρ) : File ρ := ⟨records, []⟩

def sync (file : File ρ) : File ρ := synced file.content

def push (file : File ρ) (record : ρ) (flush : Bool) : File ρ :=
  if flush then synced (file.content ++ [record]) else ⟨file.stored, file.cached ++ [record]⟩

/-- What a crash leaves: the durable records and some first part of the cached ones. -/
def survivor (kept : Nat) (file : File ρ) : File ρ := synced (file.stored ++ file.cached.take kept)

@[simp] theorem content_synced (records : List ρ) : (synced records).content = records := by
  simp [synced, content]

@[simp] theorem sync_synced (records : List ρ) : (synced records).sync = synced records := by
  simp [sync]

@[simp] theorem push_synced (records : List ρ) (record : ρ) :
    (synced records).push record true = synced (records ++ [record]) := by
  simp [push]

@[simp] theorem survivor_synced (kept : Nat) (records : List ρ) :
    (synced records).survivor kept = synced records := by
  simp [survivor, synced]

end File

/-- The files of a directory by name. -/
abbrev Disk (ν ρ : Type) := ν → Option (File ρ)

/-- What the environment does to the next file step. A crash keeps the given
number of the cached records of every file. -/
inductive Fault (ε : Type) where
  | pass
  | fail (error : ε)
  | crash (kept : Nat)
deriving DecidableEq, Repr

/-- The disk and the faults still to come; once they are used up every step passes. -/
structure World (ν ρ ε : Type) where
  disk : Disk ν ρ
  faults : List (Fault ε)

/-- A program over the disk. It returns a value, or it crashes and leaves a disk behind. -/
abbrev FileM (ν ρ ε : Type) := StateT (World ν ρ ε) (Except (Disk ν ρ))

def Disk.survivor {ν ρ : Type} (kept : Nat) (disk : Disk ν ρ) : Disk ν ρ :=
  fun name => (disk name).map (File.survivor kept)

section Steps
variable {ν ρ ε γ : Type}

/-- The process dies at once, without the environment's doing. -/
def abort {α : Type} : FileM ν ρ ε α := fun world => .error (world.disk.survivor 0)

/-- One file step. A step that fails leaves the disk as it was. -/
def step (effect : Disk ν ρ → Except ε (γ × Disk ν ρ)) : FileM ν ρ ε (Except ε γ) := fun world =>
  match world.faults with
  | .fail error :: rest => .ok (.error error, ⟨world.disk, rest⟩)
  | .crash kept :: _ => .error (world.disk.survivor kept)
  | faults =>
    match effect world.disk with
    | .ok (value, disk) => .ok (.ok value, ⟨disk, faults.tail⟩)
    | .error error => .ok (.error error, ⟨world.disk, faults.tail⟩)

/-- Looking whether a file is there does not fail. -/
def isFile (name : ν) : FileM ν ρ ε Bool := fun world => .ok ((world.disk name).isSome, world)

variable [DecidableEq ν]

def create (name : ν) : FileM ν ρ ε (Except ε Unit) :=
  step fun disk => .ok ((), Function.update disk name (some (.synced [])))

def append (name : ν) (record : ρ) (flush : Bool) : FileM ν ρ ε (Except ε Unit) :=
  step fun disk => .ok ((), Function.update disk name ((disk name).map (·.push record flush)))

def sync (name : ν) : FileM ν ρ ε (Except ε Unit) :=
  step fun disk => .ok ((), Function.update disk name ((disk name).map File.sync))

/-- Renaming replaces a file that has the new name. -/
def rename (missing : ε) (old new : ν) : FileM ν ρ ε (Except ε Unit) :=
  step fun disk =>
    match disk old with
    | some file => .ok ((), Function.update (Function.update disk old none) new (some file))
    | none => .error missing

def remove (missing : ε) (name : ν) : FileM ν ρ ε (Except ε Unit) :=
  step fun disk =>
    match disk name with
    | some _ => .ok ((), Function.update disk name none)
    | none => .error missing

/-- Opening a file for reading gives the records that its reads will return. -/
def openReader (missing : ε) (name : ν) : FileM ν ρ ε (Except ε (List ρ)) :=
  step fun disk =>
    match disk name with
    | some file => .ok (file.content, disk)
    | none => .error missing

/-- One read: the next record, or nothing at the end of the file, and the records after it. -/
def read (records : List ρ) : FileM ν ρ ε (Except ε (Option ρ)) :=
  step fun disk => .ok (records.head?, disk)

/-- Reads until a read fails, the file ends, a record is the end mark, or `body` fails;
only a failure of `body` is reported. -/
def readLoop {σ : Type} (isEnd : ρ → Bool) (body : σ → ρ → FileM ν ρ ε (Except ε Unit × σ)) :
    List ρ → σ → FileM ν ρ ε (Except ε Unit × σ)
  | [], state => do
    let _ ← read (ν := ν) (ε := ε) ([] : List ρ)
    return (.ok (), state)
  | record :: rest, state => do
    match ← read (ν := ν) (ε := ε) (record :: rest) with
    | .error _ => return (.ok (), state)
    | .ok _ =>
      if isEnd record then
        return (.ok (), state)
      else
        match ← body state record with
        | (.error error, state) => return (.error error, state)
        | (.ok (), state) => readLoop isEnd body rest state

end Steps

end RecordDisk
