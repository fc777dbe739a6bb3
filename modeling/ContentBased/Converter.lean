import ContentBased.CategoryTable
import ContentBased.Library.Entries
import ContentBased.Library.Readers

/-! The tool that makes the tables of the system from files with other category ids. -/
namespace ContentBased.Converter
open Std Wire Readers

section Load
variable (splitString : Bytes → List Bytes) (atof : Bytes → UInt64)

/-- What a loop makes of the part of a file that one `fgets` reads. -/
def line (part : Bytes) : Bytes := (part.takeWhile (· != 0)).rdropWhile fun byte => byte = 13 ∨ byte = 10

/-- The strings that the line is split into, unless it is empty. -/
def strings (part : Bytes) : List Bytes := if line part = [] then [] else splitString (line part)

/-- The numbers of the categories by their names. -/
def loadCategoryTable (c : Bytes) : ExtTreeMap Bytes Int32 :=
  (Lines.parts 299 c).foldl (fun table part =>
    match strings splitString part with
    | [number, name] => table.insertIfNew name (categoryId number)
    | _ => table) ∅

/-- The trends of the categories, and the ids of the system by those of the files. -/
structure Loaded where
  trends : ExtTreeMap Int32 UInt64 := ∅
  idtab : ExtTreeMap Int32 Int32 := ∅

def loadLine (table : ExtTreeMap Bytes Int32) (loaded : Loaded) (part : Bytes) : Loaded :=
  match strings splitString part with
  | [number, name, weight] =>
    match table[name]? with
    | none => loaded
    | some id =>
      if id ∈ loaded.trends then loaded
      else
        { trends := loaded.trends.insert id (atof weight)
          idtab := loaded.idtab.insertIfNew (categoryId number) id }
  | _ => loaded

def loadNewsTrends (table : ExtTreeMap Bytes Int32) (nt : Bytes) : Loaded :=
  (Lines.parts 299 nt).foldl (loadLine splitString atof table) {}

end Load

section Interests

/-- The weights by categories, as the bytes of `double`s. -/
abbrev Distribution := ExtTreeMap Int32 UInt64

/-- The records of the index: a user and a count. What is left of a record is not read. -/
def indexRecords : Nat → Bytes → List (UInt64 × Int32)
  | 0, _ => []
  | turns + 1, idx =>
    match (do
      let uid ← word
      let cnt ← int
      return (uid, cnt)).run idx with
    | none => []
    | some (record, rest) => record :: indexRecords turns rest

def index (idx : Bytes) : List (UInt64 × Int32) := indexRecords idx.length idx

def readPair : Reader (Int32 × UInt64) := do
  let cid ← int
  let pr ← word
  return (cid, pr)

/-- The loop over the index, which ends the program when the data run out. -/
def loadUsers : List (UInt64 × Int32) → Bytes → ExtTreeMap UInt64 Distribution → Option (ExtTreeMap UInt64 Distribution)
  | [], _, interests => some interests
  | (uid, cnt) :: records, dat, interests =>
    if cnt = 0 then loadUsers records dat interests
    else
      match (times readPair cnt.toInt.toNat).run dat with
      | none => none
      | some (pairs, dat) =>
        loadUsers records dat (interests.insert uid (pairs.foldl (fun map pair => map.insert pair.1 pair.2) ∅))

def loadUserInterests (idx dat : Bytes) : Option (ExtTreeMap UInt64 Distribution) := loadUsers (index idx) dat ∅

end Interests

/-- A record of the table of the users: the `double`s are given to `set_tag_power`. -/
structure UserRecord where
  userId : UInt64
  distribution : List (Int32 × UInt64)
deriving DecidableEq, Repr

def dumpTag (idtab : ExtTreeMap Int32 Int32) (tag : Int32 × UInt64) : Option (Int32 × UInt64) := do
  let id ← idtab[tag.1]?
  return (id, tag.2)

def dumpUser (idtab : ExtTreeMap Int32 Int32) (user : UInt64 × Distribution) : Option UserRecord := do
  let distribution ← user.2.toList.mapM (dumpTag idtab)
  return ⟨user.1, distribution⟩

/-- The records in the order of the users. There are none when a category has no id. -/
def dumpUserInterests (idtab : ExtTreeMap Int32 Int32) (interests : ExtTreeMap UInt64 Distribution) :
    Option (List UserRecord) :=
  interests.toList.mapM (dumpUser idtab)

/-- The files of the tool under the names of its flags. -/
structure Files where
  c : Bytes
  nt : Bytes
  idx : Bytes
  dat : Bytes

/-- The tool stops, reads an id that is missing, or has written both tables. -/
inductive Ending where
  | exit
  | missing
  | finished (newsTrends : List (Int32 × UInt64)) (userInterests : List UserRecord)
deriving DecidableEq, Repr

def convert (splitString : Bytes → List Bytes) (atof : Bytes → UInt64) (files : Files) : Ending :=
  let loaded := loadNewsTrends splitString atof (loadCategoryTable splitString files.c) files.nt
  match loadUserInterests files.idx files.dat with
  | none => .exit
  | some interests =>
    match dumpUserInterests loaded.idtab interests with
    | none => .missing
    | some records => .finished loaded.trends.toList records

end ContentBased.Converter
