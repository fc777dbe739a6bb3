import ContentBased.ItemMessages
import ContentBased.Library.Writers
import ContentBased.Library.Readers

namespace ContentBased.FrameworkCenter
open Trapping Wire Writers Readers Jparse

section Encode
variable {ν : Type} (cJson : CJson ν) (cpStrtovalU64 : Bytes → UInt64)

def putField (json : ν) (key : String) (missing : Int) (field : ν → Trapping Cursor Int Unit) : Trapping Cursor Int Unit :=
  match cJson.getObjectItem json key with
  | none => throw missing
  | some node => field node

def putInt (size : Int32) (full : Int) (node : ν) : Trapping Cursor Int Unit :=
  put size full 4 (pure (rawInt (cJson.valueInt node)))

def putId (size : Int32) (full : Int) (node : ν) : Trapping Cursor Int Unit :=
  put size full 8 do
    let text ← deref (cJson.valueString node)
    return rawWord (cpStrtovalU64 text)

/-- The length of a string and then its bytes. -/
def putText (size : Int32) (full : Int) (node : ν) : Trapping Cursor Int Unit := do
  let text ← deref (cJson.valueString node)
  put size full 4 (pure (rawInt (Int32.ofNat text.length)))
  put size full text.length (pure text)

/-- `parse_array`, whose size of an array is a number that is not negative. -/
def parseArray (allSize : Int32) (json : ν) : Trapping Cursor Int Unit := do
  put allSize (-2) 4 (pure (rawInt (Int32.ofNat (cJson.getArraySize json))))
  (List.range (cJson.getArraySize json)).forM fun i =>
    match cJson.getArrayItem json i with
    | none => throw (-1)
    | some node => putText cJson allSize (-2) node

def parseArrayObject (allSize : Int32) (json : ν) : Trapping Cursor Int Unit := do
  put allSize (-2) 4 (pure (rawInt (Int32.ofNat (cJson.getArraySize json))))
  (List.range (cJson.getArraySize json)).forM fun i =>
    match cJson.getArrayItem json i with
    | none => throw (-1)
    | some object => do
      putField cJson object "word" (-1) (putText cJson allSize (-2))
      putField cJson object "count" (-1) (putInt cJson allSize (-2))

/-- The code of a message for a code of an array: -1 for a broken item, and -2 for a buffer that is full. -/
def listCode (broken full : Int) (code : Int) : Int := if code = -1 then broken else full

def putArray (json : ν) (key : String) (missing broken full : Int) (parse : ν → Trapping Cursor Int Unit) :
    Trapping Cursor Int Unit :=
  putField cJson json key missing fun array => ExceptT.adapt (listCode broken full) (parse array)

/-- What every message starts with: the test of the number of its fields, and its type. -/
def putHead (size : Int32) (json : ν) (num : Nat) (wrong missing full : Int) : Trapping Cursor Int Unit := do
  if cJson.getArraySize json = num then pure () else throw wrong
  putField cJson json "type" missing (putInt cJson size full)

def parseAction (json : ν) (size : Int32) : Trapping Cursor Int Unit := do
  putHead cJson size json 7 (-101) (-102) (-100)
  putField cJson json "clicktime" (-103) (putInt cJson size (-100))
  putField cJson json "userid" (-104) (putId cJson cpStrtovalU64 size (-100))
  putField cJson json "docid" (-105) (putId cJson cpStrtovalU64 size (-100))
  putField cJson json "staytime" (-106) (putInt cJson size (-100))
  putField cJson json "action" (-107) (putInt cJson size (-100))
  putField cJson json "location" (-108) fun node => do
    put size (-100) 4 do
      let text ← deref (cJson.valueString node)
      return rawInt (Int32.ofNat text.length)
    let text ← deref (cJson.valueString node)
    put size (-100) text.length (pure text)

/-- The time of the push is that of the centre. The power is put as a `float`, that `varF4` makes of a number. -/
def parseDocument (varF4 : ℚ → UInt32) (now : Int32) (json : ν) (size : Int32) : Trapping Cursor Int Unit := do
  putHead cJson size json 12 (-201) (-202) (-200)
  putField cJson json "docid" (-203) (putId cJson cpStrtovalU64 size (-200))
  putField cJson json "publictime" (-212) (putInt cJson size (-200))
  putField cJson json "pushtime" (-213) fun _ => put size (-200) 4 (pure (rawInt now))
  putField cJson json "power" (-214) fun node => put size (-200) 4 (pure (rawInt (varF4 (cJson.valueDouble node)).toInt32))
  putArray cJson json "category" (-208) (-209) (-200) (parseArray cJson size)
  putArray cJson json "word" (-210) (-211) (-200) (parseArrayObject cJson size)
  putArray cJson json "srp" (-204) (-205) (-200) (parseArray cJson size)
  putArray cJson json "circle" (-206) (-207) (-200) (parseArray cJson size)
  putField cJson json "topflag" (-215) (putInt cJson size (-200))
  putArray cJson json "topsrp" (-216) (-217) (-200) (parseArray cJson size)
  putArray cJson json "topcircle" (-218) (-219) (-200) (parseArray cJson size)

def parseSubscribe (json : ν) (size : Int32) : Trapping Cursor Int Unit := do
  putHead cJson size json 4 (-301) (-302) (-300)
  putField cJson json "userid" (-303) (putId cJson cpStrtovalU64 size (-300))
  putArray cJson json "circle" (-304) (-305) (-300) (parseArray cJson size)
  putArray cJson json "srp" (-306) (-307) (-300) (parseArray cJson size)

def parseRecommend (json : ν) (size : Int32) : Trapping Cursor Int Unit := do
  putHead cJson size json 4 (-401) (-402) (-400)
  putField cJson json "log" (-403) (putInt cJson size (-400))
  putField cJson json "userid" (-404) (putId cJson cpStrtovalU64 size (-400))
  putField cJson json "requestnum" (-405) (putInt cJson size (-400))

def parseHeartbeat (json : ν) (size : Int32) : Trapping Cursor Int Unit := do
  putHead cJson size json 2 (-501) (-502) (-500)
  putField cJson json "heartbeat" (-503) (putText cJson size (-500))

def parseFeedback (json : ν) (size : Int32) : Trapping Cursor Int Unit := do
  putHead cJson size json 4 (-601) (-602) (-600)
  putField cJson json "userid" (-603) (putId cJson cpStrtovalU64 size (-600))
  putField cJson json "returnnum" (-604) (putInt cJson size (-600))
  putField cJson json "returnlist" (-605) fun array => do
    put size (-600) 4 (pure (rawInt (Int32.ofNat (cJson.getArraySize array))))
    (List.range (cJson.getArraySize array)).forM fun i =>
      match cJson.getArrayItem array i with
      | none => throw (-607)
      | some node => putId cJson cpStrtovalU64 size (-600) node

/-- What `parse_json` returns and sets, and the bytes that it has put into the buffer from its start on. -/
structure Encoded where
  code : Int
  binarySize : Int32
  written : Bytes

/-- The size is set when the parser comes to its end. -/
def Encoded.ofParsed (binarySize : Int32) : Except Int Unit × Cursor → Encoded
  | (.ok (), cursor) => ⟨0, cursor.len, cursor.written⟩
  | (.error code, cursor) => ⟨code, binarySize, cursor.written⟩

def parser (varF4 : ℚ → UInt32) (now : Int32) (json : ν) (type size : Int32) : Trapping Cursor Int Unit :=
  if type = 1 then parseAction cJson cpStrtovalU64 json size
  else if type = 2 then parseDocument cJson cpStrtovalU64 varF4 now json size
  else if type = 3 then parseSubscribe cJson cpStrtovalU64 json size
  else if type = 4 then parseRecommend cJson cpStrtovalU64 json size
  else if type = 5 then parseHeartbeat cJson json size
  else if type = 6 then parseFeedback cJson cpStrtovalU64 json size
  else throw (-888)

/-- `parse_json`, which comes to nothing when it reads through a null pointer. -/
def parseJson (cJsonParse : Bytes → Option ν) (varF4 : ℚ → UInt32) (now : Int32) (jsonBuffer : Bytes)
    (binarySize : Int32) : Option Encoded :=
  match cJsonParse jsonBuffer with
  | none => some ⟨-1, binarySize, []⟩
  | some json =>
    match cJson.getObjectItem json "type" with
    | none => some ⟨-1, binarySize, []⟩
    | some node =>
      (parser cJson cpStrtovalU64 varF4 now json (cJson.valueInt node) binarySize {}).map
        (Encoded.ofParsed binarySize)

end Encode

/-- What a message says, without the time of the push. -/
inductive Content where
  | action (clickTime : Int32) (userId docId : UInt64) (stayTime action : Int32) (location : Bytes)
  | document (docId : UInt64) (publicTime : Int32) (power : UInt32) (category : List Bytes) (word : List (Bytes × Int32))
      (srp circle : List Bytes) (topFlag : Int32) (topSrp topCircle : List Bytes)
  | subscribe (userId : UInt64) (circle srp : List Bytes)
  | recommend (log : Int32) (userId : UInt64) (requestNum : Int32)
  | heartbeat (heartbeat : Bytes)
  | feedback (userId : UInt64) (returnNum : Int32) (returnList : List UInt64)

section Layout

def readWord : Reader (Bytes × Int32) := do
  let text ← sized
  let count ← int
  return (text, count)

def readFloat : Reader UInt32 := do
  let bits ← int
  return bits.toUInt32

def readAction : Reader Content := do
  let clickTime ← int
  let userId ← word
  let docId ← word
  let stayTime ← int
  let action ← int
  let location ← sized
  return .action clickTime userId docId stayTime action location

def readDocument : Reader Content := do
  let docId ← word
  let publicTime ← int
  let _ ← int
  let power ← readFloat
  let category ← counted sized
  let words ← counted readWord
  let srp ← counted sized
  let circle ← counted sized
  let topFlag ← int
  let topSrp ← counted sized
  let topCircle ← counted sized
  return .document docId publicTime power category words srp circle topFlag topSrp topCircle

def readSubscribe : Reader Content := do
  let userId ← word
  let circle ← counted sized
  let srp ← counted sized
  return .subscribe userId circle srp

def readRecommend : Reader Content := do
  let log ← int
  let userId ← word
  let requestNum ← int
  return .recommend log userId requestNum

def readHeartbeat : Reader Content := do
  let heartbeat ← sized
  return .heartbeat heartbeat

def readFeedback : Reader Content := do
  let userId ← word
  let returnNum ← int
  let returnList ← counted word
  return .feedback userId returnNum returnList

def readContent (type : Int32) : Reader Content :=
  if type = 1 then readAction
  else if type = 2 then readDocument
  else if type = 3 then readSubscribe
  else if type = 4 then readRecommend
  else if type = 5 then readHeartbeat
  else if type = 6 then readFeedback
  else failure

/-- The layout that the comments of the parsers give. -/
def decode : Reader Content := do
  let type ← int
  readContent type

end Layout

section Values
variable {ν : Type} (cJson : CJson ν) (cpStrtovalU64 : Bytes → UInt64)

def intOf (json : ν) (key : String) : Option Int32 := (cJson.getObjectItem json key).map cJson.valueInt

def textOf (json : ν) (key : String) : Option Bytes := (cJson.getObjectItem json key).bind cJson.valueString

def idOf (json : ν) (key : String) : Option UInt64 := (textOf cJson json key).map cpStrtovalU64

def textsOf (json : ν) (key : String) : Option (List Bytes) :=
  (cJson.getObjectItem json key).bind fun array => (cJson.items array).mapM cJson.valueString

def wordOf (object : ν) : Option (Bytes × Int32) := do
  let text ← textOf cJson object "word"
  let count ← intOf cJson object "count"
  return (text, count)

def wordsOf (json : ν) (key : String) : Option (List (Bytes × Int32)) :=
  (cJson.getObjectItem json key).bind fun array => (cJson.items array).mapM (wordOf cJson)

def idsOf (json : ν) (key : String) : Option (List UInt64) :=
  (cJson.getObjectItem json key).bind fun array =>
    (cJson.items array).mapM fun node => (cJson.valueString node).map cpStrtovalU64

/-- The values of a JSON object that a message of its type is about. -/
def contentOf (varF4 : ℚ → UInt32) (json : ν) (type : Int32) : Option Content :=
  if type = 1 then do
    let clickTime ← intOf cJson json "clicktime"
    let userId ← idOf cJson cpStrtovalU64 json "userid"
    let docId ← idOf cJson cpStrtovalU64 json "docid"
    let stayTime ← intOf cJson json "staytime"
    let action ← intOf cJson json "action"
    let location ← textOf cJson json "location"
    return .action clickTime userId docId stayTime action location
  else if type = 2 then do
    let docId ← idOf cJson cpStrtovalU64 json "docid"
    let publicTime ← intOf cJson json "publictime"
    let _ ← cJson.getObjectItem json "pushtime"
    let power ← (cJson.getObjectItem json "power").map fun node => varF4 (cJson.valueDouble node)
    let category ← textsOf cJson json "category"
    let words ← wordsOf cJson json "word"
    let srp ← textsOf cJson json "srp"
    let circle ← textsOf cJson json "circle"
    let topFlag ← intOf cJson json "topflag"
    let topSrp ← textsOf cJson json "topsrp"
    let topCircle ← textsOf cJson json "topcircle"
    return .document docId publicTime power category words srp circle topFlag topSrp topCircle
  else if type = 3 then do
    let userId ← idOf cJson cpStrtovalU64 json "userid"
    let circle ← textsOf cJson json "circle"
    let srp ← textsOf cJson json "srp"
    return .subscribe userId circle srp
  else if type = 4 then do
    let log ← intOf cJson json "log"
    let userId ← idOf cJson cpStrtovalU64 json "userid"
    let requestNum ← intOf cJson json "requestnum"
    return .recommend log userId requestNum
  else if type = 5 then do
    let heartbeat ← textOf cJson json "heartbeat"
    return .heartbeat heartbeat
  else if type = 6 then do
    let userId ← idOf cJson cpStrtovalU64 json "userid"
    let returnNum ← intOf cJson json "returnnum"
    let returnList ← idsOf cJson cpStrtovalU64 json "returnlist"
    return .feedback userId returnNum returnList
  else none

end Values

end ContentBased.FrameworkCenter
