import ContentBased.ItemMessages
import ContentBased.Network

namespace ContentBased.Jparse
open Trapping

structure Action where
  clickTime : Int32 := 0
  userId : UInt64 := 0
  itemId : UInt64 := 0
  stayTime : Int32 := 0
  action : Int32 := 0
  location : Bytes := []
  srpId : Bytes := []
  clickSource : Int32 := 0
  dislike : Bytes := []
  zone : Bytes := []
deriving DecidableEq, Repr

structure Subscribe where
  userId : UInt64 := 0
  srpId : List Bytes := []
  circleId : List Bytes := []
deriving DecidableEq, Repr

structure Recommend where
  log : Int32 := 0
  userId : UInt64 := 0
  requestNum : Int32 := 0
  recommendType : Int32 := 0
  begTime : Int32 := 0
  endTime : Int32 := 0
  zone : Bytes := []
  network : Int32 := 0
deriving DecidableEq, Repr

structure HeartBeat where
  heartbeat : Bytes := []
deriving DecidableEq, Repr

structure Feedback where
  userId : UInt64 := 0
  itemId : List UInt64 := []
deriving DecidableEq, Repr

/-- How the messages travel in the `Any` of a request. -/
structure PackFrom (packed : Type) where
  action : Action → packed
  item : Item → packed
  subscribe : Subscribe → packed
  recommend : Recommend → packed
  heartbeat : HeartBeat → packed
  feedback : Feedback → packed

/-- A parser that sets fields of a message, whose variable `node` is set right before it is used. -/
abbrev Filler (message α : Type) := Trapping message Int α

section Parse
variable {ν μ α : Type} (cJson : CJson ν) (cpStrtovalU64 : Bytes → UInt64)

def readInt (node : ν) : Filler μ Int32 := return cJson.valueInt node

def readText (node : ν) : Filler μ Bytes := deref (cJson.valueString node)

def readId (node : ν) : Filler μ UInt64 := do
  let text ← readText cJson node
  return cpStrtovalU64 text

def required (json : ν) (key : String) (missing : Int) (read : ν → Filler μ α) (set : α → μ → μ) : Filler μ Unit :=
  match cJson.getObjectItem json key with
  | none => throw missing
  | some node => do
    let value ← read node
    modify (set value)

def optional (json : ν) (key : String) (absent : α) (read : ν → Filler μ α) (set : α → μ → μ) : Filler μ Unit :=
  match cJson.getObjectItem json key with
  | none => modify (set absent)
  | some node => do
    let value ← read node
    modify (set value)

def listed (json : ν) (key : String) (missing : Int) (read : ν → Filler μ α) (add : α → μ → μ) : Filler μ Unit :=
  match cJson.getObjectItem json key with
  | none => return ()
  | some array => (List.range (cJson.getArraySize array)).forM fun i =>
    match cJson.getArrayItem array i with
    | none => throw missing
    | some node => do
      let value ← read node
      modify (add value)

def parseAction (json : ν) : Filler Action Unit := do
  required cJson json "clicktime" (-101) (readInt cJson) fun clickTime action => { action with clickTime }
  required cJson json "userid" (-102) (readId cJson cpStrtovalU64) fun userId action => { action with userId }
  required cJson json "docid" (-103) (readId cJson cpStrtovalU64) fun itemId action => { action with itemId }
  optional cJson json "staytime" 0 (readInt cJson) fun stayTime action => { action with stayTime }
  required cJson json "action" (-104) (readInt cJson) fun type action => { action with action := type }
  optional cJson json "location" [] (readText cJson) fun location action => { action with location }
  optional cJson json "srpid" [] (readText cJson) fun srpId action => { action with srpId }
  optional cJson json "source" 0 (readInt cJson) fun clickSource action => { action with clickSource }
  optional cJson json "dislike" [] (readText cJson) fun dislike action => { action with dislike }
  optional cJson json "zone" [] (readText cJson) fun zone action => { action with zone }

def parseSubscribe (json : ν) : Filler Subscribe Unit := do
  required cJson json "userid" (-300) (readId cJson cpStrtovalU64) fun userId subscribe => { subscribe with userId }
  listed cJson json "srp" (-301) (readText cJson) fun text subscribe =>
    { subscribe with srpId := subscribe.srpId ++ [text] }
  listed cJson json "circle" (-302) (readText cJson) fun text subscribe =>
    { subscribe with circleId := subscribe.circleId ++ [text] }

def parseRecommend (json : ν) : Filler Recommend Unit := do
  optional cJson json "log" 0 (readInt cJson) fun log recommend => { recommend with log }
  required cJson json "userid" (-400) (readId cJson cpStrtovalU64) fun userId recommend => { recommend with userId }
  optional cJson json "requestnum" 10 (readInt cJson) fun requestNum recommend => { recommend with requestNum }
  optional cJson json "requesttype" 0 (readInt cJson) fun recommendType recommend => { recommend with recommendType }
  optional cJson json "begtime" 0 (readInt cJson) fun begTime recommend => { recommend with begTime }
  optional cJson json "endtime" 0 (readInt cJson) fun endTime recommend => { recommend with endTime }
  optional cJson json "zone" [] (readText cJson) fun zone recommend => { recommend with zone }
  optional cJson json "network" 0 (readInt cJson) fun network recommend => { recommend with network }

def parseHeartbeat (json : ν) : Filler HeartBeat Unit :=
  required cJson json "heartbeat" (-500) (readText cJson) fun heartbeat message => { message with heartbeat }

def parseFeedback (json : ν) : Filler Feedback Unit := do
  required cJson json "userid" (-600) (readId cJson cpStrtovalU64) fun userId feedback => { feedback with userId }
  listed cJson json "returnlist" (-601) (readId cJson cpStrtovalU64) fun itemId feedback =>
    { feedback with itemId := feedback.itemId ++ [itemId] }

/-- The code that a parser returns and the message as it is then; nothing when it reads through a null pointer. -/
def filled (parser : Filler μ Unit) (message : μ) : Option (Int × μ) :=
  (parser message).map fun
    | (.ok (), message) => (0, message)
    | (.error code, message) => (code, message)

variable {packed : Type}

/-- A message goes into the request whatever its code is. -/
def packInto (pack : μ → packed) (request : TransferRequest packed) (parsed : Option (Int × μ)) :
    Option (Int × TransferRequest packed) :=
  parsed.map fun (code, message) => (code, { request with protocol := pack message })

def parseJson (cJsonParse : Bytes → Option ν) (packFrom : PackFrom packed) (now : Int32) (jsonBuffer : Bytes)
    (request : TransferRequest packed) : Option (Int × TransferRequest packed) :=
  match cJsonParse jsonBuffer with
  | none => some (-1, request)
  | some json =>
    match cJson.getObjectItem json "type" with
    | none => some (-1, request)
    | some node =>
      let protocolType := cJson.valueInt node
      let request := { request with mainProtocol := protocolType }
      if protocolType = 1 then
        packInto packFrom.action request (filled (parseAction cJson cpStrtovalU64 json) {})
      else if protocolType = 2 then packInto packFrom.item request (parseItem cJson cpStrtovalU64 now json)
      else if protocolType = 3 then
        packInto packFrom.subscribe request (filled (parseSubscribe cJson cpStrtovalU64 json) {})
      else if protocolType = 4 then
        packInto packFrom.recommend request (filled (parseRecommend cJson cpStrtovalU64 json) {})
      else if protocolType = 5 then packInto packFrom.heartbeat request (filled (parseHeartbeat cJson json) {})
      else if protocolType = 6 then
        packInto packFrom.feedback request (filled (parseFeedback cJson cpStrtovalU64 json) {})
      else some (-888, request)

end Parse

end ContentBased.Jparse
