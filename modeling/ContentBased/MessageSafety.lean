import ContentBased.JsonMessages
import ContentBased.ItemWords
import ContentBased.Library.Demands

namespace ContentBased.Jparse
open Trapping Demand

section Demands
variable {ν : Type} (cJson : CJson ν)

/-- A field that has to be there is tested. -/
def there (json : ν) (key : String) : Demand := ⟨(cJson.getObjectItem json key).isSome, true⟩

/-- A node that is read as a string has to be one, which is not tested. -/
def isText (node : ν) : Demand := ⟨(cJson.valueString node).isSome, false⟩

def fieldText (json : ν) (key : String) : List Demand := (cJson.getObjectItem json key).toList.map (isText cJson)

def itemTexts (json : ν) (key : String) : List Demand := (cJson.elements json key).map (isText cJson)

/-- An array that has to be as long as another one. -/
def sameSize (json : ν) (key names : String) : Demand :=
  ⟨(cJson.getObjectItem json key).all fun array => cJson.getArraySize array = (cJson.elements json names).length, true⟩

/-- A field that has to be there and is read as a string. -/
def thereText (json : ν) (key : String) : List Demand := there cJson json key :: fieldText cJson json key

def actionDemands (json : ν) : List Demand :=
  List.flatten [[there cJson json "clicktime"], thereText cJson json "userid", thereText cJson json "docid",
    [there cJson json "action"], fieldText cJson json "location", fieldText cJson json "srpid",
    fieldText cJson json "dislike", fieldText cJson json "zone"]

instance (json : ν) : Decidable (NodeMissing cJson json) := inferInstanceAs (Decidable (_ ∧ _))

/-- The count of a word is not tested; where `node` is null, it is the first word that is refused for it. -/
def wordDemands (json : ν) : List Demand :=
  if NodeMissing cJson json then
    if cJson.elements json "word" = [] then [] else [⟨false, true⟩]
  else (cJson.elements json "word").flatMap fun element =>
    List.flatten [thereText cJson element "word", [⟨(cJson.getObjectItem element "count").isSome, false⟩]]

def topDemands (json : ν) : List Demand :=
  match cJson.getObjectItem json "topflag" with
  | none => []
  | some node =>
    if cJson.valueInt node ≠ 0 then itemTexts cJson json "topsrp" ++ itemTexts cJson json "topcircle" else []

def itemDemands (json : ν) : List Demand :=
  List.flatten [thereText cJson json "docid", itemTexts cJson json "category",
    [sameSize cJson json "categoryid" "category"], wordDemands cJson json, itemTexts cJson json "srp",
    [sameSize cJson json "srppower" "srp"], itemTexts cJson json "circle", topDemands cJson json,
    itemTexts cJson json "zone", fieldText cJson json "sourcename", fieldText cJson json "sourceid",
    itemTexts cJson json "tag", [sameSize cJson json "tagid" "tag"], itemTexts cJson json "tagid",
    [sameSize cJson json "tagpower" "tag"]]

def subscribeDemands (json : ν) : List Demand :=
  List.flatten [thereText cJson json "userid", itemTexts cJson json "srp", itemTexts cJson json "circle"]

def recommendDemands (json : ν) : List Demand :=
  List.flatten [thereText cJson json "userid", fieldText cJson json "zone"]

def feedbackDemands (json : ν) : List Demand :=
  List.flatten [thereText cJson json "userid", itemTexts cJson json "returnlist"]

/-- What a message must have, in the order in which the parser of its type comes to it. -/
def demands (json : ν) : List Demand :=
  match cJson.getObjectItem json "type" with
  | none => []
  | some node =>
    let protocolType := cJson.valueInt node
    if protocolType = 1 then actionDemands cJson json
    else if protocolType = 2 then itemDemands cJson json
    else if protocolType = 3 then subscribeDemands cJson json
    else if protocolType = 4 then recommendDemands cJson json
    else if protocolType = 5 then thereText cJson json "heartbeat"
    else if protocolType = 6 then feedbackDemands cJson json
    else []

end Demands

section Items
variable {σ ν : Type} {cJson : CJson ν}

/-- The loop over the items of an array. -/
theorem asks_items {array : ν} {body : Nat → Trapping σ Int Unit} {asked : ν → List Demand} {invariant : Nat → σ → Prop}
    (each : ∀ i node, cJson.getArrayItem array i = some node →
      Asks (invariant i) (body i) (asked node) (fun _ => invariant (i + 1))) :
    Asks (invariant 0) ((List.range (cJson.getArraySize array)).forM body) ((cJson.items array).flatMap asked)
      (fun _ => invariant (cJson.getArraySize array)) := by
  have step (i : Nat) (small : i < cJson.getArraySize array) :
      Asks (invariant i) (body i) ((cJson.getArrayItem array i).toList.flatMap asked) (fun _ => invariant (i + 1)) := by
    obtain ⟨node, found⟩ := Option.isSome_iff_exists.mp ((cJson.isSome_getArrayItem array i).mpr small)
    rw [found, Option.toList_some, List.flatMap_singleton]
    exact each i node found
  have loop := Asks.forM_range step
  rwa [← List.flatMap_assoc, ← List.filterMap_eq_flatMap_toList] at loop

/-- The same with items that are read as strings. -/
theorem asks_textItems {array : ν} {body : Nat → Trapping σ Int Unit} {invariant : Nat → σ → Prop}
    (each : ∀ i node, cJson.getArrayItem array i = some node →
      Asks (invariant i) (body i) [isText cJson node] (fun _ => invariant (i + 1))) :
    Asks (invariant 0) ((List.range (cJson.getArraySize array)).forM body) ((cJson.items array).map (isText cJson))
      (fun _ => invariant (cJson.getArraySize array)) := by
  rw [List.map_eq_flatMap]
  exact asks_items each

end Items

section Fillers
variable {ν μ α : Type} {cJson : CJson ν} {cpStrtovalU64 : Bytes → UInt64}

/-- The demands of a parser of a message, whatever the message is by then. -/
abbrev Fills (program : Filler μ α) (demands : List Demand) : Prop := Asks (fun _ => True) program demands fun _ _ => True

theorem fills_readInt (node : ν) : Fills (readInt cJson node : Filler μ Int32) [] := Asks.pure fun _ _ => trivial

theorem fills_readText (node : ν) : Fills (readText cJson node : Filler μ Bytes) [isText cJson node] :=
  Asks.deref fun _ _ _ _ => trivial

theorem fills_readId (node : ν) : Fills (readId cJson cpStrtovalU64 node : Filler μ UInt64) [isText cJson node] :=
  Asks.bind (fills_readText node) fun _ => Asks.pure fun _ _ => trivial

/-- Reads a value and sets it. -/
theorem fills_set {program : Filler μ α} {demands : List Demand} (reads : Fills program demands) (set : α → μ → μ) :
    Fills (program >>= fun value => modify (set value)) demands := by
  have whole := Asks.bind reads fun value =>
    (Asks.modify fun _ _ => trivial : Fills (modify (set value) : Filler μ Unit) [])
  rwa [List.append_nil] at whole

section Fields
variable {json : ν} {key : String} {missing : Int} {absent : α} {read : ν → Filler μ α} {set : α → μ → μ}

theorem fills_required (reads : ∀ node, Fills (read node) []) :
    Fills (required cJson json key missing read set) [there cJson json key] := by
  unfold required there
  cases cJson.getObjectItem json key with
  | none => exact Asks.throw
  | some node => exact fun state start => fills_set (reads node) set state start

theorem fills_requiredText (reads : ∀ node, Fills (read node) [isText cJson node]) :
    Fills (required cJson json key missing read set) (thereText cJson json key) := by
  unfold required thereText there fieldText
  cases cJson.getObjectItem json key with
  | none => exact Asks.throw
  | some node => exact fun state start => fills_set (reads node) set state start

theorem fills_optional (reads : ∀ node, Fills (read node) []) :
    Fills (optional cJson json key absent read set) [] := by
  unfold optional
  cases cJson.getObjectItem json key with
  | none => exact Asks.modify fun _ _ => trivial
  | some node => exact fills_set (reads node) set

theorem fills_optionalText (reads : ∀ node, Fills (read node) [isText cJson node]) :
    Fills (optional cJson json key absent read set) (fieldText cJson json key) := by
  unfold optional fieldText
  cases cJson.getObjectItem json key with
  | none => exact Asks.modify fun _ _ => trivial
  | some node => exact fills_set (reads node) set

theorem fills_listed (reads : ∀ node, Fills (read node) [isText cJson node]) :
    Fills (listed cJson json key missing read set) (itemTexts cJson json key) := by
  unfold listed itemTexts CJson.elements
  cases cJson.getObjectItem json key with
  | none => exact Asks.pure fun _ _ => trivial
  | some array =>
    let free : Nat → μ → Prop := fun _ _ => True
    change Asks (free 0) _ _ fun _ => free (cJson.getArraySize array)
    refine asks_textItems fun i node found => ?_
    rw [found]
    exact fills_set (reads node) set

end Fields

theorem fills_parseAction (json : ν) : Fills (parseAction cJson cpStrtovalU64 json) (actionDemands cJson json) := by
  refine .next (fills_required fills_readInt) fun _ => ?_
  refine .next (fills_requiredText fills_readId) fun _ => ?_
  refine .next (fills_requiredText fills_readId) fun _ => ?_
  refine .bind_nil (fills_optional fills_readInt) fun _ => ?_
  refine .next (fills_required fills_readInt) fun _ => ?_
  refine .next (fills_optionalText fills_readText) fun _ => ?_
  refine .next (fills_optionalText fills_readText) fun _ => ?_
  refine .bind_nil (fills_optional fills_readInt) fun _ => ?_
  exact .next (fills_optionalText fills_readText) fun _ => .last (fills_optionalText fills_readText)

theorem fills_parseSubscribe (json : ν) :
    Fills (parseSubscribe cJson cpStrtovalU64 json) (subscribeDemands cJson json) := by
  refine .next (fills_requiredText fills_readId) fun _ => ?_
  exact .next (fills_listed fills_readText) fun _ => .last (fills_listed fills_readText)

theorem fills_parseRecommend (json : ν) :
    Fills (parseRecommend cJson cpStrtovalU64 json) (recommendDemands cJson json) := by
  refine .bind_nil (fills_optional fills_readInt) fun _ => ?_
  refine .next (fills_requiredText fills_readId) fun _ => ?_
  refine .bind_nil (fills_optional fills_readInt) fun _ => ?_
  refine .bind_nil (fills_optional fills_readInt) fun _ => ?_
  refine .bind_nil (fills_optional fills_readInt) fun _ => ?_
  refine .bind_nil (fills_optional fills_readInt) fun _ => ?_
  exact .next (fills_optionalText fills_readText) fun _ => fills_optional fills_readInt

theorem fills_parseHeartbeat (json : ν) : Fills (parseHeartbeat cJson json) (thereText cJson json "heartbeat") :=
  fills_requiredText fills_readText

theorem fills_parseFeedback (json : ν) :
    Fills (parseFeedback cJson cpStrtovalU64 json) (feedbackDemands cJson json) :=
  .next (fills_requiredText fills_readId) fun _ => .last (fills_listed fills_readId)

end Fillers

end ContentBased.Jparse
