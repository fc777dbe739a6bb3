import ContentBased.Library.Decimal
import ContentBased.Library.Trapping

namespace ContentBased.Jparse
open Trapping

/-- The functions of cJSON on nodes, and the fields of a node. A string is null in a node that is none, and the items of
a node are those below its size. -/
structure CJson (ν : Type) where
  getObjectItem : ν → String → Option ν
  getArraySize : ν → Nat
  getArrayItem : ν → Nat → Option ν
  valueInt : ν → Int32
  valueDouble : ν → ℚ
  valueString : ν → Option Bytes
  isSome_getArrayItem : ∀ array i, (getArrayItem array i).isSome ↔ i < getArraySize array

structure ItemTag where
  tagName : Bytes := []
  tagId : Int32 := 0
  tagPower : ℚ := 0
deriving DecidableEq, Repr

structure ItemWord where
  word : Bytes
  count : Int32
deriving DecidableEq, Repr

structure TopInfo where
  topType : Int32 := 0
  topSrpId : List Bytes := []
  topCircleId : List Bytes := []
deriving DecidableEq, Repr

structure ItemSource where
  sourceName : Bytes := []
  sourceId : UInt64 := 0
deriving DecidableEq, Repr

structure Item where
  itemId : UInt64 := 0
  publishTime : Int32 := 0
  pushTime : Int32 := 0
  pictureNum : Int32 := 0
  power : ℚ := 0
  itemType : Int32 := 0
  category : List ItemTag := []
  word : List ItemWord := []
  srp : List ItemTag := []
  circle : List ItemTag := []
  topInfo : TopInfo := {}
  zone : List Bytes := []
  dataSource : ItemSource := {}
  tag : List ItemTag := []
deriving DecidableEq, Repr

/-- The variable `node` of `parse_item`, which every lookup but those of a word sets, and the message. -/
structure Parsing (ν : Type) where
  node : Option ν := none
  item : Item := {}

abbrev Parser (ν α : Type) := Trapping (Parsing ν) Int α

section Parse
variable {ν : Type} (cJson : CJson ν)

def setItem (change : Item → Item) : Parser ν Unit := modify fun state => { state with item := change state.item }

def setNode (node : Option ν) : Parser ν Unit := modify fun state => { state with node }

def valueString (node : ν) : Parser ν Bytes := deref (cJson.valueString node)

/-- A field that has a default. -/
def optionalField {α : Type} (json : ν) (key : String) (set : α → Item → Item) (absent : α) (read : ν → Parser ν α) :
    Parser ν Unit := do
  setNode (cJson.getObjectItem json key)
  match cJson.getObjectItem json key with
  | none => setItem (set absent)
  | some node => do
    let value ← read node
    setItem (set value)

/-- The loop over the items of an array. -/
def forItems (array : ν) (missing : Int) (body : Nat → ν → Parser ν Unit) : Parser ν Unit :=
  (List.range (cJson.getArraySize array)).forM fun i => do
    setNode (cJson.getArrayItem array i)
    match cJson.getArrayItem array i with
    | none => throw missing
    | some node => body i node

def arrayField (json : ν) (key : String) (missing : Int) (body : Nat → ν → Parser ν Unit) : Parser ν Unit :=
  match cJson.getObjectItem json key with
  | none => return ()
  | some array => forItems cJson array missing body

/-- An array that must be as long as the list of the message that it adds to. -/
def sizedField (json : ν) (key : String) (size : Item → Nat) (mismatch missing : Int) (body : Nat → ν → Parser ν Unit) :
    Parser ν Unit :=
  match cJson.getObjectItem json key with
  | none => return ()
  | some array => do
    if cJson.getArraySize array ≠ size (← get).item then throw mismatch
    else forItems cJson array missing body

variable (cpStrtovalU64 : Bytes → UInt64)

def parseDocId (json : ν) : Parser ν Unit := do
  setNode (cJson.getObjectItem json "docid")
  match cJson.getObjectItem json "docid" with
  | none => throw (-200)
  | some node => do
    let text ← valueString cJson node
    setItem fun item => { item with itemId := cpStrtovalU64 text }

/-- The fields before the words. -/
def parseHead (now : Int32) (json : ν) : Parser ν Unit := do
  parseDocId cJson cpStrtovalU64 json
  optionalField cJson json "publictime" (fun publishTime item => { item with publishTime }) 0
    fun node => return cJson.valueInt node
  setItem fun item => { item with pushTime := now }
  optionalField cJson json "picturenumber" (fun pictureNum item => { item with pictureNum }) 0
    fun node => return cJson.valueInt node
  optionalField cJson json "power" (fun power item => { item with power }) 0
    fun node => return cJson.valueDouble node
  optionalField cJson json "doctype" (fun itemType item => { item with itemType }) 0
    fun node => return cJson.valueInt node
  arrayField cJson json "category" (-201) fun _ node => do
    let tagName ← valueString cJson node
    setItem fun item => { item with category := item.category ++ [{ tagName }] }
  sizedField cJson json "categoryid" (fun item => item.category.length) (-202) (-203) fun i node =>
    setItem fun item => { item with
      category := item.category.modify i fun tag => { tag with tagId := cJson.valueInt node } }
  setItem fun item =>
    if item.category.length = 0 then { item with category := [{ tagName := [], tagId := 13 }] } else item

/-- The elements are read through `object`; the third check is of `node`, which none of them sets. -/
def parseWord (object : Option ν) : Parser ν Unit :=
  match object with
  | none => throw (-204)
  | some object =>
    match cJson.getObjectItem object "word" with
    | none => throw (-205)
    | some nodeOne => do
      let nodeTwo := cJson.getObjectItem object "count"
      if (← get).node.isNone then throw (-206)
      else
        let word ← valueString cJson nodeOne
        let nodeTwo ← deref nodeTwo
        setItem fun item => { item with word := item.word ++ [⟨word, cJson.valueInt nodeTwo⟩] }

def parseWords (json : ν) : Parser ν Unit :=
  match cJson.getObjectItem json "word" with
  | none => return ()
  | some array => (List.range (cJson.getArraySize array)).forM fun i => parseWord cJson (cJson.getArrayItem array i)

def parseTop (json : ν) : Parser ν Unit := do
  setNode (cJson.getObjectItem json "topflag")
  match cJson.getObjectItem json "topflag" with
  | none => setItem fun item => { item with topInfo := { item.topInfo with topType := 0 } }
  | some node => do
    setItem fun item => { item with topInfo := { item.topInfo with topType := cJson.valueInt node } }
    if cJson.valueInt node ≠ 0 then do
      arrayField cJson json "topsrp" (-211) fun _ node => do
        let text ← valueString cJson node
        setItem fun item => { item with topInfo := { item.topInfo with topSrpId := item.topInfo.topSrpId ++ [text] } }
      arrayField cJson json "topcircle" (-212) fun _ node => do
        let text ← valueString cJson node
        setItem fun item => { item with
          topInfo := { item.topInfo with topCircleId := item.topInfo.topCircleId ++ [text] } }
    else return ()

/-- The fields after the words. -/
def parseTail (json : ν) : Parser ν Unit := do
  arrayField cJson json "srp" (-207) fun _ node => do
    let tagName ← valueString cJson node
    setItem fun item => { item with srp := item.srp ++ [{ tagName }] }
  sizedField cJson json "srppower" (fun item => item.srp.length) (-208) (-209) fun i node =>
    setItem fun item => { item with
      srp := item.srp.modify i fun tag => { tag with tagPower := cJson.valueDouble node } }
  arrayField cJson json "circle" (-210) fun _ node => do
    let tagName ← valueString cJson node
    setItem fun item => { item with circle := item.circle ++ [{ tagName }] }
  parseTop cJson json
  arrayField cJson json "zone" (-213) fun _ node => do
    let text ← valueString cJson node
    setItem fun item => { item with zone := item.zone ++ [text] }
  optionalField cJson json "sourcename"
    (fun sourceName item => { item with dataSource := { item.dataSource with sourceName } }) [] (valueString cJson)
  optionalField cJson json "sourceid"
    (fun sourceId item => { item with dataSource := { item.dataSource with sourceId } }) 0
    fun node => return cpStrtovalU64 (← valueString cJson node)
  arrayField cJson json "tag" (-207) fun _ node => do
    let tagName ← valueString cJson node
    setItem fun item => { item with tag := item.tag ++ [{ tagName }] }
  sizedField cJson json "tagid" (fun item => item.tag.length) (-208) (-209) fun i node => do
    let text ← valueString cJson node
    setItem fun item => { item with
      tag := item.tag.modify i fun tag => { tag with tagId := (cpStrtovalU64 text).toUInt32.toInt32 } }
  sizedField cJson json "tagpower" (fun item => item.tag.length) (-208) (-209) fun i node =>
    setItem fun item => { item with
      tag := item.tag.modify i fun tag => { tag with tagPower := cJson.valueDouble node } }

/-- The code that `parse_item` returns and the message; nothing when it reads through a null pointer. -/
def parseItem (now : Int32) (json : ν) : Option (Int × Item) :=
  ((do
    parseHead cJson cpStrtovalU64 now json
    parseWords cJson json
    parseTail cJson cpStrtovalU64 json : Parser ν Unit) {}).map fun
      | (.ok (), state) => (0, state.item)
      | (.error code, state) => (code, state.item)

end Parse

section Rules
variable {ν : Type} (cJson : CJson ν)

namespace CJson

def items (array : ν) : List ν := (List.range (cJson.getArraySize array)).filterMap (cJson.getArrayItem array)

/-- The items of the array under a key; a key that is absent has none. -/
def elements (json : ν) (key : String) : List ν :=
  match cJson.getObjectItem json key with
  | none => []
  | some array => cJson.items array

theorem map_getArrayItem (array : ν) :
    (List.range (cJson.getArraySize array)).map (cJson.getArrayItem array) = (cJson.items array).map some := by
  have all : ∀ i ∈ List.range (cJson.getArraySize array), ∃ node, cJson.getArrayItem array i = some node := by
    intro i member
    exact Option.isSome_iff_exists.mp ((cJson.isSome_getArrayItem array i).mpr (List.mem_range.mp member))
  rw [items]
  generalize List.range (cJson.getArraySize array) = numbers at all ⊢
  induction numbers with
  | nil => rfl
  | cons i rest ih =>
    obtain ⟨node, here⟩ := all i List.mem_cons_self
    rw [List.map_cons, List.filterMap_cons_some here, List.map_cons, here,
      ih fun i member => all i (List.mem_cons_of_mem _ member)]

theorem length_items (array : ν) : (cJson.items array).length = cJson.getArraySize array := by
  have same := congrArg List.length (cJson.map_getArrayItem array)
  simpa using same.symm

theorem mem_items {array node : ν} {i : Nat} (found : cJson.getArrayItem array i = some node) :
    node ∈ cJson.items array := by
  have small := (cJson.isSome_getArrayItem array i).mp (by rw [found]; rfl)
  exact List.mem_filterMap.mpr ⟨i, List.mem_range.mpr small, found⟩

theorem mem_elements {json array node : ν} {key : String} {i : Nat} (present : cJson.getObjectItem json key = some array)
    (found : cJson.getArrayItem array i = some node) : node ∈ cJson.elements json key := by
  rw [elements, present]
  exact cJson.mem_items found

end CJson

variable {cJson}
variable {before : Parsing ν → Prop} {early : Int → Prop}

theorem Safe.setItem {change : Item → Item} {after : Parsing ν → Prop}
    (holds : ∀ state, before state → after { state with item := change state.item }) :
    Safe before (Jparse.setItem change) (fun _ => after) early := Safe.modify holds

theorem Safe.setNode {node : Option ν} {after : Parsing ν → Prop}
    (holds : ∀ state, before state → after { state with node }) :
    Safe before (Jparse.setNode node) (fun _ => after) early := Safe.modify holds

theorem Safe.text {α : Type} {node : ν} {next : Bytes → Parser ν α} {after : α → Parsing ν → Prop}
    (valid : ∃ text, cJson.valueString node = some text) (rest : ∀ text, Safe before (next text) after early) :
    Safe before (valueString cJson node >>= next) after early := by
  obtain ⟨text, valid⟩ := valid
  have read : Safe before (valueString cJson node) (fun _ => before) early := Safe.deref valid fun _ start => start
  exact Safe.bind read rest

theorem Safe.optionalField {α : Type} {json : ν} {key : String} {set : α → Item → Item} {absent : α}
    {read : ν → Parser ν α} {after : Parsing ν → Prop}
    (reads : ∀ node, cJson.getObjectItem json key = some node → ∃ value, read node = pure value)
    (holds : ∀ state value, before state → after ⟨cJson.getObjectItem json key, set value state.item⟩) :
    Safe before (Jparse.optionalField cJson json key set absent read) (fun _ => after) early := by
  let looked : Parsing ν → Prop := fun state =>
    (∃ old, before ⟨old, state.item⟩) ∧ state.node = cJson.getObjectItem json key
  have looks : Safe before (Jparse.setNode (cJson.getObjectItem json key)) (fun _ => looked) early :=
    Safe.setNode fun state start => ⟨⟨state.node, start⟩, rfl⟩
  have sets (value : α) : Safe looked (Jparse.setItem (set value)) (fun _ => after) early := by
    refine Safe.setItem ?_
    rintro ⟨node, item⟩ ⟨⟨old, start⟩, rfl⟩
    exact holds ⟨old, item⟩ value start
  refine Safe.bind looks fun _ => ?_
  cases found : cJson.getObjectItem json key with
  | none => exact sets absent
  | some node =>
    obtain ⟨value, same⟩ := reads node found
    simp only [same, pure_bind]
    exact sets value

/-- The loop over an array whose items are read without a trap. -/
theorem Safe.forItems {array : ν} {missing : Int} {body : Nat → ν → Parser ν Unit} {invariant : Nat → Parsing ν → Prop}
    (each : ∀ i node, cJson.getArrayItem array i = some node →
      Safe (fun state => state.node = some node ∧ ∃ old, invariant i ⟨old, state.item⟩) (body i node)
        (fun _ => invariant (i + 1)) early) :
    Safe (invariant 0) (Jparse.forItems cJson array missing body) (fun _ => invariant (cJson.getArraySize array)) early := by
  refine Safe.forM_range fun i small => ?_
  obtain ⟨node, found⟩ := Option.isSome_iff_exists.mp ((cJson.isSome_getArrayItem array i).mpr small)
  rw [found]
  exact Safe.bind (Safe.setNode fun state start => ⟨rfl, state.node, start⟩) fun _ => each i node found

/-- What holds of the message before the program holds after it. -/
def Keeps (invariant : Item → Prop) (program : Parser ν Unit) (early : Int → Prop) : Prop :=
  Safe (fun state => invariant state.item) program (fun _ state => invariant state.item) early

namespace Keeps
variable {invariant : Item → Prop}

theorem bind {program next : Parser ν Unit} (first : Keeps invariant program early)
    (rest : Keeps invariant next early) : Keeps invariant (program >>= fun _ => next) early :=
  Safe.bind first fun _ => rest

theorem bindSafe (invariant : Item → Prop) {α : Type} {program : Parser ν Unit} {next : Parser ν α} {after : α → Parsing ν → Prop}
    (first : Keeps invariant program early) (rest : Safe (fun state => invariant state.item) next after early) :
    Safe (fun state => invariant state.item) (program >>= fun _ => next) after early :=
  Safe.bind first fun _ => rest

theorem skip : Keeps invariant (pure () : Parser ν Unit) early := Safe.pure fun _ start => start

theorem setItem {change : Item → Item} (holds : ∀ item, invariant item → invariant (change item)) :
    Keeps invariant (Jparse.setItem change : Parser ν Unit) early :=
  Safe.setItem fun state start => holds state.item start

theorem setNode {node : Option ν} : Keeps invariant (Jparse.setNode node) early :=
  Safe.setNode fun _ start => start

theorem text {node : ν} {next : Bytes → Parser ν Unit} (valid : ∃ text, cJson.valueString node = some text)
    (rest : ∀ text, Keeps invariant (next text) early) : Keeps invariant (valueString cJson node >>= next) early :=
  Safe.text valid rest

theorem optionalField {α : Type} {json : ν} {key : String} {set : α → Item → Item} {absent : α} {read : ν → Parser ν α}
    (reads : ∀ node, cJson.getObjectItem json key = some node → ∃ value, read node = pure value)
    (holds : ∀ item value, invariant item → invariant (set value item)) :
    Keeps invariant (Jparse.optionalField cJson json key set absent read) early :=
  Safe.optionalField reads fun state value start => holds state.item value start

theorem forItems {array : ν} {missing : Int} {body : Nat → ν → Parser ν Unit}
    (each : ∀ i node, cJson.getArrayItem array i = some node → Keeps invariant (body i node) early) :
    Keeps invariant (Jparse.forItems cJson array missing body) early := by
  let held : Nat → Parsing ν → Prop := fun _ state => invariant state.item
  have loop : Safe (held 0) (Jparse.forItems cJson array missing body)
      (fun _ => held (cJson.getArraySize array)) early := by
    refine Safe.forItems fun i node found => (each i node found).weaken ?_ (fun _ _ holds => holds) fun _ allowed => allowed
    rintro state ⟨-, old, start⟩
    exact start
  exact loop

theorem arrayField {json : ν} {key : String} {missing : Int} {body : Nat → ν → Parser ν Unit}
    (each : ∀ i node, node ∈ cJson.elements json key → Keeps invariant (body i node) early) :
    Keeps invariant (Jparse.arrayField cJson json key missing body) early := by
  unfold Jparse.arrayField
  cases present : cJson.getObjectItem json key with
  | none => exact skip
  | some array => exact forItems fun i node found => each i node (cJson.mem_elements present found)

theorem sizedField {json : ν} {key : String} {size : Item → Nat} {mismatch missing : Int}
    {body : Nat → ν → Parser ν Unit} (allowed : early mismatch)
    (each : ∀ i node, node ∈ cJson.elements json key → Keeps invariant (body i node) early) :
    Keeps invariant (Jparse.sizedField cJson json key size mismatch missing body) early := by
  unfold Jparse.sizedField
  cases present : cJson.getObjectItem json key with
  | none => exact skip
  | some array =>
    refine Safe.bind Safe.get fun state => ?_
    split
    · exact Safe.throw allowed
    · exact (forItems fun i node found => each i node (cJson.mem_elements present found)).weaken
        (fun _ start => start.2) (fun _ _ holds => holds) fun _ allowed => allowed

end Keeps

end Rules

/-- The values that cJSON makes of a text. -/
inductive Json where
  | null
  | number (value : ℚ)
  | string (text : Bytes)
  | array (items : List Json)
  | object (fields : List (String × Json))

namespace Json

def children : Json → List Json
  | array items => items
  | object fields => fields.map Prod.snd
  | _ => []

/-- cJSON on these values, for keys that no other key equals but for its case. -/
def cJson : CJson Json where
  getObjectItem
    | object fields, key => (fields.find? fun field => field.1 = key).map Prod.snd
    | _, _ => none
  getArraySize json := json.children.length
  getArrayItem json i := json.children[i]?
  valueInt
    | number value => Int32.ofInt (value.num.tdiv value.den)
    | _ => 0
  valueDouble
    | number value => value
    | _ => 0
  valueString
    | string text => some text
    | _ => none
  isSome_getArrayItem _ _ := by simp

end Json

end ContentBased.Jparse
