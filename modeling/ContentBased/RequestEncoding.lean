import ContentBased.Requests

namespace ContentBased.FrameworkCenter
open Trapping Wire Writers Readers Jparse

section Steps
variable {ν : Type} (cJson : CJson ν) (cpStrtovalU64 : Bytes → UInt64)

def fieldSteps (json : ν) (key : String) (missing : Int) (steps : ν → List Step) : List Step :=
  match cJson.getObjectItem json key with
  | none => [.stop missing]
  | some node => steps node

def intSteps (full : Int) (node : ν) : List Step := [.put full (rawInt (cJson.valueInt node))]

def idSteps (full : Int) (node : ν) : List Step :=
  [.put full (rawWord (cpStrtovalU64 ((cJson.valueString node).getD [])))]

def textSteps (full : Int) (node : ν) : List Step :=
  [.put full (rawInt (Int32.ofNat ((cJson.valueString node).getD []).length)),
    .put full ((cJson.valueString node).getD [])]

/-- A count and the steps of the items. -/
def listSteps (full : Int) (item : ν → List Step) (array : ν) : List Step :=
  .put full (rawInt (Int32.ofNat (cJson.getArraySize array))) :: (cJson.items array).flatMap item

def textsSteps (full : Int) : ν → List Step := listSteps cJson full (textSteps cJson full)

def wordSteps (broken full : Int) (object : ν) : List Step :=
  fieldSteps cJson object "word" broken (textSteps cJson full) ++
    fieldSteps cJson object "count" broken (intSteps cJson full)

def headSteps (json : ν) (num : Nat) (wrong missing full : Int) : List Step :=
  (if cJson.getArraySize json = num then [] else [.stop wrong]) ++ fieldSteps cJson json "type" missing (intSteps cJson full)

def actionSteps (json : ν) : List Step :=
  fieldSteps cJson json "clicktime" (-103) (intSteps cJson (-100)) ++
  (fieldSteps cJson json "userid" (-104) (idSteps cJson cpStrtovalU64 (-100)) ++
  (fieldSteps cJson json "docid" (-105) (idSteps cJson cpStrtovalU64 (-100)) ++
  (fieldSteps cJson json "staytime" (-106) (intSteps cJson (-100)) ++
  (fieldSteps cJson json "action" (-107) (intSteps cJson (-100)) ++
  fieldSteps cJson json "location" (-108) (textSteps cJson (-100))))))

def documentSteps (varF4 : ℚ → UInt32) (now : Int32) (json : ν) : List Step :=
  fieldSteps cJson json "docid" (-203) (idSteps cJson cpStrtovalU64 (-200)) ++
  (fieldSteps cJson json "publictime" (-212) (intSteps cJson (-200)) ++
  (fieldSteps cJson json "pushtime" (-213) (fun _ => [.put (-200) (rawInt now)]) ++
  (fieldSteps cJson json "power" (-214)
    (fun node => [.put (-200) (rawInt (varF4 (cJson.valueDouble node)).toInt32)]) ++
  (fieldSteps cJson json "category" (-208) (textsSteps cJson (-200)) ++
  (fieldSteps cJson json "word" (-210) (listSteps cJson (-200) (wordSteps cJson (-211) (-200))) ++
  (fieldSteps cJson json "srp" (-204) (textsSteps cJson (-200)) ++
  (fieldSteps cJson json "circle" (-206) (textsSteps cJson (-200)) ++
  (fieldSteps cJson json "topflag" (-215) (intSteps cJson (-200)) ++
  (fieldSteps cJson json "topsrp" (-216) (textsSteps cJson (-200)) ++
  fieldSteps cJson json "topcircle" (-218) (textsSteps cJson (-200)))))))))))

def subscribeSteps (json : ν) : List Step :=
  fieldSteps cJson json "userid" (-303) (idSteps cJson cpStrtovalU64 (-300)) ++
  (fieldSteps cJson json "circle" (-304) (textsSteps cJson (-300)) ++
  fieldSteps cJson json "srp" (-306) (textsSteps cJson (-300)))

def recommendSteps (json : ν) : List Step :=
  fieldSteps cJson json "log" (-403) (intSteps cJson (-400)) ++
  (fieldSteps cJson json "userid" (-404) (idSteps cJson cpStrtovalU64 (-400)) ++
  fieldSteps cJson json "requestnum" (-405) (intSteps cJson (-400)))

def heartbeatSteps (json : ν) : List Step := fieldSteps cJson json "heartbeat" (-503) (textSteps cJson (-500))

def feedbackSteps (json : ν) : List Step :=
  fieldSteps cJson json "userid" (-603) (idSteps cJson cpStrtovalU64 (-600)) ++
  (fieldSteps cJson json "returnnum" (-604) (intSteps cJson (-600)) ++
  fieldSteps cJson json "returnlist" (-605) (listSteps cJson (-600) (idSteps cJson cpStrtovalU64 (-600))))

/-- The fields that a JSON object has for the message of its type, up to the first that is missing, with the codes for
a buffer that is full. -/
def requestSteps (varF4 : ℚ → UInt32) (now : Int32) (json : ν) (type : Int32) : List Step :=
  if type = 1 then headSteps cJson json 7 (-101) (-102) (-100) ++ actionSteps cJson cpStrtovalU64 json
  else if type = 2 then
    headSteps cJson json 12 (-201) (-202) (-200) ++ documentSteps cJson cpStrtovalU64 varF4 now json
  else if type = 3 then headSteps cJson json 4 (-301) (-302) (-300) ++ subscribeSteps cJson cpStrtovalU64 json
  else if type = 4 then headSteps cJson json 4 (-401) (-402) (-400) ++ recommendSteps cJson cpStrtovalU64 json
  else if type = 5 then headSteps cJson json 2 (-501) (-502) (-500) ++ heartbeatSteps cJson json
  else if type = 6 then headSteps cJson json 4 (-601) (-602) (-600) ++ feedbackSteps cJson cpStrtovalU64 json
  else [.stop (-888)]

end Steps

/-- The program follows the steps, and when none of them stops, the reader takes from their fields the value that is
there. -/
structure Packs {α : Type} (size : Int32) (program : Trapping Cursor Int Unit) (steps : List Step) (value : Option α)
    (reader : Reader α) : Prop where
  follows : Follows size program steps
  reads : ∀ bytes, fields steps = some bytes → ∃ read, value = some read ∧ Reads reader bytes read
  small : ∀ full field, .put full field ∈ steps → field.length < 2 ^ 31
  code_ne_zero : ∀ step ∈ steps, step.code ≠ 0

namespace Packs
variable {α β ν : Type} {size : Int32} {program program' : Trapping Cursor Int Unit} {steps later : List Step}
  {value : Option α} {reader : Reader α} {cJson : CJson ν}

theorem stop {code : Int} (nonzero : code ≠ 0) : Packs size (throw code) [.stop code] value reader where
  follows := Follows.throw code
  reads bytes same := by cases same
  small full field member := by
    rcases List.mem_singleton.mp member with ⟨⟩
  code_ne_zero step member := by
    obtain rfl := List.mem_singleton.mp member
    exact nonzero

theorem stopFirst {code : Int} (nonzero : code ≠ 0) (packs : Packs size program steps value reader) :
    Packs size (throw code >>= fun _ : Unit => program) (.stop code :: steps) value reader where
  follows := (Follows.throw code).bind packs.follows
  reads bytes same := by cases same
  small full field member := by
    rcases List.mem_cons.mp member with same | member
    · cases same
    · exact packs.small full field member
  code_ne_zero step member := by
    rcases List.mem_cons.mp member with rfl | member
    · exact nonzero
    · exact packs.code_ne_zero step member

theorem one {full : Int} {field : Bytes} {length : Nat} {read : α} (nonzero : full ≠ 0) (same : field.length = length)
    (small : length < 2 ^ 31) (reads : Reads reader field read) :
    Packs size (put size full length (pure field)) [.put full field] (some read) reader where
  follows := Follows.put full same
  reads bytes same := by
    obtain rfl : field ++ [] = bytes := Option.some.inj same
    rw [List.append_nil]
    exact ⟨read, rfl, reads⟩
  small full' field' member := by
    obtain ⟨-, rfl⟩ := Step.put.inj (List.mem_singleton.mp member)
    rwa [same]
  code_ne_zero step member := by
    obtain rfl := List.mem_singleton.mp member
    exact nonzero

/-- One part behind another, whose value decides what the rest is read as. -/
theorem bind {value' : α → Option β} {reader' : α → Reader β} (first : Packs size program steps value reader)
    (some_ : ∃ read, Packs size program' later (value' read) (reader' read))
    (rest : ∀ read ∈ value, Packs size program' later (value' read) (reader' read)) :
    Packs size (program >>= fun _ => program') (steps ++ later) (value >>= value') (reader >>= reader') := by
  obtain ⟨_, other⟩ := some_
  refine ⟨first.follows.bind other.follows, fun bytes same => ?_, fun full field member => ?_, fun step member => ?_⟩
  · rw [fields_append] at same
    obtain ⟨front, fields, same⟩ := Option.bind_eq_some_iff.mp same
    obtain ⟨back, more, rfl⟩ := Option.map_eq_some_iff.mp same
    obtain ⟨read, found, reads⟩ := first.reads front fields
    obtain ⟨result, found', reads'⟩ := (rest read found).reads back more
    refine ⟨result, ?_, reads.bind reads'⟩
    rw [found]
    exact found'
  · rcases List.mem_append.mp member with member | member
    · exact first.small full field member
    · exact other.small full field member
  · rcases List.mem_append.mp member with member | member
    · exact first.code_ne_zero step member
    · exact other.code_ne_zero step member

theorem next [Nonempty α] {value' : α → Option β} {reader' : α → Reader β} (first : Packs size program steps value reader)
    (rest : ∀ read, Packs size program' later (value' read) (reader' read)) :
    Packs size (program >>= fun _ => program') (steps ++ later) (value >>= value') (reader >>= reader') :=
  first.bind ⟨Classical.arbitrary α, rest _⟩ fun read _ => rest read

/-- The next part after one whose value is known. -/
theorem andThen {read : α} {value' : Option β} {reader' : α → Reader β} (first : Packs size program steps (some read) reader)
    (rest : Packs size program' later value' (reader' read)) :
    Packs size (program >>= fun _ => program') (steps ++ later) value' (reader >>= reader') := by
  have known : ∀ read' ∈ some read, Packs size program' later value' (reader' read') := by
    intro read' found
    obtain rfl := Option.some.inj found
    exact rest
  have both : Packs size (program >>= fun _ => program') (steps ++ later) (some read >>= fun _ => value')
      (reader >>= reader') :=
    first.bind ⟨read, rest⟩ known
  exact both

/-- A part that puts another value than the one that is there. -/
theorem unread {found : Option ν} {read : α} {value' : Option β} {reader' : Reader β}
    (first : Packs size program steps (found.map fun _ => read) reader) (rest : Packs size program' later value' reader') :
    Packs size (program >>= fun _ => program') (steps ++ later) (found >>= fun _ => value')
      (reader >>= fun _ => reader') := by
  have some_ : Nonempty α := ⟨read⟩
  have both := first.next fun _ => rest
  cases found with
  | none => exact both
  | some node => exact both

theorem last (packs : Packs size program steps value reader) (build : α → β) :
    Packs size program steps (value >>= fun read => pure (build read)) (reader >>= fun read => pure (build read)) where
  follows := packs.follows
  reads bytes same := by
    obtain ⟨read, found, reads⟩ := packs.reads bytes same
    refine ⟨build read, ?_, reads.map⟩
    rw [found]
    rfl
  small := packs.small
  code_ne_zero := packs.code_ne_zero

theorem recode {change : Int → Int} (packs : Packs size program steps value reader) (nonzero : ∀ code, change code ≠ 0) :
    Packs size (ExceptT.adapt change program) (steps.map (Step.recode change)) value reader where
  follows := packs.follows.recode
  reads bytes same := by
    refine packs.reads bytes (same.symm.trans ?_).symm
    clear packs same
    induction steps with
    | nil => rfl
    | cons step rest ih =>
      cases step with
      | stop code => rfl
      | put full field => simp only [List.map_cons, Step.recode, fields, ih]
  small full field member := by
    obtain ⟨step, inside, same⟩ := List.mem_map.mp member
    cases step with
    | stop code => cases same
    | put full' field' =>
      obtain ⟨-, rfl⟩ := Step.put.inj same
      exact packs.small full' field' inside
  code_ne_zero step member := by
    obtain ⟨step, -, rfl⟩ := List.mem_map.mp member
    cases step with
    | stop code => exact nonzero code
    | put full field => exact nonzero full

/-- The items of a list one after the other. -/
theorem forM {elements : List ν} {body : ν → Trapping Cursor Int Unit} {each : ν → List Step} {value : ν → Option α}
    (bodies : ∀ element ∈ elements, Packs size (body element) (each element) (value element) reader) :
    Packs size (elements.forM body) (elements.flatMap each) (elements.mapM value) (times reader elements.length) where
  follows := Follows.forM fun element member => (bodies element member).follows
  reads bytes same := by
    induction elements generalizing bytes with
    | nil =>
      obtain rfl : [] = bytes := Option.some.inj same
      exact ⟨[], rfl, Reads.pure []⟩
    | cons element rest ih =>
      rw [List.flatMap_cons, fields_append] at same
      obtain ⟨front, fields, same⟩ := Option.bind_eq_some_iff.mp same
      obtain ⟨back, more, rfl⟩ := Option.map_eq_some_iff.mp same
      obtain ⟨read, found, reads⟩ := (bodies element List.mem_cons_self).reads front fields
      obtain ⟨others, found', reads'⟩ := ih (fun element member => bodies element (List.mem_cons_of_mem _ member)) back more
      refine ⟨read :: others, ?_, reads.bind reads'.map⟩
      rw [List.mapM_cons, found, found']
      rfl
  small full field member := by
    obtain ⟨element, inside, member⟩ := List.mem_flatMap.mp member
    exact (bodies element inside).small full field member
  code_ne_zero step member := by
    obtain ⟨element, inside, member⟩ := List.mem_flatMap.mp member
    exact (bodies element inside).code_ne_zero step member

/-- A field under a key. -/
theorem field {json : ν} {key : String} {missing : Int} {encode : ν → Trapping Cursor Int Unit} {steps : ν → List Step}
    {value : ν → Option α} (nonzero : missing ≠ 0)
    (there : ∀ node, cJson.getObjectItem json key = some node → Packs size (encode node) (steps node) (value node) reader) :
    Packs size (putField cJson json key missing encode) (fieldSteps cJson json key missing steps)
      ((cJson.getObjectItem json key).bind value) reader := by
  unfold putField fieldSteps
  cases found : cJson.getObjectItem json key with
  | none => exact stop nonzero
  | some node => exact there node found

theorem int {full : Int} (node : ν) (nonzero : full ≠ 0) :
    Packs size (putInt cJson size full node) (intSteps cJson full node) (some (cJson.valueInt node)) Readers.int :=
  one nonzero (length_rawInt _) (by decide) (Reads.int _)

/-- A string of fewer than 2^31 bytes. -/
def IsText (cJson : CJson ν) (node : ν) : Prop := ∃ text, cJson.valueString node = some text ∧ text.length < 2 ^ 31

theorem id {cpStrtovalU64 : Bytes → UInt64} {full : Int} {node : ν} (text : IsText cJson node) (nonzero : full ≠ 0) :
    Packs size (putId cJson cpStrtovalU64 size full node) (idSteps cJson cpStrtovalU64 full node)
      ((cJson.valueString node).map cpStrtovalU64) word := by
  obtain ⟨text, found, -⟩ := text
  unfold putId idSteps
  rw [found]
  exact one nonzero (length_rawWord _) (by decide) (Reads.word _)

/-- A count that is put before what it counts. -/
theorem behindCount {full : Int} {n : Nat} {rest : Nat → Reader α} (nonzero : full ≠ 0) (small : n < 2 ^ 31)
    (packs : Packs size program steps value (rest n)) :
    Packs size (put size full 4 (pure (rawInt (Int32.ofNat n))) >>= fun _ => program)
      (.put full (rawInt (Int32.ofNat n)) :: steps) value
      (Readers.int >>= fun num => if num < 0 then failure else rest num.toInt.toNat) := by
  have num : Packs size (put size full 4 (pure (rawInt (Int32.ofNat n)))) [.put full (rawInt (Int32.ofNat n))]
      (some (Int32.ofNat n)) Readers.int := one nonzero (length_rawInt _) (by decide) (Reads.int _)
  refine num.andThen ?_
  rw [Reads.count small]
  exact packs

theorem text {full : Int} {node : ν} (text : IsText cJson node) (nonzero : full ≠ 0) :
    Packs size (putText cJson size full node) (textSteps cJson full node) (cJson.valueString node) sized := by
  obtain ⟨text, found, small⟩ := text
  have bytes : Packs size (put size full text.length (pure text)) [.put full text] (some text) (take text.length) :=
    one nonzero rfl small (Reads.take text)
  unfold putText textSteps
  rw [found]
  exact bytes.behindCount nonzero small

/-- A loop over the numbers of the items is one over the items. -/
theorem forM_items (broken : Int) (array : ν) (body : ν → Trapping Cursor Int Unit) :
    ((List.range (cJson.getArraySize array)).forM fun i =>
      match cJson.getArrayItem array i with
      | none => throw broken
      | some node => body node : Trapping Cursor Int Unit) = (cJson.items array).forM body := by
  let found : Option ν → Trapping Cursor Int Unit := fun
    | none => throw broken
    | some node => body node
  calc _ = ((List.range (cJson.getArraySize array)).map (cJson.getArrayItem array)).forM found := List.forM_map.symm
    _ = ((cJson.items array).map some).forM found := by rw [cJson.map_getArrayItem]
    _ = (cJson.items array).forM body := List.forM_map

/-- An array, with its count before its items. -/
theorem list {full broken : Int} {array : ν} {body : ν → Trapping Cursor Int Unit} {each : ν → List Step}
    {value : ν → Option α} (nonzero : full ≠ 0) (small : cJson.getArraySize array < 2 ^ 31)
    (bodies : ∀ node ∈ cJson.items array, Packs size (body node) (each node) (value node) reader) :
    Packs size (do
        put size full 4 (pure (rawInt (Int32.ofNat (cJson.getArraySize array))))
        (List.range (cJson.getArraySize array)).forM fun i =>
          match cJson.getArrayItem array i with
          | none => throw broken
          | some node => body node)
      (listSteps cJson full each array) ((cJson.items array).mapM value) (counted reader) := by
  have items := forM bodies
  rw [cJson.length_items] at items
  rw [forM_items]
  exact items.behindCount nonzero small

theorem recode_fieldSteps (change : Int → Int) (json : ν) (key : String) (missing : Int) (steps : ν → List Step) :
    (fieldSteps cJson json key missing steps).map (Step.recode change) =
      fieldSteps cJson json key (change missing) fun node => (steps node).map (Step.recode change) := by
  unfold fieldSteps
  cases cJson.getObjectItem json key <;> rfl

theorem recode_listSteps (change : Int → Int) (full : Int) (item : ν → List Step) (array : ν) :
    (listSteps cJson full item array).map (Step.recode change) =
      listSteps cJson (change full) (fun node => (item node).map (Step.recode change)) array := by
  rw [listSteps, List.map_cons, List.map_flatMap]
  rfl

theorem listCode_ne_zero {broken full : Int} (brokenNonzero : broken ≠ 0) (nonzero : full ≠ 0) (code : Int) :
    listCode broken full code ≠ 0 := by
  unfold listCode
  split
  · exact brokenNonzero
  · exact nonzero

/-- An array of strings. -/
theorem texts {broken full : Int} {array : ν} (brokenNonzero : broken ≠ 0) (nonzero : full ≠ 0)
    (small : cJson.getArraySize array < 2 ^ 31) (text : ∀ node ∈ cJson.items array, IsText cJson node) :
    Packs size (ExceptT.adapt (listCode broken full) (parseArray cJson size array))
      (textsSteps cJson full array) ((cJson.items array).mapM cJson.valueString) (counted sized) := by
  have parsed : Packs size (parseArray cJson size array) (listSteps cJson (-2) (textSteps cJson (-2)) array)
      ((cJson.items array).mapM cJson.valueString) (counted sized) :=
    list (by decide) small fun node member => Packs.text (text node member) (by decide)
  have coded := parsed.recode fun code => listCode_ne_zero brokenNonzero nonzero code
  rwa [recode_listSteps] at coded

/-- An array of objects with a word and its count. -/
theorem words {broken full : Int} {array : ν} (brokenNonzero : broken ≠ 0) (nonzero : full ≠ 0)
    (small : cJson.getArraySize array < 2 ^ 31)
    (text : ∀ object ∈ cJson.items array, ∀ node, cJson.getObjectItem object "word" = some node → IsText cJson node) :
    Packs size (ExceptT.adapt (listCode broken full) (parseArrayObject cJson size array))
      (listSteps cJson full (wordSteps cJson broken full) array) ((cJson.items array).mapM (wordOf cJson))
      (counted readWord) := by
  have word (object : ν) (member : object ∈ cJson.items array) :
      Packs size (do
          putField cJson object "word" (-1) (putText cJson size (-2))
          putField cJson object "count" (-1) (putInt cJson size (-2)))
        (wordSteps cJson (-1) (-2) object) (wordOf cJson object) readWord := by
    have texts : Packs size (putField cJson object "word" (-1) (putText cJson size (-2)))
        (fieldSteps cJson object "word" (-1) (textSteps cJson (-2))) (textOf cJson object "word") sized :=
      field (by decide) fun node found => Packs.text (text object member node found) (by decide)
    have count : Packs size (putField cJson object "count" (-1) (putInt cJson size (-2)))
        (fieldSteps cJson object "count" (-1) (intSteps cJson (-2))) (intOf cJson object "count") Readers.int := by
      rw [intOf, Option.map_eq_bind]
      exact field (by decide) fun node _ => Packs.int node (by decide)
    exact texts.next fun text => count.last fun count => (text, count)
  have parsed : Packs size (parseArrayObject cJson size array)
      (listSteps cJson (-2) (wordSteps cJson (-1) (-2)) array) ((cJson.items array).mapM (wordOf cJson))
      (counted readWord) :=
    list (by decide) small word
  have coded := parsed.recode fun code => listCode_ne_zero brokenNonzero nonzero code
  rw [recode_listSteps] at coded
  have same : (fun node => (wordSteps cJson (-1) (-2) node).map
      (Step.recode (listCode broken full))) = wordSteps cJson broken full := by
    funext node
    rw [wordSteps, List.map_append, recode_fieldSteps, recode_fieldSteps]
    rfl
  rwa [same] at coded

end Packs

/-- The fields of a message that are strings. -/
def textKeys (type : Int32) : List String :=
  if type = 1 then ["userid", "docid", "location"]
  else if type = 2 then ["docid"]
  else if type = 5 then ["heartbeat"]
  else ["userid"]

/-- The fields of a message that are arrays of strings. -/
def listKeys (type : Int32) : List String :=
  if type = 2 then ["category", "srp", "circle", "topsrp", "topcircle"]
  else if type = 3 then ["circle", "srp"]
  else if type = 6 then ["returnlist"]
  else []

def wordKeys (type : Int32) : List String := if type = 2 then ["word"] else []

/-- The fields of a message satisfy a condition on strings and one on arrays. -/
structure Fields {ν : Type} (cJson : CJson ν) (json : ν) (type : Int32) (text list : ν → Prop) : Prop where
  texts : ∀ key ∈ textKeys type, ∀ node, cJson.getObjectItem json key = some node → text node
  lists : ∀ key ∈ listKeys type, ∀ array, cJson.getObjectItem json key = some array →
    list array ∧ ∀ node ∈ cJson.items array, text node
  words : ∀ key ∈ wordKeys type, ∀ array, cJson.getObjectItem json key = some array →
    list array ∧ ∀ object ∈ cJson.items array, ∀ node, cJson.getObjectItem object "word" = some node → text node

namespace Packs
variable {ν : Type} {size : Int32} {cJson : CJson ν} {json : ν} {type : Int32} {cpStrtovalU64 : Bytes → UInt64}
  {key : String} {missing broken full : Int}

/-- A message whose strings and arrays have fewer than 2^31 bytes and items. -/
abbrev Encodable (cJson : CJson ν) (json : ν) (type : Int32) : Prop :=
  Fields cJson json type (IsText cJson) fun array => cJson.getArraySize array < 2 ^ 31

theorem intField (missingNonzero : missing ≠ 0) (nonzero : full ≠ 0) :
    Packs size (putField cJson json key missing (putInt cJson size full))
      (fieldSteps cJson json key missing (intSteps cJson full)) (intOf cJson json key) Readers.int := by
  rw [intOf, Option.map_eq_bind]
  exact field missingNonzero fun node _ => Packs.int node nonzero

theorem idField (encodable : Encodable cJson json type) (member : key ∈ textKeys type) (missingNonzero : missing ≠ 0)
    (nonzero : full ≠ 0) :
    Packs size (putField cJson json key missing (putId cJson cpStrtovalU64 size full))
      (fieldSteps cJson json key missing (idSteps cJson cpStrtovalU64 full)) (idOf cJson cpStrtovalU64 json key) word := by
  have value : idOf cJson cpStrtovalU64 json key =
      (cJson.getObjectItem json key).bind fun node => (cJson.valueString node).map cpStrtovalU64 := by
    rw [idOf, textOf, Option.map_bind]
    rfl
  rw [value]
  exact field missingNonzero fun node found => Packs.id (encodable.texts key member node found) nonzero

theorem textField (encodable : Encodable cJson json type) (member : key ∈ textKeys type) (missingNonzero : missing ≠ 0)
    (nonzero : full ≠ 0) :
    Packs size (putField cJson json key missing (putText cJson size full))
      (fieldSteps cJson json key missing (textSteps cJson full)) (textOf cJson json key) sized :=
  field missingNonzero fun node found => Packs.text (encodable.texts key member node found) nonzero

theorem textsField (encodable : Encodable cJson json type) (member : key ∈ listKeys type) (missingNonzero : missing ≠ 0)
    (brokenNonzero : broken ≠ 0) (nonzero : full ≠ 0) :
    Packs size (putArray cJson json key missing broken full (parseArray cJson size))
      (fieldSteps cJson json key missing (textsSteps cJson full)) (textsOf cJson json key) (counted sized) :=
  field missingNonzero fun array found =>
    have lists := encodable.lists key member array found
    texts brokenNonzero nonzero lists.1 lists.2

theorem head {num : Nat} {wrong : Int} (typed : intOf cJson json "type" = some type) (wrongNonzero : wrong ≠ 0)
    (missingNonzero : missing ≠ 0) (nonzero : full ≠ 0) :
    Packs size (putHead cJson size json num wrong missing full) (headSteps cJson json num wrong missing full)
      (some type) Readers.int := by
  have put : Packs size (putField cJson json "type" missing (putInt cJson size full))
      (fieldSteps cJson json "type" missing (intSteps cJson full)) (some type) Readers.int := by
    rw [← typed]
    exact intField missingNonzero nonzero
  unfold putHead headSteps
  by_cases same : cJson.getArraySize json = num
  · rw [if_pos same, if_pos same]
    exact put
  · rw [if_neg same, if_neg same]
    exact stopFirst wrongNonzero put

/-- The bytes of a string may be looked for after its length has been tested. -/
theorem locationField (encodable : Encodable cJson json 1) :
    Packs size (putField cJson json "location" (-108) fun node => do
        put size (-100) 4 do
          let text ← deref (cJson.valueString node)
          return rawInt (Int32.ofNat text.length)
        let text ← deref (cJson.valueString node)
        put size (-100) text.length (pure text))
      (fieldSteps cJson json "location" (-108) (textSteps cJson (-100))) (textOf cJson json "location") sized := by
  refine field (by decide) fun node found => ?_
  have isText := encodable.texts "location" (by decide) node found
  have same : (do
      put size (-100) 4 do
        let text ← deref (cJson.valueString node)
        return rawInt (Int32.ofNat text.length)
      let text ← deref (cJson.valueString node)
      put size (-100) text.length (pure text)) = putText cJson size (-100) node := by
    obtain ⟨text, valid, -⟩ := isText
    rw [putText, valid]
    rfl
  rw [same]
  exact Packs.text isText (by decide)

variable {varF4 : ℚ → UInt32} {now : Int32}

theorem action (encodable : Encodable cJson json 1) (typed : intOf cJson json "type" = some 1) :
    Packs size (parseAction cJson cpStrtovalU64 json size)
      (headSteps cJson json 7 (-101) (-102) (-100) ++ actionSteps cJson cpStrtovalU64 json)
      (contentOf cJson cpStrtovalU64 varF4 json 1) decode := by
  refine (head typed (by decide) (by decide) (by decide)).andThen ?_
  rw [contentOf, if_pos rfl, readContent, if_pos rfl]
  refine (intField (by decide) (by decide)).next fun clickTime => ?_
  refine (idField encodable (by decide) (by decide) (by decide)).next fun userId => ?_
  refine (idField encodable (by decide) (by decide) (by decide)).next fun docId => ?_
  refine (intField (by decide) (by decide)).next fun stayTime => ?_
  refine (intField (by decide) (by decide)).next fun action => ?_
  exact last (locationField encodable) (Content.action clickTime userId docId stayTime action)

theorem subscribe (encodable : Encodable cJson json 3) (typed : intOf cJson json "type" = some 3) :
    Packs size (parseSubscribe cJson cpStrtovalU64 json size)
      (headSteps cJson json 4 (-301) (-302) (-300) ++ subscribeSteps cJson cpStrtovalU64 json)
      (contentOf cJson cpStrtovalU64 varF4 json 3) decode := by
  refine (head typed (by decide) (by decide) (by decide)).andThen ?_
  refine (idField encodable (by decide) (by decide) (by decide)).next fun userId => ?_
  refine (textsField encodable (by decide) (by decide) (by decide) (by decide)).next fun circle => ?_
  refine last ?_ (Content.subscribe userId circle)
  exact textsField encodable (by decide) (by decide) (by decide) (by decide)

theorem recommend (encodable : Encodable cJson json 4) (typed : intOf cJson json "type" = some 4) :
    Packs size (parseRecommend cJson cpStrtovalU64 json size)
      (headSteps cJson json 4 (-401) (-402) (-400) ++ recommendSteps cJson cpStrtovalU64 json)
      (contentOf cJson cpStrtovalU64 varF4 json 4) decode := by
  refine (head typed (by decide) (by decide) (by decide)).andThen ?_
  refine (intField (by decide) (by decide)).next fun log => ?_
  refine (idField encodable (by decide) (by decide) (by decide)).next fun userId => ?_
  refine last ?_ (Content.recommend log userId)
  exact intField (by decide) (by decide)

theorem heartbeat (encodable : Encodable cJson json 5) (typed : intOf cJson json "type" = some 5) :
    Packs size (parseHeartbeat cJson json size)
      (headSteps cJson json 2 (-501) (-502) (-500) ++ heartbeatSteps cJson json)
      (contentOf cJson cpStrtovalU64 varF4 json 5) decode := by
  refine (head typed (by decide) (by decide) (by decide)).andThen ?_
  refine last ?_ Content.heartbeat
  exact textField encodable (by decide) (by decide) (by decide)

theorem feedback (encodable : Encodable cJson json 6) (typed : intOf cJson json "type" = some 6) :
    Packs size (parseFeedback cJson cpStrtovalU64 json size)
      (headSteps cJson json 4 (-601) (-602) (-600) ++ feedbackSteps cJson cpStrtovalU64 json)
      (contentOf cJson cpStrtovalU64 varF4 json 6) decode := by
  refine (head typed (by decide) (by decide) (by decide)).andThen ?_
  refine (idField encodable (by decide) (by decide) (by decide)).next fun userId => ?_
  refine (intField (by decide) (by decide)).next fun returnNum => ?_
  refine last ?_ (Content.feedback userId returnNum)
  refine field (by decide) fun array found => ?_
  have lists := encodable.lists "returnlist" (by decide) array found
  exact list (by decide) lists.1 fun node member => Packs.id (lists.2 node member) (by decide)

theorem document (encodable : Encodable cJson json 2) (typed : intOf cJson json "type" = some 2) :
    Packs size (parseDocument cJson cpStrtovalU64 varF4 now json size)
      (headSteps cJson json 12 (-201) (-202) (-200) ++ documentSteps cJson cpStrtovalU64 varF4 now json)
      (contentOf cJson cpStrtovalU64 varF4 json 2) decode := by
  have time : Packs size (putField cJson json "pushtime" (-213) fun _ => put size (-200) 4 (pure (rawInt now)))
      (fieldSteps cJson json "pushtime" (-213) fun _ => [.put (-200) (rawInt now)])
      ((cJson.getObjectItem json "pushtime").map fun _ => now) Readers.int := by
    rw [Option.map_eq_bind]
    exact field (by decide) fun node _ => one (by decide) (length_rawInt _) (by decide) (Reads.int now)
  have float (value : UInt32) : Reads readFloat (rawInt value.toInt32) value := by
    have reads : Reads readFloat (rawInt value.toInt32) value.toInt32.toUInt32 := (Reads.int _).map
    rwa [UInt32.toUInt32_toInt32] at reads
  have power : Packs size (putField cJson json "power" (-214) fun node =>
        put size (-200) 4 (pure (rawInt (varF4 (cJson.valueDouble node)).toInt32)))
      (fieldSteps cJson json "power" (-214) fun node => [.put (-200) (rawInt (varF4 (cJson.valueDouble node)).toInt32)])
      ((cJson.getObjectItem json "power").map fun node => varF4 (cJson.valueDouble node)) readFloat := by
    rw [Option.map_eq_bind]
    exact field (by decide) fun node _ => one (by decide) (length_rawInt _) (by decide) (float _)
  have word : Packs size (putArray cJson json "word" (-210) (-211) (-200) (parseArrayObject cJson size))
      (fieldSteps cJson json "word" (-210) (listSteps cJson (-200) (wordSteps cJson (-211) (-200))))
      (wordsOf cJson json "word") (counted readWord) := by
    refine field (by decide) fun array found => ?_
    have lists := encodable.words "word" (by decide) array found
    exact words (by decide) (by decide) lists.1 lists.2
  have texts {key : String} {missing broken : Int} (member : key ∈ listKeys 2) (missingNonzero : missing ≠ 0)
      (brokenNonzero : broken ≠ 0) :
      Packs size (putArray cJson json key missing broken (-200) (parseArray cJson size))
        (fieldSteps cJson json key missing (textsSteps cJson (-200))) (textsOf cJson json key) (counted sized) :=
    textsField encodable member missingNonzero brokenNonzero (by decide)
  refine (head typed (by decide) (by decide) (by decide)).andThen ?_
  refine (idField encodable (by decide) (by decide) (by decide)).next fun docId => ?_
  refine (intField (by decide) (by decide)).next fun publicTime => ?_
  refine time.unread ?_
  refine power.next fun power => ?_
  refine (texts (by decide) (by decide) (by decide)).next fun category => ?_
  refine word.next fun words => ?_
  refine (texts (by decide) (by decide) (by decide)).next fun srp => ?_
  refine (texts (by decide) (by decide) (by decide)).next fun circle => ?_
  refine (intField (by decide) (by decide)).next fun topFlag => ?_
  refine (texts (by decide) (by decide) (by decide)).next fun topSrp => ?_
  exact last (texts (by decide) (by decide) (by decide))
    (Content.document docId publicTime power category words srp circle topFlag topSrp)

end Packs

section Requests
variable {ν : Type} (cJson : CJson ν) (cpStrtovalU64 : Bytes → UInt64) (cJsonParse : Bytes → Option ν)
  (varF4 : ℚ → UInt32) (now : Int32) (jsonBuffer : Bytes)

/-- The values that lie in a value. -/
inductive Part (json : ν) : ν → Prop
  | self : Part json json
  | field {node value : ν} {key : String} : Part json node → cJson.getObjectItem node key = some value → Part json value
  | item {array value : ν} {i : Nat} : Part json array → cJson.getArrayItem array i = some value → Part json value

/-- What cJSON makes of a text has no string and no array longer than the text. -/
structure ReadFrom (json : ν) : Prop where
  string_le : ∀ node text, Part cJson json node → cJson.valueString node = some text → text.length ≤ jsonBuffer.length
  size_le : ∀ node, Part cJson json node → cJson.getArraySize node ≤ jsonBuffer.length

/-- The fields of the message that are strings, or arrays of strings, have strings there. -/
def Textual (json : ν) (type : Int32) : Prop :=
  Fields cJson json type (fun node => (cJson.valueString node).isSome) fun _ => True

/-- What the request says. -/
def requestContent : Option Content := do
  let json ← cJsonParse jsonBuffer
  let type ← intOf cJson json "type"
  contentOf cJson cpStrtovalU64 varF4 json type

/-- Nothing is put beyond the buffer, and a request is either refused, with the size as it was, or the size is that of
what has been put, which says what the request says. -/
def Encoded.Faithful (outcome : Encoded) (content : Option Content) (binarySize : Int32) : Prop :=
  (outcome.written.length : Int) ≤ binarySize.toInt ∧
  (outcome.code ≠ 0 ∧ outcome.binarySize = binarySize ∨
    outcome.code = 0 ∧ outcome.binarySize.toInt ≤ binarySize.toInt ∧
      outcome.binarySize.toInt = outcome.written.length ∧
      ∃ said, content = some said ∧ decode.run outcome.written = some (said, []))

def EncodesFaithfully (binarySize : Int32) : Prop :=
  ∃ outcome, parseJson cJson cpStrtovalU64 cJsonParse varF4 now jsonBuffer binarySize = some outcome ∧
    outcome.Faithful (requestContent cJson cpStrtovalU64 cJsonParse varF4 jsonBuffer) binarySize

/-- No field that starts inside the buffer ends at 2^31 or beyond. -/
def NeverWraps (binarySize : Int32) : Prop :=
  ∀ json type, cJsonParse jsonBuffer = some json → intOf cJson json "type" = some type →
    Unwrapped binarySize 0 (requestSteps cJson cpStrtovalU64 varF4 now json type)

variable {cJson cpStrtovalU64 cJsonParse varF4 now jsonBuffer}

theorem encodable_of_textual {json : ν} {type : Int32} (small : jsonBuffer.length < 2 ^ 31)
    (read : ReadFrom cJson jsonBuffer json) (textual : Textual cJson json type) : Packs.Encodable cJson json type := by
  have text {node : ν} (part : Part cJson json node) (some_ : (cJson.valueString node).isSome) :
      Packs.IsText cJson node := by
    obtain ⟨text, found⟩ := Option.isSome_iff_exists.mp some_
    exact ⟨text, found, (read.string_le node text part found).trans_lt small⟩
  have item {array node : ν} (part : Part cJson json array) (member : node ∈ cJson.items array) :
      Part cJson json node := by
    obtain ⟨i, -, found⟩ := List.mem_filterMap.mp member
    exact .item part found
  refine ⟨fun key member node found => ?_, fun key member array found => ?_, fun key member array found => ?_⟩
  · exact text (.field .self found) (textual.texts key member node found)
  · have part : Part cJson json array := .field .self found
    refine ⟨(read.size_le array part).trans_lt small, fun node inside => ?_⟩
    exact text (item part inside) ((textual.lists key member array found).2 node inside)
  · have part : Part cJson json array := .field .self found
    refine ⟨(read.size_le array part).trans_lt small, fun object inside node word => ?_⟩
    exact text (.field (item part inside) word) ((textual.words key member array found).2 object inside node word)

theorem packs_request {json : ν} {type size : Int32} (encodable : Packs.Encodable cJson json type)
    (typed : intOf cJson json "type" = some type) :
    Packs size (parser cJson cpStrtovalU64 varF4 now json type size)
      (requestSteps cJson cpStrtovalU64 varF4 now json type) (contentOf cJson cpStrtovalU64 varF4 json type) decode := by
  unfold parser requestSteps
  split
  · subst type
    exact Packs.action encodable typed
  split
  · subst type
    exact Packs.document encodable typed
  split
  · subst type
    exact Packs.subscribe encodable typed
  split
  · subst type
    exact Packs.recommend encodable typed
  split
  · subst type
    exact Packs.heartbeat encodable typed
  split
  · subst type
    exact Packs.feedback encodable typed
  · exact Packs.stop (by decide)

/-- A request without a type is refused before anything is put. -/
theorem faithful_of_refused {binarySize : Int32} (nonneg : 0 ≤ binarySize) (content : Option Content) :
    (⟨-1, binarySize, []⟩ : Encoded).Faithful content binarySize :=
  ⟨Int32.le_iff_toInt_le.mp nonneg, .inl ⟨show (-1 : Int) ≠ 0 by decide, rfl⟩⟩

/-- A parser that packs what is there does so faithfully as long as the length does not wrap. -/
theorem Packs.faithful_iff {binarySize : Int32} {program : Trapping Cursor Int Unit} {steps : List Step}
    {content : Option Content} (packs : Packs binarySize program steps content decode) (nonneg : 0 ≤ binarySize) :
    (∃ outcome, (program {}).map (Encoded.ofParsed binarySize) = some outcome ∧ outcome.Faithful content binarySize) ↔
      Unwrapped binarySize 0 steps := by
  have start : Within binarySize {} := ⟨rfl, Int32.le_iff_toInt_le.mp nonneg⟩
  have run := packs.follows {}
  rw [run, Option.map_some]
  constructor
  · rintro ⟨outcome, same, inside, -⟩
    obtain rfl := Option.some.inj same
    by_contra wrapped
    have beyond := follow_beyond packs.small start wrapped
    have written (ends : Except Int Unit × Cursor) : (Encoded.ofParsed binarySize ends).written = ends.2.written := by
      rcases ends with ⟨code | _, cursor⟩ <;> rfl
    rw [written] at inside
    omega
  · intro unwrapped
    obtain ⟨room, ok⟩ := follow_within start unwrapped
    refine ⟨_, rfl, ?_⟩
    rcases ends : follow binarySize steps {} with ⟨code | ⟨⟩, after⟩
    · rw [ends] at room
      obtain ⟨step, member, rfl⟩ := code_of_error ends
      exact ⟨room, .inl ⟨packs.code_ne_zero step member, rfl⟩⟩
    · obtain ⟨bytes, put, written⟩ := fields_of_ok ends
      obtain ⟨said, there, reads⟩ := packs.reads bytes put
      have within := ok after ends
      have whole := reads []
      rw [List.append_nil] at whole
      rw [List.nil_append] at written
      refine ⟨within.room, .inr ⟨rfl, ?_, within.len_eq, said, there, ?_⟩⟩
      · exact within.len_eq.trans_le within.room
      · rw [← whole, ← written]
        rfl

theorem encodesFaithfully_of_parsed {json : ν} {type binarySize : Int32} (nonneg : 0 ≤ binarySize)
    (parsed : cJsonParse jsonBuffer = some json) (typed : intOf cJson json "type" = some type)
    (encodable : Packs.Encodable cJson json type) :
    EncodesFaithfully cJson cpStrtovalU64 cJsonParse varF4 now jsonBuffer binarySize ↔
      Unwrapped binarySize 0 (requestSteps cJson cpStrtovalU64 varF4 now json type) := by
  obtain ⟨node, found, rfl⟩ := Option.map_eq_some_iff.mp typed
  have packed : Packs binarySize (parser cJson cpStrtovalU64 varF4 now json (cJson.valueInt node) binarySize)
      (requestSteps cJson cpStrtovalU64 varF4 now json (cJson.valueInt node))
      (contentOf cJson cpStrtovalU64 varF4 json (cJson.valueInt node)) decode := packs_request encodable typed
  have content : requestContent cJson cpStrtovalU64 cJsonParse varF4 jsonBuffer =
      contentOf cJson cpStrtovalU64 varF4 json (cJson.valueInt node) := by
    rw [requestContent, parsed, Option.bind_eq_bind, Option.bind_some, typed]
    rfl
  have run : parseJson cJson cpStrtovalU64 cJsonParse varF4 now jsonBuffer binarySize =
      (parser cJson cpStrtovalU64 varF4 now json (cJson.valueInt node) binarySize {}).map (Encoded.ofParsed binarySize) := by
    rw [parseJson, parsed]
    dsimp only
    rw [found]
  rw [EncodesFaithfully, content, run]
  exact packed.faithful_iff nonneg

/-- A request is encoded faithfully exactly when the length never wraps. -/
theorem encodesFaithfully_iff {binarySize : Int32} (nonneg : 0 ≤ binarySize) (small : jsonBuffer.length < 2 ^ 31)
    (read : ∀ json, cJsonParse jsonBuffer = some json → ReadFrom cJson jsonBuffer json)
    (textual : ∀ json type, cJsonParse jsonBuffer = some json → intOf cJson json "type" = some type →
      Textual cJson json type) :
    EncodesFaithfully cJson cpStrtovalU64 cJsonParse varF4 now jsonBuffer binarySize ↔
      NeverWraps cJson cpStrtovalU64 cJsonParse varF4 now jsonBuffer binarySize := by
  cases parsed : cJsonParse jsonBuffer with
  | none =>
    refine iff_of_true ⟨⟨-1, binarySize, []⟩, ?_, faithful_of_refused nonneg _⟩ fun _ _ found => ?_
    · rw [parseJson, parsed]
    · rw [parsed] at found
      cases found
  | some json =>
    cases typed : intOf cJson json "type" with
    | none =>
      have missing : cJson.getObjectItem json "type" = none := Option.map_eq_none_iff.mp typed
      refine iff_of_true ⟨⟨-1, binarySize, []⟩, ?_, faithful_of_refused nonneg _⟩ fun _ _ same found => ?_
      · rw [parseJson, parsed]
        dsimp only
        rw [missing]
      · obtain rfl := Option.some.inj (parsed.symm.trans same)
        rw [typed] at found
        cases found
    | some type =>
      have encodable := encodable_of_textual small (read json parsed) (textual json type parsed typed)
      rw [encodesFaithfully_of_parsed nonneg parsed typed encodable]
      constructor
      · intro unwrapped other type' same typed'
        obtain rfl := Option.some.inj (parsed.symm.trans same)
        obtain rfl := Option.some.inj (typed.symm.trans typed')
        exact unwrapped
      · exact fun never => never json type parsed typed

end Requests

section Subscribing

theorem part_children {json node : Json} (part : Part Json.cJson json node) :
    node = json ∨ ∃ child ∈ json.children, Part Json.cJson child node := by
  have below {node value : Json} (child : value ∈ node.children)
      (above : node = json ∨ ∃ child ∈ json.children, Part Json.cJson child node)
      (further : ∀ {child : Json}, Part Json.cJson child node → Part Json.cJson child value) :
      value = json ∨ ∃ child ∈ json.children, Part Json.cJson child value := by
    rcases above with rfl | ⟨first, inside, part⟩
    · exact .inr ⟨value, child, .self⟩
    · exact .inr ⟨first, inside, further part⟩
  induction part with
  | self => exact .inl rfl
  | @field node value key _ found ih =>
    refine below ?_ ih fun part => part.field found
    cases node with
    | object fields =>
      obtain ⟨entry, first, rfl⟩ := Option.map_eq_some_iff.mp found
      exact List.mem_map_of_mem (List.mem_of_find?_eq_some first)
    | _ => cases found
  | item _ found ih => exact below (List.mem_of_getElem? found) ih fun part => part.item found

theorem items_children (json : Json) : Json.cJson.items json = json.children := by
  have same := Json.cJson.map_getArrayItem json
  have listed : (List.range json.children.length).map (fun i => json.children[i]?) = json.children.map some := by
    apply List.ext_getElem?
    intro i
    by_cases small : i < json.children.length <;> simp [small]
  exact (List.map_injective_iff.mpr (Option.some_injective _)) (same.symm.trans listed)

/-- A request with strings that are empty in one array and one string in the other. -/
def subscribing (more : Nat) (srp : Bytes) : Json :=
  .object [("type", .number 3), ("userid", .string [49]), ("circle", .array (List.replicate (more + 1) (.string []))),
    ("srp", .array [.string srp])]

def subscribingText (more : Nat) (srp : Bytes) : Bytes :=
  "\x7b\"type\":3,\"userid\":\"1\",\"circle\":[\"\"".toUTF8.toList ++ (List.replicate more [(44 : UInt8), 34, 34]).flatten ++
    ("],\"srp\":[\"".toUTF8.toList ++ srp ++ "\"]\x7d".toUTF8.toList)

variable (more : Nat) (srp : Bytes)

theorem length_subscribingText : (subscribingText more srp).length = 48 + 3 * more + srp.length := by
  have open_ : "\x7b\"type\":3,\"userid\":\"1\",\"circle\":[\"\"".toUTF8.toList.length = 35 := by decide +kernel
  have middle : "],\"srp\":[\"".toUTF8.toList.length = 10 := by decide +kernel
  have end_ : "\"]\x7d".toUTF8.toList.length = 3 := by decide +kernel
  have empties : (List.replicate more [(44 : UInt8), 34, 34]).flatten.length = more * 3 := by simp
  simp only [subscribingText, List.length_append, open_, middle, end_, empties]
  omega

theorem readFrom_subscribing : ReadFrom Json.cJson (subscribingText more srp) (subscribing more srp) := by
  have length := length_subscribingText more srp
  have parts (node : Json) (part : Part Json.cJson (subscribing more srp) node) :
      node = subscribing more srp ∨ node = .number 3 ∨ node = .string [49] ∨
        node = .array (List.replicate (more + 1) (.string [])) ∨ node = .array [.string srp] ∨ node = .string [] ∨
        node = .string srp := by
    have leaf {json node : Json} (none_ : json.children = []) (part : Part Json.cJson json node) : node = json := by
      rcases part_children part with same | ⟨child, inside, -⟩
      · exact same
      · rw [none_] at inside
        cases inside
    rcases part_children part with rfl | ⟨child, inside, part⟩
    · exact .inl rfl
    have fields : child = .number 3 ∨ child = .string [49] ∨ child = .array (List.replicate (more + 1) (.string [])) ∨
        child = .array [.string srp] := by
      simpa [subscribing, Json.children] using inside
    rcases fields with rfl | rfl | rfl | rfl
    · exact .inr (.inl (leaf rfl part))
    · exact .inr (.inr (.inl (leaf rfl part)))
    · rcases part_children part with rfl | ⟨child, inside, part⟩
      · exact .inr (.inr (.inr (.inl rfl)))
      · obtain rfl := List.eq_of_mem_replicate inside
        exact .inr (.inr (.inr (.inr (.inr (.inl (leaf rfl part))))))
    · rcases part_children part with rfl | ⟨child, inside, part⟩
      · exact .inr (.inr (.inr (.inr (.inl rfl))))
      · obtain rfl := List.mem_singleton.mp inside
        exact .inr (.inr (.inr (.inr (.inr (.inr (leaf rfl part))))))
  constructor
  · intro node text part found
    rcases parts node part with rfl | rfl | rfl | rfl | rfl | rfl | rfl
    all_goals cases found
    · rw [length, List.length_singleton]
      omega
    · exact Nat.zero_le _
    · omega
  · intro node part
    rcases parts node part with rfl | rfl | rfl | rfl | rfl | rfl | rfl
    all_goals
      simp only [Json.cJson, Json.children, subscribing, List.length_map, List.length_cons, List.length_nil,
        List.length_replicate, length]
      omega

theorem textual_subscribing : Textual Json.cJson (subscribing more srp) 3 := by
  refine ⟨fun key member node found => ?_, fun key member array found => ⟨trivial, fun node inside => ?_⟩,
    fun key member => by cases member⟩
  · obtain rfl : key = "userid" := by simpa [textKeys] using member
    obtain rfl : Json.string [49] = node := Option.some.inj found
    rfl
  · rw [items_children] at inside
    have keys : key = "circle" ∨ key = "srp" := by simpa [listKeys] using member
    rcases keys with rfl | rfl
    · obtain rfl : Json.array (List.replicate (more + 1) (.string [])) = array := Option.some.inj found
      obtain rfl := List.eq_of_mem_replicate inside
      rfl
    · obtain rfl : Json.array [.string srp] = array := Option.some.inj found
      obtain rfl := List.mem_singleton.mp inside
      rfl

/-- The steps of such a request up to its long string. -/
theorem requestSteps_subscribing (cpStrtovalU64 : Bytes → UInt64) (varF4 : ℚ → UInt32) (now : Int32) :
    ∃ before bytes, requestSteps Json.cJson cpStrtovalU64 varF4 now (subscribing more srp) 3 =
        before ++ [.put (-300) srp] ∧ fields before = some bytes ∧ bytes.length = 28 + 4 * more := by
  have empties (count : Nat) : ∃ bytes,
      fields ((List.replicate count (Json.string [])).flatMap (textSteps Json.cJson (-300))) = some bytes ∧
        bytes.length = 4 * count := by
    induction count with
    | zero => exact ⟨[], rfl, rfl⟩
    | succ count ih =>
      obtain ⟨bytes, all, length⟩ := ih
      refine ⟨rawInt 0 ++ bytes, ?_, ?_⟩
      · rw [List.replicate_succ, List.flatMap_cons, fields_append, all]
        rfl
      · rw [List.length_append, length_rawInt, length]
        omega
  obtain ⟨bytes, all, length⟩ := empties (more + 1)
  let count (n : Nat) : Step := .put (-300) (rawInt (Int32.ofNat n))
  have userid : fieldSteps Json.cJson (subscribing more srp) "userid" (-303) (idSteps Json.cJson cpStrtovalU64 (-300)) =
      [.put (-300) (rawWord (cpStrtovalU64 [49]))] := rfl
  have circle : fieldSteps Json.cJson (subscribing more srp) "circle" (-304) (textsSteps Json.cJson (-300)) =
      count (List.replicate (more + 1) (Json.string [])).length ::
        (List.replicate (more + 1) (Json.string [])).flatMap (textSteps Json.cJson (-300)) := by
    change textsSteps Json.cJson (-300) (.array (List.replicate (more + 1) (.string []))) = _
    rw [textsSteps, listSteps, items_children]
    rfl
  have last : fieldSteps Json.cJson (subscribing more srp) "srp" (-306) (textsSteps Json.cJson (-300)) =
      [count 1, count srp.length, .put (-300) srp] := by
    change textsSteps Json.cJson (-300) (.array [.string srp]) = _
    rw [textsSteps, listSteps, items_children]
    rfl
  have whole : requestSteps Json.cJson cpStrtovalU64 varF4 now (subscribing more srp) 3 =
      ([.put (-300) (rawInt 3)] ++ [.put (-300) (rawWord (cpStrtovalU64 [49]))] ++
        (count (List.replicate (more + 1) (Json.string [])).length ::
          (List.replicate (more + 1) (Json.string [])).flatMap (textSteps Json.cJson (-300))) ++
        [count 1, count srp.length]) ++ [.put (-300) srp] := by
    have head : headSteps Json.cJson (subscribing more srp) 4 (-301) (-302) (-300) = [.put (-300) (rawInt 3)] := rfl
    change headSteps Json.cJson (subscribing more srp) 4 (-301) (-302) (-300) ++ subscribeSteps _ _ _ = _
    rw [head, subscribeSteps, userid, circle, last]
    simp only [List.append_assoc, List.cons_append, List.nil_append]
  let front : Bytes := rawInt 3 ++ rawWord (cpStrtovalU64 [49]) ++
    (rawInt (Int32.ofNat (List.replicate (more + 1) (Json.string [])).length) ++ bytes)
  refine ⟨_, front ++ (rawInt (Int32.ofNat 1) ++ rawInt (Int32.ofNat srp.length)), whole, ?_, ?_⟩
  · rw [fields_append, fields_append, fields_append]
    simp only [count, fields, all, Option.map_some, Option.bind_some, List.append_nil]
    rfl
  · simp only [front, List.length_append, length_rawInt, length_rawWord, length]
    omega

def longText : Bytes := List.replicate 2147483536 120

/-- A text of 2^31 - 1 bytes whose last string is put beyond a buffer of 112 bytes. -/
theorem length_wraps :
    (subscribingText 21 longText).length < 2 ^ 31 ∧
      ReadFrom Json.cJson (subscribingText 21 longText) (subscribing 21 longText) ∧
      Textual Json.cJson (subscribing 21 longText) 3 ∧
      ¬ EncodesFaithfully Json.cJson (fun text => UInt64.ofNat (Decimal.number text)) (fun _ => some (subscribing 21 longText))
        (fun _ => 0) 0 (subscribingText 21 longText) 112 := by
  have long : longText.length = 2147483536 := List.length_replicate
  have small : (subscribingText 21 longText).length < 2 ^ 31 := by
    rw [length_subscribingText, long]
    decide
  have read := readFrom_subscribing 21 longText
  have textual := textual_subscribing 21 longText
  refine ⟨small, read, textual, ?_⟩
  have typed : intOf Json.cJson (subscribing 21 longText) "type" = some 3 := by decide +kernel
  intro faithful
  have encodable := encodable_of_textual small read textual
  have unwrapped := (encodesFaithfully_of_parsed (by decide) (by rfl) typed encodable).mp faithful
  obtain ⟨before, bytes, steps, all, length⟩ :=
    requestSteps_subscribing 21 longText (fun text => UInt64.ofNat (Decimal.number text)) (fun _ => 0) 0
  rw [steps] at unwrapped
  have ends := unwrapped.field_end all (by rw [length]; decide)
  rw [length, long] at ends
  omega

/-- A request whose only long array has three strings that are empty. -/
theorem subscribing_encodes :
    EncodesFaithfully Json.cJson (fun text => UInt64.ofNat (Decimal.number text)) (fun _ => some (subscribing 2 [120]))
        (fun _ => 0) 0 (subscribingText 2 [120]) 100 ↔
      NeverWraps Json.cJson (fun text => UInt64.ofNat (Decimal.number text)) (fun _ => some (subscribing 2 [120]))
        (fun _ => 0) 0 (subscribingText 2 [120]) 100 := by
  refine encodesFaithfully_iff (by decide) ?_ (fun json same => ?_) fun json type same typed => ?_
  · rw [length_subscribingText]
    decide
  · obtain rfl := Option.some.inj same
    exact readFrom_subscribing 2 [120]
  · obtain rfl := Option.some.inj same
    have three : intOf Json.cJson (subscribing 2 [120]) "type" = some 3 := by decide +kernel
    obtain rfl := Option.some.inj (three.symm.trans typed)
    exact textual_subscribing 2 [120]

end Subscribing

end ContentBased.FrameworkCenter
