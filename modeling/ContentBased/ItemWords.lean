import ContentBased.ItemMessages

namespace ContentBased.Jparse
open Trapping

section Words
variable {ν : Type} (cJson : CJson ν)

/-- Some of the two keys is missing from an element of the word array. -/
def Lacks (element : ν) : Prop :=
  cJson.getObjectItem element "word" = none ∨ cJson.getObjectItem element "count" = none

instance (element : ν) : Decidable (Lacks cJson element) := inferInstanceAs (Decidable (_ ∨ _))

/-- The pair that an element of the word array gives. -/
def itemWord (element : ν) : Option ItemWord := do
  let nodeOne ← cJson.getObjectItem element "word"
  let word ← cJson.valueString nodeOne
  let nodeTwo ← cJson.getObjectItem element "count"
  return ⟨word, cJson.valueInt nodeTwo⟩

/-- The fields of a message that are read as strings are strings. -/
structure WellTyped (json : ν) : Prop where
  text : ∀ key ∈ ["docid", "sourcename", "sourceid"], ∀ node, cJson.getObjectItem json key = some node →
    ∃ text, cJson.valueString node = some text
  texts : ∀ key ∈ ["category", "srp", "circle", "topsrp", "topcircle", "zone", "tag", "tagid"],
    ∀ node ∈ cJson.elements json key, ∃ text, cJson.valueString node = some text
  words : ∀ element ∈ cJson.elements json "word", ∀ node, cJson.getObjectItem element "word" = some node →
    ∃ text, cJson.valueString node = some text

/-- The fields before the words do not refuse the message: it has an id, and as many category ids as categories. -/
def Accepted (json : ν) : Prop :=
  cJson.getObjectItem json "docid" ≠ none ∧
    ∀ array, cJson.getObjectItem json "categoryid" = some array →
      cJson.getArraySize array = (cJson.elements json "category").length

/-- What the lookups before the words leave in `node` is null. -/
def NodeMissing (json : ν) : Prop :=
  cJson.getObjectItem json "doctype" = none ∧ cJson.elements json "category" = []

variable {cJson} {early : Int → Prop} {json : ν}

/-- The fields after the words do not touch them, and refuse a message with other codes. -/
theorem keeps_parseTail (cpStrtovalU64 : Bytes → UInt64) (typed : WellTyped cJson json) (words : List ItemWord) :
    Keeps (fun item => item.word = words) (parseTail cJson cpStrtovalU64 json)
      (fun code => code ∉ [0, -204, -205, -206]) := by
  have allowed : -208 ∉ [(0 : Int), -204, -205, -206] := by decide
  have array (key : String) (inside : key ∈ ["category", "srp", "circle", "topsrp", "topcircle", "zone", "tag", "tagid"])
      {node : ν} (member : node ∈ cJson.elements json key) := typed.texts key inside node member
  refine .bind (.arrayField fun i node member => .text (array "srp" (by decide) member) fun _ => .setItem ?_) ?_
  · exact fun _ start => start
  refine .bind (.sizedField allowed fun i node member => .setItem ?_) ?_
  · exact fun _ start => start
  refine .bind (.arrayField fun i node member => .text (array "circle" (by decide) member) fun _ => .setItem ?_) ?_
  · exact fun _ start => start
  refine .bind ?_ ?_
  · refine .bind .setNode ?_
    cases cJson.getObjectItem json "topflag" with
    | none => exact .setItem fun _ start => start
    | some node =>
      refine .bind (.setItem fun _ start => start) ?_
      split
      · refine .bind (.arrayField fun i node member => .text (array "topsrp" (by decide) member) fun _ => .setItem ?_)
          (.arrayField fun i node member => .text (array "topcircle" (by decide) member) fun _ => .setItem ?_)
        · exact fun _ start => start
        · exact fun _ start => start
      · exact .skip
  refine .bind (.arrayField fun i node member => .text (array "zone" (by decide) member) fun _ => .setItem ?_) ?_
  · exact fun _ start => start
  refine .bind (.optionalField (fun node found => ?_) fun _ _ start => start) ?_
  · obtain ⟨text, valid⟩ := typed.text "sourcename" (by decide) node found
    exact ⟨text, by rw [valueString, valid, deref]⟩
  refine .bind (.optionalField (fun node found => ?_) fun _ _ start => start) ?_
  · obtain ⟨text, valid⟩ := typed.text "sourceid" (by decide) node found
    exact ⟨cpStrtovalU64 text, by rw [valueString, valid, deref, pure_bind]⟩
  refine .bind (.arrayField fun i node member => .text (array "tag" (by decide) member) fun _ => .setItem ?_) ?_
  · exact fun _ start => start
  refine .bind (.sizedField allowed fun i node member => .text (array "tagid" (by decide) member) fun _ => .setItem ?_)
    (.sizedField allowed fun i node member => .setItem ?_)
  · exact fun _ start => start
  · exact fun _ start => start

/-- How `parse_item` goes on with the words: the fields before them are accepted, no word is there yet, and `node` is as
the last lookup left it. -/
structure AtWords (cJson : CJson ν) (json : ν) (state : Parsing ν) : Prop where
  accepted : Accepted cJson json
  noWord : state.item.word = []
  node : state.node = none ↔ NodeMissing cJson json

theorem safe_parseDocId (cpStrtovalU64 : Bytes → UInt64) (typed : WellTyped cJson json) :
    Safe (· = {}) (parseDocId cJson cpStrtovalU64 json)
      (fun _ state => cJson.getObjectItem json "docid" ≠ none ∧ state.item.category = [] ∧ state.item.word = [])
      (fun code => ¬ Accepted cJson json ∧ (code = -200 ∨ code = -202)) := by
  have looked : Safe (· = {}) (setNode (cJson.getObjectItem json "docid"))
      (fun _ (state : Parsing ν) => state.item.category = [] ∧ state.item.word = [])
      (fun code => ¬ Accepted cJson json ∧ (code = -200 ∨ code = -202)) := by
    refine Safe.setNode ?_
    rintro state rfl
    exact ⟨rfl, rfl⟩
  refine Safe.bind looked fun _ => ?_
  cases found : cJson.getObjectItem json "docid" with
  | none => exact Safe.throw ⟨fun accepted => accepted.1 found, .inl rfl⟩
  | some node =>
    exact Safe.text (typed.text "docid" (by decide) node found) fun _ => Safe.setItem fun state start =>
      ⟨Option.some_ne_none node, start⟩

/-- The loop over the categories counts them and leaves the last one in `node`. -/
theorem safe_categories (typed : WellTyped cJson json) :
    Safe (fun state => (cJson.getObjectItem json "docid" ≠ none ∧ state.item.category = [] ∧ state.item.word = []) ∧
        state.node = cJson.getObjectItem json "doctype")
      (arrayField cJson json "category" (-201) fun _ node => do
        let tagName ← valueString cJson node
        setItem fun item => { item with category := item.category ++ [{ tagName }] })
      (fun _ state => cJson.getObjectItem json "docid" ≠ none ∧
        state.item.category.length = (cJson.elements json "category").length ∧ state.item.word = [] ∧
        (state.node = none ↔ NodeMissing cJson json)) early := by
  unfold arrayField
  cases present : cJson.getObjectItem json "category" with
  | none =>
    have empty : cJson.elements json "category" = [] := by rw [CJson.elements, present]
    refine Safe.pure ?_
    rintro state ⟨⟨docid, noCategory, noWord⟩, node⟩
    refine ⟨docid, by rw [noCategory, empty, List.length_nil, List.length_nil], noWord, ?_⟩
    rw [node, NodeMissing, empty, and_iff_left rfl]
  | some array =>
    have listed : cJson.elements json "category" = cJson.items array := by rw [CJson.elements, present]
    let counted : Nat → Parsing ν → Prop := fun i state => cJson.getObjectItem json "docid" ≠ none ∧
      state.item.category.length = i ∧ state.item.word = [] ∧
        (state.node = none ↔ cJson.getObjectItem json "doctype" = none ∧ i = 0)
    have loop : Safe (counted 0) (forItems cJson array (-201) fun _ node => do
        let tagName ← valueString cJson node
        setItem fun item => { item with category := item.category ++ [{ tagName }] })
        (fun _ => counted (cJson.getArraySize array)) early := by
      refine Safe.forItems fun i node found => ?_
      have valid := typed.texts "category" (by decide) node (cJson.mem_elements present found)
      refine Safe.text valid fun _ => Safe.setItem ?_
      rintro state ⟨here, old, docid, count, noWord, -⟩
      refine ⟨docid, by rw [List.length_append, count, List.length_singleton], noWord, ?_⟩
      simp [here]
    refine loop.weaken ?_ ?_ fun _ allowed => allowed
    · rintro state ⟨⟨docid, noCategory, noWord⟩, node⟩
      exact ⟨docid, by rw [noCategory, List.length_nil], noWord, by rw [node, and_iff_left rfl]⟩
    · rintro _ state ⟨docid, count, noWord, node⟩
      refine ⟨docid, by rw [listed, cJson.length_items, count], noWord, ?_⟩
      rw [node, NodeMissing, listed, ← List.length_eq_zero_iff, cJson.length_items]

theorem safe_categoryIds :
    Safe (fun state => cJson.getObjectItem json "docid" ≠ none ∧
        state.item.category.length = (cJson.elements json "category").length ∧ state.item.word = [] ∧
        (state.node = none ↔ NodeMissing cJson json))
      (sizedField cJson json "categoryid" (fun item => item.category.length) (-202) (-203) fun i node =>
        setItem fun item => { item with
          category := item.category.modify i fun tag => { tag with tagId := cJson.valueInt node } })
      (fun _ => AtWords cJson json)
      (fun code => ¬ Accepted cJson json ∧ (code = -200 ∨ code = -202)) := by
  unfold sizedField
  cases present : cJson.getObjectItem json "categoryid" with
  | none =>
    refine Safe.pure ?_
    rintro state ⟨docid, -, noWord, node⟩
    exact ⟨⟨docid, fun array same => by cases present.symm.trans same⟩, noWord, node⟩
  | some array =>
    refine Safe.bind Safe.get fun state => ?_
    split
    · rename_i differs
      intro state' start
      obtain ⟨rfl, -, count, -, -⟩ := start
      exact ⟨fun accepted => differs ((accepted.2 array present).trans count.symm), .inr rfl⟩
    · rename_i same
      let counted : Nat → Parsing ν → Prop := fun _ state =>
        AtWords cJson json state ∧ state.item.category.length = cJson.getArraySize array
      have loop : Safe (counted 0) (forItems cJson array (-203) fun i node => setItem fun item => { item with
            category := item.category.modify i fun tag => { tag with tagId := cJson.valueInt node } })
          (fun _ => counted (cJson.getArraySize array))
          (fun code => ¬ Accepted cJson json ∧ (code = -200 ∨ code = -202)) := by
        refine Safe.forItems fun i node found => Safe.setItem ?_
        rintro state ⟨here, old, ⟨accepted, noWord, -⟩, count⟩
        refine ⟨⟨accepted, noWord, ?_⟩, by rw [List.length_modify, count]⟩
        -- the array has an item, and so the message has a category
        have positive := (cJson.isSome_getArrayItem array i).mp (by rw [found]; rfl)
        have many := accepted.2 array present
        have other : ¬ NodeMissing cJson json := by
          rintro ⟨-, empty⟩
          rw [empty, List.length_nil] at many
          omega
        simp [here, other]
      refine loop.weaken ?_ (fun _ _ finish => finish.1) fun _ allowed => allowed
      rintro state' ⟨rfl, docid, count, noWord, node⟩
      have sized := not_not.mp same
      refine ⟨⟨⟨docid, fun array' same' => ?_⟩, noWord, node⟩, sized.symm⟩
      obtain rfl := Option.some.inj (present.symm.trans same')
      exact sized.trans count

/-- The fields before the words accept the message or refuse it with their own codes. -/
theorem safe_parseHead (cpStrtovalU64 : Bytes → UInt64) (typed : WellTyped cJson json) (now : Int32) :
    Safe (· = {}) (parseHead cJson cpStrtovalU64 now json) (fun _ => AtWords cJson json)
      (fun code => ¬ Accepted cJson json ∧ (code = -200 ∨ code = -202)) := by
  let bare : Item → Prop := fun item =>
    cJson.getObjectItem json "docid" ≠ none ∧ item.category = [] ∧ item.word = []
  have reads {α : Type} (value : ν → α) {key : String} (node : ν) (_ : cJson.getObjectItem json key = some node) :
      ∃ result, (pure (value node) : Parser ν α) = pure result := ⟨value node, rfl⟩
  have doctype (set : Int32 → Item → Item) (same : ∀ item value, bare item → bare (set value item)) :
      Safe (fun state => bare state.item)
        (optionalField cJson json "doctype" set 0 fun node => return cJson.valueInt node)
        (fun _ state => bare state.item ∧ state.node = cJson.getObjectItem json "doctype")
        (fun code => ¬ Accepted cJson json ∧ (code = -200 ∨ code = -202)) :=
    Safe.optionalField (reads _) fun state value start => ⟨same state.item value start, rfl⟩
  refine Safe.bind (safe_parseDocId cpStrtovalU64 typed) fun _ => ?_
  refine Keeps.bindSafe bare (.optionalField (reads _) fun _ _ start => start) ?_
  refine Keeps.bindSafe bare (.setItem fun _ start => start) ?_
  refine Keeps.bindSafe bare (.optionalField (reads _) fun _ _ start => start) ?_
  refine Keeps.bindSafe bare (.optionalField (reads _) fun _ _ start => start) ?_
  refine Safe.bind (doctype _ fun _ _ start => start) fun _ => ?_
  refine Safe.bind (safe_categories typed) fun _ => ?_
  refine Safe.bind safe_categoryIds fun _ => Safe.setItem ?_
  rintro state ⟨accepted, noWord, node⟩
  refine ⟨accepted, ?_, node⟩
  show (if state.item.category.length = 0 then _ else state.item : Item).word = []
  split
  · exact noWord
  · exact noWord

theorem parseWords_eq (json : ν) :
    parseWords cJson json = (cJson.elements json "word").forM fun element => parseWord cJson (some element) := by
  unfold parseWords CJson.elements
  cases cJson.getObjectItem json "word" with
  | none => rfl
  | some array =>
    have numbers : forM ((List.range (cJson.getArraySize array)).map (cJson.getArrayItem array)) (parseWord cJson) =
        forM (List.range (cJson.getArraySize array)) fun i => parseWord cJson (cJson.getArrayItem array i) :=
      List.forM_map
    have nodes : forM ((cJson.items array).map some) (parseWord cJson) =
        forM (cJson.items array) fun element => parseWord cJson (some element) := List.forM_map
    rw [cJson.map_getArrayItem array] at numbers
    exact numbers.symm.trans nodes

theorem parseWord_of_word_missing {element : ν} (missing : cJson.getObjectItem element "word" = none)
    (state : Parsing ν) : parseWord cJson (some element) state = some (.error (-205), state) := by
  simp only [parseWord, missing]
  rfl

theorem parseWord_of_node_missing {element nodeOne : ν} (present : cJson.getObjectItem element "word" = some nodeOne)
    {state : Parsing ν} (node : state.node = none) :
    parseWord cJson (some element) state = some (.error (-206), state) := by
  simp only [parseWord, present]
  refine (bind_of_ok rfl).trans ?_
  rw [node]
  rfl

theorem parseWord_of_node {element nodeOne : ν} (present : cJson.getObjectItem element "word" = some nodeOne)
    {state : Parsing ν} (node : state.node ≠ none) {text : Bytes} (valid : cJson.valueString nodeOne = some text) :
    parseWord cJson (some element) state = match cJson.getObjectItem element "count" with
      | none => none
      | some nodeTwo => some (.ok (), { state with item := { state.item with
          word := state.item.word ++ [⟨text, cJson.valueInt nodeTwo⟩] } }) := by
  simp only [parseWord, present]
  refine (bind_of_ok rfl).trans ?_
  rw [if_neg (by simpa using node)]
  have read : valueString cJson nodeOne state = some (.ok text, state) := by rw [valueString, valid]; rfl
  refine (bind_of_ok read).trans ?_
  cases cJson.getObjectItem element "count" <;> rfl

/-- The loop over the elements of the word array. -/
def scanWords (cJson : CJson ν) (elements : List ν) : Parser ν Unit :=
  elements.forM fun element => parseWord cJson (some element)

theorem scanWords_cons (element : ν) (rest : List ν) :
    scanWords cJson (element :: rest) = parseWord cJson (some element) >>= fun _ => scanWords cJson rest := rfl

/-- While `node` is null, the first element ends the loop. -/
theorem scanWords_of_node_missing {elements : List ν} (nonempty : elements ≠ []) {state : Parsing ν}
    (node : state.node = none) :
    ∃ code ∈ [(-205 : Int), -206], scanWords cJson elements state = some (.error code, state) := by
  obtain ⟨element, rest, rfl⟩ := List.exists_cons_of_ne_nil nonempty
  cases present : cJson.getObjectItem element "word" with
  | none => exact ⟨-205, by decide, bind_of_error (parseWord_of_word_missing present state)⟩
  | some nodeOne => exact ⟨-206, by decide, bind_of_error (parseWord_of_node_missing present node)⟩

/-- One turn of the loop over an element that lacks no key adds its pair. -/
theorem parseWord_of_complete {element : ν} (complete : ¬ Lacks cJson element)
    (valid : ∀ node, cJson.getObjectItem element "word" = some node → ∃ text, cJson.valueString node = some text)
    {state : Parsing ν} (node : state.node ≠ none) :
    ∃ pair, itemWord cJson element = some pair ∧ parseWord cJson (some element) state =
      some (.ok (), { state with item := { state.item with word := state.item.word ++ [pair] } }) := by
  obtain ⟨word, count⟩ := not_or.mp complete
  obtain ⟨nodeOne, atWord⟩ := Option.ne_none_iff_exists'.mp word
  obtain ⟨nodeTwo, atCount⟩ := Option.ne_none_iff_exists'.mp count
  obtain ⟨text, read⟩ := valid nodeOne atWord
  refine ⟨⟨text, cJson.valueInt nodeTwo⟩, ?_, ?_⟩
  · simp [itemWord, atWord, read, atCount]
  · rw [parseWord_of_node atWord node read, atCount]

section Scan
variable {elements : List ν}
  (valid : ∀ element ∈ elements, ∀ node, cJson.getObjectItem element "word" = some node →
    ∃ text, cJson.valueString node = some text)
include valid

theorem scanWords_of_complete (complete : ∀ element ∈ elements, ¬ Lacks cJson element) {state : Parsing ν}
    (node : state.node ≠ none) :
    ∃ pairs, pairs.map some = elements.map (itemWord cJson) ∧ scanWords cJson elements state =
      some (.ok (), { state with item := { state.item with word := state.item.word ++ pairs } }) := by
  induction elements generalizing state with
  | nil => exact ⟨[], rfl, by rw [List.append_nil]; rfl⟩
  | cons element rest ih =>
    obtain ⟨pair, gives, run⟩ := parseWord_of_complete (complete element List.mem_cons_self)
      (valid element List.mem_cons_self) node
    have still : ({ state with item := { state.item with word := state.item.word ++ [pair] } } : Parsing ν).node ≠ none :=
      node
    obtain ⟨pairs, give, later⟩ := ih (fun element member => valid element (List.mem_cons_of_mem _ member))
      (fun element member => complete element (List.mem_cons_of_mem _ member)) still
    refine ⟨pair :: pairs, by rw [List.map_cons, List.map_cons, gives, give], ?_⟩
    rw [scanWords_cons, bind_of_ok run, later]
    simp only [List.append_assoc, List.singleton_append]

/-- The first element that lacks a key decides: the loop refuses it when that is `word`, and else reads through the
null pointer. -/
theorem scanWords_of_lacking {element : ν} (first : elements.find? (fun element => Lacks cJson element) = some element)
    {state : Parsing ν} (node : state.node ≠ none) :
    match cJson.getObjectItem element "word" with
    | none => ∃ state', scanWords cJson elements state = some (.error (-205), state')
    | some _ => scanWords cJson elements state = none := by
  induction elements generalizing state with
  | nil => cases first
  | cons head rest ih =>
    by_cases lacks : Lacks cJson head
    · rw [List.find?_cons_of_pos (by simpa using lacks)] at first
      obtain rfl := Option.some.inj first
      cases present : cJson.getObjectItem head "word" with
      | none => exact ⟨state, bind_of_error (parseWord_of_word_missing present state)⟩
      | some nodeOne =>
        have missing : cJson.getObjectItem head "count" = none :=
          lacks.resolve_left fun absent => by cases absent.symm.trans present
        obtain ⟨text, read⟩ := valid head List.mem_cons_self nodeOne present
        have traps := parseWord_of_node present node read
        rw [missing] at traps
        exact bind_of_trap traps
    · rw [List.find?_cons_of_neg (by simpa using lacks)] at first
      obtain ⟨pair, -, run⟩ := parseWord_of_complete lacks (valid head List.mem_cons_self) node
      rw [scanWords_cons, bind_of_ok run]
      exact ih (fun element member => valid element (List.mem_cons_of_mem _ member)) first node

end Scan

/-- What is asked of the words: the message is read without a trap; when the fields before them do not refuse it, it is
refused for its words exactly when an element lacks a key; and a message that is read has the pairs in order. -/
def WordsExact (cJson : CJson ν) (cpStrtovalU64 : Bytes → UInt64) (now : Int32) (json : ν) : Prop :=
  ∃ code item, parseItem cJson cpStrtovalU64 now json = some (code, item) ∧
    (Accepted cJson json →
      (code ∈ [(-204 : Int), -205, -206] ↔ ∃ element ∈ cJson.elements json "word", Lacks cJson element)) ∧
    (code = 0 → item.word.map some = (cJson.elements json "word").map (itemWord cJson))

/-- When the check of `node` in place of `node_two` does no harm: with `node` null, no element or one that lacks a key;
else, a first element that lacks a key lacks `word`. -/
structure WordsReadable (cJson : CJson ν) (json : ν) : Prop where
  missing : NodeMissing cJson json →
    cJson.elements json "word" = [] ∨ ∃ element ∈ cJson.elements json "word", Lacks cJson element
  present : ¬ NodeMissing cJson json → ∀ element,
    (cJson.elements json "word").find? (fun element => Lacks cJson element) = some element →
      cJson.getObjectItem element "word" = none

variable {cpStrtovalU64 : Bytes → UInt64}

theorem parseItem_of_error {now : Int32} {code : Int} {state : Parsing ν}
    (run : parseHead cJson cpStrtovalU64 now json {} = some (.error code, state)) :
    parseItem cJson cpStrtovalU64 now json = some (code, state.item) := by
  rw [parseItem, bind_of_error run]
  rfl

theorem parseItem_of_ok {now : Int32} {state : Parsing ν}
    (run : parseHead cJson cpStrtovalU64 now json {} = some (.ok (), state)) :
    parseItem cJson cpStrtovalU64 now json =
      ((scanWords cJson (cJson.elements json "word") >>= fun _ => parseTail cJson cpStrtovalU64 json) state).map fun
        | (.ok (), state) => (0, state.item)
        | (.error code, state) => (code, state.item) := by
  rw [parseItem, bind_of_ok run, parseWords_eq]
  rfl

/-- After words that are read, the message has them, whether it is read or refused. -/
theorem parseItem_of_words (typed : WellTyped cJson json) {now : Int32} {state state' : Parsing ν}
    (head : parseHead cJson cpStrtovalU64 now json {} = some (.ok (), state))
    (words : scanWords cJson (cJson.elements json "word") state = some (.ok (), state')) :
    ∃ code item, parseItem cJson cpStrtovalU64 now json = some (code, item) ∧ code ∉ [(-204 : Int), -205, -206] ∧
      (code = 0 → item.word = state'.item.word) := by
  have kept := keeps_parseTail cpStrtovalU64 typed state'.item.word state' rfl
  rw [parseItem_of_ok head, bind_of_ok words]
  rcases run : parseTail cJson cpStrtovalU64 json state' with _ | ⟨code | _, last⟩
  · rw [run] at kept
    exact kept.elim
  · rw [run] at kept
    exact ⟨code, last.item, rfl, fun refused => kept (List.mem_cons_of_mem _ refused),
      fun zero => absurd (zero ▸ List.mem_cons_self) kept⟩
  · rw [run] at kept
    exact ⟨0, last.item, rfl, by decide, fun _ => kept⟩

theorem parseItem_of_refused {now : Int32} {state state' : Parsing ν} {code : Int}
    (head : parseHead cJson cpStrtovalU64 now json {} = some (.ok (), state))
    (words : scanWords cJson (cJson.elements json "word") state = some (.error code, state')) :
    parseItem cJson cpStrtovalU64 now json = some (code, state'.item) := by
  rw [parseItem_of_ok head, bind_of_error words]
  rfl

theorem parseItem_of_trap {now : Int32} {state : Parsing ν}
    (head : parseHead cJson cpStrtovalU64 now json {} = some (.ok (), state))
    (words : scanWords cJson (cJson.elements json "word") state = none) :
    parseItem cJson cpStrtovalU64 now json = none := by
  rw [parseItem_of_ok head, bind_of_trap words]
  rfl

/-- With `node` null the words are read exactly when there is none or an element does lack a key. -/
theorem wordsExact_of_node_missing (typed : WellTyped cJson json) {now : Int32} {state : Parsing ν}
    (head : parseHead cJson cpStrtovalU64 now json {} = some (.ok (), state)) (accepted : Accepted cJson json)
    (noWord : state.item.word = []) (node : state.node = none) :
    WordsExact cJson cpStrtovalU64 now json ↔
      cJson.elements json "word" = [] ∨ ∃ element ∈ cJson.elements json "word", Lacks cJson element := by
  by_cases empty : cJson.elements json "word" = []
  · have words : scanWords cJson (cJson.elements json "word") state = some (.ok (), state) := by
      rw [empty]
      rfl
    obtain ⟨code, item, parsed, kept, success⟩ := parseItem_of_words typed head words
    refine iff_of_true ⟨code, item, parsed, fun _ => iff_of_false kept ?_, fun zero => ?_⟩ (.inl empty)
    · rintro ⟨element, member, -⟩
      rw [empty] at member
      cases member
    · rw [success zero, noWord, empty]
      rfl
  · obtain ⟨code, refused, words⟩ := scanWords_of_node_missing empty node
    have parsed := parseItem_of_refused head words
    have rejected : code ∈ [(-204 : Int), -205, -206] := List.mem_cons_of_mem _ refused
    have nonzero : code ≠ 0 := by
      rintro rfl
      revert refused
      decide
    constructor
    · rintro ⟨code', item, parsed', exact_, -⟩
      obtain ⟨rfl, rfl⟩ := Prod.mk.inj (Option.some.inj (parsed.symm.trans parsed'))
      exact .inr ((exact_ accepted).mp rejected)
    · rintro (none_ | lacking)
      · exact absurd none_ empty
      · exact ⟨code, state.item, parsed, fun _ => iff_of_true rejected lacking, fun zero => absurd zero nonzero⟩

/-- With a `node` the words are read exactly when the first element that lacks a key lacks `word`. -/
theorem wordsExact_of_node (typed : WellTyped cJson json) {now : Int32} {state : Parsing ν}
    (head : parseHead cJson cpStrtovalU64 now json {} = some (.ok (), state)) (noWord : state.item.word = [])
    (node : state.node ≠ none) :
    WordsExact cJson cpStrtovalU64 now json ↔ ∀ element,
      (cJson.elements json "word").find? (fun element => Lacks cJson element) = some element →
        cJson.getObjectItem element "word" = none := by
  cases first : (cJson.elements json "word").find? fun element => Lacks cJson element with
  | none =>
    have complete : ∀ element ∈ cJson.elements json "word", ¬ Lacks cJson element := by
      simpa using first
    obtain ⟨pairs, give, words⟩ := scanWords_of_complete typed.words complete node
    obtain ⟨code, item, parsed, kept, success⟩ := parseItem_of_words typed head words
    refine iff_of_true ⟨code, item, parsed, fun _ => iff_of_false kept ?_, fun zero => ?_⟩ fun _ found => by cases found
    · rintro ⟨element, member, lacks⟩
      exact complete element member lacks
    · rw [success zero, noWord, List.nil_append, give]
  | some element =>
    have lacks : Lacks cJson element := by simpa using List.find?_some first
    have scanned := scanWords_of_lacking typed.words first node
    cases word : cJson.getObjectItem element "word" with
    | none =>
      rw [word] at scanned
      obtain ⟨state', words⟩ := scanned
      refine iff_of_true ⟨-205, state'.item, parseItem_of_refused head words, fun _ => iff_of_true (by decide) ?_,
        fun zero => absurd zero (by decide)⟩ fun other found => by rw [← Option.some.inj found, word]
      exact ⟨element, List.mem_of_find?_eq_some first, lacks⟩
    | some nodeOne =>
      rw [word] at scanned
      have traps := parseItem_of_trap head scanned
      refine iff_of_false ?_ fun fine => ?_
      · rintro ⟨code, item, parsed, -⟩
        cases traps.symm.trans parsed
      · cases word.symm.trans (fine element rfl)

/-- The words of a message are read exactly unless the fields before them accept it and the check of the wrong variable
does harm. -/
theorem parseItem_words_iff (cJson : CJson ν) (cpStrtovalU64 : Bytes → UInt64) (now : Int32) {json : ν}
    (typed : WellTyped cJson json) :
    WordsExact cJson cpStrtovalU64 now json ↔ (Accepted cJson json → WordsReadable cJson json) := by
  have head := safe_parseHead cpStrtovalU64 typed now {} rfl
  rcases run : parseHead cJson cpStrtovalU64 now json {} with _ | ⟨code | _, state⟩
  · rw [run] at head
    exact head.elim
  · rw [run] at head
    obtain ⟨refused, codes⟩ := head
    refine iff_of_true ⟨code, state.item, parseItem_of_error run, fun accepted => absurd accepted refused, ?_⟩
      fun accepted => absurd accepted refused
    rintro rfl
    rcases codes with zero | zero <;> cases zero
  · rw [run] at head
    obtain ⟨accepted, noWord, node⟩ := head
    by_cases missing : state.node = none
    · refine (wordsExact_of_node_missing typed run accepted noWord missing).trans ?_
      have there := node.mp missing
      exact ⟨fun fine _ => ⟨fun _ => fine, fun other => absurd there other⟩, fun readable => (readable accepted).missing there⟩
    · refine (wordsExact_of_node typed run noWord missing).trans ?_
      have other : ¬ NodeMissing cJson json := fun there => missing (node.mpr there)
      exact ⟨fun fine _ => ⟨fun there => absurd there other, fun _ => fine⟩,
        fun readable => (readable accepted).present other⟩

end Words

/-- An item with the id 1 and one element in its word array. -/
def wordMessage (fields element : List (String × Json)) : Json :=
  .object (("docid", .string [49]) :: ("word", .array [.object element]) :: fields)

theorem wellTyped_wordMessage {fields element : List (String × Json)}
    (fields_ : fields = [] ∨ fields = [("doctype", .number 0)])
    (element_ : element = [("word", .string [97]), ("count", .number 1)] ∨ element = [("word", .string [97])]) :
    WellTyped Json.cJson (wordMessage fields element) := by
  rcases fields_ with rfl | rfl <;> rcases element_ with rfl | rfl <;>
    exact ⟨by simp [wordMessage, Json.cJson], by simp [wordMessage, Json.cJson, CJson.elements],
      by simp [wordMessage, Json.cJson, CJson.elements, CJson.items, Json.children]⟩

theorem parseItem_words_one :
    WordsExact Json.cJson (fun text => UInt64.ofNat (Decimal.number text)) 0
      (wordMessage [("doctype", .number 0)] [("word", .string [97]), ("count", .number 1)]) := by
  refine (parseItem_words_iff Json.cJson _ 0 (wellTyped_wordMessage (.inr rfl) (.inl rfl))).mpr fun _ => ⟨?_, ?_⟩
  · simp [NodeMissing, wordMessage, Json.cJson]
  · simp [wordMessage, Json.cJson, CJson.elements, CJson.items, Json.children, Lacks]

/-- A complete element is refused when no lookup before it found anything, and one without a count is read through a
null pointer when one did. -/
theorem wrong_node_is_checked :
    WellTyped Json.cJson (wordMessage [] [("word", .string [97]), ("count", .number 1)]) ∧
    (parseItem Json.cJson (fun text => UInt64.ofNat (Decimal.number text)) 0
      (wordMessage [] [("word", .string [97]), ("count", .number 1)])).map Prod.fst = some (-206) ∧
    (∀ element ∈ Json.cJson.elements (wordMessage [] [("word", .string [97]), ("count", .number 1)]) "word",
      ¬ Lacks Json.cJson element) ∧
    WellTyped Json.cJson (wordMessage [("doctype", .number 0)] [("word", .string [97])]) ∧
    parseItem Json.cJson (fun text => UInt64.ofNat (Decimal.number text)) 0
      (wordMessage [("doctype", .number 0)] [("word", .string [97])]) = none := by
  refine ⟨wellTyped_wordMessage (.inl rfl) (.inl rfl), ?_, ?_, wellTyped_wordMessage (.inr rfl) (.inr rfl), ?_⟩
  · decide +kernel
  · simp [wordMessage, Json.cJson, CJson.elements, CJson.items, Json.children, Lacks]
  · decide +kernel

end ContentBased.Jparse
