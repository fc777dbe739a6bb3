import ContentBased.MessageSafety

namespace ContentBased.Jparse
open Trapping Demand

section Rules
variable {ν α : Type} {cJson : CJson ν} {json : ν} {key names : String} {before after : Parsing ν → Prop}

theorem asks_valueString (node : ν) :
    Asks before (valueString cJson node) [isText cJson node] (fun _ => before) := Asks.deref fun _ _ _ start => start

/-- Reads a string and changes the message by it. -/
theorem asks_text {node : ν} {change : Bytes → Item → Item}
    (holds : ∀ state text, before state → after { state with item := change text state.item }) :
    Asks before (valueString cJson node >>= fun text => setItem (change text)) [isText cJson node] (fun _ => after) :=
  Asks.bind (asks_valueString node) fun text => Asks.modify fun state start => holds state text start

theorem asks_optionalField {set : α → Item → Item} {absent : α} {read : ν → Parser ν α} {demands : List Demand}
    (none_ : cJson.getObjectItem json key = none → demands = [])
    (reads : ∀ node, cJson.getObjectItem json key = some node → ∀ invariant : Parsing ν → Prop,
      Asks invariant (read node) demands (fun _ => invariant))
    (holds : ∀ state value, before state → after ⟨cJson.getObjectItem json key, set value state.item⟩) :
    Asks before (optionalField cJson json key set absent read) demands (fun _ => after) := by
  let looked : Parsing ν → Prop := fun state =>
    (∃ old, before ⟨old, state.item⟩) ∧ state.node = cJson.getObjectItem json key
  have looks : Asks before (setNode (cJson.getObjectItem json key)) [] (fun _ => looked) :=
    Asks.modify fun state start => ⟨⟨state.node, start⟩, rfl⟩
  have sets (value : α) : Asks looked (setItem (set value)) [] (fun _ => after) := by
    refine Asks.modify ?_
    rintro ⟨node, item⟩ ⟨⟨old, start⟩, rfl⟩
    exact holds ⟨old, item⟩ value start
  refine Asks.bind_nil looks fun _ => ?_
  cases found : cJson.getObjectItem json key with
  | none =>
    rw [none_ found]
    exact sets absent
  | some node =>
    have whole := Asks.bind (reads node found looked) fun value => sets value
    rwa [List.append_nil] at whole

theorem asks_optionalValue {set : α → Item → Item} {absent : α} {value : ν → α}
    (holds : ∀ state value, before state → after ⟨cJson.getObjectItem json key, set value state.item⟩) :
    Asks before (optionalField cJson json key set absent fun node => return value node) [] (fun _ => after) :=
  asks_optionalField (fun _ => rfl) (fun _ _ _ => Asks.pure fun _ start => start) holds

theorem asks_optionalText {set : α → Item → Item} {absent : α} {read : ν → Parser ν α}
    (reads : ∀ node, ∀ invariant : Parsing ν → Prop, Asks invariant (read node) [isText cJson node] (fun _ => invariant))
    (holds : ∀ state value, before state → after ⟨cJson.getObjectItem json key, set value state.item⟩) :
    Asks before (optionalField cJson json key set absent read) (fieldText cJson json key) (fun _ => after) := by
  refine asks_optionalField (fun missing => ?_) (fun node found invariant => ?_) holds
  · rw [fieldText, missing]
    rfl
  · rw [fieldText, found]
    exact reads node invariant

/-- An array of strings, where the invariant may speak of how many have been read. -/
theorem asks_texts {missing : Int} {change : Bytes → Item → Item} (invariant : Nat → Parsing ν → Prop)
    (start : ∀ state, before state → invariant 0 state)
    (each : ∀ i node old item text, invariant i ⟨old, item⟩ → invariant (i + 1) ⟨some node, change text item⟩)
    (finish : ∀ state, invariant (cJson.elements json key).length state → after state) :
    Asks before (arrayField cJson json key missing fun _ node => do
        let text ← valueString cJson node
        setItem (change text))
      (itemTexts cJson json key) (fun _ => after) := by
  unfold arrayField itemTexts
  unfold CJson.elements at finish ⊢
  cases present : cJson.getObjectItem json key with
  | none =>
    rw [present] at finish
    exact Asks.pure fun state held => finish state (start state held)
  | some array =>
    rw [present] at finish
    have loop : Asks (invariant 0) (forItems cJson array missing fun _ node => do
          let text ← valueString cJson node
          setItem (change text))
        ((cJson.items array).map (isText cJson)) (fun _ => invariant (cJson.getArraySize array)) := by
      refine asks_textItems fun i node found => ?_
      rw [found]
      let looked : Parsing ν → Prop := fun state => state.node = some node ∧ ∃ old, invariant i ⟨old, state.item⟩
      have looks : Asks (invariant i) (setNode (some node)) [] (fun _ => looked) :=
        Asks.modify fun state held => ⟨rfl, state.node, held⟩
      refine Asks.bind_nil looks fun _ => asks_text ?_
      rintro ⟨here, item⟩ text ⟨rfl, old, held⟩
      exact each i node old item text held
    refine loop.weaken start fun _ state held => finish state ?_
    show invariant (cJson.items array).length state
    rwa [cJson.length_items]

/-- An array that must be as long as one that was read before. -/
theorem asks_sizedField {size : Item → Nat} {mismatch missing : Int} {body : Nat → ν → Parser ν Unit}
    {asked : ν → List Demand} (counted : ∀ state, before state → size state.item = (cJson.elements json names).length)
    (each : ∀ i node, i < (cJson.elements json names).length →
      Asks (fun state => state.node = some node ∧ ∃ old, before ⟨old, state.item⟩) (body i node) (asked node)
        (fun _ => before)) :
    Asks before (sizedField cJson json key size mismatch missing body)
      (sameSize cJson json key names :: (cJson.elements json key).flatMap asked) (fun _ => before) := by
  unfold sizedField sameSize
  cases present : cJson.getObjectItem json key with
  | none =>
    have empty : cJson.elements json key = [] := by rw [CJson.elements, present]
    rw [empty]
    exact Asks.met (Asks.pure fun _ start => start)
  | some array =>
    have listed : cJson.elements json key = cJson.items array := by rw [CJson.elements, present]
    rw [listed, Option.all_some]
    refine Asks.bind_nil Asks.get fun state => ?_
    by_cases same : cJson.getArraySize array = (cJson.elements json names).length
    · rw [decide_eq_true same]
      refine Asks.met ?_
      split
      · rename_i differs
        refine Asks.of_false ?_
        rintro state' ⟨rfl, start⟩
        exact differs (same.trans (counted state start).symm)
      · let held : Nat → Parsing ν → Prop := fun _ => before
        have loop : Asks (held 0) (forItems cJson array missing body) ((cJson.items array).flatMap asked)
            (fun _ => held (cJson.getArraySize array)) := by
          refine asks_items fun i node found => ?_
          rw [found]
          have small := (cJson.isSome_getArrayItem array i).mp (by rw [found]; rfl)
          have looks : Asks before (setNode (some node)) []
              (fun _ state => state.node = some node ∧ ∃ old, before ⟨old, state.item⟩) :=
            Asks.modify fun state start => ⟨rfl, state.node, start⟩
          exact Asks.bind_nil looks fun _ => each i node (by omega)
        exact loop.weaken (fun _ start => start.2) fun _ _ finish => finish
    · rw [decide_eq_false same]
      split
      · exact Asks.throw
      · rename_i agrees
        refine Asks.of_false ?_
        rintro state' ⟨rfl, start⟩
        exact agrees fun sized => same (sized.trans (counted state start))

theorem asks_sizedValues {size : Item → Nat} {mismatch missing : Int} {change : Nat → ν → Item → Item}
    (counted : ∀ state, before state → size state.item = (cJson.elements json names).length)
    (each : ∀ i node old item, i < (cJson.elements json names).length → before ⟨old, item⟩ →
      before ⟨some node, change i node item⟩) :
    Asks before (sizedField cJson json key size mismatch missing fun i node => setItem (change i node))
      [sameSize cJson json key names] (fun _ => before) := by
  have sets (i : Nat) (node : ν) (small : i < (cJson.elements json names).length) :
      Asks (fun state => state.node = some node ∧ ∃ old, before ⟨old, state.item⟩) (setItem (change i node)) []
        (fun _ => before) := by
    refine Asks.modify ?_
    rintro ⟨here, item⟩ ⟨rfl, old, start⟩
    exact each i node old item small start
  have whole : Asks before (sizedField cJson json key size mismatch missing fun i node => setItem (change i node))
      (sameSize cJson json key names :: (cJson.elements json key).flatMap fun _ => []) (fun _ => before) :=
    asks_sizedField counted sets
  rwa [List.flatMap_eq_nil_iff.mpr fun _ _ => rfl] at whole

theorem asks_sizedTexts {size : Item → Nat} {mismatch missing : Int} {change : Nat → Bytes → Item → Item}
    (counted : ∀ state, before state → size state.item = (cJson.elements json names).length)
    (each : ∀ i node old item text, before ⟨old, item⟩ → before ⟨some node, change i text item⟩) :
    Asks before (sizedField cJson json key size mismatch missing fun i node => do
        let text ← valueString cJson node
        setItem (change i text))
      (sameSize cJson json key names :: itemTexts cJson json key) (fun _ => before) := by
  rw [itemTexts, List.map_eq_flatMap]
  refine asks_sizedField counted fun i node _ => asks_text ?_
  rintro ⟨here, item⟩ text ⟨rfl, old, start⟩
  exact each i node old item text start

end Rules

section Item
variable {ν : Type} {cJson : CJson ν} (cpStrtovalU64 : Bytes → UInt64) (json : ν)

/-- The lists of the message that its later fields are compared with are empty. -/
structure Bare (item : Item) : Prop where
  srp : item.srp = []
  tag : item.tag = []

/-- What the words find: the lists are empty, and `node` is as the lookups before left it. -/
structure BeforeWords (cJson : CJson ν) (json : ν) (state : Parsing ν) : Prop where
  bare : Bare state.item
  node : state.node = none ↔ NodeMissing cJson json

theorem asks_parseDocId :
    Asks (· = {}) (parseDocId cJson cpStrtovalU64 json) (thereText cJson json "docid")
      (fun _ state => state.item.category = [] ∧ Bare state.item) := by
  unfold parseDocId thereText there fieldText
  have looks : Asks (· = {}) (setNode (cJson.getObjectItem json "docid")) []
      (fun _ (state : Parsing ν) => state.item.category = [] ∧ Bare state.item) := by
    refine Asks.modify ?_
    rintro state rfl
    exact ⟨rfl, rfl, rfl⟩
  refine Asks.bind_nil looks fun _ => ?_
  cases cJson.getObjectItem json "docid" with
  | none => exact Asks.throw
  | some node => exact Asks.met (asks_text fun state text start => ⟨start.1, start.2.srp, start.2.tag⟩)

/-- The loop over the categories counts them and leaves the last one in `node`. -/
theorem asks_categories :
    Asks (fun state => (state.item.category = [] ∧ Bare state.item) ∧ state.node = cJson.getObjectItem json "doctype")
      (arrayField cJson json "category" (-201) fun _ node => do
        let tagName ← valueString cJson node
        setItem fun item => { item with category := item.category ++ [{ tagName }] })
      (itemTexts cJson json "category")
      (fun _ state => state.item.category.length = (cJson.elements json "category").length ∧
        BeforeWords cJson json state) := by
  let counted : Nat → Parsing ν → Prop := fun i state => state.item.category.length = i ∧ Bare state.item ∧
    (state.node = none ↔ cJson.getObjectItem json "doctype" = none ∧ i = 0)
  refine asks_texts counted ?_ ?_ ?_
  · rintro state ⟨⟨empty, bare⟩, node⟩
    exact ⟨by rw [empty, List.length_nil], bare, by rw [node, and_iff_left rfl]⟩
  · rintro i node old item text ⟨count, bare, -⟩
    exact ⟨by rw [List.length_append, count, List.length_singleton], ⟨bare.srp, bare.tag⟩, by simp⟩
  · rintro state ⟨count, bare, node⟩
    refine ⟨count, bare, ?_⟩
    rw [node, NodeMissing, List.length_eq_zero_iff]

theorem asks_categoryIds :
    Asks (fun state => state.item.category.length = (cJson.elements json "category").length ∧
        BeforeWords cJson json state)
      (sizedField cJson json "categoryid" (fun item => item.category.length) (-202) (-203) fun i node =>
        setItem fun item => { item with
          category := item.category.modify i fun tag => { tag with tagId := cJson.valueInt node } })
      [sameSize cJson json "categoryid" "category"]
      (fun _ state => state.item.category.length = (cJson.elements json "category").length ∧
        BeforeWords cJson json state) := by
  refine asks_sizedValues (fun state start => start.1) ?_
  rintro i node old item small ⟨count, bare, -⟩
  refine ⟨by rw [List.length_modify, count], ⟨bare.srp, bare.tag⟩, iff_of_false (Option.some_ne_none node) ?_⟩
  -- the array has an item, and so the message has a category
  rintro ⟨-, empty⟩
  rw [empty] at small
  exact absurd small (Nat.not_lt_zero i)

theorem asks_parseHead (now : Int32) :
    Asks (· = {}) (parseHead cJson cpStrtovalU64 now json)
      (List.flatten [thereText cJson json "docid", itemTexts cJson json "category",
        [sameSize cJson json "categoryid" "category"]])
      (fun _ => BeforeWords cJson json) := by
  let empty : Parsing ν → Prop := fun state => state.item.category = [] ∧ Bare state.item
  have pushTime : Asks empty (setItem fun item => { item with pushTime := now }) [] (fun _ => empty) :=
    Asks.modify fun _ start => ⟨start.1, start.2.srp, start.2.tag⟩
  refine .next (asks_parseDocId cpStrtovalU64 json) fun _ => ?_
  refine .bind_nil (asks_optionalValue fun _ _ start => (?_ : empty _)) fun _ => ?_
  · exact ⟨start.1, start.2.srp, start.2.tag⟩
  refine .bind_nil pushTime fun _ => ?_
  refine .bind_nil (asks_optionalValue fun _ _ start => (?_ : empty _)) fun _ => ?_
  · exact ⟨start.1, start.2.srp, start.2.tag⟩
  refine .bind_nil (asks_optionalValue fun _ _ start => (?_ : empty _)) fun _ => ?_
  · exact ⟨start.1, start.2.srp, start.2.tag⟩
  have doctype : Asks empty (optionalField cJson json "doctype" (fun itemType item => { item with itemType }) 0
      fun node => return cJson.valueInt node) []
      (fun _ state => empty state ∧ state.node = cJson.getObjectItem json "doctype") :=
    asks_optionalValue fun _ _ start => ⟨⟨start.1, start.2.srp, start.2.tag⟩, rfl⟩
  refine .bind_nil doctype fun _ => ?_
  refine .next (asks_categories json) fun _ => ?_
  refine .next (asks_categoryIds json) fun _ => ?_
  refine Asks.modify fun state start => ⟨?_, start.2.node⟩
  show Bare (if state.item.category.length = 0 then _ else state.item)
  split
  · exact ⟨start.2.bare.srp, start.2.bare.tag⟩
  · exact start.2.bare

theorem asks_parseWord (element : ν) :
    Asks (fun state => Bare state.item ∧ state.node ≠ none) (parseWord cJson (some element))
      (List.flatten [thereText cJson element "word", [⟨(cJson.getObjectItem element "count").isSome, false⟩]])
      (fun _ state => Bare state.item ∧ state.node ≠ none) := by
  unfold parseWord thereText there fieldText
  dsimp only
  cases cJson.getObjectItem element "word" with
  | none => exact Asks.throw
  | some nodeOne =>
    refine Asks.met (Asks.bind_nil Asks.get fun state => ?_)
    split
    · rename_i missing
      refine Asks.of_false ?_
      rintro state' ⟨rfl, -, node⟩
      exact node (by simpa using missing)
    · refine .next (asks_valueString nodeOne) fun word => ?_
      have count : Asks (fun state' => state = state' ∧ Bare state'.item ∧ state'.node ≠ none)
          (deref (cJson.getObjectItem element "count") : Parser ν ν) [⟨(cJson.getObjectItem element "count").isSome, false⟩]
          (fun _ state => Bare state.item ∧ state.node ≠ none) := Asks.deref fun _ _ _ start => start.2
      refine .next count fun nodeTwo => ?_
      exact Asks.modify fun state start => ⟨⟨start.1.srp, start.1.tag⟩, start.2⟩

/-- With `node` null the first element is refused, whatever it is. -/
theorem asks_words_of_node_missing {elements : List ν} (some_ : elements ≠ []) :
    Asks (fun state => state.node = none) (scanWords cJson elements) [⟨false, true⟩] (fun _ state => Bare state.item) := by
  intro state node
  obtain ⟨code, -, run⟩ := scanWords_of_node_missing some_ node
  rw [run]
  exact ⟨⟨false, true⟩, rfl, rfl⟩

theorem asks_parseWords :
    Asks (BeforeWords cJson json) (parseWords cJson json) (wordDemands cJson json) (fun _ state => Bare state.item) := by
  rw [parseWords_eq, wordDemands]
  split
  · rename_i missing
    split
    · rename_i empty
      rw [empty]
      exact Asks.pure fun state start => start.bare
    · rename_i some_
      exact (asks_words_of_node_missing some_).weaken (fun state start => start.node.mpr missing) fun _ _ finish => finish
  · rename_i found
    have loop := Asks.forM fun element (_ : element ∈ cJson.elements json "word") =>
      @asks_parseWord ν cJson element
    exact loop.weaken (fun state start => ⟨start.bare, fun node => found (start.node.mp node)⟩) fun _ _ finish => finish.1

/-- An array of strings that changes no list that a later field is compared with. -/
theorem asks_otherTexts {key : String} {missing : Int} {change : Bytes → Item → Item} (invariant : Item → Prop)
    (keeps : ∀ item text, invariant item → invariant (change text item)) :
    Asks (fun state => invariant state.item) (arrayField cJson json key missing fun _ node => do
        let text ← valueString cJson node
        setItem (change text))
      (itemTexts cJson json key) (fun _ state => invariant state.item) :=
  asks_texts (fun _ state => invariant state.item) (fun _ start => start)
    (fun _ _ _ item text holds => keeps item text holds) fun _ finish => finish

/-- An array of strings that are counted in a list. -/
theorem asks_countedTexts {key : String} {missing : Int} {change : Bytes → Item → Item} (size : Item → Nat)
    (invariant : Item → Prop) (counts : ∀ item text, size (change text item) = size item + 1)
    (keeps : ∀ item text, invariant item → invariant (change text item)) :
    Asks (fun state => size state.item = 0 ∧ invariant state.item) (arrayField cJson json key missing fun _ node => do
        let text ← valueString cJson node
        setItem (change text))
      (itemTexts cJson json key)
      (fun _ state => size state.item = (cJson.elements json key).length ∧ invariant state.item) :=
  asks_texts (fun i state => size state.item = i ∧ invariant state.item) (fun _ start => start)
    (fun _ _ _ item text holds => ⟨by rw [counts, holds.1], keeps item text holds.2⟩) fun _ finish => finish

theorem asks_parseTop :
    Asks (fun state => state.item.tag = []) (parseTop cJson json) (topDemands cJson json)
      (fun _ state => state.item.tag = []) := by
  unfold parseTop topDemands
  have looks : Asks (fun state => state.item.tag = []) (setNode (cJson.getObjectItem json "topflag")) []
      (fun _ (state : Parsing ν) => state.item.tag = []) := Asks.modify fun _ start => start
  refine Asks.bind_nil looks fun _ => ?_
  cases cJson.getObjectItem json "topflag" with
  | none => exact Asks.modify fun _ start => start
  | some node =>
    have sets : Asks (fun state => state.item.tag = [])
        (setItem fun item => { item with topInfo := { item.topInfo with topType := cJson.valueInt node } }) []
        (fun _ (state : Parsing ν) => state.item.tag = []) := Asks.modify fun _ start => start
    refine Asks.bind_nil sets fun _ => ?_
    dsimp only
    split
    · exact Asks.bind (asks_otherTexts json (fun item => item.tag = []) fun _ _ start => start) fun _ =>
        asks_otherTexts json (fun item => item.tag = []) fun _ _ start => start
    · exact Asks.pure fun _ start => start

theorem asks_parseTail :
    Asks (fun state => Bare state.item) (parseTail cJson cpStrtovalU64 json)
      (List.flatten [itemTexts cJson json "srp", [sameSize cJson json "srppower" "srp"],
        itemTexts cJson json "circle", topDemands cJson json, itemTexts cJson json "zone",
        fieldText cJson json "sourcename", fieldText cJson json "sourceid", itemTexts cJson json "tag",
        sameSize cJson json "tagid" "tag" :: itemTexts cJson json "tagid", [sameSize cJson json "tagpower" "tag"]])
      (fun _ state => state.item.tag.length = (cJson.elements json "tag").length ∧ True) := by
  unfold parseTail
  let noTag : Item → Prop := fun item => item.tag = []
  have sourceId (node : ν) (invariant : Parsing ν → Prop) :
      Asks invariant (do return cpStrtovalU64 (← valueString cJson node)) [isText cJson node] (fun _ => invariant) :=
    Asks.bind (asks_valueString node) fun _ => Asks.pure fun _ start => start
  have srp : Asks (fun state => state.item.srp.length = 0 ∧ noTag state.item)
      (arrayField cJson json "srp" (-207) fun _ node => do
        let tagName ← valueString cJson node
        setItem fun item => { item with srp := item.srp ++ [{ tagName }] })
      (itemTexts cJson json "srp")
      (fun _ state => state.item.srp.length = (cJson.elements json "srp").length ∧ noTag state.item) :=
    asks_countedTexts json (fun item => item.srp.length) noTag (fun item text => List.length_append) fun _ _ start =>
      start
  refine .next (srp.weaken (fun state start => ⟨by rw [start.srp, List.length_nil], start.tag⟩) fun _ _ finish => finish)
    fun _ => ?_
  refine .next (asks_sizedValues (fun state start => start.1) fun i node old item _ start => ?_) fun _ => ?_
  · exact ⟨by rw [List.length_modify, start.1], start.2⟩
  refine Asks.weaken (?_ : Asks (fun state => noTag state.item) _ _ _) (fun _ start => start.2) fun _ _ finish => finish
  refine .next (asks_otherTexts json noTag fun _ _ start => start) fun _ => ?_
  refine .next (asks_parseTop json) fun _ => ?_
  refine .next (asks_otherTexts json noTag fun _ _ start => start) fun _ => ?_
  have sourceName : Asks (fun state => noTag state.item)
      (optionalField cJson json "sourcename"
        (fun sourceName item => { item with dataSource := { item.dataSource with sourceName } }) [] (valueString cJson))
      (fieldText cJson json "sourcename") (fun _ state => noTag state.item) :=
    asks_optionalText (fun node _ => asks_valueString node) fun _ _ start => start
  have source : Asks (fun state => noTag state.item)
      (optionalField cJson json "sourceid"
        (fun sourceId item => { item with dataSource := { item.dataSource with sourceId } }) 0
        fun node => return cpStrtovalU64 (← valueString cJson node))
      (fieldText cJson json "sourceid") (fun _ state => state.item.tag.length = 0 ∧ True) :=
    asks_optionalText sourceId fun _ _ start => ⟨List.length_eq_zero_iff.mpr start, trivial⟩
  refine .next sourceName fun _ => .next source fun _ => ?_
  refine .next (asks_countedTexts json (fun item => item.tag.length) (fun _ => True) (fun item text => ?_)
    fun _ _ _ => trivial) fun _ => ?_
  · rw [List.length_append, List.length_singleton]
  refine .next (asks_sizedTexts (fun state start => start.1) fun i node old item text start => ?_) fun _ => ?_
  · exact ⟨by rw [List.length_modify, start.1], trivial⟩
  refine .last (asks_sizedValues (fun state start => start.1) fun i node old item _ start => ?_)
  exact ⟨by rw [List.length_modify, start.1], trivial⟩

theorem isSome_parseItem (now : Int32) :
    (parseItem cJson cpStrtovalU64 now json).isSome = true ↔ Guarded (itemDemands cJson json) := by
  have whole := Asks.bind (@asks_parseHead ν cJson cpStrtovalU64 json now) fun _ =>
    Asks.bind (asks_parseWords json) fun _ => @asks_parseTail ν cJson cpStrtovalU64 json
  have same : List.flatten [thereText cJson json "docid", itemTexts cJson json "category",
      [sameSize cJson json "categoryid" "category"]] ++ (wordDemands cJson json ++
      List.flatten [itemTexts cJson json "srp", [sameSize cJson json "srppower" "srp"],
        itemTexts cJson json "circle", topDemands cJson json, itemTexts cJson json "zone",
        fieldText cJson json "sourcename", fieldText cJson json "sourceid", itemTexts cJson json "tag",
        sameSize cJson json "tagid" "tag" :: itemTexts cJson json "tagid", [sameSize cJson json "tagpower" "tag"]]) =
      itemDemands cJson json := by
    simp [itemDemands]
  rw [same] at whole
  rw [← whole.isSome_iff rfl, parseItem, Option.isSome_map]

end Item

section Total
variable {ν : Type} (cJson : CJson ν) (cpStrtovalU64 : Bytes → UInt64)

theorem isSome_filled {μ : Type} {parser : Filler μ Unit} {asked : List Demand} (fills : Fills parser asked) (message : μ) :
    (filled parser message).isSome = true ↔ Guarded asked := by
  rw [← @Asks.isSome_iff _ _ _ _ _ _ _ fills message trivial, filled, Option.isSome_map]

theorem isSome_packInto {μ packed : Type} (pack : μ → packed) (request : TransferRequest packed)
    (parsed : Option (Int × μ)) : (packInto pack request parsed).isSome = parsed.isSome := Option.isSome_map

/-- The parser returns a code exactly when the first thing that a message lacks, if there is one, is one that is
tested. -/
theorem parseJson_total_iff {packed : Type} (cJsonParse : Bytes → Option ν) (packFrom : PackFrom packed) (now : Int32)
    (jsonBuffer : Bytes) (request : TransferRequest packed) :
    (∃ code request', parseJson cJson cpStrtovalU64 cJsonParse packFrom now jsonBuffer request = some (code, request')) ↔
      ∀ json, cJsonParse jsonBuffer = some json → Guarded (demands cJson json) := by
  have returns {result : Option (Int × TransferRequest packed)} :
      (∃ code request', result = some (code, request')) ↔ result.isSome = true := by
    rw [Option.isSome_iff_exists, Prod.exists]
  have nothing : Guarded [] := fun demand found => by cases found
  rw [returns, parseJson]
  cases cJsonParse jsonBuffer with
  | none => exact iff_of_true rfl fun json found => by cases found
  | some json =>
    have only : (∀ json', some json = some json' → Guarded (demands cJson json')) ↔ Guarded (demands cJson json) :=
      ⟨fun all => all json rfl, fun guarded json' same => Option.some.inj same ▸ guarded⟩
    rw [only, demands]
    dsimp only
    cases cJson.getObjectItem json "type" with
    | none => exact iff_of_true rfl nothing
    | some node =>
      dsimp only
      split
      · rw [isSome_packInto, isSome_filled (fills_parseAction json)]
      split
      · rw [isSome_packInto, isSome_parseItem]
      split
      · rw [isSome_packInto, isSome_filled (fills_parseSubscribe json)]
      split
      · rw [isSome_packInto, isSome_filled (fills_parseRecommend json)]
      split
      · rw [isSome_packInto, isSome_filled (fills_parseHeartbeat json)]
      split
      · rw [isSome_packInto, isSome_filled (fills_parseFeedback json)]
      · exact iff_of_true rfl nothing

/-- The user id of a heartbeat request may be a number, which is read through a null pointer. -/
theorem number_is_read_as_string :
    parseJson Json.cJson (fun text => UInt64.ofNat (Decimal.number text))
      (fun _ => some (.object [("type", .number 4), ("userid", .number 7)]))
      ⟨fun _ => (), fun _ => (), fun _ => (), fun _ => (), fun _ => (), fun _ => ()⟩ 0
      "\x7b\"type\":4,\"userid\":7\x7d".toUTF8.toList ⟨0, 0, ()⟩ = none := by
  decide +kernel

end Total

end ContentBased.Jparse
