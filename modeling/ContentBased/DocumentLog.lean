import ContentBased.AcceptedRequests
import ContentBased.Library.Pointers

/-! The log of the documents is written from the bytes that a request was encoded to. -/
namespace ContentBased.FrameworkCenter
open Trapping Wire Writers Readers Pointers Jparse Decimal

section SaveLog

def tab : UInt8 := 9

/-- A string of some length is printed with a zero behind it, where another byte has been before and is again. -/
def printTerminated (len : Int32) : Walking Unit := do
  let chr ← load byte len.toInt
  store len.toInt 0
  let text ← load cString 0
  print (tab :: text)
  store len.toInt chr

def printText : Walking Unit := do
  let len ← load int 0
  advance 4
  printTerminated len
  advance len.toInt

def printCount : Walking Unit := do
  let count ← load int 0
  print (tab :: decimal count.toInt)
  advance 4

/-- A number and so many items. -/
def printItems (item : Walking Unit) : Walking Unit := do
  let num ← load int 0
  print (tab :: decimal num.toInt)
  advance 4
  (List.range num.toInt.toNat).forM fun _ => item

def printDocument : Walking Unit := do
  let docId ← load word 0
  let pushTime ← load int 12
  print (digits docId.toNat ++ tab :: decimal pushTime.toInt)
  advance 20
  printItems printText
  printItems do
    printText
    printCount
  print [10]

/-- `save_log_document` starts behind the type. It gives up when it cannot open the file. -/
def saveLogDocument (opened : Bool) (parseBuf : Bytes) : Option (Int × Walk) :=
  let start : Walk := { memory := parseBuf, ptr := 4 }
  if opened then (printDocument start).map fun (_, walk) => (0, walk)
  else some (-1, start)

end SaveLog

section Line

def textField (text : Bytes) : Bytes := tab :: text

def wordFields (word : Bytes × Int32) : Bytes := textField word.1 ++ tab :: decimal word.2.toInt

def itemFields {α : Type} (fields : α → Bytes) (items : List α) : Bytes :=
  tab :: decimal items.length ++ items.flatMap fields

/-- The line of a document, with the fields that the comment in `save_log_document` names. -/
def documentLine (docId : UInt64) (pushTime : Int32) (category : List Bytes) (words : List (Bytes × Int32)) : Bytes :=
  digits docId.toNat ++ tab :: decimal pushTime.toInt ++
    (itemFields textField category ++ (itemFields wordFields words ++ [10]))

end Line

section Walks
variable {ahead : Nat}

/-- The zero is put, and the byte that was there is put back. -/
theorem walks_printTerminated {text : Bytes} (small : text.length < 2 ^ 31) (free : 0 ∉ text) :
    Walks ahead (max ahead 1) (printTerminated (Int32.ofNat text.length) >>= fun _ => advance (Int32.ofNat text.length).toInt)
      text (textField text) := by
  have length : (Int32.ofNat text.length).toInt = text.length := Int32.toInt_ofNat_of_lt (by omega)
  intro before rest touched printed reached enough
  obtain ⟨chr, rest, rfl⟩ : ∃ chr rest', rest = chr :: rest' := List.exists_cons_of_length_pos (by omega)
  have place : (before.length : Int) + text.length = (before ++ text).length := by
    rw [List.length_append, Nat.cast_add]
  have split (behind : UInt8) : before ++ (text ++ behind :: rest) = (before ++ text) ++ ([behind] ++ rest) := by simp
  have top (old : Nat) : max (max old ((before ++ text).length + 1)) ((before ++ text).length + 1) =
      max old ((before ++ text).length + 1) := max_eq_left (le_max_right _ _)
  have found : load byte text.length ⟨before ++ (text ++ chr :: rest), before.length, touched, printed⟩ =
      some (chr, ⟨before ++ (text ++ chr :: rest), before.length, max touched ((before ++ text).length + 1), printed⟩) :=
    load_run (reads_byte chr) place (split chr) touched printed
  have stored (old new : UInt8) (printed : Bytes) :
      store text.length new ⟨before ++ (text ++ old :: rest), before.length,
        max touched ((before ++ text).length + 1), printed⟩ =
      some ((), ⟨before ++ (text ++ new :: rest), before.length, max touched ((before ++ text).length + 1), printed⟩) := by
    have run := store_run new place (split old) (max touched ((before ++ text).length + 1)) printed
    rwa [top, List.append_assoc] at run
  have read : load cString 0 ⟨before ++ (text ++ 0 :: rest), before.length,
        max touched ((before ++ text).length + 1), printed⟩ =
      some (text, ⟨before ++ (text ++ 0 :: rest), before.length, max touched ((before ++ text).length + 1), printed⟩) := by
    have terminated : before ++ (text ++ 0 :: rest) = before ++ ((text ++ [0]) ++ rest) := by simp
    have run := load_run (reads_cString free) (add_zero (before.length : Int)) terminated
      (max touched ((before ++ text).length + 1)) printed
    have ends : before.length + (text ++ [0]).length = (before ++ text).length + 1 := by
      simp only [List.length_append, List.length_singleton, add_assoc]
    rwa [ends, top] at run
  have shown : printTerminated (Int32.ofNat text.length)
        ⟨before ++ (text ++ chr :: rest), before.length, touched, printed⟩ =
      some ((), ⟨before ++ (text ++ chr :: rest), before.length, max touched ((before ++ text).length + 1),
        printed ++ textField text⟩) := by
    simp only [printTerminated, length]
    change Option.bind (load byte _ _) _ = _
    rw [found]
    change Option.bind (store _ 0 _) _ = _
    rw [stored]
    change Option.bind (load cString 0 _) _ = _
    rw [read]
    exact stored 0 chr _
  refine ⟨max touched ((before ++ text).length + 1), ?_, ?_⟩
  · rw [List.length_append]
    omega
  · change Option.bind (printTerminated _ _) _ = _
    rw [shown, length]
    rfl

/-- A number that is printed. -/
theorem walks_load_int {value : Int32} {next : Int32 → Walking Unit} {bytes rest text : Bytes} {behind : Nat}
    (there : bytes = rawInt value ++ rest) (walks : Walks (max ahead 4) behind (next value) bytes text) :
    Walks ahead behind (load int 0 >>= next) bytes text := by
  have first : bytes = [] ++ (rawInt value ++ rest) := there
  exact Walks.load (Reads.int value) rfl first walks

theorem walks_printText {text : Bytes} (small : text.length < 2 ^ 31) (free : 0 ∉ text) :
    Walks 1 1 printText (encodeText text) (textField text) := by
  refine walks_load_int rfl ?_
  refine Walks.advance rfl ?_
  exact walks_printTerminated small free

theorem walks_printCount (count : Int32) : Walks 1 0 printCount (rawInt count) (tab :: decimal count.toInt) := by
  have line : (tab :: decimal count.toInt) ++ [] = tab :: decimal count.toInt := List.append_nil _
  rw [← line]
  have moved : Walks (max 1 4) (max 1 4 - (rawInt count).length) (advance 4) (rawInt count) [] := Walks.arrive rfl
  exact walks_load_int (List.append_nil _).symm (Walks.print moved)

theorem walks_printWord {word : Bytes × Int32} (small : word.1.length < 2 ^ 31) (free : 0 ∉ word.1) :
    Walks 0 0 (do
      printText
      printCount) (encodeWord word) (wordFields word) := by
  have text : Walks 0 1 printText (encodeText word.1) (textField word.1) :=
    (walks_printText small free).weaken (by decide)
  exact text.bind (walks_printCount word.2) (by simp)

/-- A loop over the numbers of some items is one over the items. -/
theorem forM_length {α : Type} (item : Walking Unit) (items : List α) :
    (List.range items.length).forM (fun _ => item) = items.forM fun _ => item := by
  have snd : (items.zipIdx.map Prod.snd).forM (fun _ => item) = items.zipIdx.forM fun _ => item := List.forM_map
  have fst : (items.zipIdx.map Prod.fst).forM (fun _ => item) = items.zipIdx.forM fun _ => item := List.forM_map
  rw [List.zipIdx_map_snd, ← List.range_eq_range'] at snd
  rw [List.zipIdx_map_fst] at fst
  exact snd.trans fst.symm

theorem walks_printItems {α : Type} {item : Walking Unit} {items : List α} {encode fields : α → Bytes} {slack : Nat}
    (small : items.length < 2 ^ 31)
    (each : ∀ element ∈ items, Walks slack slack item (encode element) (fields element)) :
    Walks 1 slack (printItems item) (encodeItems encode items) (itemFields fields items) := by
  have length : (Int32.ofNat items.length).toInt = items.length := Int32.toInt_ofNat_of_lt (by omega)
  refine walks_load_int rfl ?_
  rw [length, Int.toNat_natCast, forM_length]
  refine Walks.print (Walks.advance rfl ?_)
  exact (Walks.forM each).weaken (by simp)

/-- What a document starts with, up to its words. -/
def encodeFront (docId : UInt64) (publicTime pushTime : Int32) (power : UInt32) (category : List Bytes)
    (words : List (Bytes × Int32)) : Bytes :=
  rawWord docId ++ (rawInt publicTime ++ (rawInt pushTime ++ (rawInt power.toInt32 ++
    (encodeItems encodeText category ++ encodeItems encodeWord words))))

/-- A string of C that an `int` can measure. -/
def Printable (text : Bytes) : Prop := text.length < 2 ^ 31 ∧ 0 ∉ text

theorem walks_printDocument (docId : UInt64) (publicTime pushTime : Int32) (power : UInt32) {category : List Bytes}
    {words : List (Bytes × Int32)} (few : category.length < 2 ^ 31) (fewWords : words.length < 2 ^ 31)
    (texts : ∀ text ∈ category, Printable text) (wordTexts : ∀ word ∈ words, Printable word.1) :
    Walks 0 0 printDocument (encodeFront docId publicTime pushTime power category words)
      (documentLine docId pushTime category words) := by
  have categories : Walks 1 1 (printItems printText) (encodeItems encodeText category)
      (itemFields textField category) :=
    walks_printItems few fun text member => walks_printText (texts text member).1 (texts text member).2
  have wordList : Walks 1 0 (printItems do
        printText
        printCount) (encodeItems encodeWord words) (itemFields wordFields words) :=
    walks_printItems fewWords fun word member => walks_printWord (wordTexts word member).1 (wordTexts word member).2
  have ended : Walks 1 0 (printItems (do
        printText
        printCount) >>= fun _ => print [10]) (encodeItems encodeWord words ++ []) (itemFields wordFields words ++ [10]) :=
    wordList.bind (Walks.say [10]) (Nat.zero_le _)
  rw [List.append_nil] at ended
  have covered : 1 ≤ (encodeItems encodeWord words).length + 0 := by
    rw [encodeItems, List.length_append, length_rawInt]
    omega
  have items : Walks 1 0 (printItems printText >>= fun _ => printItems (do
        printText
        printCount) >>= fun _ => print [10])
      (encodeItems encodeText category ++ encodeItems encodeWord words)
      (itemFields textField category ++ (itemFields wordFields words ++ [10])) := categories.bind ended covered
  have word : encodeFront docId publicTime pushTime power category words =
      [] ++ (rawWord docId ++ (rawInt publicTime ++ (rawInt pushTime ++ (rawInt power.toInt32 ++
        (encodeItems encodeText category ++ encodeItems encodeWord words))))) := rfl
  have time : encodeFront docId publicTime pushTime power category words =
      (rawWord docId ++ rawInt publicTime) ++ (rawInt pushTime ++ (rawInt power.toInt32 ++
        (encodeItems encodeText category ++ encodeItems encodeWord words))) := by
    rw [List.append_assoc]
    rfl
  have moved : encodeFront docId publicTime pushTime power category words =
      (rawWord docId ++ (rawInt publicTime ++ (rawInt pushTime ++ rawInt power.toInt32))) ++
        (encodeItems encodeText category ++ encodeItems encodeWord words) := by
    simp only [encodeFront, List.append_assoc]
  refine Walks.load (Reads.word docId) rfl word ?_
  refine Walks.load (Reads.int pushTime) rfl time ?_
  refine Walks.print ?_
  rw [moved]
  refine Walks.advance rfl ?_
  exact items.weaken (Nat.zero_le _)

end Walks

/-- The strings of a JSON object are strings of C, without a zero. -/
def CStrings {ν : Type} (cJson : CJson ν) (json : ν) : Prop :=
  ∀ node text, Part cJson json node → cJson.valueString node = some text → 0 ∉ text

section Parsed
variable {ν : Type} {cJson : CJson ν} {cpStrtovalU64 : Bytes → UInt64} {size : Int32} {json : ν}
  {varF4 : ℚ → UInt32} {now : Int32} {jsonBuffer : Bytes} {cursor : Cursor}

/-- What a document is encoded to that is accepted. -/
theorem exists_document (accepted : parseDocument cJson cpStrtovalU64 varF4 now json size {} = some (.ok (), cursor)) :
    ∃ type docId publicTime power category words srp circle topFlag topSrp topCircle behind,
      contentOf cJson cpStrtovalU64 varF4 json 2 =
        some (.document docId publicTime power category words srp circle topFlag topSrp topCircle) ∧
      textsOf cJson json "category" = some category ∧ wordsOf cJson json "word" = some words ∧
      cursor = ({} : Cursor).append (rawInt type ++ (encodeFront docId publicTime now power category words ++ behind)) := by
  have time : Puts (putField cJson json "pushtime" (-213) fun _ => put size (-200) 4 (pure (rawInt now)))
      ((cJson.getObjectItem json "pushtime").bind fun _ => some now) rawInt :=
    puts_field fun _ => Puts.pure_put rawInt _ (length_rawInt _)
  have float : Puts (putField cJson json "power" (-214) fun node =>
        put size (-200) 4 (pure (rawInt (varF4 (cJson.valueDouble node)).toInt32)))
      ((cJson.getObjectItem json "power").map fun node => varF4 (cJson.valueDouble node))
      fun power => rawInt power.toInt32 := by
    rw [Option.map_eq_bind]
    refine puts_field fun node => ?_
    exact Puts.pure_put (fun power : UInt32 => rawInt power.toInt32) (varF4 (cJson.valueDouble node)) (length_rawInt _)
  unfold parseDocument at accepted
  obtain ⟨type, -, run⟩ := puts_head.first accepted
  obtain ⟨docId, atDocId, run⟩ := puts_id.first run
  obtain ⟨publicTime, atPublicTime, run⟩ := puts_int.first run
  obtain ⟨pushTime, atPushTime, run⟩ := time.first run
  obtain ⟨power, atPower, run⟩ := float.first run
  obtain ⟨category, atCategory, run⟩ := puts_texts.first run
  obtain ⟨words, atWords, run⟩ := puts_words.first run
  obtain ⟨srp, atSrp, run⟩ := puts_texts.first run
  obtain ⟨circle, atCircle, run⟩ := puts_texts.first run
  obtain ⟨topFlag, atTopFlag, run⟩ := puts_int.first run
  obtain ⟨topSrp, atTopSrp, run⟩ := puts_texts.first run
  obtain ⟨topCircle, atTopCircle, rfl⟩ := puts_texts _ _ run
  obtain ⟨pushed, atPushed, same⟩ := Option.bind_eq_some_iff.mp atPushTime
  obtain rfl := Option.some.inj same
  refine ⟨type, docId, publicTime, power, category, words, srp, circle, topFlag, topSrp, topCircle,
    encodeItems encodeText srp ++ (encodeItems encodeText circle ++ (rawInt topFlag ++
      (encodeItems encodeText topSrp ++ encodeItems encodeText topCircle))), ?_, atCategory, atWords, ?_⟩
  · simp only [contentOf, atDocId, atPublicTime, atPushed, atPower, atCategory, atWords, atSrp, atCircle, atTopFlag,
      atTopSrp, atTopCircle]
    rfl
  · simp only [Puts.append_append, encodeFront, List.append_assoc]

theorem part_of_mem_items {array node : ν} (part : Part cJson json array) (member : node ∈ cJson.items array) :
    Part cJson json node := by
  obtain ⟨i, -, found⟩ := List.mem_filterMap.mp member
  exact .item part found

/-- Where the values of the items of an array come from. -/
theorem exists_item {α : Type} {array : ν} {value : ν → Option α} {values : List α} (part : Part cJson json array)
    (found : (cJson.items array).mapM value = some values) {said : α} (member : said ∈ values) :
    ∃ node, Part cJson json node ∧ value node = some said := by
  have inside : some said ∈ (cJson.items array).map value := by
    rw [← mapM_eq_some found]
    exact List.mem_map_of_mem member
  obtain ⟨node, item, same⟩ := List.mem_map.mp inside
  exact ⟨node, part_of_mem_items part item, same⟩

theorem length_values_le {α : Type} {array : ν} {value : ν → Option α} {values : List α}
    (read : ReadFrom cJson jsonBuffer json) (part : Part cJson json array)
    (found : (cJson.items array).mapM value = some values) : values.length ≤ jsonBuffer.length := by
  rw [← (forall₂_mapM found).length_eq, cJson.length_items]
  exact read.size_le array part

/-- The log of a message prints the line, if the file can be opened, touches no more of the message than so many bytes
and leaves the whole as it was. -/
def LogsDocument (opened : Bool) (parseBuf line : Bytes) (encoded : Nat) : Prop :=
  ∃ walk, saveLogDocument opened parseBuf = some (if opened then 0 else -1, walk) ∧
    walk.printed = (if opened then line else []) ∧ walk.touched ≤ encoded ∧ walk.memory = parseBuf

/-- A walk behind the type of a document, whose end is behind its words. -/
theorem logsDocument_of_walks (opened : Bool) (type : Int32) (behind : Bytes) {front line : Bytes}
    (walks : Walks 0 0 printDocument front line) :
    LogsDocument opened (rawInt type ++ (front ++ behind)) line (rawInt type ++ front).length := by
  obtain ⟨touched, small, run⟩ := walks (rawInt type) behind 0 [] (Nat.zero_le _) (Nat.zero_le _)
  unfold LogsDocument saveLogDocument
  cases opened with
  | false => exact ⟨_, rfl, rfl, Nat.zero_le _, rfl⟩
  | true =>
    refine ⟨⟨rawInt type ++ (front ++ behind), (rawInt type).length + front.length, touched, line⟩, ?_, rfl, ?_, rfl⟩
    · have start : printDocument { memory := rawInt type ++ (front ++ behind), ptr := 4 } = _ := run
      dsimp only
      rw [if_pos rfl, start]
      rfl
    · rw [List.length_append]
      exact small

/-- The log of a document that is accepted says what the document says, whatever is behind the message. -/
theorem saveLogDocument_logs (opened : Bool) (small : jsonBuffer.length < 2 ^ 31) (read : ReadFrom cJson jsonBuffer json)
    (strings : CStrings cJson json)
    (accepted : parseDocument cJson cpStrtovalU64 varF4 now json size {} = some (.ok (), cursor)) :
    cursor.len = Int32.ofNat cursor.written.length ∧
      ∃ docId publicTime power category words srp circle topFlag topSrp topCircle,
        contentOf cJson cpStrtovalU64 varF4 json 2 =
          some (.document docId publicTime power category words srp circle topFlag topSrp topCircle) ∧
        ∀ stale, LogsDocument opened (cursor.written ++ stale) (documentLine docId now category words)
          cursor.written.length := by
  obtain ⟨type, docId, publicTime, power, category, words, srp, circle, topFlag, topSrp, topCircle, behind, content,
    atCategory, atWords, rfl⟩ := exists_document accepted
  obtain ⟨categories, foundCategories, eachCategory⟩ := Option.bind_eq_some_iff.mp atCategory
  obtain ⟨wordArray, foundWords, eachWord⟩ := Option.bind_eq_some_iff.mp atWords
  have categoryPart : Part cJson json categories := .field .self foundCategories
  have wordPart : Part cJson json wordArray := .field .self foundWords
  have printable {node : ν} {text : Bytes} (part : Part cJson json node) (found : cJson.valueString node = some text) :
      Printable text := ⟨(read.string_le node text part found).trans_lt small, strings node text part found⟩
  have texts : ∀ text ∈ category, Printable text := by
    intro text member
    obtain ⟨node, part, found⟩ := exists_item categoryPart eachCategory member
    exact printable part found
  have wordTexts : ∀ word ∈ words, Printable word.1 := by
    intro word member
    obtain ⟨object, part, found⟩ := exists_item wordPart eachWord member
    obtain ⟨text, atText, rest⟩ := Option.bind_eq_some_iff.mp found
    obtain ⟨count, -, same⟩ := Option.bind_eq_some_iff.mp rest
    obtain rfl := Option.some.inj same
    obtain ⟨node, atNode, found⟩ := Option.bind_eq_some_iff.mp atText
    exact printable (.field part atNode) found
  have walks := walks_printDocument docId publicTime now power
    ((length_values_le read categoryPart eachCategory).trans_lt small)
    ((length_values_le read wordPart eachWord).trans_lt small) texts wordTexts
  refine ⟨Int32.zero_add _, docId, publicTime, power, category, words, srp, circle, topFlag, topSrp, topCircle, content,
    fun stale => ?_⟩
  obtain ⟨walk, run, printed, touched, memory⟩ := logsDocument_of_walks opened type (behind ++ stale) walks
  refine ⟨walk, ?_, printed, touched.trans ?_, ?_⟩
  · simpa only [Cursor.append, List.nil_append, List.append_assoc] using run
  · simp only [Cursor.append, List.nil_append, List.length_append]
    omega
  · simpa only [Cursor.append, List.nil_append, List.append_assoc] using memory

end Parsed

section Logging

/-- Whether a condition holds for all values in a value, down to some depth. -/
def Json.checks (condition : Json → Bool) : Nat → Json → Bool
  | 0, json => condition json && json.children.isEmpty
  | depth + 1, json => condition json && json.children.all (Json.checks condition depth)

theorem Json.checks_part {condition : Json → Bool} {depth : Nat} {json node : Json}
    (checked : Json.checks condition depth json = true) (part : Part Json.cJson json node) : condition node = true := by
  induction depth generalizing json with
  | zero =>
    obtain ⟨here, none_⟩ := Bool.and_eq_true_iff.mp checked
    rcases part_children part with rfl | ⟨child, inside, -⟩
    · exact here
    · rw [List.isEmpty_iff.mp none_] at inside
      cases inside
  | succ depth ih =>
    obtain ⟨here, below⟩ := Bool.and_eq_true_iff.mp checked
    rcases part_children part with rfl | ⟨child, inside, part⟩
    · exact here
    · exact ih (List.all_eq_true.mp below child inside) part

/-- A document with an empty category and an empty word among others. -/
def loggedDocument : Json :=
  .object [("type", .number 2), ("docid", .string [55]), ("publictime", .number 1), ("pushtime", .number 2),
    ("power", .number 0), ("category", .array [.string [97], .string []]),
    ("word", .array [.object [("word", .string []), ("count", .number 3)]]), ("srp", .array []), ("circle", .array []),
    ("topflag", .number 0), ("topsrp", .array []), ("topcircle", .array [])]

def loggedText : Bytes :=
  ("\x7b\"type\":2,\"docid\":\"7\",\"publictime\":1,\"pushtime\":2,\"power\":0,\"category\":[\"a\",\"\"]," ++
    "\"word\":[\x7b\"word\":\"\",\"count\":3\x7d],\"srp\":[],\"circle\":[],\"topflag\":0,\"topsrp\":[]," ++
    "\"topcircle\":[]\x7d").toUTF8.toList

theorem loggedDocument_logs :
    ∃ cursor, parseDocument Json.cJson (fun text => UInt64.ofNat (number text)) (fun _ => 0) 9 loggedDocument 100 {} =
        some (.ok (), cursor) ∧
      cursor.len = Int32.ofNat cursor.written.length ∧
      ∃ docId publicTime power category words srp circle topFlag topSrp topCircle,
        contentOf Json.cJson (fun text => UInt64.ofNat (number text)) (fun _ => 0) loggedDocument 2 =
          some (.document docId publicTime power category words srp circle topFlag topSrp topCircle) ∧
        ∀ stale, LogsDocument true (cursor.written ++ stale) (documentLine docId 9 category words)
          cursor.written.length := by
  have checked : Json.checks (fun node => node.children.length ≤ loggedText.length &&
      ((Json.cJson.valueString node).getD []).length ≤ loggedText.length &&
      !((Json.cJson.valueString node).getD []).contains 0) 3 loggedDocument = true := by decide +kernel
  have each {node : Json} (part : Part Json.cJson loggedDocument node) :
      node.children.length ≤ loggedText.length ∧
        ((Json.cJson.valueString node).getD []).length ≤ loggedText.length ∧
        0 ∉ (Json.cJson.valueString node).getD [] := by
    simpa [and_assoc] using Json.checks_part checked part
  have read : ReadFrom Json.cJson loggedText loggedDocument := by
    refine ⟨fun node text part found => ?_, fun node part => (each part).1⟩
    have bounded := (each part).2.1
    rwa [found] at bounded
  have strings : CStrings Json.cJson loggedDocument := by
    intro node text part found
    have free := (each part).2.2
    rwa [found] at free
  have accepted : (parseDocument Json.cJson (fun text => UInt64.ofNat (number text)) (fun _ => 0) 9 loggedDocument 100 {}).any
      (·.1.isOk) = true := by decide +kernel
  obtain ⟨⟨_ | _, cursor⟩, run, ok⟩ := (Option.any_eq_true _ _).mp accepted
  · cases ok
  · exact ⟨cursor, run, saveLogDocument_logs true (by decide +kernel) read strings run⟩

end Logging

end ContentBased.FrameworkCenter
