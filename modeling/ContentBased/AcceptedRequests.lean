import ContentBased.RequestEncoding

/-! What a parser of a request has put when it goes through: the bytes of the values that it has found. -/
namespace ContentBased.FrameworkCenter
open Trapping Wire Writers Readers Jparse

section Encoding

def encodeText (text : Bytes) : Bytes := rawInt (Int32.ofNat text.length) ++ text

def encodeWord (word : Bytes × Int32) : Bytes := encodeText word.1 ++ rawInt word.2

def encodeItems {α : Type} (encode : α → Bytes) (items : List α) : Bytes :=
  rawInt (Int32.ofNat items.length) ++ items.flatMap encode

end Encoding

section Parsed
variable {ν : Type} {cJson : CJson ν} {cpStrtovalU64 : Bytes → UInt64} {size : Int32} {full missing broken : Int} {json : ν}
  {key : String}

theorem puts_field {α : Type} {field : ν → Trapping Cursor Int Unit} {value : ν → Option α} {encode : α → Bytes}
    (there : ∀ node, Puts (field node) (value node) encode) :
    Puts (putField cJson json key missing field) ((cJson.getObjectItem json key).bind value) encode := by
  intro cursor after run
  unfold putField at run
  cases found : cJson.getObjectItem json key with
  | none =>
    rw [found] at run
    cases run
  | some node =>
    rw [found] at run
    exact there node cursor after run

theorem puts_int : Puts (putField cJson json key missing (putInt cJson size full)) (intOf cJson json key) rawInt := by
  rw [intOf, Option.map_eq_bind]
  exact puts_field fun node => Puts.pure_put rawInt _ (length_rawInt _)

theorem puts_idText (node : ν) : Puts (putId cJson cpStrtovalU64 size full node) (cJson.valueString node) fun text =>
    rawWord (cpStrtovalU64 text) := Puts.deref_put fun _ _ => length_rawWord _

theorem puts_id : Puts (putField cJson json key missing (putId cJson cpStrtovalU64 size full))
    (idOf cJson cpStrtovalU64 json key) rawWord := Puts.map (puts_field puts_idText)

theorem puts_text (node : ν) : Puts (putText cJson size full node) (cJson.valueString node) encodeText := by
  unfold putText
  cases cJson.valueString node with
  | none =>
    intro cursor after run
    obtain ⟨text, middle, found, -⟩ := of_bind_ok run
    cases found
  | some text =>
    intro cursor after run
    have length : Puts (put size full 4 (pure (rawInt (Int32.ofNat text.length)))) (some (Int32.ofNat text.length)) rawInt :=
      Puts.pure_put rawInt _ (length_rawInt _)
    change (put size full 4 (pure (rawInt (Int32.ofNat text.length))) >>= fun _ =>
      put size full text.length (pure text)) cursor = _ at run
    obtain ⟨num, same, run⟩ := length.first run
    obtain rfl := Option.some.inj same
    have bytes : Puts (put size full text.length (pure text)) (some text) id := Puts.pure_put id text rfl
    obtain ⟨said, same, rfl⟩ := bytes _ after run
    obtain rfl := Option.some.inj same
    exact ⟨text, rfl, Puts.append_append ..⟩

/-- An array of items. -/
theorem puts_list {α : Type} {item : ν → Trapping Cursor Int Unit} {value : ν → Option α} {encode : α → Bytes}
    (array : ν) (each : ∀ node, Puts (item node) (value node) encode) :
    Puts (do
        put size full 4 (pure (rawInt (Int32.ofNat (cJson.getArraySize array))))
        (List.range (cJson.getArraySize array)).forM fun i =>
          match cJson.getArrayItem array i with
          | none => throw broken
          | some node => item node)
      ((cJson.items array).mapM value) (encodeItems encode) := by
  have loop : ((List.range (cJson.getArraySize array)).forM fun i =>
      match cJson.getArrayItem array i with
      | none => throw broken
      | some node => item node : Trapping Cursor Int Unit) = (cJson.items array).forM item :=
    Packs.forM_items broken array item
  rw [loop]
  intro cursor after run
  have length : Puts (put size full 4 (pure (rawInt (Int32.ofNat (cJson.getArraySize array)))))
      (some (Int32.ofNat (cJson.getArraySize array))) rawInt := Puts.pure_put rawInt _ (length_rawInt _)
  obtain ⟨num, same, run⟩ := length.first run
  obtain rfl := Option.some.inj same
  obtain ⟨said, found, rfl⟩ := Puts.forM each _ after run
  have counted : said.length = cJson.getArraySize array :=
    (forall₂_mapM found).length_eq.symm.trans (cJson.length_items array)
  refine ⟨said, found, ?_⟩
  rw [encodeItems, counted]
  exact Puts.append_append ..

theorem puts_texts : Puts (putArray cJson json key missing broken full (parseArray cJson size)) (textsOf cJson json key)
    (encodeItems encodeText) :=
  puts_field fun array => (puts_list array puts_text).recode

theorem puts_words : Puts (putArray cJson json key missing broken full (parseArrayObject cJson size))
    (wordsOf cJson json key) (encodeItems encodeWord) := by
  have word (object : ν) : Puts (do
      putField cJson object "word" (-1) (putText cJson size (-2))
      putField cJson object "count" (-1) (putInt cJson size (-2))) (wordOf cJson object) encodeWord :=
    (puts_field puts_text).bind puts_int
  exact puts_field fun array => (puts_list array word).recode

theorem puts_ids : Puts (putField cJson json key missing fun array => do
      put size full 4 (pure (rawInt (Int32.ofNat (cJson.getArraySize array))))
      (List.range (cJson.getArraySize array)).forM fun i =>
        match cJson.getArrayItem array i with
        | none => throw broken
        | some node => putId cJson cpStrtovalU64 size full node)
    (idsOf cJson cpStrtovalU64 json key) (encodeItems rawWord) :=
  puts_field fun array => puts_list array fun node => (puts_idText node).map

theorem puts_head {num : Nat} {wrong : Int} :
    Puts (putHead cJson size json num wrong missing full) (intOf cJson json "type") rawInt := by
  intro cursor after run
  unfold putHead at run
  split at run
  · exact puts_int cursor after run
  · cases run

end Parsed

end ContentBased.FrameworkCenter
