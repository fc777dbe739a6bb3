import ContentBased.AcceptedRequests
import ContentBased.QueryReply

namespace ContentBased.FrameworkCenter
open Decimal JsonGrammar Trapping Wire Writers Readers Jparse

/-- The reply to an update, and to a request that fails. -/
def codeText (type code : Int32) : Bytes :=
  text "\x7b\"type\":" ++ decimal type.toInt ++ text ",\"code\":" ++ decimal code.toInt ++ text "\x7d"

def heartbeatText : Bytes := text "\x7b\"type\":5,\"status\":\"ok\"\x7d"

/-- What the branch of `thread_process` for a type leaves in `send_buf`, or nothing when it fails. -/
inductive Processed : Int32 → Option Bytes → Prop
  | update {type} (code : Int32) (kind : type ∈ [(1 : Int32), 2, 3]) : Processed type (some (codeText type code))
  | query (retVal retNum : Int32) (retLst : List UInt64) (isNewUser : Bool) :
      Processed 4 (some (replyText retVal retNum retLst isNewUser))
  | heartbeat : Processed 5 (some heartbeatText)
  | feedback : Processed 6 (some (codeText 6 0))
  | failed {type} (kind : type ∈ [(1 : Int32), 2, 3]) : Processed type none

/-- What is sent: the length and then the reply, or the text of a failure behind its length at once. -/
def sends (type : Int32) : Option Bytes → List Bytes
  | some sendBuf => [rawInt (Int32.ofNat sendBuf.length), sendBuf]
  | none => [rawInt (Int32.ofNat (codeText type (-1)).length) ++ codeText type (-1)]

/-- One frame. Its body is a JSON object that names the type of the request; for a query it is an object with the task of
queries that lacks its closing brace, or nothing. -/
def Answers (type : Int32) (sent : List Bytes) : Prop :=
  ∃ body, sent.flatten = rawInt (Int32.ofNat body.length) ++ body ∧
    if type = 4 then ∃ ids, Lists body ids
    else ∃ members, Document body (.object ((text "type", .number type.toInt) :: members))

/-- The type that a request starts with. -/
def typeFlg (parseBuf : Bytes) : Int32 := ((readRawInt parseBuf).map Prod.fst).getD 0

theorem document_codeText (type code : Int32) :
    Document (codeText type code) (.object [(text "type", .number type.toInt), (text "code", .number code.toInt)]) := by
  have open_ : text "\x7b\"type\":" = 123 :: (34 :: text "type" ++ [34, 58]) := by decide +kernel
  have middle : text ",\"code\":" = 44 :: (34 :: text "code" ++ [34, 58]) := by decide +kernel
  have end_ : text "\x7d" = [125] := by decide +kernel
  have typeKey : Chars (text "type") := chars_of_plain (by decide +kernel)
  have codeKey : Chars (text "code") := chars_of_plain (by decide +kernel)
  have body := Denotes.object (members_more typeKey (denotes_decimal type.toInt)
    (members_one codeKey (denotes_decimal code.toInt)))
  have none_ : Space [] := fun byte member => by cases member
  refine ⟨[], _, [], ?_, none_, body, none_⟩
  rw [codeText, open_, middle, end_]
  simp only [List.cons_append, List.append_assoc, List.nil_append, List.append_nil]

theorem document_heartbeatText :
    Document heartbeatText (.object [(text "type", .number (5 : Int32).toInt), (text "status", .string (text "ok"))]) := by
  have whole : heartbeatText = 123 :: (34 :: text "type" ++ 34 :: 58 :: decimal (5 : Int32).toInt ++ 44 ::
      (34 :: text "status" ++ 34 :: 58 :: (34 :: text "ok" ++ [34]))) ++ [125] := by decide +kernel
  have typeKey : Chars (text "type") := chars_of_plain (by decide +kernel)
  have statusKey : Chars (text "status") := chars_of_plain (by decide +kernel)
  have ok : Chars (text "ok") := chars_of_plain (by decide +kernel)
  have body := Denotes.object
    (members_more typeKey (denotes_decimal (5 : Int32).toInt) (members_one statusKey (.string ok)))
  have none_ : Space [] := fun byte member => by cases member
  exact ⟨[], _, [], by rw [whole, List.nil_append, List.append_nil], none_, body, none_⟩

/-- A frame with an object is an answer to anything but a query. -/
theorem answers_of_document {type : Int32} {sent : List Bytes} {body : Bytes} {members : List (Bytes × Value)} (other : type ≠ 4)
    (frame : sent.flatten = rawInt (Int32.ofNat body.length) ++ body)
    (document : Document body (.object ((text "type", .number type.toInt) :: members))) : Answers type sent := by
  refine ⟨body, frame, ?_⟩
  rw [if_neg other]
  exact ⟨members, document⟩

/-- Whatever comes of a request, what is sent is one frame that answers it. -/
theorem answers_sends {type : Int32} {outcome : Option Bytes} (processed : Processed type outcome) :
    Answers type (sends type outcome) := by
  have frame (type : Int32) (body : Bytes) :
      (sends type (some body)).flatten = rawInt (Int32.ofNat body.length) ++ body := by
    simp [sends]
  have update_ {type : Int32} (kind : type ∈ [(1 : Int32), 2, 3]) : type ≠ 4 := by
    rintro rfl
    revert kind
    decide
  cases processed with
  | update code kind => exact answers_of_document (update_ kind) (frame _ _) (document_codeText type code)
  | query retVal retNum retLst isNewUser =>
    refine ⟨_, frame _ _, ?_⟩
    rw [if_pos rfl]
    exact ⟨_, lists_replyText retVal retNum retLst isNewUser⟩
  | heartbeat => exact answers_of_document (by decide) (frame _ _) document_heartbeatText
  | feedback => exact answers_of_document (by decide) (frame _ _) (document_codeText 6 0)
  | failed kind => exact answers_of_document (update_ kind) (by simp [sends]) (document_codeText type (-1))

theorem exists_processed {type : Int32} (known : type ∈ [(1 : Int32), 2, 3, 4, 5, 6]) :
    ∃ outcome, Processed type outcome := by
  simp only [List.mem_cons, List.not_mem_nil, or_false] at known
  rcases known with rfl | rfl | rfl | rfl | rfl | rfl
  · exact ⟨_, .update 0 (by decide)⟩
  · exact ⟨_, .update 0 (by decide)⟩
  · exact ⟨_, .update 0 (by decide)⟩
  · exact ⟨_, .query 0 0 [] false⟩
  · exact ⟨_, .heartbeat⟩
  · exact ⟨_, .feedback⟩

section Accepted
variable {ν : Type} {cJson : CJson ν} {cpStrtovalU64 : Bytes → UInt64} {varF4 : ℚ → UInt32} {now size : Int32}
  {cJsonParse : Bytes → Option ν} {json : ν} {after : Cursor}

/-- A message that the parser for its type has put to the end. -/
def Accepted (cJson : CJson ν) (cpStrtovalU64 : Bytes → UInt64) (varF4 : ℚ → UInt32) (parseBuf : Bytes) : Prop :=
  ∃ now json type parseMax after, intOf cJson json "type" = some type ∧
    parser cJson cpStrtovalU64 varF4 now json type parseMax {} = some (.ok (), after) ∧ parseBuf = after.written

theorem puts_location : Puts (putField cJson json "location" (-108) fun node => do
      put size (-100) 4 do
        let text ← deref (cJson.valueString node)
        return rawInt (Int32.ofNat text.length)
      let text ← deref (cJson.valueString node)
      put size (-100) text.length (pure text))
    ((cJson.getObjectItem json "location").bind cJson.valueString) encodeText := by
  refine puts_field fun node => ?_
  intro cursor after run
  have length : Puts (put size (-100) 4 do
      let text ← deref (cJson.valueString node)
      return rawInt (Int32.ofNat text.length)) (cJson.valueString node) fun text => rawInt (Int32.ofNat text.length) :=
    Puts.deref_put fun _ _ => length_rawInt _
  obtain ⟨text, found, run⟩ := length.first run
  rw [found] at run
  have bytes : Puts (put size (-100) text.length (pure text)) (some text) id := Puts.pure_put id text rfl
  obtain ⟨said, same, rfl⟩ := bytes _ after run
  obtain rfl := Option.some.inj same
  exact ⟨text, found, Puts.append_append ..⟩

/-- A parser that starts with the head of a message and puts more behind it. -/
theorem head_of_parsed {α : Type} {program : Trapping Cursor Int Unit} {num : Nat} {wrong missing full : Int}
    {value : Option α} {encode : α → Bytes} (rest : Puts program value encode)
    (accepted : (putHead cJson size json num wrong missing full >>= fun _ => program) {} = some (.ok (), after)) :
    ∃ type more, intOf cJson json "type" = some type ∧ after.written = rawInt type ++ more := by
  obtain ⟨type, typed, run⟩ := puts_head.first accepted
  obtain ⟨said, -, rfl⟩ := rest _ after run
  exact ⟨type, encode said, typed, by simp [Cursor.append]⟩

theorem head_of_accepted {type : Int32}
    (accepted : parser cJson cpStrtovalU64 varF4 now json type size {} = some (.ok (), after)) :
    type ∈ [(1 : Int32), 2, 3, 4, 5, 6] ∧
      ∃ type' more, intOf cJson json "type" = some type' ∧ after.written = rawInt type' ++ more := by
  have time : Puts (putField cJson json "pushtime" (-213) fun _ => put size (-200) 4 (pure (rawInt now)))
      ((cJson.getObjectItem json "pushtime").bind fun _ => some now) rawInt :=
    puts_field fun _ => Puts.pure_put rawInt _ (length_rawInt _)
  have float : Puts (putField cJson json "power" (-214) fun node =>
        put size (-200) 4 (pure (rawInt (varF4 (cJson.valueDouble node)).toInt32)))
      ((cJson.getObjectItem json "power").bind fun node => some (varF4 (cJson.valueDouble node)).toInt32) rawInt :=
    puts_field fun _ => Puts.pure_put rawInt _ (length_rawInt _)
  unfold parser at accepted
  split at accepted
  · rename_i same
    exact ⟨by simp [same], head_of_parsed (puts_int.bind (puts_id.bind (puts_id.bind (puts_int.bind
      (puts_int.bind puts_location))))) accepted⟩
  split at accepted
  · rename_i same
    exact ⟨by simp [same], head_of_parsed (puts_id.bind (puts_int.bind (time.bind (float.bind (puts_texts.bind
      (puts_words.bind (puts_texts.bind (puts_texts.bind (puts_int.bind (puts_texts.bind puts_texts)))))))))) accepted⟩
  split at accepted
  · rename_i same
    exact ⟨by simp [same], head_of_parsed (puts_id.bind (puts_texts.bind puts_texts)) accepted⟩
  split at accepted
  · rename_i same
    exact ⟨by simp [same], head_of_parsed (puts_int.bind (puts_id.bind puts_int)) accepted⟩
  split at accepted
  · rename_i same
    exact ⟨by simp [same], head_of_parsed (puts_field puts_text) accepted⟩
  split at accepted
  · rename_i same
    exact ⟨by simp [same], head_of_parsed (puts_id.bind (puts_int.bind puts_ids)) accepted⟩
  · cases accepted

/-- A message that is accepted starts with its type, which is one of six. -/
theorem type_of_accepted {parseBuf : Bytes} (accepted : Accepted cJson cpStrtovalU64 varF4 parseBuf) :
    typeFlg parseBuf ∈ [(1 : Int32), 2, 3, 4, 5, 6] := by
  obtain ⟨now, json, type, parseMax, after, typed, run, rfl⟩ := accepted
  obtain ⟨known, type', more, typed', written⟩ := head_of_accepted run
  obtain rfl := Option.some.inj (typed.symm.trans typed')
  rw [typeFlg, written, readRawInt_rawInt]
  exact known

end Accepted

end ContentBased.FrameworkCenter
