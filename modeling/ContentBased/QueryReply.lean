import ContentBased.Library.JsonGrammar
import ContentBased.QueryCache

namespace ContentBased.FrameworkCenter
open Decimal JsonGrammar FrameworkCache

def text (s : String) : Bytes := s.toUTF8.data.toList

/-- The ids that a reply lists, with a comma before each but the first. -/
def docidText (retLst : List UInt64) : Bytes :=
  (retLst.zipIdx.map fun (id, i) => if i = 0 then digits id.toNat else 44 :: digits id.toNat).flatten

/-- What `process_query` prints for a code of the cache. The buffer stays empty for a code that is none. -/
def replyText (retVal retNum : Int32) (retLst : List UInt64) (isNewUser : Bool) : Bytes :=
  if retVal < 0 then
    if isNewUser then text "\x7b\"task\":4,\"returnnum\":0,\"docid\":[],\"userflag\":2"
    else text "\x7b\"task\":4,\"returnnum\":0,\"docid\":[],\"userflag\":3"
  else if retVal = 1 ∨ retVal = 2 then
    text "\x7b\"task\":4,\"returnnum\":" ++ decimal retNum.toInt ++ text ",\"docid\":[" ++ docidText retLst ++
      text "],\"userflag\":1"
  else if retVal = 3 ∨ retVal = 4 then text "\x7b\"task\":4,\"returnnum\":0,\"docid\":[],\"userflag\":3"
  else []

structure Query where
  userId : UInt64
  requestNum : Int32

/-- What a query comes to: the code of the cache, the reply, what is reported as pushed, whether the cache is flushed for
the user, and the value that the cache has then. -/
structure Outcome where
  retVal : Int32
  sendText : Bytes
  feedback : Option (UInt64 × Int32 × List UInt64)
  flushed : Bool
  entry : Option Entry

/-- The outcome of what the cache has handed out. A code that it leaves unset is any value. -/
def Outcome.of (query : Query) (isNewUser : Bool) (unset : Int32) (got : Got) : Outcome :=
  let retVal := got.code.getD unset
  { retVal
    sendText := replyText retVal got.retNum got.retLst isNewUser
    feedback := if got.retNum ≠ 0 then some (query.userId, got.retNum, got.retLst) else none
    flushed := retVal < 0 || retVal == 1 || retVal == 3
    entry := got.entry }

/-- `process_query` on a task. -/
def processQuery (config : Config) (entry : Option Entry) (query : Query) (isNewUser : Bool) (rand : Nat)
    (now unset : Int32) : Option Outcome := do
  let requestNum := if 20 < query.requestNum then 20 else query.requestNum
  let got ← get config entry requestNum rand now
  return Outcome.of query isNewUser unset got

theorem processQuery_eq (config : Config) (entry : Option Entry) (query : Query) (isNewUser : Bool) (rand : Nat)
    (now unset : Int32) : processQuery config entry query isNewUser rand now unset =
      (get config entry (if 20 < query.requestNum then 20 else query.requestNum) rand now).map
        (Outcome.of query isNewUser unset) :=
  Option.map_eq_bind.symm

theorem outcome_of_got {config : Config} {entry : Option Entry} {query : Query} {isNewUser : Bool} {rand : Nat}
    {now unset : Int32} {got : Got} {outcome : Outcome}
    (ran : get config entry (if 20 < query.requestNum then 20 else query.requestNum) rand now = some got)
    (comes : processQuery config entry query isNewUser rand now unset = some outcome) :
    outcome = .of query isNewUser unset got := by
  rw [processQuery_eq, ran] at comes
  exact (Option.some.inj comes).symm

def ids (entry : Option Entry) : List UInt64 := (entry.map Entry.list).getD []

/-- The reply is a JSON object, and the ids it lists are those that are counted, those that leave the cache and those that
are reported. -/
structure Delivers (entry : Option Entry) (query : Query) (outcome : Outcome) (members : List (Bytes × Value))
    (delivered : List UInt64) : Prop where
  object : Document outcome.sendText (.object members)
  returnnum : members.lookup (text "returnnum") = some (.number delivered.length)
  docid : members.lookup (text "docid") = some (.array (delivered.map fun id => .number id.toNat))
  removed : delivered ++ ids outcome.entry = ids entry
  reported : outcome.feedback = if delivered = [] then none
    else some (query.userId, Int32.ofNat delivered.length, delivered)

def ReachesClient (config : Config) (entry : Option Entry) (query : Query) (isNewUser : Bool) (rand : Nat)
    (now unset : Int32) : Prop :=
  ∃ outcome members delivered, processQuery config entry query isNewUser rand now unset = some outcome ∧
    Delivers entry query outcome members delivered

/-- A reply ends in a digit, if in anything. -/
theorem last_replyText (retVal retNum : Int32) (retLst : List UInt64) (isNewUser : Bool) :
    ∀ last ∈ (replyText retVal retNum retLst isNewUser).getLast?, last ∈ [(49 : UInt8), 50, 51] := by
  have flag1 : text "],\"userflag\":1" = text "],\"userflag\":" ++ [49] := by decide +kernel
  have flag2 : (text "\x7b\"task\":4,\"returnnum\":0,\"docid\":[],\"userflag\":2").getLast? = some 50 := by decide +kernel
  have flag3 : (text "\x7b\"task\":4,\"returnnum\":0,\"docid\":[],\"userflag\":3").getLast? = some 51 := by decide +kernel
  intro last member
  unfold replyText at member
  split at member
  · split at member
    · rw [flag2] at member
      obtain rfl := Option.mem_some.mp member
      decide
    · rw [flag3] at member
      obtain rfl := Option.mem_some.mp member
      decide
  split at member
  · rw [flag1, ← List.append_assoc, List.getLast?_concat] at member
    obtain rfl := Option.mem_some.mp member
    decide
  split at member
  · rw [flag3] at member
    obtain rfl := Option.mem_some.mp member
    decide
  · cases member

/-- No reply is a JSON object: the brace that opens it is never closed. -/
theorem replyText_not_object (retVal retNum : Int32) (retLst : List UInt64) (isNewUser : Bool)
    (members : List (Bytes × Value)) : ¬ Document (replyText retVal retNum retLst isNewUser) (.object members) := by
  intro document
  obtain ⟨last, member, ends⟩ := document.last_of_object
  have digit := last_replyText retVal retNum retLst isNewUser last member
  have apart : ∀ byte ∈ [(49 : UInt8), 50, 51], ¬ (byte = 125 ∨ byte ∈ [(9 : UInt8), 10, 13, 32]) := by
    decide +kernel
  exact apart last digit ends

/-- No reply reaches a client as a JSON object with the ids. -/
theorem reply_never_reaches_client (config : Config) (entry : Option Entry) (query : Query) (isNewUser : Bool) (rand : Nat)
    (now unset : Int32) : ¬ ReachesClient config entry query isNewUser rand now unset := by
  rintro ⟨outcome, members, delivered, run, delivers⟩
  obtain ⟨got, -, same⟩ := Option.bind_eq_some_iff.mp run
  obtain rfl := Option.some.inj same
  exact replyText_not_object _ _ _ _ members delivers.object

/-- An id of a fresh entry leaves the cache in a text that is no object. -/
theorem reply_has_no_closing_brace :
    ¬ ReachesClient ⟨0, 3600⟩ (some ⟨0, 1000, [5], by decide⟩) ⟨9, 3⟩ false 0 1030 0 := by
  rintro ⟨outcome, members, delivered, run, delivers⟩
  have sent : (processQuery ⟨0, 3600⟩ (some ⟨0, 1000, [5], by decide⟩) ⟨9, 3⟩ false 0 1030 0).map Outcome.sendText =
      some (text "\x7b\"task\":4,\"returnnum\":1,\"docid\":[5],\"userflag\":1") := by decide +kernel
  rw [run, Option.map_some] at sent
  have ends : (text "\x7b\"task\":4,\"returnnum\":1,\"docid\":[5],\"userflag\":1").getLast? = some 49 := by
    decide +kernel
  obtain ⟨last, member, closing⟩ := delivers.object.last_of_object
  rw [Option.some.inj sent, ends] at member
  obtain rfl := Option.mem_some.mp member
  revert closing
  decide

section Closed

/-- A member that has no white space. -/
theorem members_more {key value rest : Bytes} {v : Value} {members : List (Bytes × Value)} (chars : Chars key)
    (denotes : Denotes value v) (later : Members rest members) :
    Members (34 :: key ++ 34 :: 58 :: value ++ 44 :: rest) ((key, v) :: members) := by
  have none_ : Space [] := fun byte member => by cases member
  simpa using Members.more none_ chars none_ none_ denotes none_ later

theorem members_one {key value : Bytes} {v : Value} (chars : Chars key) (denotes : Denotes value v) :
    Members (34 :: key ++ 34 :: 58 :: value) [(key, v)] := by
  have none_ : Space [] := fun byte member => by cases member
  simpa using Members.one none_ chars none_ none_ denotes none_

/-- A key without quotes, backslashes and control characters. -/
theorem chars_of_plain {key : Bytes} (plain : ∀ byte ∈ key, 32 ≤ byte ∧ byte ≠ 34 ∧ byte ≠ 92) : Chars key := by
  induction key with
  | nil => exact .nil
  | cons byte rest ih =>
    obtain ⟨low, quote, slash⟩ := plain byte List.mem_cons_self
    exact .plain low quote slash (ih fun byte member => plain byte (List.mem_cons_of_mem _ member))

theorem items_ids (id : UInt64) (rest : List UInt64) :
    Items (digits id.toNat ++ (rest.map fun id => 44 :: digits id.toNat).flatten)
      ((id :: rest).map fun id => .number id.toNat) := by
  have none_ : Space [] := fun byte member => by cases member
  induction rest generalizing id with
  | nil => simpa using Items.one none_ (denotes_digits id.toNat) none_
  | cons next rest ih => simpa using Items.more none_ (denotes_digits id.toNat) none_ (ih next)

theorem docidText_cons (id : UInt64) (rest : List UInt64) :
    docidText (id :: rest) = digits id.toNat ++ (rest.map fun id => 44 :: digits id.toNat).flatten := by
  have later : ∀ (from_ : Nat) (ids : List UInt64),
      (((ids.zipIdx (from_ + 1)).map fun (id, i) =>
        if i = 0 then digits id.toNat else 44 :: digits id.toNat).flatten) =
      (ids.map fun id => 44 :: digits id.toNat).flatten := by
    intro from_ ids
    induction ids generalizing from_ with
    | nil => rfl
    | cons id ids ih => simp [List.zipIdx_cons, ih]
  simp [docidText, List.zipIdx_cons, later]

theorem denotes_docidText (retLst : List UInt64) :
    Denotes (91 :: docidText retLst ++ [93]) (.array (retLst.map fun id => .number id.toNat)) := by
  cases retLst with
  | nil =>
    have none_ : Space [] := fun byte member => by cases member
    exact Denotes.noItem none_
  | cons id rest =>
    rw [docidText_cons]
    exact .array (items_ids id rest)

/-- A text that lists these ids: an object that lacks its closing brace, or nothing. -/
def Lists (sendText : Bytes) (ids : List UInt64) : Prop :=
  sendText = [] ∧ ids = [] ∨ ∃ returnnum userflag : Int, Document (sendText ++ [125])
    (.object [(text "task", .number 4), (text "returnnum", .number returnnum),
      (text "docid", .array (ids.map fun id => .number id.toNat)), (text "userflag", .number userflag)])

theorem lists_members (returnnum userflag : Int) (ids : List UInt64) :
    Lists (text "\x7b\"task\":4,\"returnnum\":" ++ decimal returnnum ++ text ",\"docid\":[" ++ docidText ids ++
      text "],\"userflag\":" ++ decimal userflag) ids := by
  have open_ : text "\x7b\"task\":4,\"returnnum\":" =
      123 :: (34 :: text "task" ++ 34 :: 58 :: digits 4 ++ 44 :: (34 :: text "returnnum" ++ [34, 58])) := by decide +kernel
  have middle : text ",\"docid\":[" = 44 :: (34 :: text "docid" ++ [34, 58, 91]) := by decide +kernel
  have end_ : text "],\"userflag\":" = 93 :: 44 :: (34 :: text "userflag" ++ [34, 58]) := by decide +kernel
  have keys : ∀ key ∈ [text "task", text "returnnum", text "docid", text "userflag"], Chars key := by
    have plain : ∀ key ∈ [text "task", text "returnnum", text "docid", text "userflag"],
        ∀ byte ∈ key, 32 ≤ byte ∧ byte ≠ 34 ∧ byte ≠ 92 := by decide +kernel
    exact fun key member => chars_of_plain (plain key member)
  simp only [List.mem_cons, List.not_mem_nil, or_false, forall_eq_or_imp, forall_eq] at keys
  obtain ⟨task, returnnumKey, docid, userflagKey⟩ := keys
  have body := Denotes.object (members_more task (denotes_digits 4) (members_more returnnumKey (denotes_decimal returnnum)
    (members_more docid (denotes_docidText ids) (members_one userflagKey (denotes_decimal userflag)))))
  have none_ : Space [] := fun byte member => by cases member
  refine .inr ⟨returnnum, userflag, [], _, [], ?_, none_, body, none_⟩
  rw [open_, middle, end_]
  simp only [List.cons_append, List.append_assoc, List.nil_append, List.append_nil]

/-- The ids that `process_query` prints for a code of the cache. -/
def listedIds (retVal : Int32) (retLst : List UInt64) : List UInt64 := if retVal = 1 ∨ retVal = 2 then retLst else []

/-- What a reply lacks is the closing brace, if there is a reply. -/
theorem lists_replyText (retVal retNum : Int32) (retLst : List UInt64) (isNewUser : Bool) :
    Lists (replyText retVal retNum retLst isNewUser) (listedIds retVal retLst) := by
  have newUser : text "\x7b\"task\":4,\"returnnum\":0,\"docid\":[],\"userflag\":2" =
      text "\x7b\"task\":4,\"returnnum\":" ++ decimal 0 ++ text ",\"docid\":[" ++ docidText [] ++
        text "],\"userflag\":" ++ decimal 2 := by decide +kernel
  have overtime : text "\x7b\"task\":4,\"returnnum\":0,\"docid\":[],\"userflag\":3" =
      text "\x7b\"task\":4,\"returnnum\":" ++ decimal 0 ++ text ",\"docid\":[" ++ docidText [] ++
        text "],\"userflag\":" ++ decimal 3 := by decide +kernel
  have normal : text "],\"userflag\":1" = text "],\"userflag\":" ++ decimal 1 := by decide +kernel
  by_cases negative : retVal < 0
  · have none_ : listedIds retVal retLst = [] := if_neg (by rintro (rfl | rfl) <;> revert negative <;> decide)
    rw [replyText, if_pos negative, none_]
    split
    · rw [newUser]
      exact lists_members 0 2 []
    · rw [overtime]
      exact lists_members 0 3 []
  rw [replyText, if_neg negative]
  by_cases known : retVal = 1 ∨ retVal = 2
  · rw [if_pos known, listedIds, if_pos known, normal, ← List.append_assoc]
    exact lists_members retNum.toInt 1 retLst
  rw [if_neg known, listedIds, if_neg known]
  split
  · rw [overtime]
    exact lists_members 0 3 []
  · exact .inl ⟨rfl, rfl⟩

end Closed

end ContentBased.FrameworkCenter
