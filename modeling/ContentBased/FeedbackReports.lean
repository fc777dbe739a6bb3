import ContentBased.AcceptedRequests

namespace ContentBased.FrameworkCenter
open Trapping Wire Writers Readers Jparse

section Decode

/-- The bytes that are copied for `push_num << 3`. A size below 0 is a `size_t` above that of every buffer. -/
def copied (pushNum : Int32) (pushLst : Bytes) : Option Bytes :=
  let size := pushNum * 8
  if size < 0 ∨ (pushLst.length : Int) < size.toInt then none else some (pushLst.take size.toInt.toNat)

/-- The request that `candidate_feedback` sends, from a buffer of 10240 bytes. -/
def feedbackRequest (uid : UInt64) (pushNum : Int32) (ids : Bytes) : Bytes :=
  rawInt (Int32.ofNat (16 + ids.length)) ++ rawInt 666 ++ rawWord uid ++ rawInt pushNum ++ ids

def candidateFeedback (uid : UInt64) (pushNum : Int32) (pushLst : Bytes) : Option Bytes := do
  let ids ← copied pushNum pushLst
  if 10240 < 20 + ids.length then none else some (feedbackRequest uid pushNum ids)

def syncFlag : Bytes := "#!SYNC!#".toUTF8.toList

def syncRecord (uid : UInt64) (pushNum : Int32) (ids : Bytes) : Bytes := rawWord uid ++ rawInt pushNum ++ ids ++ syncFlag

/-- What a feedback is reported as: to `save_log_pushed`, to the sync file and to `candidate_feedback`, and how many bytes
of the request are read for it. -/
structure Reports where
  pushed : UInt64 × List UInt64
  sync : Option Bytes
  candidate : Bytes
  extent : Nat

/-- What is written to the sync file. A write of no bytes fails, and is tried for ever. -/
def synced (fwSyncFlag : Bool) (uid : UInt64) (pushNum : Int32) (pushLst : Bytes) : Option (Option Bytes) :=
  if fwSyncFlag ∧ 0 < pushNum then
    match copied pushNum pushLst with
    | none | some [] => none
    | some ids => some (some (syncRecord uid pushNum ids))
  else some none

/-- `process_feedback` behind the reading of a task. -/
def reportFeedback (fwSyncFlag : Bool) (uid : UInt64) (pushNum : Int32) (pushLst : Bytes) : Option Reports := do
  let pushed ← (times word pushNum.toInt.toNat).run pushLst
  let sync ← synced fwSyncFlag uid pushNum pushLst
  let candidate ← candidateFeedback uid pushNum pushLst
  return {
    pushed := (uid, pushed.1)
    sync
    candidate
    extent := 16 + max (8 * pushNum.toInt.toNat) (pushNum * 8).toInt.toNat }

/-- `process_feedback` on a task. -/
def processFeedback (fwSyncFlag : Bool) (parseBuf : Bytes) : Option Reports :=
  ((do
    let uid ← word
    let pushNum ← int
    return (uid, pushNum)).run (parseBuf.drop 4)).bind fun ((uid, pushNum), pushLst) =>
      reportFeedback fwSyncFlag uid pushNum pushLst

/-- A message with other bytes behind it is reported as this user and these ids, and nothing behind it is read. -/
def ReportsExactly (fwSyncFlag : Bool) (message stale : Bytes) (uid : UInt64) (ids : List UInt64) : Prop :=
  ∃ reports, processFeedback fwSyncFlag (message ++ stale) = some reports ∧ reports.pushed = (uid, ids) ∧
    reports.sync = (if fwSyncFlag ∧ ids ≠ [] then
      some (syncRecord uid (Int32.ofNat ids.length) (ids.flatMap rawWord)) else none) ∧
    reports.candidate = feedbackRequest uid (Int32.ofNat ids.length) (ids.flatMap rawWord) ∧
    reports.extent ≤ message.length

/-- The message that the encoder makes of a feedback. -/
def feedbackMessage (type : Int32) (uid : UInt64) (returnNum : Int32) (ids : List UInt64) : Bytes :=
  rawInt type ++ (rawWord uid ++ (rawInt returnNum ++ (rawInt (Int32.ofNat ids.length) ++ ids.flatMap rawWord)))

/-- The ids that are read four bytes too early, behind a number of 32 bits. -/
def misread (carry : UInt32) : List UInt64 → List UInt64
  | [] => []
  | id :: rest =>
    UInt64.ofNat (carry.toNat + 2 ^ 32 * (id.toNat % 2 ^ 32)) :: misread (UInt32.ofNat (id.toNat / 2 ^ 32)) rest

theorem rawInt_append (low high : UInt32) :
    rawInt low.toInt32 ++ rawInt high.toInt32 = rawWord (UInt64.ofNat (low.toNat + 2 ^ 32 * high.toNat)) := by
  have small := low.toNat_lt
  have small' := high.toNat_lt
  have value : (UInt64.ofNat (low.toNat + 2 ^ 32 * high.toNat)).toNat = low.toNat + 2 ^ 32 * high.toNat := by
    rw [UInt64.toNat_ofNat']
    omega
  have front : UInt32.ofNat (low.toNat + 2 ^ 32 * high.toNat) = low := by
    apply UInt32.toNat_inj.mp
    rw [UInt32.toNat_ofNat']
    omega
  have back : UInt32.ofNat ((low.toNat + 2 ^ 32 * high.toNat) / 2 ^ 32) = high := by
    apply UInt32.toNat_inj.mp
    rw [UInt32.toNat_ofNat']
    omega
  rw [rawWord, value, front, back]

theorem length_misread (carry : UInt32) (ids : List UInt64) : (misread carry ids).length = ids.length := by
  induction ids generalizing carry with
  | nil => rfl
  | cons id rest ih => rw [misread, List.length_cons, List.length_cons, ih]

/-- The bytes from the number on are those of the ids that are read. -/
theorem append_misread (carry : UInt32) (ids : List UInt64) (rest : Bytes) :
    ∃ left, rawInt carry.toInt32 ++ (ids.flatMap rawWord ++ rest) = (misread carry ids).flatMap rawWord ++ left := by
  induction ids generalizing carry with
  | nil => exact ⟨_, rfl⟩
  | cons id ids ih =>
    obtain ⟨left, later⟩ := ih (UInt32.ofNat (id.toNat / 2 ^ 32))
    have low : (UInt32.ofNat id.toNat).toNat = id.toNat % 2 ^ 32 := UInt32.toNat_ofNat'
    refine ⟨left, ?_⟩
    rw [misread, ← low, List.flatMap_cons, List.flatMap_cons, ← rawInt_append]
    simp only [rawWord, List.append_assoc]
    rw [later]

/-- The ids are read as they are exactly when each has the number before it in both its halves. -/
theorem misread_eq_iff (carry : UInt32) (ids : List UInt64) :
    misread carry ids = ids ↔ ∀ id ∈ ids, id.toNat = carry.toNat * (2 ^ 32 + 1) := by
  induction ids generalizing carry with
  | nil => simp [misread]
  | cons id rest ih =>
    have small := carry.toNat_lt
    have small' := id.toNat_lt
    have value : (UInt64.ofNat (carry.toNat + 2 ^ 32 * (id.toNat % 2 ^ 32))).toNat =
        carry.toNat + 2 ^ 32 * (id.toNat % 2 ^ 32) := by
      rw [UInt64.toNat_ofNat']
      omega
    have first : UInt64.ofNat (carry.toNat + 2 ^ 32 * (id.toNat % 2 ^ 32)) = id ↔
        id.toNat = carry.toNat * (2 ^ 32 + 1) := by
      rw [← UInt64.toNat_inj, value]
      omega
    rw [misread, List.cons.injEq, first, List.forall_mem_cons]
    refine and_congr_right fun same => ?_
    have next : UInt32.ofNat (id.toNat / 2 ^ 32) = carry := by
      apply UInt32.toNat_inj.mp
      rw [UInt32.toNat_ofNat']
      omega
    rw [next]
    exact ih carry

theorem length_times {α : Type} {reader : Reader α} {n : Nat} {bytes rest : Bytes} {values : List α}
    (run : (times reader n).run bytes = some (values, rest)) : values.length = n := by
  induction n generalizing bytes values with
  | zero =>
    obtain ⟨rfl, -⟩ := Prod.mk.inj (Option.some.inj run)
    rfl
  | succ n ih =>
    rw [times, StateT.run_bind] at run
    obtain ⟨⟨first, more⟩, -, run⟩ := Option.bind_eq_some_iff.mp run
    rw [StateT.run_bind] at run
    obtain ⟨⟨others, left⟩, later, same⟩ := Option.bind_eq_some_iff.mp run
    obtain ⟨rfl, rfl⟩ := Prod.mk.inj (Option.some.inj same)
    rw [List.length_cons, ih later]

theorem length_flatMap_rawWord (ids : List UInt64) : (ids.flatMap rawWord).length = 8 * ids.length := by
  induction ids with
  | nil => rfl
  | cons id rest ih =>
    rw [List.flatMap_cons, List.length_append, length_rawWord, ih, List.length_cons]
    omega

/-- The size of a list, which does not wrap for a short one. -/
theorem toInt_size {pushNum : Int32} (nonneg : 0 ≤ pushNum.toInt) (small : pushNum.toInt < 2 ^ 28) :
    (pushNum * 8).toInt = 8 * pushNum.toInt := by
  have eight : (8 : Int32).toInt = 8 := rfl
  rw [Wrapping.toInt_mul_of_fits (by rw [eight]; omega) (by rw [eight]; omega), eight, mul_comm]

theorem copied_of_size {pushNum : Int32} {ids : Bytes} (size : (pushNum * 8).toInt = ids.length) (left : Bytes) :
    copied pushNum (ids ++ left) = some ids := by
  have fits : ¬ (pushNum * 8 < 0 ∨ ((ids ++ left).length : Int) < (pushNum * 8).toInt) := by
    rw [Int32.lt_iff_toInt_lt, size, List.length_append, Int32.toInt_zero]
    omega
  have taken : (pushNum * 8).toInt.toNat = ids.length := by omega
  simp only [copied]
  rw [if_neg fits, taken, List.take_left]

/-- What is copied of a list that is there. -/
theorem copied_of_list {pushNum : Int32} {ids : List UInt64} (num : pushNum.toInt = ids.length) (small : ids.length < 2 ^ 28)
    (left : Bytes) : copied pushNum (ids.flatMap rawWord ++ left) = some (ids.flatMap rawWord) := by
  apply copied_of_size
  rw [toInt_size (by omega) (by omega), num, length_flatMap_rawWord]
  push_cast
  rfl

/-- What the decoder makes of a message that the encoder made. -/
theorem processFeedback_message (fwSyncFlag : Bool) (type : Int32) (uid : UInt64) (returnNum : Int32) (ids : List UInt64)
    (stale : Bytes) : ∃ left, processFeedback fwSyncFlag (feedbackMessage type uid returnNum ids ++ stale) =
      reportFeedback fwSyncFlag uid returnNum ((misread (UInt32.ofNat ids.length) ids).flatMap rawWord ++ left) := by
  obtain ⟨left, bytes⟩ := append_misread (UInt32.ofNat ids.length) ids stale
  have carry : (UInt32.ofNat ids.length).toInt32 = Int32.ofNat ids.length := rfl
  rw [carry] at bytes
  refine ⟨left, ?_⟩
  have behind : (feedbackMessage type uid returnNum ids ++ stale).drop 4 = (rawWord uid ++ rawInt returnNum) ++
      ((misread (UInt32.ofNat ids.length) ids).flatMap rawWord ++ left) := by
    rw [← bytes]
    have head : (rawInt type).length = 4 := rfl
    rw [feedbackMessage, List.append_assoc, ← head, List.drop_left]
    simp only [List.append_assoc]
  have reads : Reads (do
      let uid ← word
      let pushNum ← int
      return (uid, pushNum)) (rawWord uid ++ rawInt returnNum) (uid, returnNum) := (Reads.word uid).bind (Reads.int _).map
  rw [processFeedback, behind, reads]
  rfl

theorem times_words (ids : List UInt64) (left : Bytes) :
    (times word ids.length).run (ids.flatMap rawWord ++ left) = some (ids, left) := by
  have reads : Reads (times word ids.length) (ids.flatMap rawWord) ids := Reads.times fun id _ => Reads.word id
  exact reads left

theorem length_feedbackMessage (type : Int32) (uid : UInt64) (returnNum : Int32) (ids : List UInt64) :
    (feedbackMessage type uid returnNum ids).length = 20 + 8 * ids.length := by
  simp only [feedbackMessage, List.length_append, length_rawInt, length_rawWord, length_flatMap_rawWord]
  omega

/-- A list that is there is reported as it is. -/
theorem reportFeedback_list (fwSyncFlag : Bool) (uid : UInt64) {pushNum : Int32} {ids : List UInt64}
    (num : pushNum.toInt = ids.length) (small : ids.length ≤ 1277) (left : Bytes) :
    reportFeedback fwSyncFlag uid pushNum (ids.flatMap rawWord ++ left) = some {
      pushed := (uid, ids)
      sync := if fwSyncFlag ∧ ids ≠ [] then some (syncRecord uid pushNum (ids.flatMap rawWord)) else none
      candidate := feedbackRequest uid pushNum (ids.flatMap rawWord)
      extent := 16 + 8 * ids.length } := by
  have copies := copied_of_list num (by omega) left
  have length := length_flatMap_rawWord ids
  have count : pushNum.toInt.toNat = ids.length := by omega
  have size : (pushNum * 8).toInt = 8 * ids.length := by
    rw [toInt_size (by omega) (by omega), num]
  have sent : candidateFeedback uid pushNum (ids.flatMap rawWord ++ left) =
      some (feedbackRequest uid pushNum (ids.flatMap rawWord)) := by
    rw [candidateFeedback, copies]
    exact if_neg (by omega)
  have saved : synced fwSyncFlag uid pushNum (ids.flatMap rawWord ++ left) =
      some (if fwSyncFlag ∧ ids ≠ [] then some (syncRecord uid pushNum (ids.flatMap rawWord)) else none) := by
    have positive : 0 < pushNum ↔ ids ≠ [] := by
      rw [Int32.lt_iff_toInt_lt, num, Int32.toInt_zero, ← List.length_pos_iff]
      omega
    by_cases writes : fwSyncFlag ∧ ids ≠ []
    · rw [synced, if_pos ⟨writes.1, positive.mpr writes.2⟩, if_pos writes, copies]
      cases ids with
      | nil => exact absurd rfl writes.2
      | cons id rest => rfl
    · rw [synced, if_neg fun both => writes ⟨both.1, positive.mp both.2⟩, if_neg writes]
  rw [reportFeedback, count, times_words, saved, sent]
  have extent : max (8 * ids.length) (pushNum * 8).toInt.toNat = 8 * ids.length := by omega
  rw [extent]
  rfl

theorem rawInt_injective : Function.Injective rawInt := by
  intro a b same
  have read := readRawInt_rawInt a []
  rw [same, readRawInt_rawInt b []] at read
  exact (Prod.mk.inj (Option.some.inj read)).1.symm

/-- A feedback is reported exactly as it was when the two counts agree, are small, and each id has the count in both its
halves. -/
theorem reportsExactly_message_iff (fwSyncFlag : Bool) (type : Int32) (uid : UInt64) (returnNum : Int32) (ids : List UInt64)
    (stale : Bytes) : ReportsExactly fwSyncFlag (feedbackMessage type uid returnNum ids) stale uid ids ↔
      returnNum.toInt = ids.length ∧ ids.length ≤ 1277 ∧ ∀ id ∈ ids, id.toNat = ids.length * (2 ^ 32 + 1) := by
  obtain ⟨left, run⟩ := processFeedback_message fwSyncFlag type uid returnNum ids stale
  have length := length_misread (UInt32.ofNat ids.length) ids
  rw [ReportsExactly, run]
  constructor
  · rintro ⟨reports, run, pushed, -, candidate, -⟩
    obtain ⟨⟨listed, rest⟩, read, run⟩ := Option.bind_eq_some_iff.mp run
    obtain ⟨sync, -, run⟩ := Option.bind_eq_some_iff.mp run
    obtain ⟨sent, asked, same⟩ := Option.bind_eq_some_iff.mp run
    obtain rfl := Option.some.inj same
    have count : returnNum.toInt.toNat = ids.length := by
      rw [← length_times read]
      exact congrArg List.length (Prod.mk.inj pushed).2
    obtain ⟨bytes, copies, asked⟩ := Option.bind_eq_some_iff.mp asked
    split at asked
    · cases asked
    rename_i room
    obtain rfl := Option.some.inj asked
    obtain ⟨fields, bytes_eq⟩ := List.append_inj candidate rfl
    have num' : returnNum = Int32.ofNat ids.length := rawInt_injective (List.append_inj fields rfl).2
    have bounds := Wrapping.bounds returnNum
    have num : returnNum.toInt = ids.length := by
      rw [num', Int32.toInt_ofNat_of_lt (by omega)]
    have small : ids.length ≤ 1277 := by
      rw [bytes_eq, length_flatMap_rawWord] at room
      omega
    refine ⟨num, small, ?_⟩
    have words := times_words (misread (UInt32.ofNat ids.length) ids) left
    rw [count] at read
    rw [length, read] at words
    have same : misread (UInt32.ofNat ids.length) ids = ids :=
      (Prod.mk.inj (Option.some.inj words)).1.symm.trans (Prod.mk.inj pushed).2
    have carry : (UInt32.ofNat ids.length).toNat = ids.length := by
      rw [UInt32.toNat_ofNat']
      omega
    rw [misread_eq_iff, carry] at same
    exact same
  · rintro ⟨num, small, halves⟩
    have carry : (UInt32.ofNat ids.length).toNat = ids.length := by
      rw [UInt32.toNat_ofNat']
      omega
    have exact_ : misread (UInt32.ofNat ids.length) ids = ids := (misread_eq_iff _ ids).mpr (by rwa [carry])
    have num' : returnNum = Int32.ofNat ids.length := by
      apply Int32.toInt_inj.mp
      rw [num, Int32.toInt_ofNat_of_lt (by omega)]
    rw [exact_, reportFeedback_list fwSyncFlag uid num small]
    subst num'
    refine ⟨_, rfl, rfl, rfl, rfl, ?_⟩
    rw [length_feedbackMessage]
    dsimp only
    omega

end Decode

section Encode
variable {ν : Type} {cJson : CJson ν} {cpStrtovalU64 : Bytes → UInt64} {size : Int32} {json : ν} {after : Cursor}

/-- A feedback that is accepted has all its fields, and the message that is put is the one of their values. -/
theorem written_of_accepted (accepted : parseFeedback cJson cpStrtovalU64 json size {} = some (.ok (), after)) :
    ∃ type uid returnNum ids, intOf cJson json "type" = some type ∧ idOf cJson cpStrtovalU64 json "userid" = some uid ∧
      intOf cJson json "returnnum" = some returnNum ∧ idsOf cJson cpStrtovalU64 json "returnlist" = some ids ∧
      after.written = feedbackMessage type uid returnNum ids := by
  unfold parseFeedback at accepted
  obtain ⟨type, atType, run⟩ := puts_head.first accepted
  obtain ⟨uid, atUserId, run⟩ := puts_id.first run
  obtain ⟨returnNum, atReturnNum, run⟩ := puts_int.first run
  obtain ⟨ids, atReturnList, rfl⟩ := puts_ids _ _ run
  refine ⟨type, uid, returnNum, ids, atType, atUserId, atReturnNum, atReturnList, ?_⟩
  simp only [Cursor.append, feedbackMessage, encodeItems, List.append_assoc, List.nil_append]

/-- A feedback that is accepted is reported exactly as its values when the two counts agree, are small, and each id has
the count in both its halves. -/
theorem feedback_reported_iff (accepted : parseFeedback cJson cpStrtovalU64 json size {} = some (.ok (), after)) :
    ∃ uid returnNum ids, idOf cJson cpStrtovalU64 json "userid" = some uid ∧ intOf cJson json "returnnum" = some returnNum ∧
      idsOf cJson cpStrtovalU64 json "returnlist" = some ids ∧ ∀ fwSyncFlag stale,
        (ReportsExactly fwSyncFlag after.written stale uid ids ↔
          returnNum.toInt = ids.length ∧ ids.length ≤ 1277 ∧ ∀ id ∈ ids, id.toNat = ids.length * (2 ^ 32 + 1)) := by
  obtain ⟨type, uid, returnNum, ids, -, user, num, list, written⟩ := written_of_accepted accepted
  refine ⟨uid, returnNum, ids, user, num, list, fun fwSyncFlag stale => ?_⟩
  rw [written]
  exact reportsExactly_message_iff fwSyncFlag type uid returnNum ids stale

def feedback (returnNum : Int) (id : Bytes) : Json :=
  .object [("type", .number 6), ("userid", .string [55]), ("returnnum", .number returnNum), ("returnlist", .array [.string id])]

/-- The text of 4294967297, which has a one in both its halves. -/
def halves : Bytes := [52, 50, 57, 52, 57, 54, 55, 50, 57, 55]

theorem halved_id_is_reported :
    ∃ uid returnNum ids,
      idOf Json.cJson (fun text => UInt64.ofNat (Decimal.number text)) (feedback 1 halves) "userid" = some uid ∧
      intOf Json.cJson (feedback 1 halves) "returnnum" = some returnNum ∧
      idsOf Json.cJson (fun text => UInt64.ofNat (Decimal.number text)) (feedback 1 halves) "returnlist" = some ids ∧ ∀ fwSyncFlag stale,
        (ReportsExactly fwSyncFlag
            [6, 0, 0, 0, 7, 0, 0, 0, 0, 0, 0, 0, 1, 0, 0, 0, 1, 0, 0, 0, 1, 0, 0, 0, 1, 0, 0, 0] stale uid ids ↔
          returnNum.toInt = ids.length ∧ ids.length ≤ 1277 ∧ ∀ id ∈ ids, id.toNat = ids.length * (2 ^ 32 + 1)) := by
  have accepted : parseFeedback Json.cJson (fun text => UInt64.ofNat (Decimal.number text))
      (feedback 1 halves) 100 {} = some (.ok (),
        ⟨[6, 0, 0, 0, 7, 0, 0, 0, 0, 0, 0, 0, 1, 0, 0, 0, 1, 0, 0, 0, 1, 0, 0, 0, 1, 0, 0, 0], 28⟩) := by
    rfl
  exact feedback_reported_iff accepted

/-- The id 5 is reported with the count in front of it. -/
theorem id_is_misread :
    ∃ cursor, parseFeedback Json.cJson (fun text => UInt64.ofNat (Decimal.number text)) (feedback 1 [53]) 100 {} =
        some (.ok (), cursor) ∧ ¬ ReportsExactly true cursor.written [] 7 [5] := by
  refine ⟨⟨[6, 0, 0, 0, 7, 0, 0, 0, 0, 0, 0, 0, 1, 0, 0, 0, 1, 0, 0, 0, 5, 0, 0, 0, 0, 0, 0, 0], 28⟩, ?_, ?_⟩
  · rfl
  · rintro ⟨reports, run, pushed, -⟩
    have reported : (processFeedback true
        ([6, 0, 0, 0, 7, 0, 0, 0, 0, 0, 0, 0, 1, 0, 0, 0, 1, 0, 0, 0, 5, 0, 0, 0, 0, 0, 0, 0] ++ [])).map Reports.pushed =
          some (7, [21474836481]) := by decide +kernel
    rw [run, Option.map_some, pushed] at reported
    revert reported
    decide

end Encode

end ContentBased.FrameworkCenter
