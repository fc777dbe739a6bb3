import ContentBased.FeedbackReports
import ContentBased.Library.Areas

/-! What is assembled in buffers of a fixed or a configured size. -/
namespace ContentBased.FrameworkCenter
open Wire Readers Areas Jparse

/-- An answer of the candidate service that is not above the size it is read with. -/
structure Answer (resultLen : Int32) where
  bytes : Bytes
  within : (bytes.length : Int) ≤ resultLen.toInt

/-- A call of a function that assembles messages. The sizes are those of the configuration, `parseLen` and `pushNum` are
those of a request, and `stale` is the memory around an answer. -/
inductive Assembly where
  | processAction (fwMaxTaskSize parseLen : Int32) (history : Answer (fwMaxTaskSize - 8)) (updated : Answer 32)
  | processQuery (fwMaxTaskSize fwCacheSavecount : Int32) (candidates : Answer fwMaxTaskSize) (stale : Int → UInt8)
      (calculated : Bool)
  | put (num : Int32)
  | candidateFeedback (pushNum : Int32) (result : Answer 16)

section Memory

def memory (answer : Bytes) (stale : Int → UInt8) (offset : Int) : UInt8 :=
  if offset < 0 then stale offset else answer.getD offset.toNat (stale offset)

/-- `*(var_4*)` of an address. -/
def intAt (memory : Int → UInt8) (offset : Int) : Int32 :=
  ((int.run [memory offset, memory (offset + 1), memory (offset + 2), memory (offset + 3)]).map Prod.fst).getD 0

end Memory

section Buffers

/-- The `send_buf` of a query for a user. -/
def queryBuf : Buffer := ⟨128, [⟨4, 4⟩, ⟨8, 4⟩, ⟨12, 8⟩, ⟨0, 4⟩]⟩

def putBuf (num : Int32) : Buffer := ⟨1024, [⟨0, 4⟩, ⟨4, 4⟩, ⟨8, 4⟩, ⟨12, sizeT (num * 8)⟩]⟩

def feedbackBuf (pushNum : Int32) : Buffer :=
  ⟨10240, [⟨4, 4⟩, ⟨8, 8⟩, ⟨16, 4⟩, ⟨20, sizeT (pushNum * 8)⟩, ⟨0, 4⟩]⟩

/-- The history is behind the length and the type, and the action behind the history. -/
def updateBuf (fwMaxTaskSize parseLen : Int32) (history : Bytes) : Buffer :=
  ⟨fwMaxTaskSize.toInt, [⟨4, 4⟩, ⟨8, history.length⟩, ⟨8 + history.length, sizeT parseLen⟩, ⟨0, 4⟩]⟩

/-- The request for the calculators. The log file is put before it when the request is complete. -/
def calcBuf (fwMaxTaskSize recommendNum historyNum : Int32) : Buffer :=
  let recommendSize := recommendNum * 8
  ⟨fwMaxTaskSize.toInt, [⟨12, 4⟩, ⟨16, 8⟩, ⟨24, 4⟩, ⟨28, sizeT recommendSize⟩, ⟨28 + recommendSize.toInt, 4⟩,
    ⟨32 + recommendSize.toInt, sizeT (historyNum * 8)⟩, ⟨8, 4⟩, ⟨0, 8⟩]⟩

def requestLst (requestNum : Int32) : Buffer := ⟨64 * 8, [⟨0, requestNum.toInt.toNat * 8⟩]⟩

/-- The history is behind the ids, the powers and the times of the candidates. -/
def historyNum (memory : Int → UInt8) (recommendNum : Int32) : Int32 :=
  intAt memory (4 + (recommendNum * 8).toInt + (recommendNum * 4).toInt + (recommendNum * 4).toInt)

def requestNum (fwCacheSavecount recommendNum : Int32) : Int32 :=
  if recommendNum < fwCacheSavecount then recommendNum else fwCacheSavecount

def Assembly.buffers : Assembly → List Buffer
  | processAction fwMaxTaskSize parseLen history updated =>
    if history.bytes = [] then [queryBuf, ⟨fwMaxTaskSize.toInt, [⟨4, 4⟩]⟩]
    else [queryBuf, ⟨32, [⟨0, updated.bytes.length⟩]⟩, updateBuf fwMaxTaskSize parseLen history.bytes]
  | processQuery fwMaxTaskSize fwCacheSavecount candidates stale calculated =>
    let filterBuf := memory candidates.bytes stale
    let recommendNum := intAt filterBuf 0
    [queryBuf, ⟨fwMaxTaskSize.toInt, [⟨0, candidates.bytes.length⟩]⟩] ++
      if candidates.bytes = [] then []
      else if recommendNum ≤ 0 then [⟨fwMaxTaskSize.toInt, [⟨12, 4⟩, ⟨16, 8⟩]⟩]
      else calcBuf fwMaxTaskSize recommendNum (historyNum filterBuf recommendNum) ::
        if calculated then
          [requestLst (requestNum fwCacheSavecount recommendNum), putBuf (requestNum fwCacheSavecount recommendNum)]
        else []
  | put num => [putBuf num]
  | candidateFeedback pushNum result => [feedbackBuf pushNum, ⟨16, [⟨0, result.bytes.length⟩]⟩]

/-- Nothing is written outside the buffers. -/
def Assembly.Fits (assembly : Assembly) : Prop := ∀ buffer ∈ assembly.buffers, buffer.Fits

end Buffers

/-- The parts of the messages are small enough together. -/
def Assembly.Small : Assembly → Prop
  | processAction fwMaxTaskSize parseLen history _ =>
    8 ≤ fwMaxTaskSize.toInt ∧
      (history.bytes ≠ [] → 0 ≤ parseLen.toInt ∧ 8 + history.bytes.length + parseLen.toInt ≤ fwMaxTaskSize.toInt)
  | processQuery fwMaxTaskSize fwCacheSavecount candidates stale calculated =>
    let filterBuf := memory candidates.bytes stale
    let recommendNum := intAt filterBuf 0
    candidates.bytes ≠ [] → 24 ≤ fwMaxTaskSize.toInt ∧ (0 < recommendNum →
      let recommendSize := (recommendNum * 8).toInt
      let historySize := (historyNum filterBuf recommendNum * 8).toInt
      0 ≤ recommendSize ∧ 0 ≤ historySize ∧ 32 + recommendSize + historySize ≤ fwMaxTaskSize.toInt ∧
        (calculated →
          let requestNum := requestNum fwCacheSavecount recommendNum
          requestNum.toInt ≤ 64 ∧ 0 ≤ (requestNum * 8).toInt ∧ (requestNum * 8).toInt ≤ 1012))
  | put num => 0 ≤ (num * 8).toInt ∧ (num * 8).toInt ≤ 1012
  | candidateFeedback pushNum _ => 0 ≤ (pushNum * 8).toInt ∧ (pushNum * 8).toInt ≤ 10220

section Fit

theorem queryBuf_fits : queryBuf.Fits := by
  have parts : ∀ area ∈ queryBuf.areas, 0 < area.size ∧ 0 ≤ area.start ∧ area.start + area.size ≤ 128 := by decide
  intro area member
  obtain ⟨positive, low, high⟩ := parts area member
  exact (area_fits_iff positive).mpr ⟨low, high⟩

/-- An answer fits what it is read into. -/
theorem answer_fits {resultLen : Int32} (answer : Answer resultLen) :
    (⟨resultLen.toInt, [⟨0, answer.bytes.length⟩]⟩ : Buffer).Fits := by
  have within := answer.within
  rw [fits_cons, area_fits_iff_of_start le_rfl (by omega)]
  exact ⟨by omega, fits_nil⟩

theorem putBuf_fits_iff (num : Int32) : (putBuf num).Fits ↔ 0 ≤ (num * 8).toInt ∧ (num * 8).toInt ≤ 1012 := by
  simp only [putBuf, fits_cons, fits_nil, and_true]
  rw [copy_fits_iff (by decide) (by decide) (by decide), area_fits_iff (by decide), area_fits_iff (by decide),
    area_fits_iff (by decide)]
  omega

theorem feedbackBuf_fits_iff (pushNum : Int32) :
    (feedbackBuf pushNum).Fits ↔ 0 ≤ (pushNum * 8).toInt ∧ (pushNum * 8).toInt ≤ 10220 := by
  simp only [feedbackBuf, fits_cons, fits_nil, and_true]
  rw [copy_fits_iff (by decide) (by decide) (by decide), area_fits_iff (by decide), area_fits_iff (by decide),
    area_fits_iff (by decide), area_fits_iff (by decide)]
  omega

theorem updateBuf_fits_iff {fwMaxTaskSize parseLen : Int32} {history : Bytes} (there : history ≠ [])
    (within : (history.length : Int) ≤ (fwMaxTaskSize - 8).toInt) :
    (updateBuf fwMaxTaskSize parseLen history).Fits ↔
      8 ≤ fwMaxTaskSize.toInt ∧ 0 ≤ parseLen.toInt ∧ 8 + history.length + parseLen.toInt ≤ fwMaxTaskSize.toInt := by
  have bounds := Wrapping.bounds fwMaxTaskSize
  have positive := List.length_pos_iff.mpr there
  simp only [updateBuf, fits_cons, fits_nil, and_true]
  constructor
  · rintro ⟨type, -, action, -⟩
    obtain ⟨-, room⟩ := (area_fits_iff (by decide)).mp type
    have eight : (8 : Int32).toInt = 8 := rfl
    have limit : (fwMaxTaskSize - 8).toInt = fwMaxTaskSize.toInt - (8 : Int32).toInt :=
      Wrapping.toInt_sub_of_fits (by omega) (by omega)
    have copied := (copy_fits_iff (by omega) (by omega) (by omega)).mp action
    omega
  · rintro ⟨room, nonneg, small⟩
    exact ⟨(area_fits_iff (by decide)).mpr (by omega), (area_fits_iff positive).mpr (by omega),
      (copy_fits_iff (by omega) (by omega) (by omega)).mpr (by omega), (area_fits_iff (by decide)).mpr (by omega)⟩

theorem calcBuf_fits_iff (fwMaxTaskSize recommendNum historyNum : Int32) :
    (calcBuf fwMaxTaskSize recommendNum historyNum).Fits ↔
      0 ≤ (recommendNum * 8).toInt ∧ 0 ≤ (historyNum * 8).toInt ∧
        32 + (recommendNum * 8).toInt + (historyNum * 8).toInt ≤ fwMaxTaskSize.toInt := by
  have bounds := Wrapping.bounds fwMaxTaskSize
  simp only [calcBuf, fits_cons, fits_nil, and_true]
  constructor
  · rintro ⟨-, -, count, ids, historyCount, history, -, -⟩
    have countEnd := (area_fits_iff (by decide)).mp count
    have idsEnd := (copy_fits_iff (by decide) (by omega) (by omega)).mp ids
    have historyCountEnd := (area_fits_iff (by decide)).mp historyCount
    have historyEnd := (copy_fits_iff (by omega) (by omega) (by omega)).mp history
    omega
  · rintro ⟨ids, history, small⟩
    have whole {start : Int} {size : Nat} (positive : 0 < size) (low : 0 ≤ start) (high : start + size ≤ 32) :
        (⟨start, size⟩ : Area).offsets ⊆ Set.Ico 0 fwMaxTaskSize.toInt :=
      (area_fits_iff positive).mpr ⟨low, by omega⟩
    exact ⟨whole (by decide) (by decide) (by decide), whole (by decide) (by decide) (by decide),
      whole (by decide) (by decide) (by decide), (copy_fits_iff (by decide) (by omega) (by omega)).mpr (by omega),
      (area_fits_iff (by decide)).mpr (by omega), (copy_fits_iff (by omega) (by omega) (by omega)).mpr (by omega),
      whole (by decide) (by decide) (by decide), whole (by decide) (by decide) (by decide)⟩

theorem requestLst_fits_iff (requestNum : Int32) : (requestLst requestNum).Fits ↔ requestNum.toInt ≤ 64 := by
  simp only [requestLst, fits_cons, fits_nil, and_true]
  rw [area_fits_iff_of_start le_rfl (by decide)]
  omega

theorem processAction_fits_iff (fwMaxTaskSize parseLen : Int32) (history : Answer (fwMaxTaskSize - 8)) (updated : Answer 32) :
    (Assembly.processAction fwMaxTaskSize parseLen history updated).Fits ↔
      (Assembly.processAction fwMaxTaskSize parseLen history updated).Small := by
  have code : (⟨32, [⟨0, updated.bytes.length⟩]⟩ : Buffer).Fits := answer_fits updated
  simp only [Assembly.Fits, Assembly.buffers, Assembly.Small]
  split
  · rename_i empty
    rw [List.forall_mem_cons, List.forall_mem_singleton, fits_cons, area_fits_iff (by decide)]
    exact ⟨fun fits => ⟨fits.2.1.2, fun there => absurd empty there⟩,
      fun small => ⟨queryBuf_fits, ⟨by decide, small.1⟩, fits_nil⟩⟩
  · rename_i there
    rw [List.forall_mem_cons, List.forall_mem_cons, List.forall_mem_singleton,
      updateBuf_fits_iff there history.within]
    exact ⟨fun fits => ⟨fits.2.2.1, fun _ => fits.2.2.2⟩,
      fun small => ⟨queryBuf_fits, code, small.1, small.2 there⟩⟩

theorem processQuery_fits_iff (fwMaxTaskSize fwCacheSavecount : Int32) (candidates : Answer fwMaxTaskSize)
    (stale : Int → UInt8) (calculated : Bool) :
    (Assembly.processQuery fwMaxTaskSize fwCacheSavecount candidates stale calculated).Fits ↔
      (Assembly.processQuery fwMaxTaskSize fwCacheSavecount candidates stale calculated).Small := by
  simp only [Assembly.Fits, Assembly.buffers, Assembly.Small]
  generalize intAt (memory candidates.bytes stale) 0 = recommendNum
  rw [List.forall_mem_append, List.forall_mem_cons, List.forall_mem_singleton,
    and_iff_right ⟨queryBuf_fits, answer_fits candidates⟩]
  split
  · rename_i empty
    exact iff_of_true (fun _ member => by cases member) fun there => absurd empty there
  rename_i there
  rw [imp_iff_right there]
  split
  · rename_i none_
    rw [List.forall_mem_singleton, fits_cons, fits_cons, area_fits_iff (by decide), area_fits_iff (by decide)]
    exact ⟨fun fits => ⟨fits.2.1.2, fun some_ => absurd none_ (Int32.not_le.mpr some_)⟩,
      fun small => ⟨⟨by decide, by omega⟩, ⟨by decide, small.1⟩, fits_nil⟩⟩
  rename_i some_
  rw [imp_iff_right (Int32.not_le.mp some_), List.forall_mem_cons, calcBuf_fits_iff]
  split
  · rename_i answered
    rw [imp_iff_right answered, List.forall_mem_cons, List.forall_mem_singleton, requestLst_fits_iff, putBuf_fits_iff]
    constructor
    · rintro ⟨⟨ids, history, room⟩, lists⟩
      exact ⟨by omega, ids, history, room, lists⟩
    · rintro ⟨-, ids, history, room, lists⟩
      exact ⟨⟨ids, history, room⟩, lists⟩
  · rename_i silent
    constructor
    · rintro ⟨⟨ids, history, room⟩, -⟩
      exact ⟨by omega, ids, history, room, fun answered => absurd answered silent⟩
    · rintro ⟨-, ids, history, room, -⟩
      exact ⟨⟨ids, history, room⟩, fun _ member => by cases member⟩

end Fit

/-- The messages fit their buffers exactly when their parts are small enough. -/
theorem assembly_fits_iff (assembly : Assembly) : assembly.Fits ↔ assembly.Small := by
  cases assembly with
  | processAction fwMaxTaskSize parseLen history updated =>
    exact processAction_fits_iff fwMaxTaskSize parseLen history updated
  | processQuery fwMaxTaskSize fwCacheSavecount candidates stale calculated =>
    exact processQuery_fits_iff fwMaxTaskSize fwCacheSavecount candidates stale calculated
  | put num =>
    rw [Assembly.Fits, Assembly.buffers, List.forall_mem_singleton]
    exact putBuf_fits_iff num
  | candidateFeedback pushNum result =>
    have code : (⟨16, [⟨0, result.bytes.length⟩]⟩ : Buffer).Fits := answer_fits result
    rw [Assembly.Fits, Assembly.buffers, List.forall_mem_cons, List.forall_mem_singleton, feedbackBuf_fits_iff]
    exact and_iff_left code

def longFeedback : Json :=
  .object [("type", .number 6), ("userid", .string [49]), ("returnnum", .number 1278), ("returnlist", .array [])]

def longFeedbackText : Bytes :=
  "\x7b\"type\":6,\"userid\":\"1\",\"returnnum\":1278,\"returnlist\":[]\x7d".toUTF8.toList

/-- A short request for feedback whose number asks for 10224 bytes behind the first 20 of a buffer of 10240. -/
theorem feedback_beyond_buffer :
    ∃ encoded pushNum, parseJson Json.cJson (fun text => UInt64.ofNat (Decimal.number text)) (fun _ => some longFeedback)
        (fun _ => 0) 0 longFeedbackText 100 = some encoded ∧ encoded.code = 0 ∧
      (int.run (encoded.written.drop 12)).map Prod.fst = some pushNum ∧
      ¬ ∀ result, (Assembly.candidateFeedback pushNum result).Fits := by
  have parsed : (parseJson Json.cJson (fun text => UInt64.ofNat (Decimal.number text)) (fun _ => some longFeedback)
      (fun _ => 0) 0 longFeedbackText 100).any (fun encoded =>
        encoded.code = 0 ∧ (int.run (encoded.written.drop 12)).map Prod.fst = some 1278) = true := by decide +kernel
  obtain ⟨encoded, run, accepted⟩ := (Option.any_eq_true _ _).mp parsed
  obtain ⟨code, number⟩ := of_decide_eq_true accepted
  refine ⟨encoded, 1278, run, code, number, fun fits => ?_⟩
  have answer : Answer 16 := ⟨[], by decide⟩
  have inside := (feedbackBuf_fits_iff 1278).mp (fits answer _ List.mem_cons_self)
  exact absurd inside.2 (by decide +kernel)

end ContentBased.FrameworkCenter
