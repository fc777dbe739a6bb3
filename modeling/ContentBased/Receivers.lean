import ContentBased.Network
import ContentBased.Library.Wrapping

namespace ContentBased

/-- What a connection is called for while a frame is received. -/
inductive FrameCall where
  | connect
  | accept
  | send (data : Bytes)
  | receiveLength
  | receiveBody (length : Int32)
  | close
deriving DecidableEq, Repr

/-- The other end: whether the connection is made and takes what is sent, the length prefix, and what a receive of so many
bytes brings. A call that fails brings nothing. -/
structure Peer where
  connects : Bool
  takes : Bool
  lengthPrefix : Option Int32
  body : Int32 → Option Bytes

/-- What a calculator answered: its length, or the mark of a failure. -/
structure Slot where
  length : Int32
  body : Bytes
deriving DecidableEq, Repr

namespace FrameworkModule

/-- The calls of `recvRequest`, which receives as many bytes as the prefix says. -/
def recvRequestCalls (recvMax : Int32) (peer : Peer) : Option Bytes × List FrameCall :=
  if !peer.connects then (none, [.accept])
  else
    match peer.lengthPrefix with
    | none => (none, [.accept, .receiveLength, .close])
    | some recvLen =>
      if recvMax < recvLen then (none, [.accept, .receiveLength, .close])
      else
        match peer.body recvLen with
        | none => (none, [.accept, .receiveLength, .receiveBody recvLen, .close])
        | some data => (some data, [.accept, .receiveLength, .receiveBody recvLen])

/-- What the network thread makes of a peer. -/
def arrival (client : Socket) (peer : Peer) : Arrival :=
  if peer.connects then .accepted client peer.lengthPrefix (peer.lengthPrefix.bind peer.body) else .refused

/-- Both views of `recv_request` receive the same. -/
theorem recvRequest_arrival (recvMax : Int32) (client : Socket) (peer : Peer) :
    (recvRequest recvMax (arrival client peer)).1 = (recvRequestCalls recvMax peer).1.map fun data => (client, data) := by
  obtain ⟨connects, takes, prefix_, body⟩ := peer
  cases connects with
  | false => rfl
  | true =>
    cases prefix_ with
    | none => rfl
    | some recvLen =>
      simp only [arrival, recvRequest, recvRequestCalls, if_true, Option.bind_some, Bool.not_true, Bool.false_eq_true,
        if_false]
      split
      · rfl
      · cases body recvLen <;> rfl

end FrameworkModule

namespace FrameworkCenter

/-- `thread_listen` up to the text that goes to the parser. -/
def threadListen (fwMaxRecvSize : Int32) (peer : Peer) : Option Bytes × List FrameCall :=
  if !peer.connects then (none, [.accept])
  else
    match peer.lengthPrefix with
    | none => (none, [.accept, .receiveLength, .close])
    | some recvLen =>
      if fwMaxRecvSize - 1 < recvLen then (none, [.accept, .receiveLength, .close])
      else
        match peer.body recvLen with
        | none => (none, [.accept, .receiveLength, .receiveBody recvLen, .close])
        | some data => (some (data ++ [0]), [.accept, .receiveLength, .receiveBody recvLen])

def candidateQuery (requestBuf : Bytes) (resultLen : Int32) (peer : Peer) : Option Bytes × List FrameCall :=
  if !peer.connects then (none, [.connect])
  else if !peer.takes then (none, [.connect, .send requestBuf, .close])
  else
    match peer.lengthPrefix with
    | none => (none, [.connect, .send requestBuf, .receiveLength, .close])
    | some recvLen =>
      if resultLen < recvLen then (none, [.connect, .send requestBuf, .receiveLength, .close])
      else
        match peer.body recvLen with
        | none => (none, [.connect, .send requestBuf, .receiveLength, .receiveBody recvLen, .close])
        | some data => (some data, [.connect, .send requestBuf, .receiveLength, .receiveBody recvLen, .close])

end FrameworkCenter

/-- The two `process_task`, which differ in the mark that a slot has until a reply is complete. -/
def processTask (failed fwCalcRecvSize : Int32) (sendBuf : Bytes) (peer : Peer) : Slot × List FrameCall :=
  if !peer.connects then (⟨failed, []⟩, [.connect])
  else if !peer.takes then (⟨failed, []⟩, [.connect, .send sendBuf, .close])
  else
    match peer.lengthPrefix with
    | none => (⟨failed, []⟩, [.connect, .send sendBuf, .receiveLength, .close])
    | some rLen =>
      if fwCalcRecvSize < rLen + 4 then (⟨failed, []⟩, [.connect, .send sendBuf, .receiveLength, .close])
      else
        match peer.body rLen with
        | none => (⟨failed, []⟩, [.connect, .send sendBuf, .receiveLength, .receiveBody rLen, .close])
        | some data => (⟨rLen, data⟩, [.connect, .send sendBuf, .receiveLength, .receiveBody rLen, .close])

namespace QueryProcessor

def processTask : Int32 → Bytes → Peer → Slot × List FrameCall := ContentBased.processTask (-1)

end QueryProcessor

namespace UpdateProcessor

def processTask : Int32 → Bytes → Peer → Slot × List FrameCall := ContentBased.processTask 0

end UpdateProcessor

inductive Receiver where
  | recvRequest
  | threadListen
  | queryTask
  | updateTask
  | candidateQuery
deriving DecidableEq, Repr

namespace Receiver

/-- What a receiver with a configured buffer size calls a connection for. -/
def calls (receiver : Receiver) (size : Int32) (request : Bytes) (peer : Peer) : List FrameCall :=
  match receiver with
  | recvRequest => (FrameworkModule.recvRequestCalls size peer).2
  | threadListen => (FrameworkCenter.threadListen size peer).2
  | queryTask => (QueryProcessor.processTask size request peer).2
  | updateTask => (UpdateProcessor.processTask size request peer).2
  | candidateQuery => (FrameworkCenter.candidateQuery request size peer).2

/-- The bytes besides the body that a receiver needs in its buffer: a terminator or a header. -/
def overhead : Receiver → Int
  | recvRequest => 0
  | threadListen => 1
  | queryTask => 4
  | updateTask => 4
  | candidateQuery => 0

/-- Whatever else the peer does, the body is received only when it has a length and fits. -/
def Validates (receiver : Receiver) (size length : Int32) : Prop :=
  ∀ request peer, peer.lengthPrefix = some length → ∀ received, .receiveBody received ∈ receiver.calls size request peer →
    0 ≤ received.toInt ∧ received.toInt + receiver.overhead ≤ size.toInt

/-- When the test of a receiver does what it is for, in exact numbers. -/
def Tested (receiver : Receiver) (size length : Int32) : Prop :=
  match receiver with
  | recvRequest => 0 ≤ length.toInt ∨ size.toInt < length.toInt
  | threadListen => -2147483648 < size.toInt ∧ (0 ≤ length.toInt ∨ size.toInt ≤ length.toInt)
  | queryTask | updateTask =>
    if length.toInt + 4 < 2147483648 then 0 ≤ length.toInt ∨ size.toInt < length.toInt + 4
    else size.toInt < length.toInt + 4 - 4294967296
  | candidateQuery => 0 ≤ length.toInt ∨ size.toInt < length.toInt

/-- The test of a length prefix. -/
def Passes (receiver : Receiver) (size length : Int32) : Prop :=
  match receiver with
  | recvRequest => ¬ size < length
  | threadListen => ¬ size - 1 < length
  | queryTask | updateTask => ¬ size < length + 4
  | candidateQuery => ¬ size < length

theorem passes_of_receiveBody {receiver : Receiver} {size length received : Int32} {request : Bytes} {peer : Peer}
    (sent : peer.lengthPrefix = some length) (call : .receiveBody received ∈ receiver.calls size request peer) :
    received = length ∧ receiver.Passes size length := by
  obtain ⟨connects, takes, prefix_, body⟩ := peer
  obtain rfl : prefix_ = some length := sent
  cases receiver with
  | recvRequest =>
    simp only [calls, FrameworkModule.recvRequestCalls] at call
    split at call
    · simp at call
    split at call
    · simp at call
    split at call <;> exact ⟨by simpa using call, ‹_›⟩
  | threadListen =>
    simp only [calls, FrameworkCenter.threadListen] at call
    split at call
    · simp at call
    split at call
    · simp at call
    split at call <;> exact ⟨by simpa using call, ‹_›⟩
  | queryTask | updateTask =>
    simp only [calls, QueryProcessor.processTask, UpdateProcessor.processTask, processTask] at call
    split at call
    · simp at call
    split at call
    · simp at call
    split at call
    · simp at call
    split at call <;> exact ⟨by simpa using call, ‹_›⟩
  | candidateQuery =>
    simp only [calls, FrameworkCenter.candidateQuery] at call
    split at call
    · simp at call
    split at call
    · simp at call
    split at call
    · simp at call
    split at call <;> exact ⟨by simpa using call, ‹_›⟩

/-- A peer that is connected to and takes the request, and sends nothing but the prefix. -/
def sender (length : Int32) : Peer := ⟨true, true, some length, fun _ => none⟩

theorem receiveBody_of_passes {receiver : Receiver} {size length : Int32} (passes : receiver.Passes size length) :
    .receiveBody length ∈ receiver.calls size [] (sender length) := by
  cases receiver <;>
    simp only [Passes] at passes <;>
    simp [calls, sender, FrameworkModule.recvRequestCalls, FrameworkCenter.threadListen, QueryProcessor.processTask,
      UpdateProcessor.processTask, processTask, FrameworkCenter.candidateQuery, passes]

theorem validates_iff_of_passes (receiver : Receiver) (size length : Int32) :
    receiver.Validates size length ↔
      (receiver.Passes size length → 0 ≤ length.toInt ∧ length.toInt + receiver.overhead ≤ size.toInt) := by
  constructor
  · intro valid passes
    exact valid [] (sender length) rfl length (receiveBody_of_passes passes)
  · intro fits request peer sent received call
    obtain ⟨rfl, passes⟩ := passes_of_receiveBody sent call
    exact fits passes

/-- A receiver validates a length prefix exactly when its test does. -/
theorem validates_iff (receiver : Receiver) (size length : Int32) :
    receiver.Validates size length ↔ receiver.Tested size length := by
  rw [validates_iff_of_passes]
  have sizes := Wrapping.bounds size
  have lengths := Wrapping.bounds length
  cases receiver with
  | recvRequest | candidateQuery =>
    simp only [Passes, Tested, overhead, Int32.lt_iff_toInt_lt]
    omega
  | threadListen =>
    simp only [Passes, Tested, overhead, Int32.lt_iff_toInt_lt]
    obtain ⟨turns, difference⟩ := Wrapping.toInt_sub size 1
    have one : (1 : Int32).toInt = 1 := rfl
    have differences := Wrapping.bounds (size - 1)
    omega
  | queryTask | updateTask =>
    simp only [Passes, Tested, overhead, Int32.lt_iff_toInt_lt]
    obtain ⟨turns, sum⟩ := Wrapping.toInt_add length 4
    have four : (4 : Int32).toInt = 4 := rfl
    have sums := Wrapping.bounds (length + 4)
    split <;> omega

/-- The length -1 passes the test of every receiver. -/
theorem negative_length_is_received :
    ¬ recvRequest.Validates 100 (-1) ∧ ¬ threadListen.Validates 100 (-1) ∧ ¬ queryTask.Validates 100 (-1) ∧
      ¬ updateTask.Validates 100 (-1) ∧ ¬ candidateQuery.Validates 100 (-1) := by
  have received (receiver : Receiver) : ¬ receiver.Validates 100 (-1) := by
    intro valid
    have call : .receiveBody (-1) ∈ receiver.calls 100 [] ⟨true, true, some (-1), fun _ => none⟩ := by
      cases receiver <;> decide
    exact absurd (valid [] _ rfl (-1) call).1 (by decide)
  exact ⟨received _, received _, received _, received _, received _⟩

end Receiver

end ContentBased
