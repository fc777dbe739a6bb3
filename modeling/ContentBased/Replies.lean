import ContentBased.Network

namespace ContentBased

/-- What the generated class of the responds promises: the array gets as many bytes as it says, and they are
refused only when there is no room for them. -/
structure Messages.Sized (messages : Messages) : Prop where
  length : ∀ respond size bytes, messages.serializeToArray respond size = some bytes →
    bytes.length = messages.byteSize respond
  fits : ∀ respond (size : Int), messages.byteSize respond ≤ size → messages.serializeToArray respond size ≠ none

namespace FrameworkModule
open Wire

/-- A length and so many bytes, or -1 and nothing. -/
def IsFrame (frame : Bytes) : Prop :=
  ∃ length body, readRawInt frame = some (length, body) ∧ (length.toInt = body.length ∨ length = -1 ∧ body = [])

section
variable {messages : Messages} {μ : Type} {module_ : FrameworkInterface messages μ} {messageSize : Int32}

/-- A client that a request came from is sent one frame, which is -1 only when the respond to the request does not fit,
and is closed; and so is every client that no request came from. -/
structure OneReply (module_ : FrameworkInterface messages μ) (messageSize : Int32) (turn : μ × Arrival × List SocketCall) :
    Prop where
  replied : ∀ client data, (recvRequest messageSize turn.2.1).1 = some (client, data) →
    ∃ frame, turn.2.2 = [.accept client, .send client frame, .close client] ∧ IsFrame frame ∧
      ∀ request, messages.parseFromArray data = some request → ((∃ body, readRawInt frame = some (-1, body)) ↔
        messageSize.toInt < 4 + messages.byteSize (respondTo module_ request turn.1).1)
  closed : ∀ client, turn.2.2.count (.close client) = turn.2.2.count (.accept client)

/-- If the bytes of a client are received, they are a request. -/
def Understood (messages : Messages) (messageSize : Int32) (arrival : Arrival) : Prop :=
  ∀ client recvLen data, arrival = .accepted client (some recvLen) (some data) → ¬ messageSize < recvLen →
    messages.parseFromArray data ≠ none

theorem recvRequest_accepted {client : Socket} {recvLen : Int32} {data : Bytes} (fits : ¬ messageSize < recvLen) :
    recvRequest messageSize (.accepted client (some recvLen) (some data)) = (some (client, data), [.accept client]) := by
  rw [recvRequest, if_neg fits]

theorem recvRequest_inv {arrival : Arrival} {client : Socket} {data : Bytes}
    (received : (recvRequest messageSize arrival).1 = some (client, data)) :
    ∃ recvLen, arrival = .accepted client (some recvLen) (some data) ∧ ¬ messageSize < recvLen := by
  cases arrival with
  | refused => cases received
  | accepted client' recvLen body =>
    cases recvLen with
    | none => cases received
    | some recvLen =>
      simp only [recvRequest] at received
      split at received
      · cases received
      · rename_i fits
        cases body with
        | none => cases received
        | some data' =>
          cases received
          exact ⟨recvLen, rfl, fits⟩

/-- A client that nothing came from has been closed. -/
theorem recvRequest_failed {arrival : Arrival} (failed : (recvRequest messageSize arrival).1 = none) (client : Socket) :
    (recvRequest messageSize arrival).2.count (.close client) =
      (recvRequest messageSize arrival).2.count (.accept client) := by
  have closed (client' : Socket) : [SocketCall.accept client', .close client'].count (.close client) =
      [SocketCall.accept client', .close client'].count (.accept client) := by
    by_cases same : client' = client <;> simp [same]
  cases arrival with
  | refused => rfl
  | accepted client' recvLen body =>
    cases recvLen with
    | none => exact closed client'
    | some recvLen =>
      simp only [recvRequest] at failed ⊢
      split
      · exact closed client'
      · rename_i fits
        rw [if_neg fits] at failed
        cases body with
        | none => exact closed client'
        | some data => cases failed

theorem sendBuffer_frame (sized : messages.Sized) (respond : TransferRespond messages.Packed) :
    IsFrame (sendBuffer messageSize respond) ∧ ((∃ body, readRawInt (sendBuffer messageSize respond) = some (-1, body)) ↔
      messageSize.toInt < 4 + messages.byteSize respond) := by
  rw [sendBuffer]
  by_cases large : messageSize.toInt < 4 + messages.byteSize respond
  · simp only [if_pos large]
    have read := readRawInt_rawInt (-1) []
    rw [List.append_nil] at read
    exact ⟨⟨-1, [], read, .inr ⟨rfl, rfl⟩⟩, iff_of_true ⟨[], read⟩ large⟩
  · simp only [if_neg large]
    cases serialized : messages.serializeToArray respond messageSize.toInt with
    | none => exact absurd serialized (sized.fits respond _ (by omega))
    | some body =>
      have length := sized.length respond _ body serialized
      have bounded := messageSize.toInt_lt
      have value : (Int32.ofInt (messages.byteSize respond)).toInt = messages.byteSize respond :=
        Int32.toInt_ofInt_of_le (by omega) (by omega)
      have read := readRawInt_rawInt (Int32.ofInt (messages.byteSize respond)) body
      refine ⟨⟨_, body, read, .inl (by rw [value, length])⟩, iff_of_false ?_ large⟩
      rintro ⟨body', read'⟩
      rw [read] at read'
      have negative := congrArg Int32.toInt (Prod.mk.inj (Option.some.inj read')).1
      rw [value, show (-1 : Int32).toInt = -1 from rfl] at negative
      omega

/-- A turn has one reply for its client exactly when what it receives is a request. -/
theorem networkTurn_oneReply_iff (sized : messages.Sized) (arrival : Arrival) (state : μ) :
    OneReply module_ messageSize (state, arrival, (networkTurn module_ messageSize arrival state).1) ↔
      Understood messages messageSize arrival := by
  cases received : (recvRequest messageSize arrival).1 with
  | none =>
    have calls : (networkTurn module_ messageSize arrival state).1 = (recvRequest messageSize arrival).2 := by
      have nothing : recvRequest messageSize arrival = (none, (recvRequest messageSize arrival).2) := Prod.ext received rfl
      rw [networkTurn, nothing]
    refine iff_of_true ⟨fun client data same => ?_, fun client => ?_⟩ fun client recvLen data same fits => ?_
    · cases received.symm.trans same
    · rw [calls]
      exact recvRequest_failed received client
    · subst same
      rw [recvRequest_accepted fits] at received
      cases received
  | some pair =>
    obtain ⟨client, data⟩ := pair
    obtain ⟨recvLen, arrived, fits⟩ := recvRequest_inv received
    have accepted : recvRequest messageSize arrival = (some (client, data), [.accept client]) := by
      rw [arrived, recvRequest_accepted fits]
    cases parsed : messages.parseFromArray data with
    | none =>
      have calls : (networkTurn module_ messageSize arrival state).1 = [.accept client] := by
        simp only [networkTurn, accepted, parsed]
      refine iff_of_false (fun one => ?_) fun understood => understood client recvLen data arrived fits parsed
      have open_ := one.closed client
      rw [calls] at open_
      simp at open_
    | some request =>
      let respond := (respondTo module_ request state).1
      have calls : (networkTurn module_ messageSize arrival state).1 =
          [.accept client, .send client (sendBuffer messageSize respond), .close client] := by
        simp only [networkTurn, accepted, parsed]
        rfl
      refine iff_of_true ⟨fun client' data' same => ?_, fun client' => ?_⟩ fun client' recvLen' data' same _ => ?_
      · cases received.symm.trans same
        obtain ⟨frame, refused⟩ := @sendBuffer_frame messages messageSize sized respond
        refine ⟨_, calls, frame, fun request' parsed' => ?_⟩
        cases parsed.symm.trans parsed'
        exact refused
      · rw [calls]
        by_cases same : client = client' <;> simp [same]
      · cases arrived.symm.trans same
        rw [parsed]
        nofun

/-- Every client that was accepted in these turns has been closed. -/
def NoneOpen (turns : List (μ × Arrival × List SocketCall)) : Prop :=
  ∀ client, (turns.flatMap fun turn => turn.2.2).count (.close client) =
    (turns.flatMap fun turn => turn.2.2).count (.accept client)

theorem noneOpen {turns : List (μ × Arrival × List SocketCall)}
    (one : ∀ turn ∈ turns, OneReply module_ messageSize turn) : NoneOpen turns := by
  intro client
  induction turns with
  | nil => rfl
  | cons turn turns ih =>
    rw [List.forall_mem_cons] at one
    rw [List.flatMap_cons, List.count_append, List.count_append, one.1.closed, ih one.2]

theorem threadNetwork_oneReply_iff (sized : messages.Sized) (arrivals : List Arrival) (state : μ) :
    (∀ turn ∈ threadNetwork module_ messageSize arrivals state, OneReply module_ messageSize turn) ↔
      ∀ arrival ∈ arrivals, Understood messages messageSize arrival := by
  induction arrivals generalizing state with
  | nil => simp [threadNetwork]
  | cons arrival arrivals ih =>
    rw [threadNetwork, List.forall_mem_cons, List.forall_mem_cons, networkTurn_oneReply_iff sized, ih]

/-- Over any sequence of arrivals each turn has one reply for its client, and none is open at the head of the loop, exactly
when all that is received are requests. -/
theorem one_reply_per_connection_iff (sized : messages.Sized) (arrivals : List Arrival) (state : μ) :
    ((∀ turn ∈ threadNetwork module_ messageSize arrivals state, OneReply module_ messageSize turn) ∧
        ∀ turns, turns <+: threadNetwork module_ messageSize arrivals state → NoneOpen turns) ↔
      ∀ arrival ∈ arrivals, Understood messages messageSize arrival := by
  rw [← threadNetwork_oneReply_iff sized arrivals state]
  refine and_iff_left_of_imp fun one turns front => ?_
  exact noneOpen fun turn member => one turn (front.subset member)

end

/-- The bytes of a respond without a message: its code as the first field. -/
def codeBytes (respond : TransferRespond Unit) : Bytes :=
  if respond.respondCode = 0 then [] else 8 :: writeInt32 respond.respondCode

/-- An empty `Any`, which no message can be unpacked from. -/
def empty : Packing Unit Unit := ⟨fun _ => none, fun _ => ()⟩

/-- Of the requests, these messages know the empty one, whose fields all have their defaults. -/
def emptyMessages : Messages where
  action := empty
  item := empty
  subscribe := empty
  feedback := empty
  recommend := empty
  user := empty
  candidateSetBase := empty
  category := empty
  candidateSet := empty
  userStatus := empty
  algorithmPower := empty
  algorithmCategory := empty
  parseFromArray data := if data = [] then some ⟨0, 0, ()⟩ else none
  byteSize respond := (codeBytes respond).length
  serializeToArray respond size := if (codeBytes respond).length ≤ size then some (codeBytes respond) else none

theorem emptyMessages_sized : emptyMessages.Sized where
  length respond size bytes serialized := by
    simp only [emptyMessages, Option.ite_none_right_eq_some, Option.some.injEq] at serialized
    rw [← serialized.2]
    rfl
  fits respond size room := by
    have room' : ((codeBytes respond).length : Int) ≤ size := room
    simp [emptyMessages, room']

/-- The module of which the interface gives the functions. -/
def defaultModule : FrameworkInterface emptyMessages Unit where
  updateAction action state := (0, action, state)
  updateItem _ state := (0, state)
  updateSubscribe _ state := (0, state)
  updateFeedback _ state := (0, state)
  queryAlgorithm _ state := (-999, (), state)
  queryUserCategory _ state := (-999, (), state)
  queryCandidateSet _ state := (-999, (), state)
  queryUserStatus _ state := (-999, (), state)

theorem empty_request_has_one_reply :
    (threadNetwork defaultModule 1024 [.accepted 3 (some 0) (some [])] ()).length = 1 ∧
      (∀ turn ∈ threadNetwork defaultModule 1024 [.accepted 3 (some 0) (some [])] (), OneReply defaultModule 1024 turn) ∧
      ∀ turns, turns <+: threadNetwork defaultModule 1024 [.accepted 3 (some 0) (some [])] () → NoneOpen turns := by
  refine ⟨rfl, (one_reply_per_connection_iff emptyMessages_sized [.accepted 3 (some 0) (some [])] ()).mpr ?_⟩
  intro arrival member client recvLen data same _
  cases (List.mem_singleton.mp member).symm.trans same
  nofun

/-- A client whose bytes do not parse is neither answered nor closed. -/
theorem unparsable_request_leaves_client_open :
    threadNetwork defaultModule 1024 [.accepted 3 (some 1) (some [255])] () =
        [((), .accepted 3 (some 1) (some [255]), [.accept 3])] ∧
      ¬ OneReply defaultModule 1024 ((), .accepted 3 (some 1) (some [255]), [.accept 3]) ∧
      ¬ NoneOpen (threadNetwork defaultModule 1024 [.accepted 3 (some 1) (some [255])] ()) := by
  refine ⟨rfl, fun one => ?_, fun none_ => ?_⟩
  · have open_ := one.closed 3
    simp at open_
  · have open_ := none_ 3
    revert open_
    decide

end FrameworkModule

end ContentBased
