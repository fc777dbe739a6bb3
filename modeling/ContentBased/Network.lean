import ContentBased.Library.Wire

namespace ContentBased

abbrev Socket := Nat

/-- What the sockets are called for, where a call that fails to accept is left out. -/
inductive SocketCall where
  | accept (client : Socket)
  | send (client : Socket) (data : Bytes)
  | close (client : Socket)
deriving DecidableEq, Repr

/-- What comes of an accept, and of the two reads after it: the length and so many bytes. -/
inductive Arrival where
  | refused
  | accepted (client : Socket) (recvLen : Option Int32) (body : Option Bytes)
deriving DecidableEq, Repr

/-- How a message travels in an `Any`. -/
structure Packing (packed message : Type) where
  unpackTo : packed → Option message
  packFrom : message → packed

structure TransferRequest (packed : Type) where
  mainProtocol : Int32
  subProtocol : Int32
  protocol : packed
deriving DecidableEq, Repr

structure TransferRespond (packed : Type) where
  respondCode : Int32
  protocol : Option packed
deriving DecidableEq, Repr

/-- The generated classes of the messages, as far as the network thread calls them. -/
structure Messages where
  {Packed Action Item Subscribe Feedback Recommend User CandidateSetBase Category : Type}
  {CandidateSet UserStatus AlgorithmPower AlgorithmCategory : Type}
  action : Packing Packed Action
  item : Packing Packed Item
  subscribe : Packing Packed Subscribe
  feedback : Packing Packed Feedback
  recommend : Packing Packed Recommend
  user : Packing Packed User
  candidateSetBase : Packing Packed CandidateSetBase
  category : Packing Packed Category
  candidateSet : Packing Packed CandidateSet
  userStatus : Packing Packed UserStatus
  algorithmPower : Packing Packed AlgorithmPower
  algorithmCategory : Packing Packed AlgorithmCategory
  parseFromArray : Bytes → Option (TransferRequest Packed)
  byteSize : TransferRespond Packed → Nat
  serializeToArray : TransferRespond Packed → Int → Option Bytes

/-- A module with states `μ`. Its functions return a code, which is zero when they succeed. -/
structure FrameworkInterface (messages : Messages) (μ : Type) where
  updateAction : messages.Action → μ → Int32 × messages.Action × μ
  updateItem : messages.Item → μ → Int32 × μ
  updateSubscribe : messages.Subscribe → μ → Int32 × μ
  updateFeedback : messages.Feedback → μ → Int32 × μ
  queryAlgorithm : messages.CandidateSetBase → μ → Int32 × messages.AlgorithmPower × μ
  queryUserCategory : messages.Category → μ → Int32 × messages.AlgorithmCategory × μ
  queryCandidateSet : messages.Recommend → μ → Int32 × messages.CandidateSet × μ
  queryUserStatus : messages.User → μ → Int32 × messages.UserStatus × μ

namespace FrameworkModule

/-- The client and what it sent, unless one of the calls fails. -/
def recvRequest (recvMax : Int32) : Arrival → Option (Socket × Bytes) × List SocketCall
  | .refused => (none, [])
  | .accepted client none _ => (none, [.accept client, .close client])
  | .accepted client (some recvLen) body =>
    if recvMax < recvLen then (none, [.accept client, .close client])
    else
      match body with
      | none => (none, [.accept client, .close client])
      | some data => (some (client, data), [.accept client])

def sendRequest (client : Socket) (sendBuf : Bytes) : List SocketCall := [.send client sendBuf, .close client]

section
variable {messages : Messages} {μ message answer : Type}

/-- One query: what it is asked with, the function of the module and the code that `queryInterface` returns when it fails. -/
def query (unpacks : Packing messages.Packed message) (packs : Packing messages.Packed answer)
    (call : message → μ → Int32 × answer × μ) (failed : Int32) (request : TransferRequest messages.Packed)
    (respond : TransferRespond messages.Packed) (state : μ) : Int32 × TransferRespond messages.Packed × μ :=
  match unpacks.unpackTo request.protocol with
  | none => (failed, { respond with respondCode := -1000 }, state)
  | some message =>
    let (retVal, result, state) := call message state
    if retVal ≠ 0 then (failed, { respond with respondCode := retVal }, state)
    else (0, { respond with protocol := some (packs.packFrom result) }, state)

def queryInterface (module_ : FrameworkInterface messages μ) (request : TransferRequest messages.Packed)
    (respond : TransferRespond messages.Packed) (state : μ) : Int32 × TransferRespond messages.Packed × μ :=
  if request.subProtocol = 1 then
    query messages.recommend messages.candidateSet module_.queryCandidateSet (-1) request respond state
  else if request.subProtocol = 2 then
    query messages.user messages.userStatus module_.queryUserStatus (-2) request respond state
  else if request.subProtocol = 3 then
    query messages.candidateSetBase messages.algorithmPower module_.queryAlgorithm (-3) request respond state
  else if request.subProtocol = 4 then
    query messages.category messages.algorithmCategory module_.queryUserCategory (-4) request respond state
  else (-9, { respond with respondCode := -9000 }, state)

/-- One update that has no answer. -/
def update (unpacks : Packing messages.Packed message) (call : message → μ → Int32 × μ)
    (request : TransferRequest messages.Packed) (respond : TransferRespond messages.Packed) (state : μ) :
    TransferRespond messages.Packed × μ :=
  match unpacks.unpackTo request.protocol with
  | none => ({ respond with respondCode := -1000 }, state)
  | some message =>
    let (retVal, state) := call message state
    if retVal ≠ 0 then ({ respond with respondCode := retVal }, state) else (respond, state)

/-- The action is sent back as the module leaves it. -/
def updateAction (module_ : FrameworkInterface messages μ) (request : TransferRequest messages.Packed)
    (respond : TransferRespond messages.Packed) (state : μ) : TransferRespond messages.Packed × μ :=
  match messages.action.unpackTo request.protocol with
  | none => ({ respond with respondCode := -1000 }, state)
  | some action =>
    let (retVal, action, state) := module_.updateAction action state
    if retVal ≠ 0 then ({ respond with respondCode := retVal }, state)
    else ({ respond with protocol := some (messages.action.packFrom action) }, state)

/-- The switch over the protocols. -/
def respondTo (module_ : FrameworkInterface messages μ) (request : TransferRequest messages.Packed) (state : μ) :
    TransferRespond messages.Packed × μ :=
  let respond : TransferRespond messages.Packed := ⟨0, none⟩
  if request.mainProtocol = 1 then updateAction module_ request respond state
  else if request.mainProtocol = 2 then update messages.item module_.updateItem request respond state
  else if request.mainProtocol = 3 then update messages.subscribe module_.updateSubscribe request respond state
  else if request.mainProtocol = 4 then (queryInterface module_ request respond state).2
  else if request.mainProtocol = 6 then update messages.feedback module_.updateFeedback request respond state
  else ({ respond with respondCode := -9000 }, state)

/-- What is sent of a respond: its size and its bytes, or -1. -/
def sendBuffer (messageSize : Int32) (respond : TransferRespond messages.Packed) : Bytes :=
  let size := messages.byteSize respond
  if messageSize.toInt < 4 + size then Wire.rawInt (-1)
  else
    match messages.serializeToArray respond messageSize.toInt with
    | none => Wire.rawInt (-1)
    | some body => Wire.rawInt (Int32.ofInt size) ++ body

/-- One turn of the loop. A request that does not parse only goes to the log. -/
def networkTurn (module_ : FrameworkInterface messages μ) (messageSize : Int32) (arrival : Arrival) (state : μ) :
    List SocketCall × μ :=
  match recvRequest messageSize arrival with
  | (none, calls) => (calls, state)
  | (some (client, recvBuf), calls) =>
    match messages.parseFromArray recvBuf with
    | none => (calls, state)
    | some request =>
      let (respond, state) := respondTo module_ request state
      (calls ++ sendRequest client (sendBuffer messageSize respond), state)

/-- The turns of the loop: the state that each starts with, what arrives and what the sockets are called for. -/
def threadNetwork (module_ : FrameworkInterface messages μ) (messageSize : Int32) :
    List Arrival → μ → List (μ × Arrival × List SocketCall)
  | [], _ => []
  | arrival :: arrivals, state =>
    let (calls, after) := networkTurn module_ messageSize arrival state
    (state, arrival, calls) :: threadNetwork module_ messageSize arrivals after

end

end FrameworkModule

end ContentBased
