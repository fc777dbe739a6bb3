import ContentBased.Library.Conversations
import ContentBased.Network
import ContentBased.TaskReplies

namespace ContentBased.FrameworkCenter
open Conversations Jparse Wire

/-- The memory of a request: whose it is, the message that was made of it and what is to be sent. -/
structure TaskNode where
  client : Socket
  parseBuf : Bytes
  sendBufs : List Bytes

/-- Where a thread of `thread_listen` or `thread_process` stands, or what waits in the queue. A listening thread has
accepted a client, has the memory for its request, has a message, has met an error, and has then given the memory back. A
processing thread has taken a request, has made the reply and sent a part of it, and has closed the client. -/
inductive Stage (Node : Type) where
  | listening
  | accepted (client : Socket)
  | holding (client : Socket) (node : Node)
  | parsed (client : Socket) (node : Node)
  | failed (client : Socket) (node : Node)
  | freed (client : Socket)
  | queued (node : Node)
  | waiting
  | popped (node : Node)
  | sending (node : Node) (sent : Nat)
  | closed (node : Node)

/-- What a client is called for. -/
inductive ClientCall where
  | accept
  | request (parseBuf : Bytes)
  | send (data : Bytes)
  | close

/-- The threads, the queue between them, the memory that is handed out and the one that is not, the sockets that are open
and all calls so far. -/
structure Tasks (Node : Type) where
  threads : Multiset (Stage Node)
  taskQueue : List Node
  memory : Node → TaskNode
  free : Set Node
  sockets : Set Socket
  calls : List (Socket × ClientCall)

variable {Node : Type}

/-- A step of one of the threads. What a request is accepted for is left open. -/
inductive Tasks.Step [DecidableEq Node] (accepts : Bytes → Prop) : Tasks Node → Tasks Node → Prop
  | accept {tasks others client} (here : tasks.threads = .listening ::ₘ others) (fresh : client ∉ tasks.sockets) :
      Step accepts tasks { tasks with
        threads := .accepted client ::ₘ others
        sockets := insert client tasks.sockets
        calls := tasks.calls ++ [(client, .accept)] }
  | getTaskNode {tasks others client node} (here : tasks.threads = .accepted client ::ₘ others) (free : node ∈ tasks.free) :
      Step accepts tasks { tasks with
        threads := .holding client node ::ₘ others
        memory := Function.update tasks.memory node { tasks.memory node with client, sendBufs := [] }
        free := tasks.free \ {node} }
  | parse {tasks others client node parseBuf} (here : tasks.threads = .holding client node ::ₘ others)
      (accepted : accepts parseBuf) :
      Step accepts tasks { tasks with
        threads := .parsed client node ::ₘ others
        memory := Function.update tasks.memory node { tasks.memory node with parseBuf }
        calls := tasks.calls ++ [(client, .request parseBuf)] }
  | refuse {tasks others client node parseBuf} (here : tasks.threads = .holding client node ::ₘ others) :
      Step accepts tasks { tasks with
        threads := .failed client node ::ₘ others
        memory := Function.update tasks.memory node { tasks.memory node with parseBuf } }
  | pushData {tasks others client node} (here : tasks.threads = .parsed client node ::ₘ others) :
      Step accepts tasks { tasks with
        threads := .listening ::ₘ others
        taskQueue := tasks.taskQueue ++ [node] }
  | putRefused {tasks others client node} (here : tasks.threads = .failed client node ::ₘ others) :
      Step accepts tasks { tasks with
        threads := .freed client ::ₘ others
        free := insert node tasks.free }
  | closeRefused {tasks others client} (here : tasks.threads = .freed client ::ₘ others) :
      Step accepts tasks { tasks with
        threads := .listening ::ₘ others
        sockets := tasks.sockets \ {client}
        calls := tasks.calls ++ [(client, .close)] }
  | popData {tasks others node later} (here : tasks.threads = .waiting ::ₘ others)
      (first : tasks.taskQueue = node :: later) :
      Step accepts tasks { tasks with
        threads := .popped node ::ₘ others
        taskQueue := later }
  | process {tasks others node outcome} (here : tasks.threads = .popped node ::ₘ others)
      (processed : Processed (typeFlg (tasks.memory node).parseBuf) outcome) :
      Step accepts tasks { tasks with
        threads := .sending node 0 ::ₘ others
        memory := Function.update tasks.memory node
          { tasks.memory node with sendBufs := sends (typeFlg (tasks.memory node).parseBuf) outcome } }
  | sendbuf {tasks others node sent data} (here : tasks.threads = .sending node sent ::ₘ others)
      (next : (tasks.memory node).sendBufs[sent]? = some data) :
      Step accepts tasks { tasks with
        threads := .sending node (sent + 1) ::ₘ others
        calls := tasks.calls ++ [((tasks.memory node).client, .send data)] }
  | closeSocket {tasks others node sent} (here : tasks.threads = .sending node sent ::ₘ others)
      (all : (tasks.memory node).sendBufs.length ≤ sent) :
      Step accepts tasks { tasks with
        threads := .closed node ::ₘ others
        sockets := tasks.sockets \ {(tasks.memory node).client}
        calls := tasks.calls ++ [((tasks.memory node).client, .close)] }
  | putTaskNode {tasks others node} (here : tasks.threads = .closed node ::ₘ others) :
      Step accepts tasks { tasks with
        threads := .waiting ::ₘ others
        free := insert node tasks.free }

namespace Stage

def node? : Stage Node → Option Node
  | holding _ node | parsed _ node | failed _ node | queued node | popped node | sending node _ | closed node => some node
  | _ => none

/-- The client that is open, and what it was called for since it was accepted. -/
def pending? (memory : Node → TaskNode) : Stage Node → Option (Socket × List ClientCall)
  | accepted client | holding client _ | failed client _ | freed client => some (client, [.accept])
  | parsed client node => some (client, [.accept, .request (memory node).parseBuf])
  | queued node | popped node => some ((memory node).client, [.accept, .request (memory node).parseBuf])
  | sending node sent => some ((memory node).client,
      [.accept, .request (memory node).parseBuf] ++ ((memory node).sendBufs.take sent).map .send)
  | _ => none

def idle : Stage Node → Bool
  | listening | waiting => true
  | _ => false

/-- A thread counts while it is at work. -/
def active (stage : Stage Node) : Multiset (Stage Node) := if stage.idle then 0 else {stage}

/-- What a thread relies on at a stage: the memory is that of its client, the message is one that was accepted, and what is
sent is the reply to it. -/
def Fine (accepts : Bytes → Prop) (memory : Node → TaskNode) : Stage Node → Prop
  | holding client node => (memory node).client = client
  | parsed client node => (memory node).client = client ∧ accepts (memory node).parseBuf
  | queued node | popped node => accepts (memory node).parseBuf
  | sending node _ => ∃ outcome, Processed (typeFlg (memory node).parseBuf) outcome ∧
      (memory node).sendBufs = sends (typeFlg (memory node).parseBuf) outcome
  | _ => True

variable {accepts : Bytes → Prop} {memory memory' : Node → TaskNode} {stage : Stage Node}

theorem pending?_congr (agree : ∀ node ∈ stage.node?, memory' node = memory node) :
    stage.pending? memory' = stage.pending? memory := by
  cases stage with
  | listening | accepted | holding | failed | freed | waiting | closed => rfl
  | parsed client node => rw [pending?, pending?, agree node rfl]
  | queued node => rw [pending?, pending?, agree node rfl]
  | popped node => rw [pending?, pending?, agree node rfl]
  | sending node sent => rw [pending?, pending?, agree node rfl]

theorem Fine.congr (fine : stage.Fine accepts memory) (agree : ∀ node ∈ stage.node?, memory' node = memory node) :
    stage.Fine accepts memory' := by
  cases stage with
  | listening | accepted | failed | freed | waiting | closed => trivial
  | holding client node => rwa [Fine, agree node rfl]
  | parsed client node => rwa [Fine, agree node rfl]
  | queued node => rwa [Fine, agree node rfl]
  | popped node => rwa [Fine, agree node rfl]
  | sending node sent => rwa [Fine, agree node rfl]

theorem filterMap_active {α : Type} {f : Stage Node → Option α} (nothing : stage.idle = true → f stage = none)
    (rest : Multiset (Stage Node)) :
    (stage.active + rest).filterMap f = ((f stage).map singleton).getD 0 + rest.filterMap f := by
  rw [← Multiset.filterMap_cons, active]
  split
  · rename_i idle
    rw [zero_add, Multiset.filterMap_cons, nothing idle, Option.map_none, Option.getD_none, zero_add]
  · rw [Multiset.singleton_add]

/-- What is pending depends on the memory that the stages have. -/
theorem filterMap_pending?_congr {stages : Multiset (Stage Node)}
    (agree : ∀ node ∈ stages.filterMap node?, memory' node = memory node) :
    stages.filterMap (pending? memory') = stages.filterMap (pending? memory) := by
  induction stages using Multiset.induction with
  | empty => rfl
  | cons stage rest ih =>
    have here : ∀ node ∈ stage.node?, memory' node = memory node := fun node held =>
      agree node ((Multiset.mem_filterMap _ _).mpr ⟨stage, Multiset.mem_cons_self .., held⟩)
    have later : ∀ node ∈ rest.filterMap node?, memory' node = memory node := by
      intro node member
      obtain ⟨other, within, held⟩ := (Multiset.mem_filterMap _ _).mp member
      exact agree node ((Multiset.mem_filterMap _ _).mpr ⟨other, Multiset.mem_cons_of_mem within, held⟩)
    rw [Multiset.filterMap_cons, Multiset.filterMap_cons, pending?_congr here, ih later]

end Stage

/-- A whole session of a client: one that is refused, or one with a request and one frame that answers it. -/
inductive Session : List ClientCall → Prop
  | refused : Session [.accept, .close]
  | answered {parseBuf sent} (answers : Answers (typeFlg parseBuf) sent) :
      Session ([.accept, .request parseBuf] ++ (sent.map .send ++ [.close]))

namespace Tasks

/-- The threads that are at work, and the requests that wait between them. -/
def busyOf (threads : Multiset (Stage Node)) (taskQueue : List Node) : Multiset (Stage Node) :=
  threads.filter (fun stage => stage.idle = false) + (taskQueue.map Stage.queued : List (Stage Node))

def busy (tasks : Tasks Node) : Multiset (Stage Node) := busyOf tasks.threads tasks.taskQueue

/-- The memory that is handed out. -/
def nodes (tasks : Tasks Node) : Multiset Node := tasks.busy.filterMap Stage.node?

def pending (tasks : Tasks Node) : Multiset (Socket × List ClientCall) := tasks.busy.filterMap (Stage.pending? tasks.memory)

def board (tasks : Tasks Node) : Board Socket ClientCall := ⟨tasks.pending, tasks.calls⟩

section Busy
variable {threads : Multiset (Stage Node)} {stage : Stage Node} {taskQueue : List Node} {node : Node}

theorem busyOf_cons : busyOf (stage ::ₘ threads) taskQueue = stage.active + busyOf threads taskQueue := by
  rw [busyOf, busyOf, ← Multiset.singleton_add, Multiset.filter_add, add_assoc]
  cases idle : stage.idle with
  | true => rw [Multiset.filter_singleton, if_neg (by simp [idle]), Stage.active, if_pos idle]; rfl
  | false => rw [Multiset.filter_singleton, if_pos idle, Stage.active, if_neg (by simp [idle])]

theorem active_of_idle (idle : stage.idle = true) : stage.active = 0 := if_pos idle

theorem busyOf_push : busyOf threads (taskQueue ++ [node]) = (Stage.queued node).active + busyOf threads taskQueue := by
  rw [busyOf, busyOf, List.map_append, ← Multiset.coe_add, ← add_assoc, add_comm]
  rfl

theorem busyOf_pop : busyOf threads (node :: taskQueue) = (Stage.queued node).active + busyOf threads taskQueue := by
  rw [busyOf, busyOf, List.map_cons, ← Multiset.cons_coe, ← Multiset.singleton_add, add_left_comm]
  rfl

end Busy

/-- Memory is handed out once or free. -/
structure Allocated (nodes : Multiset Node) (free : Set Node) : Prop where
  alone : nodes.Nodup
  free_iff : ∀ node, node ∈ free ↔ node ∉ nodes

/-- A step keeps the memory that a stage has, or takes some, or gives it back. -/
inductive Allocation : Option Node → Option Node → Set Node → Set Node → Prop
  | same {held free} : Allocation held held free free
  | take {node free} (unused : node ∈ free) : Allocation none (some node) free (free \ {node})
  | give {node free} : Allocation (some node) none free (insert node free)

theorem Allocated.step {held held' : Option Node} {nodes : Multiset Node} {free free' : Set Node}
    (allocated : Allocated ((held.map singleton).getD 0 + nodes) free) (taken : Allocation held held' free free') :
    Allocated ((held'.map singleton).getD 0 + nodes) free' := by
  cases taken with
  | same => exact allocated
  | @take node free unused =>
    rw [Option.map_none, Option.getD_none, zero_add] at allocated
    refine ⟨Multiset.nodup_cons.mpr ⟨(allocated.free_iff node).mp unused, allocated.alone⟩, fun other => ?_⟩
    rw [Option.map_some, Option.getD_some, Multiset.singleton_add, Set.mem_sdiff, Set.mem_singleton_iff, Multiset.mem_cons,
      not_or, allocated.free_iff, and_comm]
  | @give node free =>
    obtain ⟨used, alone⟩ := Multiset.nodup_cons.mp allocated.alone
    rw [Option.map_none, Option.getD_none, zero_add]
    refine ⟨alone, fun other => ?_⟩
    rw [Set.mem_insert_iff, allocated.free_iff, Option.map_some, Option.getD_some, Multiset.singleton_add,
      Multiset.mem_cons, not_or]
    constructor
    · rintro (rfl | ⟨-, unused⟩)
      · exact used
      · exact unused
    · intro unused
      by_cases same : other = node
      · exact .inl same
      · exact .inr ⟨same, unused⟩

/-- Memory is handed out once or free, the clients that are pending are open, and each stage has what it relies on. -/
structure Sound (accepts : Bytes → Prop) (tasks : Tasks Node) : Prop where
  allocated : Allocated tasks.nodes tasks.free
  opened : ∀ client ∈ tasks.pending.map Prod.fst, client ∈ tasks.sockets
  fine : ∀ stage ∈ tasks.busy, stage.Fine accepts tasks.memory

section Moves
variable {accepts : Bytes → Prop} {tasks after : Tasks Node} {stage next : Stage Node} {rest : Multiset (Stage Node)}
  {node : Node} {client : Socket} {events : List ClientCall} {event : ClientCall}

theorem nodes_of (here : tasks.busy = stage.active + rest) :
    tasks.nodes = (stage.node?.map singleton).getD 0 + rest.filterMap Stage.node? := by
  rw [nodes, here, Stage.filterMap_active (fun idle => by cases stage <;> first | rfl | cases idle)]

theorem pending_of (here : tasks.busy = stage.active + rest) :
    tasks.pending =
      ((stage.pending? tasks.memory).map singleton).getD 0 + rest.filterMap (Stage.pending? tasks.memory) := by
  rw [pending, here, Stage.filterMap_active (fun idle => by cases stage <;> first | rfl | cases idle)]

theorem busy_of {others : Multiset (Stage Node)} (here : tasks.threads = stage ::ₘ others) :
    tasks.busy = stage.active + busyOf others tasks.taskQueue := by
  rw [busy, here, busyOf_cons]

theorem update_of_notMem [DecidableEq Node] {memory : Node → TaskNode} {value : TaskNode} {nodes : Multiset Node}
    (apart : node ∉ nodes) : ∀ held ∈ nodes, Function.update memory node value held = memory held :=
  fun _ member => Function.update_of_ne (fun same => apart (by rwa [same] at member)) ..

theorem Sound.here (sound : Sound accepts tasks) (here : tasks.busy = stage.active + rest) :
    stage.Fine accepts tasks.memory := by
  cases idle : stage.idle with
  | true => cases stage <;> trivial
  | false =>
    refine sound.fine stage ?_
    rw [here, Stage.active, if_neg (by simp [idle])]
    exact Multiset.mem_add.mpr (.inl (Multiset.mem_singleton_self stage))

/-- The memory of a stage is none of the others'. -/
theorem Sound.notMem_rest (sound : Sound accepts tasks) (here : tasks.busy = stage.active + rest)
    (held : stage.node? = some node) : node ∉ rest.filterMap Stage.node? := by
  have alone := sound.allocated.alone
  rw [nodes_of here, held] at alone
  exact (Multiset.nodup_cons.mp alone).1

/-- One stage becomes another, and the memory of the others stays. -/
structure Move (tasks after : Tasks Node) (stage next : Stage Node) (rest : Multiset (Stage Node)) : Prop where
  before : tasks.busy = stage.active + rest
  behind : after.busy = next.active + rest
  memory : ∀ node ∈ rest.filterMap Stage.node?, after.memory node = tasks.memory node
  allocation : Allocation stage.node? next.node? tasks.free after.free

namespace Move

theorem fine (move : Move tasks after stage next rest) (sound : Sound accepts tasks)
    (fine : next.Fine accepts after.memory) : ∀ stage ∈ after.busy, stage.Fine accepts after.memory := by
  intro other member
  rw [move.behind] at member
  rcases Multiset.mem_add.mp member with same | member
  · rw [Stage.active] at same
    split at same
    · exact absurd same (Multiset.notMem_zero _)
    · rwa [Multiset.mem_singleton.mp same]
  · refine (sound.fine other (move.before ▸ Multiset.mem_add.mpr (.inr member))).congr fun node held => ?_
    exact move.memory node ((Multiset.mem_filterMap _ _).mpr ⟨other, member, held⟩)

theorem allocated (move : Move tasks after stage next rest) (sound : Sound accepts tasks) :
    Allocated after.nodes after.free := by
  rw [nodes_of move.behind]
  exact (nodes_of move.before ▸ sound.allocated).step move.allocation

/-- A step that calls no client. -/
theorem keep (move : Move tasks after stage next rest) (sound : Sound accepts tasks)
    (same : next.pending? after.memory = stage.pending? tasks.memory) (sockets : after.sockets = tasks.sockets)
    (calls : after.calls = tasks.calls) (fine : next.Fine accepts after.memory) :
    Sound accepts after ∧ Conversations.Step Session tasks.board after.board := by
  have kept : after.pending = tasks.pending := by
    rw [pending_of move.before, pending_of move.behind, same, Stage.filterMap_pending?_congr move.memory]
  refine ⟨⟨move.allocated sound, ?_, move.fine sound fine⟩, ?_⟩
  · rw [kept, sockets]
    exact sound.opened
  · rw [board, board, kept, calls]
    exact .rest

/-- A step that accepts a client. -/
theorem begin_ (move : Move tasks after stage next rest) (sound : Sound accepts tasks)
    (before : stage.pending? tasks.memory = none) (behind : next.pending? after.memory = some (client, [event]))
    (fresh : client ∉ tasks.sockets) (sockets : after.sockets = insert client tasks.sockets)
    (calls : after.calls = tasks.calls ++ [(client, event)]) (fine : next.Fine accepts after.memory)
    (begun : Begun Session [event]) : Sound accepts after ∧ Conversations.Step Session tasks.board after.board := by
  have opened : after.pending = (client, [event]) ::ₘ tasks.pending := by
    rw [pending_of move.behind, pending_of move.before, behind, before, Stage.filterMap_pending?_congr move.memory,
      Option.map_none, Option.getD_none, zero_add]
    rfl
  refine ⟨⟨move.allocated sound, fun other member => ?_, move.fine sound fine⟩, ?_⟩
  · rw [opened, Multiset.map_cons, Multiset.mem_cons] at member
    rw [sockets]
    exact member.imp id (sound.opened other)
  · rw [board, board, opened, calls]
    exact .start (fun member => fresh (sound.opened client member)) begun

/-- A step that calls a client which stays open. -/
theorem call (move : Move tasks after stage next rest) (sound : Sound accepts tasks)
    (before : stage.pending? tasks.memory = some (client, events))
    (behind : next.pending? after.memory = some (client, events ++ [event])) (sockets : after.sockets = tasks.sockets)
    (calls : after.calls = tasks.calls ++ [(client, event)]) (fine : next.Fine accepts after.memory)
    (begun : Begun Session (events ++ [event])) :
    Sound accepts after ∧ Conversations.Step Session tasks.board after.board := by
  have was : tasks.pending = (client, events) ::ₘ rest.filterMap (Stage.pending? tasks.memory) := by
    rw [pending_of move.before, before]
    rfl
  have is_ : after.pending = (client, events ++ [event]) ::ₘ rest.filterMap (Stage.pending? tasks.memory) := by
    rw [pending_of move.behind, behind, Stage.filterMap_pending?_congr move.memory]
    rfl
  refine ⟨⟨move.allocated sound, ?_, move.fine sound fine⟩, ?_⟩
  · have opened := sound.opened
    rw [was, Multiset.map_cons] at opened
    rw [is_, sockets, Multiset.map_cons]
    exact opened
  · rw [board, board, was, is_, calls]
    exact .next begun

/-- A step that closes a client. -/
theorem close (move : Move tasks after stage next rest) (kept : InSessions Session tasks.board) (sound : Sound accepts tasks)
    (before : stage.pending? tasks.memory = some (client, events)) (behind : next.pending? after.memory = none)
    (sockets : after.sockets = tasks.sockets \ {client}) (calls : after.calls = tasks.calls ++ [(client, event)])
    (fine : next.Fine accepts after.memory)
    (ended : Session (events ++ [event])) : Sound accepts after ∧ Conversations.Step Session tasks.board after.board := by
  have was : tasks.pending = (client, events) ::ₘ rest.filterMap (Stage.pending? tasks.memory) := by
    rw [pending_of move.before, before]
    rfl
  have is_ : after.pending = rest.filterMap (Stage.pending? tasks.memory) := by
    rw [pending_of move.behind, behind, Stage.filterMap_pending?_congr move.memory, Option.map_none, Option.getD_none,
      zero_add]
  refine ⟨⟨move.allocated sound, fun other member => ?_, move.fine sound fine⟩, ?_⟩
  · have alone := kept.alone
    have opened := sound.opened other
    rw [board, was, Multiset.map_cons] at alone
    rw [was, Multiset.map_cons] at opened
    rw [is_] at member
    rw [sockets]
    refine ⟨opened (Multiset.mem_cons_of_mem member), ?_⟩
    rintro rfl
    exact (Multiset.nodup_cons.mp alone).1 member
  · rw [board, board, was, is_, calls]
    exact .finish ended

end Move

end Moves

section Sessions
variable {parseBuf : Bytes} {outcome : Option Bytes}

theorem begun_accept : Begun Session [.accept] := ⟨[.close], List.cons_ne_nil _ _, .refused⟩

theorem begun_sends (processed : Processed (typeFlg parseBuf) outcome) (sent : Nat) :
    Begun Session ([.accept, .request parseBuf] ++ ((sends (typeFlg parseBuf) outcome).take sent).map .send) := by
  refine ⟨((sends (typeFlg parseBuf) outcome).drop sent).map .send ++ [.close], by simp, ?_⟩
  rw [List.append_assoc, ← List.append_assoc (List.map _ _), ← List.map_append, List.take_append_drop]
  exact .answered (answers_sends processed)

theorem begun_request (known : typeFlg parseBuf ∈ [(1 : Int32), 2, 3, 4, 5, 6]) :
    Begun Session [.accept, .request parseBuf] := by
  obtain ⟨outcome, processed⟩ := exists_processed known
  exact begun_sends processed 0

end Sessions

/-- A step of a thread is a step of the conversations with the clients, and keeps what the threads rely on. -/
theorem step [DecidableEq Node] {accepts : Bytes → Prop} {tasks after : Tasks Node}
    (known : ∀ parseBuf, accepts parseBuf → typeFlg parseBuf ∈ [(1 : Int32), 2, 3, 4, 5, 6])
    (kept : InSessions Session tasks.board) (sound : Sound accepts tasks) (taken : Step accepts tasks after) :
    Sound accepts after ∧ Conversations.Step Session tasks.board after.board := by
  cases taken with
  | @accept others client here fresh =>
    have before := busy_of here
    refine Move.begin_ (?_ : Move tasks _ .listening (.accepted client) (busyOf others tasks.taskQueue)) sound rfl rfl fresh
      rfl rfl trivial begun_accept
    exact ⟨before, busyOf_cons, fun _ _ => rfl, .same⟩
  | @getTaskNode others client node here unused =>
    have before := busy_of here
    have apart : node ∉ (busyOf others tasks.taskQueue).filterMap Stage.node? := by
      have absent := (sound.allocated.free_iff node).mp unused
      have without : (Stage.accepted client : Stage Node).node? = none := rfl
      rwa [nodes_of before, without, Option.map_none, Option.getD_none, zero_add] at absent
    refine Move.keep (?_ : Move tasks _ (.accepted client) (.holding client node) (busyOf others tasks.taskQueue))
      sound rfl rfl rfl ?_
    · exact ⟨before, busyOf_cons, update_of_notMem apart, .take unused⟩
    · simp [Stage.Fine]
  | @parse others client node parseBuf here accepted =>
    have before := busy_of here
    have apart := sound.notMem_rest before rfl
    have owner := sound.here before
    refine Move.call (?_ : Move tasks _ (.holding client node) (.parsed client node) (busyOf others tasks.taskQueue))
      sound rfl ?_ rfl rfl ?_ (begun_request (known parseBuf accepted))
    · exact ⟨before, busyOf_cons, update_of_notMem apart, .same⟩
    · simp [Stage.pending?]
    · simpa [Stage.Fine] using ⟨owner, accepted⟩
  | @refuse others client node parseBuf here =>
    have before := busy_of here
    have apart := sound.notMem_rest before rfl
    refine Move.keep (?_ : Move tasks _ (.holding client node) (.failed client node) (busyOf others tasks.taskQueue))
      sound rfl rfl rfl trivial
    exact ⟨before, busyOf_cons, update_of_notMem apart, .same⟩
  | @pushData others client node here =>
    have before := busy_of here
    obtain ⟨owner, accepted⟩ := sound.here before
    refine Move.keep (?_ : Move tasks _ (.parsed client node) (.queued node) (busyOf others tasks.taskQueue))
      sound ?_ rfl rfl accepted
    · exact ⟨before, by rw [busy, busyOf_cons, busyOf_push, active_of_idle rfl, zero_add], fun _ _ => rfl, .same⟩
    · rw [← owner]
      rfl
  | @putRefused others client node here =>
    have before := busy_of here
    refine Move.keep (?_ : Move tasks _ (.failed client node) (.freed client) (busyOf others tasks.taskQueue))
      sound rfl rfl rfl trivial
    exact ⟨before, busyOf_cons, fun _ _ => rfl, .give⟩
  | @closeRefused others client here =>
    have before := busy_of here
    refine Move.close (?_ : Move tasks _ (.freed client) .listening (busyOf others tasks.taskQueue))
      kept sound rfl rfl rfl rfl trivial .refused
    exact ⟨before, busyOf_cons, fun _ _ => rfl, .same⟩
  | @popData others node later here first =>
    have before : tasks.busy = (Stage.queued node).active + busyOf others later := by
      rw [busy, here, first, busyOf_cons, busyOf_pop, active_of_idle rfl, zero_add]
    have accepted := sound.here before
    refine Move.keep (?_ : Move tasks _ (.queued node) (.popped node) (busyOf others later))
      sound rfl rfl rfl accepted
    exact ⟨before, busyOf_cons, fun _ _ => rfl, .same⟩
  | @process others node outcome here processed =>
    have before := busy_of here
    have apart := sound.notMem_rest before rfl
    refine Move.keep (?_ : Move tasks _ (.popped node) (.sending node 0) (busyOf others tasks.taskQueue))
      sound ?_ rfl rfl ?_
    · exact ⟨before, busyOf_cons, update_of_notMem apart, .same⟩
    · simp [Stage.pending?]
    · simpa [Stage.Fine] using ⟨outcome, processed, rfl⟩
  | @sendbuf others node sent data here next =>
    have before := busy_of here
    have reply := sound.here before
    obtain ⟨outcome, processed, bufs⟩ := id reply
    have longer : (((tasks.memory node).sendBufs.take (sent + 1)).map ClientCall.send) =
        ((tasks.memory node).sendBufs.take sent).map .send ++ [.send data] := by
      rw [List.take_add_one, next, Option.toList_some, List.map_append, List.map_singleton]
    refine Move.call (?_ : Move tasks _ (.sending node sent) (.sending node (sent + 1)) (busyOf others tasks.taskQueue))
      sound rfl ?_ rfl rfl reply ?_
    · exact ⟨before, busyOf_cons, fun _ _ => rfl, .same⟩
    · rw [Stage.pending?, longer, List.append_assoc]
    · rw [List.append_assoc, ← longer, bufs]
      exact begun_sends processed (sent + 1)
  | @closeSocket others node sent here all =>
    have before := busy_of here
    obtain ⟨outcome, processed, bufs⟩ := sound.here before
    refine Move.close (?_ : Move tasks _ (.sending node sent) (.closed node) (busyOf others tasks.taskQueue))
      kept sound rfl rfl rfl rfl trivial ?_
    · exact ⟨before, busyOf_cons, fun _ _ => rfl, .same⟩
    · rw [List.take_of_length_le all, bufs, List.append_assoc]
      exact .answered (answers_sends processed)
  | @putTaskNode others node here =>
    have before := busy_of here
    refine Move.keep (?_ : Move tasks _ (.closed node) .waiting (busyOf others tasks.taskQueue))
      sound rfl rfl rfl trivial
    exact ⟨before, busyOf_cons, fun _ _ => rfl, .give⟩

/-- The threads wait, and all memory is free. -/
structure Started (tasks : Tasks Node) : Prop where
  threads : ∀ stage ∈ tasks.threads, stage.idle = true
  taskQueue : tasks.taskQueue = []
  free : tasks.free = Set.univ
  calls : tasks.calls = []

theorem Started.busy {tasks : Tasks Node} (started : Started tasks) : tasks.busy = 0 := by
  rw [Tasks.busy, busyOf, started.taskQueue, List.map_nil, Multiset.coe_nil, add_zero, Multiset.filter_eq_nil]
  intro stage member
  rw [started.threads stage member]
  exact Bool.noConfusion

theorem Started.sound {accepts : Bytes → Prop} {tasks : Tasks Node} (started : Started tasks) : Sound accepts tasks where
  allocated := ⟨by rw [nodes, started.busy]; exact Multiset.nodup_zero, fun node => by
    rw [started.free, nodes, started.busy]
    exact iff_of_true (Set.mem_univ node) (Multiset.notMem_zero node)⟩
  opened client member := by
    rw [pending, started.busy] at member
    exact absurd member (Multiset.notMem_zero client)
  fine stage member := by
    rw [started.busy] at member
    exact absurd member (Multiset.notMem_zero stage)

theorem Started.kept {tasks : Tasks Node} (started : Started tasks) : InSessions Session tasks.board := by
  have empty : tasks.board = ⟨0, []⟩ := by rw [board, pending, started.busy, started.calls]; rfl
  rw [empty]
  exact InSessions.nil

theorem reached [DecidableEq Node] {accepts : Bytes → Prop} {start tasks : Tasks Node}
    (known : ∀ parseBuf, accepts parseBuf → typeFlg parseBuf ∈ [(1 : Int32), 2, 3, 4, 5, 6]) (started : Started start)
    (run : Relation.ReflTransGen (Step accepts) start tasks) : InSessions Session tasks.board ∧ Sound accepts tasks := by
  induction run with
  | refl => exact ⟨started.kept, started.sound⟩
  | tail _ taken ih =>
    obtain ⟨sound, spoken⟩ := step known ih.1 ih.2 taken
    exact ⟨ih.1.step spoken, sound⟩

end Tasks

section Runs
variable {ν : Type} (cJson : CJson ν) (cpStrtovalU64 : Bytes → UInt64) (varF4 : ℚ → UInt32) {Node : Type} [DecidableEq Node]

/-- However the threads take turns, a client that is accepted is called for whole sessions, one after the other: it is
closed at once, or its request is answered with one frame for the type of that request and it is closed then. A session
that has not come to its end is that of a client which one of the threads or the queue has. -/
theorem calls_are_sessions {start tasks : Tasks Node} (started : Tasks.Started start)
    (run : Relation.ReflTransGen (Tasks.Step (Accepted cJson cpStrtovalU64 varF4)) start tasks) (client : Socket) :
    ∃ (sessions : List (List ClientCall)) (last : List ClientCall), (∀ whole ∈ sessions, Session whole) ∧
      ofClient client tasks.calls = sessions.flatten ++ last ∧
      (last = [] ∧ client ∉ tasks.pending.map Prod.fst ∨ Begun Session last ∧ (client, last) ∈ tasks.pending) := by
  obtain ⟨kept, -⟩ := Tasks.reached (fun _ accepted => type_of_accepted accepted) started run
  by_cases open_ : client ∈ tasks.pending.map Prod.fst
  · obtain ⟨⟨other, events⟩, member, rfl⟩ := Multiset.mem_map.mp open_
    obtain ⟨begun, sessions, wholes, same⟩ := kept.begun other events member
    exact ⟨sessions, events, wholes, same, .inr ⟨begun, member⟩⟩
  · obtain ⟨sessions, wholes, same⟩ := kept.closed client open_
    exact ⟨sessions, [], wholes, by rw [List.append_nil]; exact same, .inl ⟨rfl, open_⟩⟩

/-- However the threads take turns, no memory and no client is in two hands, and memory is free when it is in none. -/
theorem nodes_are_apart {start tasks : Tasks Node} (started : Tasks.Started start)
    (run : Relation.ReflTransGen (Tasks.Step (Accepted cJson cpStrtovalU64 varF4)) start tasks) :
    tasks.nodes.Nodup ∧ (∀ node, node ∈ tasks.free ↔ node ∉ tasks.nodes) ∧ (tasks.pending.map Prod.fst).Nodup ∧
      ∀ client ∈ tasks.pending.map Prod.fst, client ∈ tasks.sockets := by
  obtain ⟨kept, sound⟩ := Tasks.reached (fun _ accepted => type_of_accepted accepted) started run
  exact ⟨sound.allocated.alone, sound.allocated.free_iff, kept.alone, sound.opened⟩

end Runs

/-- The message of a heartbeat that says "ok". -/
def heartbeatBuf : Bytes := [5, 0, 0, 0, 2, 0, 0, 0, 111, 107]

theorem accepted_heartbeatBuf : Accepted Json.cJson (fun _ => 0) (fun _ => 0) heartbeatBuf :=
  ⟨0, .object [("type", .number 5), ("heartbeat", .string [111, 107])], 5, 100, ⟨heartbeatBuf, 10⟩, rfl, rfl, rfl⟩

theorem processed_heartbeatBuf : Processed (typeFlg heartbeatBuf) (some heartbeatText) := by
  have type : typeFlg heartbeatBuf = 5 := by decide +kernel
  rw [type]
  exact .heartbeat

/-- A listening and a processing thread with one memory. -/
def twoThreads : Tasks Unit where
  threads := {.listening, .waiting}
  taskQueue := []
  memory _ := ⟨0, [], []⟩
  free := Set.univ
  sockets := ∅
  calls := []

theorem started_twoThreads : Tasks.Started twoThreads where
  threads := by
    have idle : ∀ stage ∈ ([.listening, .waiting] : List (Stage Unit)), stage.idle = true := by simp [Stage.idle]
    exact idle
  taskQueue := rfl
  free := rfl
  calls := rfl

/-- The calls for a client with a heartbeat. -/
def heartbeatCalls : List ClientCall :=
  [.accept, .request heartbeatBuf, .send (rawInt (Int32.ofNat heartbeatText.length)), .send heartbeatText, .close]

theorem heartbeat_run : ∃ tasks,
    Relation.ReflTransGen (Tasks.Step (Accepted Json.cJson (fun _ => 0) (fun _ => 0))) twoThreads tasks ∧
    tasks.calls = heartbeatCalls.map (Prod.mk 7) ∧ tasks.threads = twoThreads.threads ∧ tasks.taskQueue = [] := by
  let accepts := Accepted Json.cJson (fun _ => 0) (fun _ => 0)
  have others : ({.listening, .waiting} : Multiset (Stage Unit)) = .waiting ::ₘ {.listening} := Multiset.pair_comm ..
  have accepted := Relation.ReflTransGen.single
    (@Tasks.Step.accept _ _ accepts twoThreads {.waiting} 7 rfl (Set.notMem_empty 7))
  have parsed := (accepted.tail (@Tasks.Step.getTaskNode _ _ accepts _ {.waiting} 7 () rfl (Set.mem_univ ()))).tail
    (@Tasks.Step.parse _ _ accepts _ {.waiting} 7 () heartbeatBuf rfl accepted_heartbeatBuf)
  have popped := (parsed.tail (@Tasks.Step.pushData _ _ accepts _ {.waiting} 7 () rfl)).tail
    (@Tasks.Step.popData _ _ accepts _ {.listening} () [] others rfl)
  have replied := popped.tail (@Tasks.Step.process _ _ accepts _ {.listening} () _ rfl processed_heartbeatBuf)
  have head := replied.tail (@Tasks.Step.sendbuf _ _ accepts _ {.listening} () 0 _ rfl rfl)
  have sent := head.tail (@Tasks.Step.sendbuf _ _ accepts _ {.listening} () 1 _ rfl rfl)
  have closed := sent.tail (@Tasks.Step.closeSocket _ _ accepts _ {.listening} () 2 rfl le_rfl)
  exact ⟨_, closed.tail (@Tasks.Step.putTaskNode _ _ accepts _ {.listening} () rfl), rfl, others.symm, rfl⟩

theorem heartbeat_is_answered : ∃ tasks,
    Relation.ReflTransGen (Tasks.Step (Accepted Json.cJson (fun _ => 0) (fun _ => 0))) twoThreads tasks ∧
    tasks.calls = heartbeatCalls.map (Prod.mk 7) ∧
    ∃ (sessions : List (List ClientCall)) (last : List ClientCall), (∀ whole ∈ sessions, Session whole) ∧
      ofClient 7 tasks.calls = sessions.flatten ++ last ∧
      (last = [] ∧ 7 ∉ tasks.pending.map Prod.fst ∨ Begun Session last ∧ (7, last) ∈ tasks.pending) := by
  obtain ⟨tasks, run, calls, -⟩ := heartbeat_run
  exact ⟨tasks, run, calls, calls_are_sessions Json.cJson (fun _ => 0) (fun _ => 0) started_twoThreads run 7⟩

theorem heartbeat_gives_back : ∃ tasks,
    Relation.ReflTransGen (Tasks.Step (Accepted Json.cJson (fun _ => 0) (fun _ => 0))) twoThreads tasks ∧
    tasks.calls = heartbeatCalls.map (Prod.mk 7) ∧
    tasks.nodes.Nodup ∧ (∀ node, node ∈ tasks.free ↔ node ∉ tasks.nodes) ∧ (tasks.pending.map Prod.fst).Nodup ∧
      ∀ client ∈ tasks.pending.map Prod.fst, client ∈ tasks.sockets := by
  obtain ⟨tasks, run, calls, -⟩ := heartbeat_run
  exact ⟨tasks, run, calls, nodes_are_apart Json.cJson (fun _ => 0) (fun _ => 0) started_twoThreads run⟩

end ContentBased.FrameworkCenter
