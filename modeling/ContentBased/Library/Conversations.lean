import ContentBased.Library.Run

/-! Conversations with many clients at the same time, each of which goes from one session to the next. -/
namespace Conversations
variable {Client Event : Type} [DecidableEq Client]

/-- What has happened with a client. -/
def ofClient (client : Client) (trace : List (Client × Event)) : List Event :=
  (trace.filter fun event => event.1 = client).map Prod.snd

/-- The sessions that are open, each with what has happened in it, and all that has happened. -/
structure Board (Client Event : Type) where
  pending : Multiset (Client × List Event)
  trace : List (Client × Event)

variable (session : List Event → Prop)

/-- What may become a session, but is none yet. -/
def Begun (events : List Event) : Prop := ∃ more, more ≠ [] ∧ session (events ++ more)

/-- A client has one session at a time. -/
inductive Step : Board Client Event → Board Client Event → Prop
  | start {pending trace client event} (new : client ∉ pending.map Prod.fst) (begun : Begun session [event]) :
      Step ⟨pending, trace⟩ ⟨(client, [event]) ::ₘ pending, trace ++ [(client, event)]⟩
  | next {pending trace client events event} (begun : Begun session (events ++ [event])) :
      Step ⟨(client, events) ::ₘ pending, trace⟩ ⟨(client, events ++ [event]) ::ₘ pending, trace ++ [(client, event)]⟩
  | finish {pending trace client events event} (ended : session (events ++ [event])) :
      Step ⟨(client, events) ::ₘ pending, trace⟩ ⟨pending, trace ++ [(client, event)]⟩
  | rest {board} : Step board board

/-- What has happened with a client are whole sessions, and then what has happened in the one that is open. -/
structure InSessions (board : Board Client Event) : Prop where
  alone : (board.pending.map Prod.fst).Nodup
  begun : ∀ client events, (client, events) ∈ board.pending → Begun session events ∧ ∃ sessions : List (List Event),
    (∀ whole ∈ sessions, session whole) ∧ ofClient client board.trace = sessions.flatten ++ events
  closed : ∀ client, client ∉ board.pending.map Prod.fst → ∃ sessions : List (List Event),
    (∀ whole ∈ sessions, session whole) ∧ ofClient client board.trace = sessions.flatten

variable {session} {board after : Board Client Event} {trace : List (Client × Event)} {client other : Client} {event : Event}

theorem ofClient_concat_self : ofClient client (trace ++ [(client, event)]) = ofClient client trace ++ [event] := by
  simp [ofClient]

theorem ofClient_concat_of_ne (apart : client ≠ other) :
    ofClient other (trace ++ [(client, event)]) = ofClient other trace := by
  simp [ofClient, apart]

omit [DecidableEq Client] in
theorem ne_of_mem {pending : Multiset (Client × List Event)} {events : List Event}
    (absent : client ∉ pending.map Prod.fst) (member : (other, events) ∈ pending) : client ≠ other := by
  rintro rfl
  exact absent (Multiset.mem_map_of_mem Prod.fst member)

theorem InSessions.nil : InSessions session (⟨0, []⟩ : Board Client Event) where
  alone := Multiset.nodup_zero
  begun _ _ member := absurd member (Multiset.notMem_zero _)
  closed _ _ := ⟨[], nofun, rfl⟩

theorem InSessions.step (kept : InSessions session board) (taken : Step session board after) : InSessions session after := by
  cases taken with
  | @start pending trace client event new begun =>
    obtain ⟨sessions, wholes, same⟩ := kept.closed client new
    refine ⟨?_, fun other events member => ?_, fun other absent => ?_⟩
    · rw [Multiset.map_cons, Multiset.nodup_cons]
      exact ⟨new, kept.alone⟩
    · rcases Multiset.mem_cons.mp member with same' | member
      · obtain ⟨rfl, rfl⟩ := Prod.mk.inj same'
        exact ⟨begun, sessions, wholes, by rw [ofClient_concat_self, same]⟩
      · obtain ⟨going, sessions, wholes, same⟩ := kept.begun other events member
        exact ⟨going, sessions, wholes, by rw [ofClient_concat_of_ne (ne_of_mem new member), same]⟩
    · rw [Multiset.map_cons, Multiset.mem_cons, not_or] at absent
      obtain ⟨sessions, wholes, same⟩ := kept.closed other absent.2
      exact ⟨sessions, wholes, by rw [ofClient_concat_of_ne (Ne.symm absent.1), same]⟩
  | @next pending trace client events event begun =>
    have alone := kept.alone
    rw [Multiset.map_cons, Multiset.nodup_cons] at alone
    refine ⟨?_, fun other events' member => ?_, fun other absent => ?_⟩
    · rw [Multiset.map_cons, Multiset.nodup_cons]
      exact alone
    · rcases Multiset.mem_cons.mp member with same' | member
      · obtain ⟨rfl, rfl⟩ := Prod.mk.inj same'
        obtain ⟨-, sessions, wholes, same⟩ := kept.begun other events (Multiset.mem_cons_self ..)
        exact ⟨begun, sessions, wholes, by rw [ofClient_concat_self, same, List.append_assoc]⟩
      · obtain ⟨going, sessions, wholes, same⟩ := kept.begun other events' (Multiset.mem_cons_of_mem member)
        exact ⟨going, sessions, wholes, by rw [ofClient_concat_of_ne (ne_of_mem alone.1 member), same]⟩
    · rw [Multiset.map_cons] at absent
      obtain ⟨sessions, wholes, same⟩ := kept.closed other (by rwa [Multiset.map_cons])
      rw [Multiset.mem_cons, not_or] at absent
      exact ⟨sessions, wholes, by rw [ofClient_concat_of_ne (Ne.symm absent.1), same]⟩
  | @finish pending trace client events event ended =>
    have alone := kept.alone
    rw [Multiset.map_cons, Multiset.nodup_cons] at alone
    refine ⟨alone.2, fun other events' member => ?_, fun other absent => ?_⟩
    · obtain ⟨going, sessions, wholes, same⟩ := kept.begun other events' (Multiset.mem_cons_of_mem member)
      exact ⟨going, sessions, wholes, by rw [ofClient_concat_of_ne (ne_of_mem alone.1 member), same]⟩
    · by_cases here : client = other
      · subst here
        obtain ⟨-, sessions, wholes, same⟩ := kept.begun client events (Multiset.mem_cons_self ..)
        refine ⟨sessions ++ [events ++ [event]], ?_, ?_⟩
        · intro whole member
          rcases List.mem_append.mp member with member | last
          · exact wholes whole member
          · rwa [List.mem_singleton.mp last]
        · rw [ofClient_concat_self, same, List.flatten_append, List.flatten_singleton, List.append_assoc]
      · obtain ⟨sessions, wholes, same⟩ := kept.closed other (by
          rw [Multiset.map_cons, Multiset.mem_cons, not_or]
          exact ⟨Ne.symm here, absent⟩)
        exact ⟨sessions, wholes, by rw [ofClient_concat_of_ne here, same]⟩
  | rest => exact kept

end Conversations
