import ContentBased.Library.Run

universe u v w

/-! A process that does one job after another, as its inputs and the job it did last call for, and keeps that job in a note
for its next start. -/
namespace Checkpoints

structure Process (Stamp : Type u) (Input : Type v) (Note : Type w) where
  /-- The job that an input calls for after the last one, if any. -/
  next : Input → Stamp → Option Stamp
  /-- What takes the place of the last job when there is no note. -/
  unknown : Stamp
  writes : Stamp → Note
  /-- What a start may take a note for. -/
  recalls : Note → Stamp → Prop
  /-- What a crash may leave of a note that is being written. -/
  torn : Stamp → Note → Prop

inductive Place (Stamp : Type u) where
  | down
  | resting (last : Stamp)
  | working (last job : Stamp)
  | finished (job : Stamp)
  | noting (job : Stamp)

inductive Fact (Stamp : Type u) where
  | did (job : Stamp)
  | noted (job : Stamp)

structure State (Stamp : Type u) (Note : Type w) where
  place : Place Stamp
  note : Option Note
  history : List (Fact Stamp)

inductive Event (Input : Type v) where
  | start (found : Bool)
  | pass (input : Input)
  | fail
  | succeed
  | skip
  | «open»
  | close
  | crash

variable {Stamp : Type u} {Input : Type v} {Note : Type w} (process : Process Stamp Input Note)

inductive Step : State Stamp Note → Event Input → State Stamp Note → Prop
  | startOn {note last history} : process.recalls note last →
      Step ⟨.down, some note, history⟩ (.start true) ⟨.resting last, some note, history⟩
  | startNew {note history} : Step ⟨.down, note, history⟩ (.start false) ⟨.resting process.unknown, note, history⟩
  | idle {last note history input} : process.next input last = none →
      Step ⟨.resting last, note, history⟩ (.pass input) ⟨.resting last, note, history⟩
  | begin {last job note history input} : process.next input last = some job →
      Step ⟨.resting last, note, history⟩ (.pass input) ⟨.working last job, note, history⟩
  | fail {last job note history} : Step ⟨.working last job, note, history⟩ .fail ⟨.resting last, note, history⟩
  | succeed {last job note history} :
      Step ⟨.working last job, note, history⟩ .succeed ⟨.finished job, note, history ++ [.did job]⟩
  | skip {job note history} : Step ⟨.finished job, note, history⟩ .skip ⟨.resting job, note, history⟩
  | open {job note torn history} : process.torn job torn →
      Step ⟨.finished job, note, history⟩ .open ⟨.noting job, some torn, history⟩
  | close {job note history} :
      Step ⟨.noting job, note, history⟩ .close ⟨.resting job, some (process.writes job), history ++ [.noted job]⟩
  | crash {place note history} : Step ⟨place, note, history⟩ .crash ⟨.down, note, history⟩

/-- The steps that are taken under a condition. -/
def Within (condition : State Stamp Note → Event Input → Prop) (state : State Stamp Note) (event : Event Input)
    (after : State Stamp Note) : Prop :=
  Step process state event after ∧ condition state event

/-- No crash tears a note, and a note that is there is found. -/
def Whole (state : State Stamp Note) : Event Input → Prop
  | .crash => ∀ job, state.place ≠ .noting job
  | .start false => state.note = none
  | _ => True

/-- Besides, no job goes without its note. -/
def Recorded (state : State Stamp Note) (event : Event Input) : Prop :=
  Whole state event ∧ match event with
    | .crash => ∀ job, state.place ≠ .finished job
    | .skip => False
    | _ => True

def jobs (history : List (Fact Stamp)) : List Stamp :=
  history.filterMap fun
    | .did job => some job
    | .noted _ => none

section Jobs
variable {history : List (Fact Stamp)} {job : Stamp}

@[simp] theorem jobs_did : jobs (history ++ [.did job]) = jobs history ++ [job] := List.filterMap_append ..

@[simp] theorem jobs_noted : jobs (history ++ [.noted job]) = jobs history :=
  (List.filterMap_append ..).trans (List.append_nil _)

end Jobs

section Called
variable {process} {events : List (Event Input)}

/-- The input of the pass that was made last, as long as nothing has come after it, and the inputs of the passes that a
success came right after. -/
def look (seen : Option Input × List Input) : Event Input → Option Input × List Input
  | .pass input => (some input, seen.2)
  | .succeed => (none, seen.2 ++ seen.1.toList)
  | _ => (none, seen.2)

/-- The inputs that a success came right after, in their order. -/
def looks (events : List (Event Input)) : List Input := (events.foldl look (none, [])).2

/-- Each job that was done was called for by the pass right before its success, and there is no other such pass. -/
theorem jobs_called {start state : State Stamp Note} (down : start.place = .down) (fresh : start.history = [])
    (run : Run (Step process) start events state) :
    List.Forall₂ (fun input job => ∃ last, process.next input last = some job) (looks events) (jobs state.history) := by
  suffices all : List.Forall₂ (fun input job => ∃ last, process.next input last = some job) (looks events)
      (jobs state.history) ∧ match state.place with
        | .working last job => ∃ input, (events.foldl look (none, [])).1 = some input ∧ process.next input last = some job
        | _ => True from all.1
  induction run with
  | start =>
    rw [down, fresh]
    exact ⟨.nil, trivial⟩
  | @next events state event _ _ taken ih =>
    obtain ⟨done, working⟩ := ih
    rw [looks, List.foldl_concat]
    cases taken with
    | startOn | startNew | idle | fail | skip | «open» | crash => exact ⟨done, trivial⟩
    | begin next => exact ⟨done, _, rfl, next⟩
    | @succeed last job =>
      obtain ⟨input, seen, next⟩ := working
      rw [jobs_did, look, seen]
      exact ⟨List.rel_append done (.cons ⟨last, next⟩ .nil), trivial⟩
    | close =>
      rw [jobs_noted]
      exact ⟨done, trivial⟩

end Called

section Noted
variable {before : Stamp → Stamp → Prop}

/-- What is done is behind what was noted. -/
def Follows (before : Stamp → Stamp → Prop) : Fact Stamp → Fact Stamp → Prop
  | .noted earlier, .did later => before earlier later
  | _, _ => True

/-- All that was noted is the last job or before it. -/
def UpTo (before : Stamp → Stamp → Prop) (history : List (Fact Stamp)) (last : Stamp) : Prop :=
  ∀ job, .noted job ∈ history → job = last ∨ before job last

/-- The note tells the last of what was noted. -/
def Kept (process : Process Stamp Input Note) (before : Stamp → Stamp → Prop) (first : Option Note)
    (state : State Stamp Note) : Prop :=
  (state.note = first ∧ ∀ job, .noted job ∉ state.history) ∨
    ∃ last, state.note = some (process.writes last) ∧ UpTo before state.history last

def Ordered (process : Process Stamp Input Note) (before : Stamp → Stamp → Prop) (first : Option Note)
    (state : State Stamp Note) : Prop :=
  state.history.Pairwise (Follows before) ∧ match state.place with
    | .down => Kept process before first state
    | .resting last => Kept process before first state ∧ UpTo before state.history last
    | .working last job => Kept process before first state ∧ UpTo before state.history last ∧ before last job
    | .finished job => Kept process before first state ∧ UpTo before state.history job
    | .noting job => UpTo before state.history job

variable {process} {history : List (Fact Stamp)} {last job : Stamp} {note first : Option Note} {place place' : Place Stamp}

theorem UpTo.none (none_ : ∀ job, .noted job ∉ history) : UpTo before history last :=
  fun job noted => absurd noted (none_ job)

theorem UpTo.did (upTo : UpTo before history last) : UpTo before (history ++ [.did job]) last := by
  intro earlier noted
  rcases List.mem_append.mp noted with old | new
  · exact upTo earlier old
  · cases List.mem_singleton.mp new

theorem UpTo.noted (upTo : UpTo before history job) : UpTo before (history ++ [.noted job]) job := by
  intro earlier noted
  rcases List.mem_append.mp noted with old | new
  · exact upTo earlier old
  · cases List.mem_singleton.mp new
    exact Or.inl rfl

theorem Kept.did (kept : Kept process before first ⟨place, note, history⟩) :
    Kept process before first ⟨place', note, history ++ [.did job]⟩ := by
  rcases kept with ⟨same, none_⟩ | ⟨last, written, upTo⟩
  · exact Or.inl ⟨same, fun job noted => (List.mem_append.mp noted).elim (none_ job) nofun⟩
  · exact Or.inr ⟨last, written, upTo.did⟩

theorem ordered_step (trans : ∀ a b c, before a b → before b c → before a c)
    (ahead : ∀ input last job, process.next input last = some job → before last job)
    (exact_ : ∀ job last, process.recalls (process.writes job) last → last = job)
    {state after : State Stamp Note} {event : Event Input} (step : Step process state event after)
    (whole : Whole state event) (ordered : Ordered process before first state) : Ordered process before first after := by
  obtain ⟨pairwise, here⟩ := ordered
  cases step with
  | startOn recalled =>
    refine ⟨pairwise, here, ?_⟩
    rcases here with ⟨-, none_⟩ | ⟨last, written, upTo⟩
    · exact UpTo.none none_
    · cases Option.some.inj written
      rwa [exact_ _ _ recalled]
  | startNew =>
    refine ⟨pairwise, here, ?_⟩
    rcases here with ⟨-, none_⟩ | ⟨last, written, -⟩
    · exact UpTo.none none_
    · exact absurd written (by rw [show _ = none from whole]; nofun)
  | idle => exact ⟨pairwise, here⟩
  | begin called => exact ⟨pairwise, here.1, here.2, ahead _ _ _ called⟩
  | fail => exact ⟨pairwise, here.1, here.2.1⟩
  | @succeed last job _ history =>
    obtain ⟨kept, upTo, later⟩ := here
    have behind : ∀ earlier, .noted earlier ∈ history → before earlier job := fun earlier noted =>
      (upTo earlier noted).elim (fun same => same ▸ later) (fun less => trans _ _ _ less later)
    refine ⟨List.pairwise_append.mpr ⟨pairwise, List.pairwise_singleton _ _, ?_⟩, kept.did, ?_⟩
    · intro fact member newest same
      cases List.mem_singleton.mp same
      cases fact with
      | did => trivial
      | noted earlier => exact behind earlier member
    · exact UpTo.did fun earlier noted => Or.inr (behind earlier noted)
  | skip => exact ⟨pairwise, here⟩
  | «open» => exact ⟨pairwise, here.2⟩
  | @close job _ history =>
    refine ⟨List.pairwise_append.mpr ⟨pairwise, List.pairwise_singleton _ _, ?_⟩, Or.inr ⟨job, rfl, here.noted⟩, here.noted⟩
    intro fact member newest same
    cases List.mem_singleton.mp same
    cases fact <;> trivial
  | @crash place =>
    refine ⟨pairwise, ?_⟩
    cases place with
    | down => exact here
    | resting => exact here.1
    | working => exact here.1
    | finished => exact here.1
    | noting job => exact absurd rfl (whole job)

/-- When the jobs go forward, each is behind all those that were noted before it, through crashes and through notes that
could not be written. -/
theorem behind_noted (before : Stamp → Stamp → Prop) (trans : ∀ a b c, before a b → before b c → before a c)
    (ahead : ∀ input last job, process.next input last = some job → before last job)
    (exact_ : ∀ job last, process.recalls (process.writes job) last → last = job) {events : List (Event Input)}
    {state : State Stamp Note}
    (run : Run (Within process Whole) ⟨.down, first, []⟩ events state) :
    state.history.Pairwise (Follows before) := by
  suffices ordered : Ordered process before first state from ordered.1
  induction run with
  | start => exact ⟨.nil, Or.inl ⟨rfl, fun _ => List.not_mem_nil⟩⟩
  | next _ taken ih => exact ordered_step trans ahead exact_ taken.1 taken.2 ih

end Noted

section Linked

/-- Some input calls for the job after the last one. -/
def Process.Due (last job : Stamp) : Prop := ∃ input, process.next input last = some job

/-- What the first start may go by. -/
def Known (first : Option Note) (base : Stamp) : Prop :=
  first = none ∧ base = process.unknown ∨ ∃ note, first = some note ∧ process.recalls note base

/-- Each job was due after the one before it, up to the last. -/
def Line (first : Option Note) (history : List (Fact Stamp)) (last : Stamp) : Prop :=
  ∃ base, Known process first base ∧ (base :: jobs history).IsChain process.Due ∧
    (base :: jobs history).getLast? = some last

/-- The jobs follow one another as if the process had never stopped. -/
def Resumed (first : Option Note) (history : List (Fact Stamp)) : Prop :=
  (jobs history).IsChain process.Due ∧
    ∀ job ∈ (jobs history).head?, ∃ base, Known process first base ∧ process.Due base job

/-- The note tells the last job. -/
def Told (first : Option Note) (state : State Stamp Note) : Prop :=
  state.note = first ∧ jobs state.history = [] ∨
    ∃ last, state.note = some (process.writes last) ∧ Line process first state.history last

def Linked (first : Option Note) (state : State Stamp Note) : Prop :=
  match state.place with
  | .down => Told process first state
  | .resting last => Told process first state ∧ Line process first state.history last
  | .working last job => Told process first state ∧ Line process first state.history last ∧ process.Due last job
  | .finished job => Line process first state.history job
  | .noting job => Line process first state.history job

variable {process} {first : Option Note} {history : List (Fact Stamp)} {base last job : Stamp} {state : State Stamp Note}

theorem Line.initial (none_ : jobs history = []) (known : Known process first base) : Line process first history base :=
  ⟨base, known, by rw [none_]; exact List.isChain_singleton _, by rw [none_]; rfl⟩

theorem Line.did (line : Line process first history last) (due : process.Due last job) :
    Line process first (history ++ [.did job]) job := by
  obtain ⟨base, known, chain, final⟩ := line
  rw [Line, jobs_did]
  refine ⟨base, known, ?_, by rw [← List.cons_append, List.getLast?_concat]⟩
  rw [← List.cons_append]
  refine List.isChain_append.mpr ⟨chain, List.isChain_singleton _, fun earlier isLast later isFirst => ?_⟩
  cases Option.some.inj (final.symm.trans isLast)
  cases Option.some.inj isFirst
  exact due

theorem Line.linked (line : Line process first history last) : Resumed process first history :=
  have ⟨base, known, chain, _⟩ := line
  have ⟨begins, rest⟩ := List.isChain_cons.mp chain
  ⟨rest, fun job isFirst => ⟨base, known, begins job isFirst⟩⟩

theorem Told.linked (told : Told process first state) : Resumed process first state.history := by
  rcases told with ⟨-, none_⟩ | ⟨last, -, line⟩
  · rw [Resumed, none_]
    exact ⟨List.isChain_nil, nofun⟩
  · exact line.linked

theorem linked_step (exact_ : ∀ job last, process.recalls (process.writes job) last → last = job)
    {after : State Stamp Note} {event : Event Input} (step : Step process state event after)
    (recorded : Recorded state event) (linked : Linked process first state) : Linked process first after := by
  obtain ⟨whole, kept⟩ := recorded
  cases step with
  | startOn recalled =>
    refine ⟨linked, ?_⟩
    rcases linked with ⟨same, none_⟩ | ⟨last, written, line⟩
    · exact Line.initial none_ (Or.inr ⟨_, same.symm, recalled⟩)
    · cases Option.some.inj written
      rwa [exact_ _ _ recalled]
  | startNew =>
    refine ⟨linked, ?_⟩
    rcases linked with ⟨same, none_⟩ | ⟨last, written, -⟩
    · exact Line.initial none_ (Or.inl ⟨same.symm.trans whole, rfl⟩)
    · exact absurd written (by rw [show _ = none from whole]; nofun)
  | idle => exact linked
  | begin called => exact ⟨linked.1, linked.2, _, called⟩
  | fail => exact ⟨linked.1, linked.2.1⟩
  | succeed => exact Line.did linked.2.1 linked.2.2
  | skip => exact absurd kept id
  | «open» => exact linked
  | @close job _ history =>
    have line : Line process first (history ++ [.noted job]) job := by rw [Line, jobs_noted]; exact linked
    exact ⟨Or.inr ⟨_, rfl, line⟩, line⟩
  | @crash place =>
    cases place with
    | down => exact linked
    | resting => exact linked.1
    | working => exact linked.1
    | finished job => exact absurd rfl (kept job)
    | noting job => exact absurd rfl (whole job)

/-- When each job that was done is noted before anything goes wrong, no stop can be seen in them. -/
theorem jobs_linked (exact_ : ∀ job last, process.recalls (process.writes job) last → last = job)
    {events : List (Event Input)}
    (run : Run (Within process Recorded) ⟨.down, first, []⟩ events state) : Resumed process first state.history := by
  have linked : Linked process first state := by
    induction run with
    | start => exact Or.inl ⟨rfl, rfl⟩
    | next _ taken ih => exact linked_step exact_ taken.1 taken.2 ih
  obtain ⟨place, note, history⟩ := state
  cases place with
  | down => exact Told.linked linked
  | resting => exact linked.2.linked
  | working => exact linked.2.1.linked
  | finished => exact Line.linked linked
  | noting => exact Line.linked linked

end Linked

end Checkpoints
