import ContentBased.Library.Run

/-! Threads that work on the cell of a key while they hold the lock of the key. -/
namespace KeyedLocks
open Function Relation

/-- What threads do while they hold a lock, and how they come to ask for it. There are data that all threads share, which
no work on a cell depends on but through what it finds there. -/
structure Sections (Thread Key Cell Local Env : Type) where
  calls : Thread → Key → Local → Env → Env → Prop
  works : Key → Env → Local → Cell → Env → Local → Cell → Prop
  ends : Local → Prop
  others : Env → Env → Prop

inductive Place (Key Local : Type) where
  | outside
  | waiting (key : Key) (start : Local)
  | inside (key : Key) (start now : Local)

/-- The locks that are taken, the cells, and where each thread is. -/
structure State (Thread Key Cell Local Env : Type) where
  flags : Set Key
  cells : Key → Cell
  places : Thread → Place Key Local
  env : Env

inductive Action (Thread Key Local : Type) where
  | call (thread : Thread) (key : Key) (start : Local)
  | acquire (thread : Thread) (key : Key)
  | work (thread : Thread) (key : Key)
  | release (thread : Thread) (key : Key) (start final : Local)
  | other

variable {Thread Key Cell Local Env : Type}

section Steps
variable [DecidableEq Thread] [DecidableEq Key]

/-- A thread waits as long as the lock is taken by another. -/
inductive Step (sections : Sections Thread Key Cell Local Env) : State Thread Key Cell Local Env →
    Action Thread Key Local → State Thread Key Cell Local Env → Prop
  | call {state thread key start env} (outside : state.places thread = .outside)
      (called : sections.calls thread key start state.env env) :
      Step sections state (.call thread key start)
        { state with places := update state.places thread (.waiting key start), env }
  | acquire {state thread key start} (waiting : state.places thread = .waiting key start) (free : key ∉ state.flags) :
      Step sections state (.acquire thread key)
        { state with
          flags := insert key state.flags
          places := update state.places thread (.inside key start start) }
  | work {state thread key start now env next cell} (inside : state.places thread = .inside key start now)
      (worked : sections.works key state.env now (state.cells key) env next cell) :
      Step sections state (.work thread key)
        { state with
          cells := update state.cells key cell
          places := update state.places thread (.inside key start next)
          env }
  | release {state thread key start now} (inside : state.places thread = .inside key start now)
      (ended : sections.ends now) :
      Step sections state (.release thread key start now)
        { state with
          flags := state.flags \ {key}
          places := update state.places thread .outside }
  | other {state env} (changed : sections.others state.env env) : Step sections state .other { state with env }

end Steps

/-- The work of a section on its cell, whatever the other data are. -/
def Sections.Works (sections : Sections Thread Key Cell Local Env) (key : Key) : Local × Cell → Local × Cell → Prop :=
  ReflTransGen fun before after => ∃ env env', sections.works key env before.1 before.2 env' after.1 after.2

/-- A whole section at once. -/
structure Sections.Whole (sections : Sections Thread Key Cell Local Env) (key : Key) (start final : Local)
    (before after : Cell) : Prop where
  called : ∃ thread env env', sections.calls thread key start env env'
  works : sections.Works key (start, before) (final, after)
  ends : sections.ends final

/-- The cells when sections are done one after the other. -/
def Sections.AtOnce [DecidableEq Key] (sections : Sections Thread Key Cell Local Env) (cells : Key → Cell)
    (done : Key × Local × Local) (after : Key → Cell) : Prop :=
  ∃ cell, sections.Whole done.1 done.2.1 done.2.2 (cells done.1) cell ∧ after = update cells done.1 cell

/-- The sections that a run has completed, in the order in which the locks were given back. -/
def Action.completed? : Action Thread Key Local → Option (Key × Local × Local)
  | .release _ key start final => some (key, start, final)
  | _ => none

def completed (actions : List (Action Thread Key Local)) : List (Key × Local × Local) :=
  actions.filterMap Action.completed?

structure Quiet (state : State Thread Key Cell Local Env) : Prop where
  flags : state.flags = ∅
  outside : ∀ thread, state.places thread = .outside

/-- A lock is taken exactly when a thread is inside, which is alone there. -/
structure Locked (state : State Thread Key Cell Local Env) : Prop where
  flagged_iff : ∀ key, key ∈ state.flags ↔ ∃ thread start now, state.places thread = .inside key start now
  alone : ∀ {thread thread' key start now start' now'}, state.places thread = .inside key start now →
    state.places thread' = .inside key start' now' → thread = thread'

/-- The cells that are left when the sections that are under way are not counted. -/
structure Settled (sections : Sections Thread Key Cell Local Env) (cells : Key → Cell)
    (state : State Thread Key Cell Local Env) : Prop extends Locked state where
  waiting : ∀ {thread key start}, state.places thread = .waiting key start →
    ∃ thread env env', sections.calls thread key start env env'
  inside : ∀ {thread key start now}, state.places thread = .inside key start now →
    (∃ thread env env', sections.calls thread key start env env') ∧
      sections.Works key (start, cells key) (now, state.cells key)
  free : ∀ key ∉ state.flags, state.cells key = cells key

variable {sections : Sections Thread Key Cell Local Env} {state after : State Thread Key Cell Local Env}
  {cells : Key → Cell} {action : Action Thread Key Local}

theorem Settled.start (quiet : Quiet state) : Settled sections state.cells state where
  flagged_iff key := by
    rw [quiet.flags]
    refine iff_of_false (Set.notMem_empty key) ?_
    rintro ⟨thread, start, now, inside⟩
    rw [quiet.outside] at inside
    cases inside
  alone inside := by
    rw [quiet.outside] at inside
    cases inside
  waiting waits := by
    rw [quiet.outside] at waits
    cases waits
  inside within := by
    rw [quiet.outside] at within
    cases within
  free _ _ := rfl

/-- No thread is inside with a lock that is free. -/
theorem Locked.ne_of_free (locked : Locked state) {key held : Key} (free : key ∉ state.flags) {thread : Thread}
    {start now : Local} (inside : state.places thread = .inside held start now) : held ≠ key := by
  rintro rfl
  exact free ((locked.flagged_iff held).mpr ⟨thread, start, now, inside⟩)

theorem Settled.other {env : Env} (settled : Settled sections cells state) : Settled sections cells { state with env } where
  flagged_iff := settled.flagged_iff
  alone := settled.alone
  waiting := settled.waiting
  inside := settled.inside
  free := settled.free

section Preservation
variable [DecidableEq Thread] {thread : Thread} {places : Thread → Place Key Local} {key : Key} {start now : Local}

/-- Where another thread is does not change. -/
theorem inside_of_update {place : Place Key Local} {other : Thread}
    (inside : update places thread place other = .inside key start now) :
    (other = thread ∧ place = .inside key start now) ∨ (other ≠ thread ∧ places other = .inside key start now) := by
  by_cases same : other = thread
  · subst same
    exact .inl ⟨rfl, by rwa [update_self] at inside⟩
  · exact .inr ⟨same, by rwa [update_of_ne same] at inside⟩

theorem waiting_of_update {place : Place Key Local} {other : Thread}
    (waiting : update places thread place other = .waiting key start) :
    (other = thread ∧ place = .waiting key start) ∨ (other ≠ thread ∧ places other = .waiting key start) := by
  by_cases same : other = thread
  · subst same
    exact .inl ⟨rfl, by rwa [update_self] at waiting⟩
  · exact .inr ⟨same, by rwa [update_of_ne same] at waiting⟩

theorem Settled.call [DecidableEq Key] {env : Env} (settled : Settled sections cells state)
    (outside : state.places thread = .outside) (called : sections.calls thread key start state.env env) :
    Settled sections cells { state with places := update state.places thread (.waiting key start), env } where
  flagged_iff other := by
    rw [settled.flagged_iff other]
    constructor
    · rintro ⟨holder, begun, local_, inside⟩
      have apart : holder ≠ thread := by
        rintro rfl
        rw [outside] at inside
        cases inside
      exact ⟨holder, begun, local_, (update_of_ne apart ..).trans inside⟩
    · rintro ⟨holder, begun, local_, inside⟩
      obtain ⟨-, inside⟩ | ⟨-, inside⟩ := inside_of_update inside
      · cases inside
      · exact ⟨holder, begun, local_, inside⟩
  alone inside inside' := by
    obtain ⟨-, inside⟩ | ⟨-, inside⟩ := inside_of_update inside
    · cases inside
    obtain ⟨-, inside'⟩ | ⟨-, inside'⟩ := inside_of_update inside'
    · cases inside'
    exact settled.alone inside inside'
  waiting waits := by
    obtain ⟨-, same⟩ | ⟨-, waits⟩ := waiting_of_update waits
    · obtain ⟨rfl, rfl⟩ := Place.waiting.inj same
      exact ⟨thread, _, _, called⟩
    · exact settled.waiting waits
  inside inside := by
    obtain ⟨-, inside⟩ | ⟨-, inside⟩ := inside_of_update inside
    · cases inside
    · exact settled.inside inside
  free := settled.free

theorem Settled.acquire (settled : Settled sections cells state) (waiting : state.places thread = .waiting key start)
    (free : key ∉ state.flags) :
    Settled sections cells { state with
      flags := insert key state.flags
      places := update state.places thread (.inside key start start) } where
  flagged_iff other := by
    rw [Set.mem_insert_iff, settled.flagged_iff other]
    constructor
    · rintro (rfl | ⟨holder, begun, local_, inside⟩)
      · exact ⟨thread, start, start, update_self ..⟩
      · have apart : holder ≠ thread := by
          rintro rfl
          rw [waiting] at inside
          cases inside
        exact ⟨holder, begun, local_, (update_of_ne apart ..).trans inside⟩
    · rintro ⟨holder, begun, local_, inside⟩
      obtain ⟨-, same⟩ | ⟨-, inside⟩ := inside_of_update inside
      · exact .inl (Place.inside.inj same).1.symm
      · exact .inr ⟨holder, begun, local_, inside⟩
  alone inside inside' := by
    obtain ⟨here, same⟩ | ⟨-, inside⟩ := inside_of_update inside <;>
      obtain ⟨here', same'⟩ | ⟨-, inside'⟩ := inside_of_update inside'
    · rw [here, here']
    · exact absurd (Place.inside.inj same).1.symm (settled.ne_of_free free inside')
    · exact absurd (Place.inside.inj same').1.symm (settled.ne_of_free free inside)
    · exact settled.alone inside inside'
  waiting waits := by
    obtain ⟨-, same⟩ | ⟨-, waits⟩ := waiting_of_update waits
    · cases same
    · exact settled.waiting waits
  inside inside := by
    obtain ⟨-, same⟩ | ⟨-, inside⟩ := inside_of_update inside
    · obtain ⟨rfl, rfl, rfl⟩ := Place.inside.inj same
      refine ⟨settled.waiting waiting, ?_⟩
      rw [settled.free _ free]
      exact .refl
    · exact settled.inside inside
  free other unflagged := settled.free other fun flagged => unflagged (Set.mem_insert_of_mem key flagged)

/-- What is done inside stays in the section, which is the only one of its key. -/
theorem Settled.work [DecidableEq Key] {env : Env} {next : Local} {cell : Cell} (settled : Settled sections cells state)
    (inside : state.places thread = .inside key start now)
    (worked : sections.works key state.env now (state.cells key) env next cell) :
    Settled sections cells { state with
      cells := update state.cells key cell
      places := update state.places thread (.inside key start next)
      env } where
  flagged_iff other := by
    rw [settled.flagged_iff other]
    constructor
    · rintro ⟨holder, begun, local_, within⟩
      by_cases here : holder = thread
      · subst here
        obtain ⟨rfl, rfl, rfl⟩ := Place.inside.inj (inside.symm.trans within)
        exact ⟨holder, start, next, update_self ..⟩
      · exact ⟨holder, begun, local_, (update_of_ne here ..).trans within⟩
    · rintro ⟨holder, begun, local_, within⟩
      obtain ⟨rfl, same⟩ | ⟨-, within⟩ := inside_of_update within
      · obtain ⟨rfl, -, -⟩ := Place.inside.inj same
        exact ⟨holder, start, now, inside⟩
      · exact ⟨holder, begun, local_, within⟩
  alone within within' := by
    obtain ⟨here, same⟩ | ⟨-, within⟩ := inside_of_update within <;>
      obtain ⟨here', same'⟩ | ⟨-, within'⟩ := inside_of_update within'
    · rw [here, here']
    · obtain ⟨rfl, -, -⟩ := Place.inside.inj same
      exact here ▸ settled.alone inside within'
    · obtain ⟨rfl, -, -⟩ := Place.inside.inj same'
      exact here' ▸ settled.alone within inside
    · exact settled.alone within within'
  waiting waits := by
    obtain ⟨-, same⟩ | ⟨-, waits⟩ := waiting_of_update waits
    · cases same
    · exact settled.waiting waits
  inside within := by
    obtain ⟨-, same⟩ | ⟨apart, within⟩ := inside_of_update within
    · obtain ⟨rfl, rfl, rfl⟩ := Place.inside.inj same
      obtain ⟨called, before⟩ := settled.inside inside
      refine ⟨called, before.tail ?_⟩
      dsimp only
      rw [update_self]
      exact ⟨_, _, worked⟩
    · dsimp only
      rw [update_of_ne fun same => apart (settled.alone within (same ▸ inside))]
      exact settled.inside within
  free other unflagged := by
    have apart : other ≠ key := by
      rintro rfl
      exact unflagged ((settled.flagged_iff other).mpr ⟨thread, start, now, inside⟩)
    dsimp only
    rw [update_of_ne apart]
    exact settled.free other unflagged

/-- With the lock that is given back the section as a whole takes its place among the others. -/
theorem Settled.release [DecidableEq Key] (settled : Settled sections cells state)
    (inside : state.places thread = .inside key start now) (ended : sections.ends now) :
    sections.AtOnce cells (key, start, now) (update cells key (state.cells key)) ∧
      Settled sections (update cells key (state.cells key)) { state with
        flags := state.flags \ {key}
        places := update state.places thread .outside } := by
  obtain ⟨called, works⟩ := settled.inside inside
  refine ⟨⟨_, ⟨called, works, ended⟩, rfl⟩, ?_⟩
  have others : ∀ {other held begun local_}, update state.places thread .outside other = .inside held begun local_ →
      held ≠ key ∧ state.places other = .inside held begun local_ := by
    intro other held begun local_ within
    obtain ⟨-, same⟩ | ⟨apart, within⟩ := inside_of_update within
    · cases same
    · exact ⟨fun same => apart (settled.alone within (same ▸ inside)), within⟩
  constructor
  · constructor
    · intro other
      rw [Set.mem_sdiff, Set.mem_singleton_iff, settled.flagged_iff other]
      constructor
      · rintro ⟨⟨holder, begun, local_, within⟩, apart⟩
        have away : holder ≠ thread := by
          rintro rfl
          exact apart (Place.inside.inj (within.symm.trans inside)).1
        exact ⟨holder, begun, local_, (update_of_ne away ..).trans within⟩
      · rintro ⟨holder, begun, local_, within⟩
        obtain ⟨apart, within⟩ := others within
        exact ⟨⟨holder, begun, local_, within⟩, apart⟩
    · exact fun within within' => settled.alone (others within).2 (others within').2
  · intro other held begun waits
    obtain ⟨-, same⟩ | ⟨-, waits⟩ := waiting_of_update waits
    · cases same
    · exact settled.waiting waits
  · intro other held begun local_ within
    obtain ⟨apart, within⟩ := others within
    rw [update_of_ne apart]
    exact settled.inside within
  · intro other unflagged
    by_cases same : other = key
    · rw [same, update_self]
    · rw [update_of_ne same]
      exact settled.free other fun flagged => unflagged ⟨flagged, same⟩

variable [DecidableEq Key]

/-- What a step completes is done at once, and nothing else changes what is settled. -/
theorem Settled.step (settled : Settled sections cells state) (taken : Step sections state action after) :
    ∃ cells', Run sections.AtOnce cells (completed [action]) cells' ∧ Settled sections cells' after := by
  cases taken with
  | call outside called => exact ⟨cells, .start, settled.call outside called⟩
  | acquire waiting free => exact ⟨cells, .start, settled.acquire waiting free⟩
  | work inside worked => exact ⟨cells, .start, settled.work inside worked⟩
  | release inside ended =>
    obtain ⟨whole, settled⟩ := settled.release inside ended
    exact ⟨_, .next .start whole, settled⟩
  | other changed => exact ⟨cells, .start, settled.other⟩

end Preservation

section Keys
variable [DecidableEq Key]

/-- The sections of a key. -/
def ofKey (key : Key) (done : List (Key × Local × Local)) : List (Local × Local) :=
  (done.filter fun section_ => section_.1 = key).map Prod.snd

theorem ofKey_concat (key : Key) (done : List (Key × Local × Local)) (section_ : Key × Local × Local) :
    ofKey key (done ++ [section_]) = ofKey key done ++ if section_.1 = key then [section_.2] else [] := by
  rw [ofKey, List.filter_append, List.map_append]
  by_cases same : section_.1 = key
  · simp [ofKey, same]
  · simp [ofKey, same]

/-- The sections of a key are done one after the other on its cell. -/
theorem AtOnce.ofKey {done : List (Key × Local × Local)} {cells' : Key → Cell} (key : Key)
    (run : Run sections.AtOnce cells done cells') :
    Run (fun cell section_ cell' => sections.Whole key section_.1 section_.2 cell cell') (cells key) (ofKey key done)
      (cells' key) := by
  induction run with
  | start => exact .start
  | @next done cells' section_ after _ taken ih =>
    obtain ⟨cell, whole, rfl⟩ := taken
    rw [ofKey_concat]
    by_cases same : section_.1 = key
    · subst same
      rw [if_pos rfl, update_self]
      exact .next ih whole
    · rw [if_neg same, update_of_ne (Ne.symm same), List.append_nil]
      exact ih

end Keys

section Runs
variable [DecidableEq Thread] [DecidableEq Key] {start : State Thread Key Cell Local Env}
  {actions : List (Action Thread Key Local)}

/-- A run comes to what its sections come to one after the other, in the order in which they give back their locks. -/
theorem serial (quiet : Quiet start) (run : Run (Step sections) start actions state) :
    ∃ cells, Run sections.AtOnce start.cells (completed actions) cells ∧ Settled sections cells state := by
  induction run with
  | start => exact ⟨start.cells, .start, .start quiet⟩
  | @next actions state action after _ taken ih =>
    obtain ⟨cells, done, settled⟩ := ih
    obtain ⟨cells', more, settled⟩ := settled.step taken
    refine ⟨cells', ?_, settled⟩
    rw [completed, List.filterMap_append]
    exact done.append more

/-- What a thread does inside, with the other data that it changes. -/
def Sections.WorksAlone (sections : Sections Thread Key Cell Local Env) (key : Key) :
    Env × Local × Cell → Env × Local × Cell → Prop :=
  ReflTransGen fun before after => sections.works key before.1 before.2.1 before.2.2 after.1 after.2.1 after.2.2

/-- A thread that finds the lock free can do a whole section while the others rest. -/
theorem alone {thread : Thread} {key : Key} {begun final : Local} {env env' : Env} {cell : Cell}
    (outside : state.places thread = .outside) (free : key ∉ state.flags)
    (called : sections.calls thread key begun state.env env)
    (works : sections.WorksAlone key (env, begun, state.cells key) (env', final, cell)) (ended : sections.ends final) :
    ∃ actions, Run (Step sections) state actions { state with cells := update state.cells key cell, env := env' } ∧
      completed actions = [(key, begun, final)] := by
  have within : ∀ after, sections.WorksAlone key (env, begun, state.cells key) after → ∃ actions,
      Run (Step sections) state actions {
        flags := insert key state.flags
        cells := update state.cells key after.2.2
        places := update state.places thread (.inside key begun after.2.1)
        env := after.1 } ∧ completed actions = [] := by
    intro after works
    induction works with
    | refl =>
      have asked : Run (Step sections) state [.call thread key begun]
          { state with places := update state.places thread (.waiting key begun), env } :=
        .next .start (.call outside called)
      have taken := asked.next (.acquire (update_self ..) free)
      simp only [update_idem] at taken
      rw [← update_eq_self key state.cells] at taken
      exact ⟨_, taken, rfl⟩
    | @tail middle after _ worked ih =>
      obtain ⟨actions, run, none_⟩ := ih
      have here : sections.works key middle.1 middle.2.1 (update state.cells key middle.2.2 key) after.1 after.2.1
          after.2.2 := by rwa [update_self]
      have next := run.next (.work (update_self ..) here)
      simp only [update_idem] at next
      refine ⟨_, next, ?_⟩
      rw [completed, List.filterMap_append]
      exact congrArg (· ++ []) none_
  obtain ⟨actions, run, none_⟩ := within _ works
  have released := run.next (.release (update_self ..) ended)
  have back : update state.places thread .outside = state.places := by rw [← outside, update_eq_self]
  simp only [update_idem, back, Set.insert_sdiff_self_of_notMem free] at released
  refine ⟨_, released, ?_⟩
  rw [completed, List.filterMap_append]
  exact congrArg (· ++ [(key, begun, final)]) none_

/-- A clock that never goes back, from which a section may take the time while it is inside. -/
structure Clocked {Time : Type} [Preorder Time] (sections : Sections Thread Key Cell Local Env) (clock : Env → Time)
    (stamp : Local → Option Time) : Prop where
  calls : ∀ {thread key start env env'}, sections.calls thread key start env env' →
    clock env ≤ clock env' ∧ stamp start = none
  works : ∀ {key env now cell env' next cell'}, sections.works key env now cell env' next cell' →
    clock env ≤ clock env' ∧ (stamp next = stamp now ∨ stamp next = some (clock env'))
  others : ∀ {env env'}, sections.others env env' → clock env ≤ clock env'

/-- The times that were taken so far. -/
structure Stamped {Time : Type} [Preorder Time] (clock : Env → Time) (stamp : Local → Option Time)
    (done : List (Key × Local × Local)) (state : State Thread Key Cell Local Env) : Prop where
  waiting : ∀ {thread key start}, state.places thread = .waiting key start → stamp start = none
  past : ∀ section_ ∈ done, ∀ time ∈ stamp section_.2.2, time ≤ clock state.env
  inside : ∀ {thread key start now}, state.places thread = .inside key start now → ∀ time ∈ stamp now,
    time ≤ clock state.env ∧ ∀ section_ ∈ ofKey key done, ∀ earlier ∈ stamp section_.2, earlier ≤ time
  ordered : ∀ key, (ofKey key done).Pairwise fun first second =>
    ∀ earlier ∈ stamp first.2, ∀ time ∈ stamp second.2, earlier ≤ time

section Times
variable {Time : Type} [Preorder Time] {clock : Env → Time} {stamp : Local → Option Time}
  {done : List (Key × Local × Local)}

theorem mem_of_mem_ofKey {key : Key} {section_ : Local × Local} (member : section_ ∈ ofKey key done) :
    (key, section_) ∈ done := by
  obtain ⟨whole, within, rfl⟩ := List.mem_map.mp member
  obtain ⟨within, same⟩ := List.mem_filter.mp within
  rwa [← of_decide_eq_true same]

theorem Stamped.step (clocked : Clocked sections clock stamp) (locked : Locked state)
    (stamped : Stamped clock stamp done state) (taken : Step sections state action after) :
    Stamped clock stamp (done ++ completed [action]) after := by
  cases taken with
  | call outside called =>
    obtain ⟨later, fresh⟩ := clocked.calls called
    rw [show completed [Action.call _ _ _] = [] from rfl, List.append_nil]
    refine ⟨?_, fun section_ member time taken => (stamped.past section_ member time taken).trans later, ?_, stamped.ordered⟩
    · intro thread key start waits
      obtain ⟨-, same⟩ | ⟨-, waits⟩ := waiting_of_update waits
      · obtain ⟨-, rfl⟩ := Place.waiting.inj same
        exact fresh
      · exact stamped.waiting waits
    · intro thread key start now inside time taken
      obtain ⟨-, same⟩ | ⟨-, inside⟩ := inside_of_update inside
      · cases same
      · exact ⟨(stamped.inside inside time taken).1.trans later, (stamped.inside inside time taken).2⟩
  | acquire waiting free =>
    rw [show completed [Action.acquire _ _] = [] from rfl, List.append_nil]
    refine ⟨?_, stamped.past, ?_, stamped.ordered⟩
    · intro thread key start waits
      obtain ⟨-, same⟩ | ⟨-, waits⟩ := waiting_of_update waits
      · cases same
      · exact stamped.waiting waits
    · intro thread key start now inside time taken
      obtain ⟨-, same⟩ | ⟨-, inside⟩ := inside_of_update inside
      · obtain ⟨-, -, rfl⟩ := Place.inside.inj same
        rw [stamped.waiting waiting] at taken
        cases taken
      · exact stamped.inside inside time taken
  | work within worked =>
    obtain ⟨later, stamps⟩ := clocked.works worked
    rw [show completed [Action.work _ _] = [] from rfl, List.append_nil]
    refine ⟨?_, fun section_ member time taken => (stamped.past section_ member time taken).trans later, ?_, stamped.ordered⟩
    · intro thread key start waits
      obtain ⟨-, same⟩ | ⟨-, waits⟩ := waiting_of_update waits
      · cases same
      · exact stamped.waiting waits
    · intro thread key start now inside time taken
      obtain ⟨-, same⟩ | ⟨-, inside⟩ := inside_of_update inside
      · obtain ⟨rfl, -, rfl⟩ := Place.inside.inj same
        rcases stamps with kept | fresh
        · rw [kept] at taken
          exact ⟨(stamped.inside within time taken).1.trans later, (stamped.inside within time taken).2⟩
        · rw [fresh] at taken
          obtain rfl := Option.some.inj taken
          exact ⟨le_rfl, fun section_ member earlier taken =>
            (stamped.past _ (mem_of_mem_ofKey member) earlier taken).trans later⟩
      · exact ⟨(stamped.inside inside time taken).1.trans later, (stamped.inside inside time taken).2⟩
  | @release thread key start now within ended =>
    rw [show completed [Action.release thread key start now] = [(key, start, now)] from rfl]
    refine ⟨?_, ?_, ?_, ?_⟩
    · intro thread key start waits
      obtain ⟨-, same⟩ | ⟨-, waits⟩ := waiting_of_update waits
      · cases same
      · exact stamped.waiting waits
    · intro section_ member time taken
      obtain member | same := List.mem_append.mp member
      · exact stamped.past section_ member time taken
      · obtain rfl := List.mem_singleton.mp same
        exact (stamped.inside within time taken).1
    · intro other held begun local_ inside time taken
      obtain ⟨-, same⟩ | ⟨apart, inside⟩ := inside_of_update inside
      · cases same
      rw [ofKey_concat, if_neg fun same : key = held => apart (locked.alone inside (same ▸ within)), List.append_nil]
      exact stamped.inside inside time taken
    · intro held
      rw [ofKey_concat]
      split
      · rename_i same
        subst same
        rw [List.pairwise_append]
        refine ⟨stamped.ordered _, List.pairwise_singleton _ _, ?_⟩
        intro section_ member last same earlier taken time taken'
        obtain rfl := List.mem_singleton.mp same
        exact (stamped.inside within time taken').2 section_ member earlier taken
      · rw [List.append_nil]
        exact stamped.ordered held
  | other changed =>
    have later := clocked.others changed
    rw [show completed [(Action.other : Action Thread Key Local)] = [] from rfl, List.append_nil]
    exact ⟨stamped.waiting, fun section_ member time taken => (stamped.past section_ member time taken).trans later,
      fun inside time taken => ⟨(stamped.inside inside time taken).1.trans later, (stamped.inside inside time taken).2⟩,
      stamped.ordered⟩

/-- The sections of a key take their times in the order in which they give back the lock. -/
theorem stamped_of_run (clocked : Clocked sections clock stamp) (quiet : Quiet start)
    (run : Run (Step sections) start actions state) : Stamped clock stamp (completed actions) state := by
  induction run with
  | start =>
    refine ⟨fun waits => ?_, fun section_ member => (List.not_mem_nil member).elim, fun inside => ?_, fun _ => .nil⟩
    · rw [quiet.outside] at waits
      cases waits
    · rw [quiet.outside] at inside
      cases inside
  | @next actions state action after earlier taken ih =>
    obtain ⟨cells, -, settled⟩ := serial quiet earlier
    rw [completed, List.filterMap_append]
    exact ih.step clocked settled.toLocked taken

end Times

/-- What is recorded for a key, by the sections of the key alone and each time at the end, and what a section has
recorded so far. -/
structure Ledger {Fact : Type} (sections : Sections Thread Key Cell Local Env) (records : Env → Key → List Fact)
    (said : Local → List Fact) : Prop where
  calls : ∀ {thread key start env env'}, sections.calls thread key start env env' →
    records env' = records env ∧ said start = []
  works : ∀ {key env now cell env' next cell'}, sections.works key env now cell env' next cell' →
    ∃ more, said next = said now ++ more ∧ records env' key = records env key ++ more ∧
      ∀ other ≠ key, records env' other = records env other
  others : ∀ {env env'}, sections.others env env' → records env' = records env

/-- What the sections of a key have recorded, in the order in which they gave back the lock. -/
def recorded {Fact : Type} (said : Local → List Fact) (key : Key) (done : List (Key × Local × Local)) : List Fact :=
  (ofKey key done).flatMap fun section_ => said section_.2

structure Recorded {Fact : Type} (records : Env → Key → List Fact) (said : Local → List Fact) (first : Env)
    (done : List (Key × Local × Local)) (state : State Thread Key Cell Local Env) : Prop where
  waiting : ∀ {thread key start}, state.places thread = .waiting key start → said start = []
  inside : ∀ {thread key start now}, state.places thread = .inside key start now →
    records state.env key = records first key ++ recorded said key done ++ said now
  free : ∀ key ∉ state.flags, records state.env key = records first key ++ recorded said key done

section Ledger
variable {Fact : Type} {records : Env → Key → List Fact} {said : Local → List Fact} {first : Env}
  {done : List (Key × Local × Local)}

theorem recorded_concat (key : Key) (section_ : Key × Local × Local) :
    recorded said key (done ++ [section_]) =
      recorded said key done ++ if section_.1 = key then said section_.2.2 else [] := by
  rw [recorded, ofKey_concat, List.flatMap_append]
  split
  · rw [List.flatMap_singleton]
    rfl
  · rfl

theorem Recorded.step (ledger : Ledger sections records said) (locked : Locked state)
    (kept : Recorded records said first done state) (taken : Step sections state action after) :
    Recorded records said first (done ++ completed [action]) after := by
  cases taken with
  | call outside called =>
    obtain ⟨same, silent⟩ := ledger.calls called
    rw [show completed [Action.call _ _ _] = [] from rfl, List.append_nil]
    refine ⟨fun waits => ?_, fun inside => ?_, fun key free => ?_⟩
    · obtain ⟨-, same⟩ | ⟨-, waits⟩ := waiting_of_update waits
      · obtain ⟨-, rfl⟩ := Place.waiting.inj same
        exact silent
      · exact kept.waiting waits
    · obtain ⟨-, same⟩ | ⟨-, inside⟩ := inside_of_update inside
      · cases same
      · exact (congrFun same _).trans (kept.inside inside)
    · exact (congrFun same key).trans (kept.free key free)
  | acquire waiting free =>
    rw [show completed [Action.acquire _ _] = [] from rfl, List.append_nil]
    refine ⟨fun waits => ?_, fun inside => ?_, fun key unflagged => ?_⟩
    · obtain ⟨-, same⟩ | ⟨-, waits⟩ := waiting_of_update waits
      · cases same
      · exact kept.waiting waits
    · obtain ⟨-, same⟩ | ⟨-, inside⟩ := inside_of_update inside
      · obtain ⟨rfl, -, rfl⟩ := Place.inside.inj same
        rw [kept.waiting waiting, List.append_nil]
        exact kept.free _ free
      · exact kept.inside inside
    · exact kept.free key fun flagged => unflagged (Set.mem_insert_of_mem _ flagged)
  | @work worker key begun now env next cell within worked =>
    obtain ⟨more, spoken, here, elsewhere⟩ := ledger.works worked
    rw [show completed [Action.work _ _] = [] from rfl, List.append_nil]
    refine ⟨fun waits => ?_, fun inside => ?_, fun other unflagged => ?_⟩
    · obtain ⟨-, same⟩ | ⟨-, waits⟩ := waiting_of_update waits
      · cases same
      · exact kept.waiting waits
    · obtain ⟨-, same⟩ | ⟨apart, inside⟩ := inside_of_update inside
      · obtain ⟨rfl, -, rfl⟩ := Place.inside.inj same
        rw [here, kept.inside within, spoken, List.append_assoc]
      · rw [elsewhere _ fun same => apart (locked.alone inside (same ▸ within))]
        exact kept.inside inside
    · have apart : other ≠ key := by
        rintro rfl
        exact unflagged ((locked.flagged_iff other).mpr ⟨worker, begun, now, within⟩)
      rw [elsewhere other apart]
      exact kept.free other unflagged
  | @release thread key begun now within ended =>
    rw [show completed [Action.release thread key begun now] = [(key, begun, now)] from rfl]
    refine ⟨fun waits => ?_, fun inside => ?_, fun other unflagged => ?_⟩
    · obtain ⟨-, same⟩ | ⟨-, waits⟩ := waiting_of_update waits
      · cases same
      · exact kept.waiting waits
    · obtain ⟨-, same⟩ | ⟨apart, inside⟩ := inside_of_update inside
      · cases same
      · rw [recorded_concat, if_neg fun same : key = _ => apart (locked.alone inside (same ▸ within)), List.append_nil]
        exact kept.inside inside
    · rw [recorded_concat]
      by_cases same : key = other
      · subst same
        rw [if_pos rfl, ← List.append_assoc]
        exact kept.inside within
      · rw [if_neg same, List.append_nil]
        exact kept.free other fun flagged => unflagged ⟨flagged, Ne.symm same⟩
  | other changed =>
    have same := ledger.others changed
    rw [show completed [(Action.other : Action Thread Key Local)] = [] from rfl, List.append_nil]
    exact ⟨kept.waiting, fun inside => (congrFun same _).trans (kept.inside inside), fun key free =>
      (congrFun same key).trans (kept.free key free)⟩

/-- The records of a key are those of its sections, in their order, and then those of the section that is under way. -/
theorem recorded_of_run (ledger : Ledger sections records said) (quiet : Quiet start)
    (run : Run (Step sections) start actions state) : Recorded records said start.env (completed actions) state := by
  induction run with
  | start =>
    refine ⟨fun waits => ?_, fun inside => ?_, fun key free => (List.append_nil _).symm⟩
    · rw [quiet.outside] at waits
      cases waits
    · rw [quiet.outside] at inside
      cases inside
  | @next actions state action after earlier taken ih =>
    obtain ⟨cells, -, settled⟩ := serial quiet earlier
    rw [completed, List.filterMap_append]
    exact ih.step ledger settled.toLocked taken

end Ledger

end Runs

end KeyedLocks
