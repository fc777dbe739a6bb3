import ContentBased.Library.Run

/-! A table that is served while the next one is made beside it, and threads that read the served one step by step. -/
namespace DoubleBuffer
open Function

variable {Call Maker Table Reader Answer Thread : Type}

/-- What the calls do of the one that makes the tables: one exchanges the two, or changes the one that is not served, or
leaves both alone. -/
structure Making (Call Maker Table : Type) where
  swaps : Call → Bool
  edit : Call → Option (Maker → Table → Table)
  after : Call → Maker → Maker

def Making.Leaves (making : Making Call Maker Table) (call : Call) : Prop := making.swaps call ∨ making.edit call = none

/-- The two tables, which of them is served, and what the maker keeps besides. -/
structure Buffers (Maker Table : Type) where
  maker : Maker
  tables : Bool → Table
  served : Bool

namespace Buffers

def current (buffers : Buffers Maker Table) : Table := buffers.tables buffers.served

def beside (buffers : Buffers Maker Table) : Table := buffers.tables !buffers.served

variable (making : Making Call Maker Table)

def called (buffers : Buffers Maker Table) (call : Call) : Buffers Maker Table :=
  let maker := making.after call buffers.maker
  if making.swaps call then { buffers with maker, served := !buffers.served }
  else
    match making.edit call with
    | some edit =>
      { buffers with maker, tables := update buffers.tables (!buffers.served) (edit buffers.maker buffers.beside) }
    | none => { buffers with maker }

variable {making} {buffers : Buffers Maker Table} {call : Call} {edit : Maker → Table → Table}

theorem called_of_swaps (swaps : making.swaps call) :
    buffers.called making call = { buffers with maker := making.after call buffers.maker, served := !buffers.served } :=
  if_pos swaps

theorem called_of_edit (stays : ¬ making.swaps call) (edits : making.edit call = some edit) :
    buffers.called making call =
      { buffers with
        maker := making.after call buffers.maker
        tables := update buffers.tables (!buffers.served) (edit buffers.maker buffers.beside) } := by
  rw [called, if_neg stays, edits]

theorem called_of_none (stays : ¬ making.swaps call) (none_ : making.edit call = none) :
    buffers.called making call = { buffers with maker := making.after call buffers.maker } := by
  rw [called, if_neg stays, none_]

theorem tables_of_leaves (buffers : Buffers Maker Table) (leaves : making.Leaves call) :
    (buffers.called making call).tables = buffers.tables := by
  by_cases swaps : making.swaps call
  · rw [called_of_swaps swaps]
  · rw [called_of_none swaps (leaves.resolve_left swaps)]

theorem served_of_stays (buffers : Buffers Maker Table) (stays : ¬ making.swaps call) :
    (buffers.called making call).served = buffers.served := by
  rw [called, if_neg stays]
  split <;> rfl

/-- What is served only changes when the tables are exchanged. -/
theorem current_of_stays (buffers : Buffers Maker Table) (stays : ¬ making.swaps call) :
    (buffers.called making call).current = buffers.current := by
  cases edits : making.edit call with
  | some edit =>
    rw [called_of_edit stays edits]
    exact update_of_ne (Bool.self_ne_not _) _ _
  | none =>
    rw [called_of_none stays edits]
    rfl

@[simp] theorem maker_called : (buffers.called making call).maker = making.after call buffers.maker := by
  by_cases swaps : making.swaps call
  · rw [called_of_swaps swaps]
  · cases edits : making.edit call with
    | some edit => rw [called_of_edit swaps edits]
    | none => rw [called_of_none swaps edits]

theorem maker_foldl (buffers : Buffers Maker Table) (calls : List Call) :
    (calls.foldl (called making) buffers).maker =
      calls.foldl (fun maker call => making.after call maker) buffers.maker := by
  induction calls generalizing buffers with
  | nil => rfl
  | cons call calls ih => rw [List.foldl_cons, List.foldl_cons, ih, maker_called]

end Buffers

section Mirrored
variable {Content : Type} {making : Making Call Maker Table} {served beside : Maker → Content} {content : Table → Content}
  {buffers : Buffers Maker Table}

/-- What the calls do to the tables is what they do to the two contents that the maker knows of. -/
structure Mirroring (making : Making Call Maker Table) (served beside : Maker → Content) (content : Table → Content) :
    Prop where
  swap : ∀ call maker, making.swaps call →
    served (making.after call maker) = beside maker ∧ beside (making.after call maker) = served maker
  edit : ∀ call maker table edit, ¬ making.swaps call → making.edit call = some edit → beside maker = content table →
    served (making.after call maker) = served maker ∧ beside (making.after call maker) = content (edit maker table)
  leave : ∀ call maker, ¬ making.swaps call → making.edit call = none →
    served (making.after call maker) = served maker ∧ beside (making.after call maker) = beside maker

structure Mirrored (served beside : Maker → Content) (content : Table → Content) (buffers : Buffers Maker Table) :
    Prop where
  served : served buffers.maker = content buffers.current
  beside : beside buffers.maker = content buffers.beside

theorem Mirrored.called (mirrored : Mirrored served beside content buffers)
    (mirroring : Mirroring making served beside content) (call : Call) :
    Mirrored served beside content (buffers.called making call) := by
  by_cases swaps : making.swaps call
  · obtain ⟨first, second⟩ := mirroring.swap call buffers.maker swaps
    rw [Buffers.called_of_swaps swaps]
    refine ⟨first.trans mirrored.beside, second.trans (mirrored.served.trans ?_)⟩
    rw [Buffers.current, Buffers.beside, Bool.not_not]
  · cases edits : making.edit call with
    | some edit =>
      obtain ⟨first, second⟩ := mirroring.edit call buffers.maker _ edit swaps edits mirrored.beside
      rw [Buffers.called_of_edit swaps edits]
      refine ⟨first.trans (mirrored.served.trans ?_), second.trans ?_⟩
      · exact congrArg content (update_of_ne (Bool.self_ne_not _) _ _).symm
      · simp only [Buffers.beside, update_self]
    | none =>
      obtain ⟨first, second⟩ := mirroring.leave call buffers.maker swaps edits
      rw [Buffers.called_of_none swaps edits]
      exact ⟨first.trans mirrored.served, second.trans mirrored.beside⟩

theorem Mirrored.foldl (mirrored : Mirrored served beside content buffers)
    (mirroring : Mirroring making served beside content) (calls : List Call) :
    Mirrored served beside content (calls.foldl (Buffers.called making) buffers) := by
  induction calls generalizing buffers with
  | nil => exact mirrored
  | cons call calls ih => exact ih (mirrored.called mirroring call)

end Mirrored

/-- A table is changed after an exchange: it may be the one that was served before. -/
def Overtakes (making : Making Call Maker Table) (calls : List Call) : Prop :=
  ∃ before swap after edit, calls = before ++ swap :: after ∧ making.swaps swap ∧ edit ∈ after ∧ ¬ making.Leaves edit

theorem Overtakes.append {making : Making Call Maker Table} {calls : List Call} (overtakes : Overtakes making calls)
    (front back : List Call) : Overtakes making (front ++ calls ++ back) := by
  obtain ⟨before, swap, after, edit, rfl, swaps, member, edits⟩ := overtakes
  refine ⟨front ++ before, swap, after ++ back, edit, ?_, swaps, List.mem_append_left back member, edits⟩
  simp only [List.append_assoc, List.cons_append]

theorem Overtakes.cons {making : Making Call Maker Table} {call : Call} {calls : List Call}
    (overtakes : Overtakes making calls) : Overtakes making (call :: calls) := by
  have longer := overtakes.append [call] []
  rwa [List.append_nil] at longer

/-- What the maker and the threads do. -/
inductive Event (Thread Call Reader Answer : Type) where
  | call (call : Call)
  | start (thread : Thread) (reader : Reader)
  | look (thread : Thread)
  | answer (thread : Thread) (answer : Answer)

def Event.call? : Event Thread Call Reader Answer → Option Call
  | .call made => some made
  | _ => none

def callsOf (events : List (Event Thread Call Reader Answer)) : List Call := events.filterMap Event.call?

/-- A thread that reads has noted which table was served when it began. -/
structure System (Thread Maker Table Reader : Type) where
  buffers : Buffers Maker Table
  reading : Thread → Option (Bool × Reader)

section Steps
variable [DecidableEq Thread] (making : Making Call Maker Table) (look : Table → Reader → Reader ⊕ Answer)

inductive Step : System Thread Maker Table Reader → Event Thread Call Reader Answer →
    System Thread Maker Table Reader → Prop
  | call {system call} : Step system (.call call) { system with buffers := system.buffers.called making call }
  | start {system thread reader} (idle : system.reading thread = none) :
      Step system (.start thread reader)
        { system with reading := update system.reading thread (some (system.buffers.served, reader)) }
  | look {system thread table reader next} (reads : system.reading thread = some (table, reader))
      (looked : look (system.buffers.tables table) reader = .inl next) :
      Step system (.look thread) { system with reading := update system.reading thread (some (table, next)) }
  | answer {system thread table reader answer} (reads : system.reading thread = some (table, reader))
      (looked : look (system.buffers.tables table) reader = .inr answer) :
      Step system (.answer thread answer) { system with reading := update system.reading thread none }

/-- The answer that a reader comes to when nobody changes the table. -/
inductive Reads (table : Table) : Reader → Answer → Prop
  | answer {reader answer} (looked : look table reader = .inr answer) : Reads table reader answer
  | look {reader next answer} (looked : look table reader = .inl next) (reads : Reads table next answer) :
      Reads table reader answer

end Steps

section Runs
variable [DecidableEq Thread] {making : Making Call Maker Table} {look : Table → Reader → Reader ⊕ Answer}
  {system after : System Thread Maker Table Reader} {events before during : List (Event Thread Call Reader Answer)}
  {thread : Thread} {table : Table} {index : Bool} {reader : Reader} {answer : Answer}

omit [DecidableEq Thread] in
theorem Reads.unique {other : Answer} (reads : Reads look table reader answer) (others : Reads look table reader other) :
    answer = other := by
  induction reads with
  | answer looked =>
    cases others with
    | answer looked' => exact Sum.inr.inj (looked.symm.trans looked')
    | look looked' => cases looked.symm.trans looked'
  | look looked _ ih =>
    cases others with
    | answer looked' => cases looked.symm.trans looked'
    | look looked' reads =>
      cases looked.symm.trans looked'
      exact ih reads

theorem buffers_of_run (run : Run (Step making look) system events after) :
    after.buffers = (callsOf events).foldl (Buffers.called making) system.buffers := by
  induction run with
  | start => rfl
  | next _ taken ih =>
    rw [callsOf, List.filterMap_append, List.foldl_append, ← callsOf, ← ih]
    cases taken <;> rfl

/-- As long as a reader has its table to itself, it comes to the answer that it comes to alone. The table is the one that
is served, until an exchange, and from there on nothing may be changed. -/
theorem reads_of_run (run : Run (Step making look) system (during ++ [.answer thread answer]) after)
    (own : ∀ other, .answer thread other ∉ during) (reads : system.reading thread = some (index, reader))
    (kept : index = system.buffers.served ∧ ¬ Overtakes making (callsOf during) ∨
      ∀ call ∈ callsOf during, making.Leaves call) :
    Reads look (system.buffers.tables index) reader answer := by
  induction during generalizing system reader with
  | nil =>
    cases run.of_single with
    | answer reads' looked =>
      obtain ⟨rfl, rfl⟩ := Prod.mk.inj (Option.some.inj (reads.symm.trans reads'))
      exact .answer looked
  | cons event during ih =>
    obtain ⟨middle, first, rest⟩ := @Run.split _ _ _ _ [event] _ _ run
    have own' : ∀ other, .answer thread other ∉ during := fun other member => own other (List.mem_cons_of_mem _ member)
    cases first.of_single with
    | @call call =>
      have back : ∀ edit ∈ callsOf during, edit ∈ callsOf (.call call :: during) := fun _ => List.mem_cons_of_mem _
      by_cases swaps : making.swaps call
      · have same := Buffers.tables_of_leaves system.buffers (Or.inl swaps : making.Leaves call)
        have reached := ih rest own' reads (.inr fun edit member => ?_)
        · rw [← same]
          exact reached
        · rcases kept with ⟨-, apart⟩ | all
          · by_contra edits
            exact apart ⟨[], call, _, edit, rfl, swaps, member, edits⟩
          · exact all edit (back edit member)
      · rcases kept with ⟨served, apart⟩ | all
        · have same := Buffers.current_of_stays system.buffers swaps
          have still := Buffers.served_of_stays system.buffers swaps
          have reached := ih rest own' reads (.inl ⟨served.trans still.symm, fun overtakes => apart overtakes.cons⟩)
          rw [Buffers.current, Buffers.current, still, ← served] at same
          rw [← same]
          exact reached
        · have same := Buffers.tables_of_leaves system.buffers (all call List.mem_cons_self)
          have reached := ih rest own' reads (.inr fun edit member => all edit (back edit member))
          rw [← same]
          exact reached
    | @start other reader' idle =>
      have others : thread ≠ other := by
        rintro rfl
        cases reads.symm.trans idle
      have reached := ih rest own' ((update_of_ne others _ _).trans reads) kept
      exact reached
    | @look other table reader' next reads' looked =>
      by_cases same : thread = other
      · subst same
        obtain ⟨rfl, rfl⟩ := Prod.mk.inj (Option.some.inj (reads.symm.trans reads'))
        have reached := ih rest own' (update_self ..) kept
        exact .look looked reached
      · have reached := ih rest own' ((update_of_ne same _ _).trans reads) kept
        exact reached
    | @answer other table reader' answer' reads' looked =>
      have others : thread ≠ other := by
        rintro rfl
        exact own _ List.mem_cons_self
      have reached := ih rest own' ((update_of_ne others _ _).trans reads) kept
      exact reached

/-- A reader that is not overtaken answers from the table that was served when it began. -/
theorem answer_of_run
    (run : Run (Step making look) system (before ++ .start thread reader :: during ++ [.answer thread answer]) after)
    (own : ∀ other, .answer thread other ∉ during) (apart : ¬ Overtakes making (callsOf during)) :
    Reads look ((callsOf before).foldl (Buffers.called making) system.buffers).current reader answer := by
  rw [List.append_assoc] at run
  obtain ⟨middle, first, rest⟩ := run.split
  obtain ⟨next, began, rest⟩ := @Run.split _ _ _ _ [Event.start thread reader] _ _ rest
  rw [← buffers_of_run first]
  cases began.of_single with
  | start idle =>
    have reached := reads_of_run rest own (update_self ..) (.inl ⟨rfl, apart⟩)
    exact reached

end Runs

end DoubleBuffer
