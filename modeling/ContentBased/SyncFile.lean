import ContentBased.FeedbackReports
import ContentBased.Library.Run

namespace ContentBased.FrameworkCenter
open Wire Readers

/-- What `candidate_feedback` is called with: the bytes of the list are the `push_num << 3` that it copies. -/
structure Push where
  uid : UInt64
  pushNum : Int32
  ids : Bytes
deriving DecidableEq

namespace Push

/-- A list with ids, as `process_feedback` is given it when it writes to the sync file. -/
def Given (push : Push) : Prop := 0 < push.pushNum.toInt ∧ (push.ids.length : Int) = 8 * push.pushNum.toInt

def record (push : Push) : Bytes := syncRecord push.uid push.pushNum push.ids

/-- The list fits the buffer of `candidate_feedback`. -/
def Sendable (push : Push) : Prop := (candidateFeedback push.uid push.pushNum push.ids).isSome

instance (push : Push) : Decidable push.Sendable := inferInstanceAs (Decidable (_ = true))

end Push

/-- A write from the start of a file on. -/
def overwrite (old bytes : Bytes) : Bytes := bytes ++ old.drop bytes.length

/-- What `thread_feedback` reads next from a file. -/
inductive ReadBack where
  | stop
  | overrun
  | record (push : Push) (rest : Bytes)

/-- The loop of `thread_feedback`, with a buffer of 2^20 bytes: a head of twelve bytes, and so many bytes as its count says
for the list and the flag. -/
def readBack (bytes : Bytes) : ReadBack :=
  match (do
    let uid ← word
    let pushNum ← int
    return (uid, pushNum)).run bytes with
  | none => .stop
  | some ((uid, pushNum), rest) =>
    let size := (pushNum + 1) * 8
    -- A size below 0 is a `size_t` that asks for the whole file.
    let stored := if size < 0 then rest.length else min rest.length size.toInt.toNat
    if 1048564 < stored then .overrun
    else if size ≤ 0 ∨ rest.length < size.toInt.toNat then .stop
    else
      match copied pushNum (rest.take size.toInt.toNat) with
      | none => .overrun
      | some ids => .record ⟨uid, pushNum, ids⟩ (rest.drop size.toInt.toNat)

/-- The files with the feedback, what the thread has still to read of the one that it has open, and what has been called and
passed on. -/
structure SyncState where
  save : Option Bytes := none
  send : Option Bytes := none
  reading : Option Bytes := none
  called : List Push := []
  passed : List Push := []
deriving DecidableEq

/-- A call of `process_feedback` with its write, and what the thread does: it renames `sync.save`, opens `sync.send`, and
reads on. -/
inductive SyncAction where
  | call (push : Push) (given : push.Given)
  | rename
  | open_
  | read

/-- A step, which comes to nothing when a buffer is written beyond its end. -/
def SyncState.step (state : SyncState) : SyncAction → Option SyncState
  | .call push _ =>
    if push.Sendable then
      some { state with
        save := some (overwrite (state.save.getD []) push.record)
        called := state.called ++ [push] }
    else none
  | .rename =>
    match state.send, state.save with
    | none, some bytes => some { state with save := none, send := some bytes }
    | _, _ => some state
  | .open_ =>
    match state.send, state.reading with
    | some bytes, none => some { state with reading := some bytes }
    | _, _ => some state
  | .read =>
    match state.reading with
    | none => some state
    | some bytes =>
      match readBack bytes with
      | .stop => some { state with send := none, reading := none }
      | .overrun => none
      | .record push rest =>
        if push.Sendable then some { state with reading := some rest, passed := state.passed ++ [push] } else none

def SyncStep (state : SyncState) (action : SyncAction) (after : SyncState) : Prop := state.step action = some after

/-- What the thread passes on of a file, up to a number of records. -/
def passedOn : Nat → Bytes → List Push
  | 0, _ => []
  | turns + 1, bytes =>
    match readBack bytes with
    | .record push rest => push :: passedOn turns rest
    | _ => []

def inFile (file : Option Bytes) : List Push :=
  match file with
  | none => []
  | some bytes => passedOn bytes.length bytes

/-- The calls are those that are passed on, those that are left in the file that is sent, and those in the other. -/
def SyncState.NothingLost (state : SyncState) : Prop :=
  state.called = state.passed ++ (inFile (state.reading.or state.send) ++ inFile state.save)

/-- A call that finds no file and has a list of at most 1277 ids. -/
def SyncState.Meets (state : SyncState) : SyncAction → Prop
  | .call push _ => state.save = none ∧ push.pushNum.toInt ≤ 1277
  | _ => True

/-- What the thread does to pass on all that there is in files of one record. -/
def drain : List SyncAction := [.open_, .read, .read, .rename, .open_, .read, .read]

/-- A list that a caller gives and that is not longer than what can be sent. -/
structure Push.Small (push : Push) : Prop where
  positive : 0 < push.pushNum.toInt
  length_ids : (push.ids.length : Int) = 8 * push.pushNum.toInt
  small : push.pushNum.toInt ≤ 1277

namespace Push.Small
variable {push : Push}

theorem copied_append (given : push.Small) (more : Bytes) : copied push.pushNum (push.ids ++ more) = some push.ids := by
  obtain ⟨positive, length, small⟩ := given
  apply copied_of_size
  rw [toInt_size (by omega) (by omega), length]

theorem sendable (given : push.Small) : push.Sendable := by
  have copies := given.copied_append []
  have length := given.length_ids
  have small := given.small
  rw [List.append_nil] at copies
  have sent : candidateFeedback push.uid push.pushNum push.ids =
      some (feedbackRequest push.uid push.pushNum push.ids) := by
    rw [candidateFeedback, copies]
    exact if_neg (by omega)
  rw [Sendable, sent]
  rfl

/-- A record is read back as it was written. -/
theorem readBack_record (given : push.Small) : readBack push.record = .record push [] := by
  obtain ⟨positive, length, small⟩ := given
  have one : (1 : Int32).toInt = 1 := rfl
  have next : (push.pushNum + 1).toInt = push.pushNum.toInt + 1 := by
    rw [Wrapping.toInt_add_of_fits (by omega) (by omega), one]
  have size : ((push.pushNum + 1) * 8).toInt = push.ids.length + 8 := by
    rw [toInt_size (by omega) (by omega), next, length]
    ring
  have flag : syncFlag.length = 8 := by decide +kernel
  have behind : (push.ids ++ syncFlag).length = push.ids.length + 8 := by rw [List.length_append, flag]
  have wanted : ((push.pushNum + 1) * 8).toInt.toNat = (push.ids ++ syncFlag).length := by omega
  have reads : Reads (do
      let uid ← word
      let pushNum ← int
      return (uid, pushNum)) (rawWord push.uid ++ rawInt push.pushNum) (push.uid, push.pushNum) :=
    (Reads.word _).bind (Reads.int _).map
  have bytes : push.record = (rawWord push.uid ++ rawInt push.pushNum) ++ (push.ids ++ syncFlag) := by
    simp only [record, syncRecord, List.append_assoc]
  have nonneg : ¬ (push.pushNum + 1) * 8 < 0 := by
    rw [Int32.lt_iff_toInt_lt, size, Int32.toInt_zero]
    omega
  have some_ : ¬ ((push.pushNum + 1) * 8 ≤ 0 ∨
      (push.ids ++ syncFlag).length < ((push.pushNum + 1) * 8).toInt.toNat) := by
    rw [Int32.le_iff_toInt_le, wanted, size, Int32.toInt_zero]
    omega
  rw [readBack, bytes, reads]
  dsimp only
  rw [if_neg nonneg, if_neg (by omega), if_neg some_, wanted, List.take_length, List.drop_length,
    copied_append ⟨positive, length, small⟩]

theorem inFile_record (given : push.Small) : inFile (some push.record) = [push] := by
  have length : push.record.length = push.ids.length + 19 + 1 := by
    have flag : syncFlag.length = 8 := by decide +kernel
    simp only [record, syncRecord, List.length_append, length_rawWord, length_rawInt, flag]
    omega
  rw [inFile, length, passedOn, readBack_record given]
  rfl

end Push.Small

/-- How the file that is sent and what is left to read of it stand, with the call that is still in it. -/
inductive Sending : Option Push → Option Bytes → Option Bytes → Prop
  | absent : Sending none none none
  | renamed (push : Push) : Sending (some push) (some push.record) none
  | opened (push : Push) : Sending (some push) (some push.record) (some push.record)
  | done (bytes : Bytes) : Sending none (some bytes) (some [])

/-- Each file has at most one call in it. -/
structure Tidy (state : SyncState) (front back : Option Push) : Prop where
  sending : Sending front state.send state.reading
  save : state.save = back.map Push.record
  front_small : ∀ push ∈ front, push.Small
  back_small : ∀ push ∈ back, push.Small
  called : state.called = state.passed ++ (front.toList ++ back.toList)

namespace Tidy
variable {state : SyncState} {front back : Option Push}

theorem nothingLost (tidy : Tidy state front back) : state.NothingLost := by
  obtain ⟨save, send, reading, called, passed⟩ := state
  obtain ⟨sending, saved, frontSmall, backSmall, all⟩ := tidy
  dsimp only at sending saved all
  have unread : inFile (reading.or send) = front.toList := by
    cases sending with
    | absent => rfl
    | renamed push => exact (frontSmall push rfl).inFile_record
    | opened push => exact (frontSmall push rfl).inFile_record
    | done bytes => rfl
  have unsent : inFile save = back.toList := by
    rw [saved]
    cases back with
    | none => rfl
    | some push => exact (backSmall push rfl).inFile_record
  rw [SyncState.NothingLost, unread, unsent]
  exact all

theorem step_call (tidy : Tidy state front back) {push : Push} (given : push.Given) (none_ : state.save = none)
    (small : push.pushNum.toInt ≤ 1277) :
    ∃ after, state.step (.call push given) = some after ∧ Tidy after front (some push) := by
  have fits : push.Small := ⟨given.1, given.2, small⟩
  have empty : back = none := Option.map_eq_none_iff.mp (tidy.save.symm.trans none_)
  refine ⟨_, if_pos fits.sendable, tidy.sending, ?_, tidy.front_small, ?_, ?_⟩
  · dsimp only
    rw [none_, overwrite, Option.getD_none, List.drop_nil, List.append_nil, Option.map_some]
  · intro other same
    obtain rfl := Option.some.inj same
    exact fits
  · dsimp only
    rw [tidy.called, empty]
    simp

theorem step_rename (tidy : Tidy state front back) :
    ∃ after front' back', state.step .rename = some after ∧ Tidy after front' back' := by
  obtain ⟨save, send, reading, called, passed⟩ := state
  obtain ⟨sending, saved, frontSmall, backSmall, all⟩ := tidy
  dsimp only at sending saved all
  cases sending with
  | absent =>
    cases back with
    | none =>
      subst saved
      exact ⟨_, none, none, rfl, .absent, rfl, frontSmall, backSmall, all⟩
    | some push =>
      subst saved
      exact ⟨_, some push, none, rfl, .renamed push, rfl, backSmall, frontSmall, by simpa using all⟩
  | renamed push => exact ⟨_, some push, back, rfl, .renamed push, saved, frontSmall, backSmall, all⟩
  | opened push => exact ⟨_, some push, back, rfl, .opened push, saved, frontSmall, backSmall, all⟩
  | done bytes => exact ⟨_, none, back, rfl, .done bytes, saved, frontSmall, backSmall, all⟩

theorem step_open (tidy : Tidy state front back) : ∃ after, state.step .open_ = some after ∧ Tidy after front back := by
  obtain ⟨save, send, reading, called, passed⟩ := state
  obtain ⟨sending, saved, frontSmall, backSmall, all⟩ := tidy
  dsimp only at sending saved all
  cases sending with
  | absent => exact ⟨_, rfl, .absent, saved, frontSmall, backSmall, all⟩
  | renamed push => exact ⟨_, rfl, .opened push, saved, frontSmall, backSmall, all⟩
  | opened push => exact ⟨_, rfl, .opened push, saved, frontSmall, backSmall, all⟩
  | done bytes => exact ⟨_, rfl, .done bytes, saved, frontSmall, backSmall, all⟩

theorem read_record {push : Push} (small : push.Small) (opened : state.reading = some push.record) :
    state.step .read = some { state with reading := some [], passed := state.passed ++ [push] } := by
  simp only [SyncState.step, opened, small.readBack_record]
  exact if_pos small.sendable

theorem step_read (tidy : Tidy state front back) :
    ∃ after front', state.step .read = some after ∧ Tidy after front' back := by
  obtain ⟨save, send, reading, called, passed⟩ := state
  obtain ⟨sending, saved, frontSmall, backSmall, all⟩ := tidy
  dsimp only at sending saved all
  cases sending with
  | absent => exact ⟨_, none, rfl, .absent, saved, frontSmall, backSmall, all⟩
  | renamed push => exact ⟨_, some push, rfl, .renamed push, saved, frontSmall, backSmall, all⟩
  | opened push =>
    refine ⟨_, none, read_record (frontSmall push rfl) rfl, .done push.record, saved, nofun, backSmall, ?_⟩
    dsimp only
    rw [all]
    simp
  | done bytes => exact ⟨_, none, rfl, .absent, saved, frontSmall, backSmall, all⟩

/-- The file that is sent is passed on to its end. -/
theorem drain_send (tidy : Tidy state front back) :
    ∃ after, Run SyncStep state [.open_, .read, .read] after ∧ Tidy after none back ∧ after.send = none ∧
      after.reading = none ∧ after.called = state.called := by
  obtain ⟨save, send, reading, called, passed⟩ := state
  obtain ⟨sending, saved, frontSmall, backSmall, all⟩ := tidy
  dsimp only at sending saved all
  let closed : SyncState := ⟨save, none, none, called, passed⟩
  have idleOpen : SyncStep closed .open_ closed := rfl
  have idleRead : SyncStep closed .read closed := rfl
  have opens (push : Push) (reading : Option Bytes) (same : reading.or (some push.record) = some push.record) :
      SyncStep ⟨save, some push.record, reading, called, passed⟩ .open_
        ⟨save, some push.record, some push.record, called, passed⟩ := by
    cases reading with
    | none => rfl
    | some bytes =>
      obtain rfl := Option.some.inj same
      rfl
  have passes (push : Push) (all : called = passed ++ ([push] ++ back.toList)) :
      called = (passed ++ [push]) ++ ([] ++ back.toList) := by
    rw [all, List.append_assoc, List.nil_append]
  have closes (bytes : Bytes) (passed : List Push) :
      SyncStep ⟨save, some bytes, some [], called, passed⟩ .read ⟨save, none, none, called, passed⟩ := rfl
  have reads (push : Push) (small : push.Small) : SyncStep ⟨save, some push.record, some push.record, called, passed⟩ .read
      ⟨save, some push.record, some [], called, passed ++ [push]⟩ := read_record small rfl
  cases sending with
  | absent =>
    have run := ((Run.start.next idleOpen).next idleRead).next idleRead
    exact ⟨closed, run, ⟨.absent, saved, frontSmall, backSmall, all⟩, rfl, rfl, rfl⟩
  | done bytes =>
    have opens : SyncStep ⟨save, some bytes, some [], called, passed⟩ .open_
        ⟨save, some bytes, some [], called, passed⟩ := rfl
    have run := ((Run.start.next opens).next (closes bytes passed)).next idleRead
    exact ⟨closed, run, ⟨.absent, saved, frontSmall, backSmall, all⟩, rfl, rfl, rfl⟩
  | renamed push =>
    have run := ((Run.start.next (opens push none rfl)).next (reads push (frontSmall push rfl))).next (closes push.record _)
    exact ⟨_, run, ⟨.absent, saved, nofun, backSmall, passes push all⟩, rfl, rfl, rfl⟩
  | opened push =>
    have run := ((Run.start.next (opens push (some push.record) rfl)).next (reads push (frontSmall push rfl))).next
      (closes push.record _)
    exact ⟨_, run, ⟨.absent, saved, nofun, backSmall, passes push all⟩, rfl, rfl, rfl⟩

theorem step (tidy : Tidy state front back) {action : SyncAction} (meets : state.Meets action) :
    ∃ after front' back', SyncStep state action after ∧ Tidy after front' back' := by
  cases action with
  | call push given =>
    obtain ⟨after, taken, kept⟩ := tidy.step_call given meets.1 meets.2
    exact ⟨after, front, some push, taken, kept⟩
  | rename => exact tidy.step_rename
  | open_ =>
    obtain ⟨after, taken, kept⟩ := tidy.step_open
    exact ⟨after, front, back, taken, kept⟩
  | read =>
    obtain ⟨after, front', taken, kept⟩ := tidy.step_read
    exact ⟨after, front', back, taken, kept⟩

/-- Everything that has been called can be passed on. -/
theorem drained (tidy : Tidy state front back) :
    ∃ after, Run SyncStep state drain after ∧ after.passed = state.called ∧ after.save = none ∧ after.send = none := by
  obtain ⟨middle, first, tidy, noSend, noReading, called⟩ := tidy.drain_send
  obtain ⟨save, send, reading, called', passed⟩ := middle
  dsimp only at noSend noReading called
  subst noSend noReading called
  have renamed : ∃ after, SyncStep ⟨save, none, none, state.called, passed⟩ .rename after ∧ Tidy after back none ∧
      after.called = state.called := by
    obtain ⟨sending, saved, frontSmall, backSmall, all⟩ := tidy
    dsimp only at saved all
    cases back with
    | none =>
      subst saved
      exact ⟨_, rfl, ⟨.absent, rfl, nofun, nofun, all⟩, rfl⟩
    | some push =>
      subst saved
      exact ⟨_, rfl, ⟨.renamed push, rfl, backSmall, nofun, by simpa using all⟩, rfl⟩
  obtain ⟨next, rename, tidy, called⟩ := renamed
  obtain ⟨after, second, tidy, noSend, -, called'⟩ := tidy.drain_send
  refine ⟨after, (Run.next first rename).append second, ?_, tidy.save, noSend⟩
  have all := tidy.called
  rw [called', called] at all
  simpa using all.symm

end Tidy

/-- In runs whose calls find no file and whose lists can be sent, no call is lost: each is passed on once and in order, or
still in a file from which it can be passed on. -/
theorem nothing_lost {taken : List (SyncState × SyncAction)} {final : SyncState} (run : Run.Traced SyncStep {} taken final)
    (meets : ∀ pair ∈ taken, pair.1.Meets pair.2) :
    final.NothingLost ∧
      (∃ after, Run SyncStep final drain after ∧ after.passed = final.called ∧ after.save = none ∧ after.send = none) ∧
      ∀ action, final.Meets action → ∃ after, SyncStep final action after := by
  have tidy : ∃ front back, Tidy final front back := by
    induction run with
    | start => exact ⟨none, none, .absent, rfl, nofun, nofun, rfl⟩
    | @next taken state pair after previous last ih =>
      obtain ⟨rfl, last⟩ := last
      obtain ⟨front, back, tidy⟩ := ih fun pair member => meets pair (List.mem_append_left _ member)
      obtain ⟨after', front', back', step, kept⟩ := tidy.step (meets pair (by simp))
      obtain rfl := Option.some.inj (step.symm.trans last)
      exact ⟨front', back', kept⟩
  obtain ⟨front, back, tidy⟩ := tidy
  refine ⟨tidy.nothingLost, tidy.drained, fun action meets => ?_⟩
  obtain ⟨after, -, -, step, -⟩ := tidy.step meets
  exact ⟨after, step⟩

def onePush (uid : UInt64) : Push := ⟨uid, 1, [5, 0, 0, 0, 0, 0, 0, 0]⟩

theorem onePush_given (uid : UInt64) : (onePush uid).Given := by
  constructor
  · change (0 : Int) < (1 : Int32).toInt
    decide
  · change ((8 : Nat) : Int) = 8 * (1 : Int32).toInt
    decide

/-- A call, and the file renamed behind it. -/
theorem one_call_is_kept : ∃ final : SyncState, final.called = [onePush 7] ∧ final.NothingLost ∧
    (∃ after, Run SyncStep final drain after ∧ after.passed = final.called ∧ after.save = none ∧ after.send = none) ∧
      ∀ action, final.Meets action → ∃ after, SyncStep final action after := by
  let written : SyncState := ⟨some (onePush 7).record, none, none, [onePush 7], []⟩
  let renamed : SyncState := ⟨none, some (onePush 7).record, none, [onePush 7], []⟩
  have call : SyncStep {} (.call (onePush 7) (onePush_given 7)) written := by
    unfold SyncStep
    decide +kernel
  have rename : SyncStep written .rename renamed := rfl
  have run : Run.Traced SyncStep {} [({}, .call (onePush 7) (onePush_given 7)), (written, .rename)] renamed :=
    (Run.start.next ⟨rfl, call⟩).next ⟨rfl, rename⟩
  refine ⟨renamed, rfl, nothing_lost run fun pair member => ?_⟩
  rcases List.mem_cons.mp member with rfl | member
  · exact ⟨rfl, by decide⟩
  · obtain rfl := List.mem_singleton.mp member
    exact trivial

/-- Of two calls before the file is renamed only the second is passed on. -/
theorem first_call_is_lost : ∃ final, Run SyncStep {}
      [.call (onePush 7) (onePush_given 7), .call (onePush 8) (onePush_given 8), .rename, .open_, .read, .read] final ∧
    final = ⟨none, none, none, [onePush 7, onePush 8], [onePush 8]⟩ ∧ ¬ final.NothingLost := by
  let first : SyncState := ⟨some (onePush 7).record, none, none, [onePush 7], []⟩
  let second : SyncState := ⟨some (onePush 8).record, none, none, [onePush 7, onePush 8], []⟩
  let renamed : SyncState := ⟨none, some (onePush 8).record, none, [onePush 7, onePush 8], []⟩
  let opened : SyncState := ⟨none, some (onePush 8).record, some (onePush 8).record, [onePush 7, onePush 8], []⟩
  let read : SyncState := ⟨none, some (onePush 8).record, some [], [onePush 7, onePush 8], [onePush 8]⟩
  have call : SyncStep {} (.call (onePush 7) (onePush_given 7)) first := by
    unfold SyncStep
    decide +kernel
  have call' : SyncStep first (.call (onePush 8) (onePush_given 8)) second := by
    unfold SyncStep
    decide +kernel
  have reads : SyncStep opened .read read := by
    unfold SyncStep
    decide +kernel
  have run := (((Run.start.next call).next call').next (rfl : SyncStep second .rename renamed)).next
    (rfl : SyncStep renamed .open_ opened)
  exact ⟨_, (run.next reads).next (rfl : SyncStep read .read ⟨none, none, none, [onePush 7, onePush 8], [onePush 8]⟩), rfl,
    by unfold SyncState.NothingLost; decide +kernel⟩

end ContentBased.FrameworkCenter
