import ContentBased.Library.Checkpoints
import ContentBased.Library.Lines

namespace ContentBased.FrameworkModule
open Checkpoints
variable (cpStrtovalU64 : Bytes → UInt64)

/-- What a thread starts with: an empty flag file leaves the buffer of `fgets` as it was. -/
def readsFlag (text : Bytes) (timeStamp : UInt64) : Prop :=
  text = [] ∨ timeStamp = cpStrtovalU64 ((Lines.fgets 63 text).1.takeWhile (· != 0))

/-- The loops of `thread_persistent` and `thread_train`: what calls for a call of the module, and for which time stamp. -/
def flagThread {Input : Type} (next : Input → UInt64 → Option UInt64) : Process UInt64 Input Bytes where
  next := next
  unknown := 0
  writes timeStamp := Decimal.digits timeStamp.toNat
  recalls := readsFlag cpStrtovalU64
  torn timeStamp text := text <+: Decimal.digits timeStamp.toNat

/-- The newest folder, or the old time stamp when none is newer. -/
def newTimeStamp (folders : List Bytes) (oldTimeStamp : UInt64) : UInt64 :=
  folders.foldl (fun newTimeStamp folder =>
    let tmpTimeStamp := cpStrtovalU64 folder
    if newTimeStamp < tmpTimeStamp then tmpTimeStamp else newTimeStamp) oldTimeStamp

/-- `thread_train`, whose input is what the path holds, if it can be opened. -/
def threadTrain : Process UInt64 (Option (List Bytes)) Bytes :=
  flagThread cpStrtovalU64 fun folders oldTimeStamp => do
    let new := newTimeStamp cpStrtovalU64 (← folders) oldTimeStamp
    if new ≤ oldTimeStamp then none else some new

/-- `thread_persistent`, whose input is the clock. -/
def threadPersistent (interval : Int32) : Process UInt64 Int64 Bytes :=
  flagThread cpStrtovalU64 fun now saveTimeStamp =>
    if now.toUInt64 - saveTimeStamp < (interval * 60).toInt64.toUInt64 then none else some now.toUInt64

variable {cpStrtovalU64}

/-- A flag file that was written whole is read back. -/
theorem readsFlag_digits (reads : ∀ n : UInt64, cpStrtovalU64 (Decimal.digits n.toNat) = n) {timeStamp read : UInt64}
    (flag : readsFlag cpStrtovalU64 (Decimal.digits timeStamp.toNat) read) : read = timeStamp := by
  have digit := Decimal.digits_isDigit timeStamp.toNat
  have plain : ∀ stop, Decimal.isDigit stop = false → stop ∉ Decimal.digits timeStamp.toNat := fun stop other inside =>
    Bool.false_ne_true (other.symm.trans (digit stop inside))
  have short : (Decimal.digits timeStamp.toNat).length ≤ 20 :=
    Decimal.length_digits_le (timeStamp.toNat_lt.trans (by decide)) (by decide)
  rcases flag with empty | same
  · obtain ⟨d, rest, text, -⟩ := Decimal.digits_head timeStamp.toNat
    exact absurd (text.symm.trans empty) (List.cons_ne_nil _ _)
  · rw [same, Lines.fgets_last (plain 10 rfl) (short.trans (by decide)), List.takeWhile_ne_eq_self (plain 0 rfl), reads]

section Train
variable {folders : List Bytes} {oldTimeStamp timeStamp : UInt64} {input : Option (List Bytes)}

/-- The greatest time stamp of the folders. -/
def Newest (cpStrtovalU64 : Bytes → UInt64) (folders : List Bytes) (timeStamp : UInt64) : Prop :=
  (∃ folder ∈ folders, cpStrtovalU64 folder = timeStamp) ∧ ∀ folder ∈ folders, cpStrtovalU64 folder ≤ timeStamp

theorem newTimeStamp_cons {folder : Bytes} : newTimeStamp cpStrtovalU64 (folder :: folders) oldTimeStamp =
    newTimeStamp cpStrtovalU64 folders
      (if oldTimeStamp < cpStrtovalU64 folder then cpStrtovalU64 folder else oldTimeStamp) := rfl

theorem newTimeStamp_ge : oldTimeStamp ≤ newTimeStamp cpStrtovalU64 folders oldTimeStamp ∧
    ∀ folder ∈ folders, cpStrtovalU64 folder ≤ newTimeStamp cpStrtovalU64 folders oldTimeStamp := by
  induction folders generalizing oldTimeStamp with
  | nil => exact ⟨UInt64.le_refl _, nofun⟩
  | cons folder folders ih =>
    rw [List.forall_mem_cons, newTimeStamp_cons]
    split
    · rename_i newer
      exact ⟨UInt64.le_trans (UInt64.le_of_lt newer) ih.1, ih⟩
    · rename_i older
      exact ⟨ih.1, UInt64.le_trans (UInt64.not_lt.mp older) ih.1, ih.2⟩

theorem newTimeStamp_mem : newTimeStamp cpStrtovalU64 folders oldTimeStamp = oldTimeStamp ∨
    ∃ folder ∈ folders, cpStrtovalU64 folder = newTimeStamp cpStrtovalU64 folders oldTimeStamp := by
  induction folders generalizing oldTimeStamp with
  | nil => exact Or.inl rfl
  | cons folder folders ih =>
    rw [newTimeStamp_cons]
    split
    · rcases ih with kept | ⟨other, inside, same⟩
      · exact Or.inr ⟨folder, List.mem_cons_self, kept.symm⟩
      · exact Or.inr ⟨other, List.mem_cons_of_mem _ inside, same⟩
    · exact ih.imp id fun ⟨other, inside, same⟩ => ⟨other, List.mem_cons_of_mem _ inside, same⟩

/-- The thread trains with the newest folder, and only when it is newer than the last. -/
theorem threadTrain_next (called : (threadTrain cpStrtovalU64).next input oldTimeStamp = some timeStamp) :
    oldTimeStamp < timeStamp ∧ ∃ folders, input = some folders ∧ Newest cpStrtovalU64 folders timeStamp := by
  cases input with
  | none => cases called
  | some folders =>
    have passed : (if newTimeStamp cpStrtovalU64 folders oldTimeStamp ≤ oldTimeStamp then none
      else some (newTimeStamp cpStrtovalU64 folders oldTimeStamp)) = some timeStamp := called
    split at passed
    · cases passed
    · rename_i newer
      cases passed
      refine ⟨UInt64.not_le.mp newer, folders, rfl, ?_, newTimeStamp_ge.2⟩
      rcases newTimeStamp_mem with old | some_
      · exact absurd (UInt64.le_of_eq old) newer
      · exact some_

/-- Each folder that the thread has trained with was the newest when it looked right before, and newer than all whose time
stamps it had written to the flag file; when none goes without its flag, no folder is trained with twice and none after a
newer one. -/
theorem trained_forward (reads : ∀ n : UInt64, cpStrtovalU64 (Decimal.digits n.toNat) = n) {flag : Option Bytes}
    {events : List (Event (Option (List Bytes)))} {state : State UInt64 Bytes}
    (run : Run (Within (threadTrain cpStrtovalU64) Whole) ⟨.down, flag, []⟩ events state) :
    List.Forall₂ (fun input timeStamp => ∃ folders, input = some folders ∧ Newest cpStrtovalU64 folders timeStamp)
      (looks events) (jobs state.history) ∧
    state.history.Pairwise (Follows (· < ·)) ∧
    (Run (Within (threadTrain cpStrtovalU64) Recorded) ⟨.down, flag, []⟩ events state →
      (jobs state.history).Pairwise (· < ·)) := by
  have newer : ∀ folders last timeStamp, (threadTrain cpStrtovalU64).next folders last = some timeStamp →
    last < timeStamp := fun _ _ _ next => (threadTrain_next next).1
  have kept : ∀ timeStamp last, (threadTrain cpStrtovalU64).recalls ((threadTrain cpStrtovalU64).writes timeStamp) last →
    last = timeStamp := fun _ _ => readsFlag_digits reads
  refine ⟨?_, ?_, fun recorded => ?_⟩
  · refine (jobs_called rfl rfl (run.mono And.left)).imp ?_
    rintro input timeStamp ⟨last, next⟩
    exact (threadTrain_next next).2
  · exact behind_noted (· < ·) (fun _ _ _ => UInt64.lt_trans) newer kept run
  · refine List.isChain_iff_pairwise.mp ((jobs_linked kept recorded).1.imp ?_)
    rintro last timeStamp ⟨folders, next⟩
    exact newer folders last timeStamp next

def readNumber (text : Bytes) : UInt64 := UInt64.ofNat (Decimal.number text)

theorem readNumber_digits (n : UInt64) : readNumber (Decimal.digits n.toNat) = n := by
  rw [readNumber, Decimal.number_digits, UInt64.ofNat_toNat]

/-- The program ends before the flag of folder 7 is written, trains with it again and goes on with folder 9. -/
def threeTrainings : List (Event (Option (List Bytes))) :=
  [.start false, .pass (some [[55], [53]]), .succeed, .crash, .start false, .pass (some [[53], [55]]), .succeed, .open,
    .close, .crash, .start true, .pass none, .pass (some [[57], [55]]), .succeed]

theorem run_threeTrainings : Run (Within (threadTrain readNumber) Whole) ⟨.down, none, []⟩ threeTrainings
    ⟨.finished 9, some [55], [.did 7, .did 7, .noted 7, .did 9]⟩ := by
  have seven : Decimal.digits (7 : UInt64).toNat = [55] := by decide +kernel
  have read : readsFlag readNumber [55] 7 := Or.inr (by decide +kernel)
  have first : (threadTrain readNumber).next (some [[55], [53]]) 0 = some 7 := by decide +kernel
  have again : (threadTrain readNumber).next (some [[53], [55]]) 0 = some 7 := by decide +kernel
  have newer : (threadTrain readNumber).next (some [[57], [55]]) 7 = some 9 := by decide +kernel
  have written : Run (Within (threadTrain readNumber) Whole)
      ⟨.resting 7, some (Decimal.digits (7 : UInt64).toNat), [.did 7, .did 7, .noted 7]⟩
      [.crash, .start true, .pass none, .pass (some [[57], [55]]), .succeed]
      ⟨.finished 9, some [55], [.did 7, .did 7, .noted 7, .did 9]⟩ := by
    rw [seven]
    exact .cons ⟨.crash, nofun⟩ (.cons ⟨.startOn read, trivial⟩ (.cons ⟨.idle rfl, trivial⟩ (.cons ⟨.begin newer, trivial⟩
      (.cons ⟨.succeed, trivial⟩ .start))))
  exact .cons ⟨.startNew, rfl⟩ (.cons ⟨.begin first, trivial⟩ (.cons ⟨.succeed, trivial⟩ (.cons ⟨.crash, nofun⟩
    (.cons ⟨.startNew, rfl⟩ (.cons ⟨.begin again, trivial⟩ (.cons ⟨.succeed, trivial⟩
      (.cons ⟨.open List.nil_prefix, trivial⟩ (.cons ⟨.close, trivial⟩ written))))))))

theorem nine_is_trained_after_seven :
    List.Forall₂ (fun input timeStamp => ∃ folders, input = some folders ∧ Newest readNumber folders timeStamp)
      [some [[55], [53]], some [[53], [55]], some [[57], [55]]] [7, 7, 9] ∧
    [Fact.did (7 : UInt64), .did 7, .noted 7, .did 9].Pairwise (Follows (· < ·)) :=
  have trained := trained_forward readNumber_digits run_threeTrainings
  ⟨trained.1, trained.2.1⟩

end Train

section Persistent
variable {interval : Int32}

/-- So many minutes lie between the two times, unless the clock was set back. -/
def Apart (interval : Int32) (earlier later : UInt64) : Prop :=
  later < earlier ∨ earlier.toNat + interval.toNatClampNeg * 60 ≤ later.toNat

theorem minutes_toNat (minutes : 0 ≤ interval ∧ interval ≤ 35791394) :
    (interval * 60).toInt64.toUInt64.toNat = interval.toNatClampNeg * 60 := by
  have low : 0 ≤ interval.toInt := Int32.le_iff_toInt_le.mp minutes.1
  have high : interval.toInt ≤ 35791394 := Int32.le_iff_toInt_le.mp minutes.2
  have seconds : (interval * 60).toInt = interval.toInt * 60 := by
    rw [Int32.toInt_mul, show (60 : Int32).toInt = 60 from rfl]
    exact Int.bmod_eq_of_le (by omega) (by omega)
  have wide : (interval * 60).toInt64.toInt = interval.toInt * 60 := by rw [Int32.toInt_toInt64, seconds]
  have positive : 0 ≤ (interval * 60).toInt64 :=
    Int64.le_iff_toInt_le.mpr (by rw [wide]; exact Int.mul_nonneg low (by decide))
  rw [Int64.toNat_toUInt64_of_le positive, Int64.toNatClampNeg, wide, Int32.toNatClampNeg]
  omega

theorem threadPersistent_next (minutes : 0 ≤ interval ∧ interval ≤ 35791394) {now : Int64} {last timeStamp : UInt64}
    (called : (threadPersistent cpStrtovalU64 interval).next now last = some timeStamp) :
    Apart interval last timeStamp := by
  have passed : (if now.toUInt64 - last < (interval * 60).toInt64.toUInt64 then none else some now.toUInt64) =
    some timeStamp := called
  split at passed
  · cases passed
  · rename_i due
    cases passed
    rcases UInt64.lt_or_le now.toUInt64 last with back | on
    · exact Or.inl back
    · have waited := UInt64.le_iff_toNat_le.mp (UInt64.not_lt.mp due)
      rw [minutes_toNat minutes, UInt64.toNat_sub_of_le _ _ on] at waited
      have later := UInt64.le_iff_toNat_le.mp on
      exact Or.inr (by omega)

/-- The times at which the library was made persistent lie so far apart, those before a start of the program and after it
too, when none goes without its flag. -/
theorem persists_apart (reads : ∀ n : UInt64, cpStrtovalU64 (Decimal.digits n.toNat) = n)
    (minutes : 0 ≤ interval ∧ interval ≤ 35791394) {flag : Option Bytes} {events : List (Event Int64)}
    {state : State UInt64 Bytes}
    (run : Run (Within (threadPersistent cpStrtovalU64 interval) Recorded) ⟨.down, flag, []⟩ events state) :
    (jobs state.history).IsChain (Apart interval) ∧ ∀ timeStamp ∈ (jobs state.history).head?, ∀ text, flag = some text →
      text ≠ [] → Apart interval (cpStrtovalU64 ((Lines.fgets 63 text).1.takeWhile (· != 0))) timeStamp := by
  have kept : ∀ timeStamp last, (threadPersistent cpStrtovalU64 interval).recalls
      ((threadPersistent cpStrtovalU64 interval).writes timeStamp) last → last = timeStamp :=
    fun _ _ => readsFlag_digits reads
  obtain ⟨chain, first⟩ := jobs_linked kept run
  constructor
  · refine chain.imp ?_
    rintro last timeStamp ⟨now, next⟩
    exact threadPersistent_next minutes next
  · intro timeStamp isFirst text there nonempty
    obtain ⟨base, known, now, next⟩ := first timeStamp isFirst
    have apart := threadPersistent_next minutes next
    rcases known with ⟨missing, -⟩ | ⟨found, same, read⟩
    · exact absurd (there.symm.trans missing) nofun
    · cases Option.some.inj (there.symm.trans same)
      rwa [← read.resolve_left nonempty]

/-- A flag of the second 1000, a pass that comes too early and one that comes in time. -/
theorem second_persist_waits : [(1600 : UInt64), 2200].IsChain (Apart 10) ∧
    ∀ timeStamp ∈ [(1600 : UInt64), 2200].head?, ∀ text, some [49, 48, 48, 48] = some text → text ≠ [] →
      Apart 10 (readNumber ((Lines.fgets 63 text).1.takeWhile (· != 0))) timeStamp := by
  have read : readsFlag readNumber [49, 48, 48, 48] 1000 := Or.inr (by decide +kernel)
  have early : (threadPersistent readNumber 10).next 1599 1000 = none := by decide +kernel
  have first : (threadPersistent readNumber 10).next 1600 1000 = some 1600 := by decide +kernel
  have second : (threadPersistent readNumber 10).next 2200 1600 = some 2200 := by decide +kernel
  have run : Run (Within (threadPersistent readNumber 10) Recorded) ⟨.down, some [49, 48, 48, 48], []⟩
      [.start true, .pass 1599, .pass 1600, .succeed, .open, .close, .pass 2200, .succeed]
      ⟨.finished 2200, some (Decimal.digits (1600 : UInt64).toNat), [.did 1600, .noted 1600, .did 2200]⟩ :=
    .cons ⟨.startOn read, trivial, trivial⟩ (.cons ⟨.idle early, trivial, trivial⟩ (.cons ⟨.begin first, trivial, trivial⟩
      (.cons ⟨.succeed, trivial, trivial⟩ (.cons ⟨.open List.nil_prefix, trivial, trivial⟩
        (.cons ⟨.close, trivial, trivial⟩ (.cons ⟨.begin second, trivial, trivial⟩
          (.cons ⟨.succeed, trivial, trivial⟩ .start)))))))
  exact persists_apart readNumber_digits (by decide) run

end Persistent

end ContentBased.FrameworkModule
