import ContentBased.DistTable
import ContentBased.LogJournal
import ContentBased.Library.Segments

namespace ContentBased
open RecordDisk Decimal PeriodicLog

inductive LogEvent where
  | click (click : CategoryClick)
  | item (item : CategoryItem)
deriving DecidableEq, Repr

namespace LogEvent
variable {σ : Type}

/-- The record an event is written as. -/
def record : LogEvent → Bytes
  | .click message => (message.appendToString [DistTable.kLogTypeClick]).getD []
  | .item message => (message.appendToString [DistTable.kLogTypeItem]).getD []

/-- Hands an event to the function for its kind. -/
def handle (clickf : CategoryClick → σ → Status × σ) (itemf : CategoryItem → σ → Status × σ)
    (fields : σ) : LogEvent → σ
  | .click message => (clickf message fields).2
  | .item message => (itemf message fields).2

theorem click_record (click : CategoryClick) : ∃ body, (LogEvent.click click).record = DistTable.kLogTypeClick :: body ∧
    click.appendToString [DistTable.kLogTypeClick] = some (DistTable.kLogTypeClick :: body) ∧
    CategoryClick.parseFromArray body = some click := by
  obtain ⟨body, serialized, parsed⟩ := click.parse_append [DistTable.kLogTypeClick]
  exact ⟨body, by simp [record, serialized], serialized, parsed⟩

theorem item_record (item : CategoryItem) : ∃ body, (LogEvent.item item).record = DistTable.kLogTypeItem :: body ∧
    item.appendToString [DistTable.kLogTypeItem] = some (DistTable.kLogTypeItem :: body) ∧
    CategoryItem.parseFromArray body = some item := by
  obtain ⟨body, serialized, parsed⟩ := item.parse_append [DistTable.kLogTypeItem]
  exact ⟨body, by simp [record, serialized], serialized, parsed⟩

theorem record_ne_nil (event : LogEvent) : event.record ≠ [] := by
  cases event with
  | click click =>
    obtain ⟨body, record, _⟩ := click_record click
    simp [record]
  | item item =>
    obtain ⟨body, record, _⟩ := item_record item
    simp [record]

/-- What training and elimination take a record for. -/
def ofRecord : Bytes → Option LogEvent
  | [] => none
  | kind :: body =>
    if kind = DistTable.kLogTypeClick then (CategoryClick.parseFromArray body).map .click
    else if kind = DistTable.kLogTypeItem then (CategoryItem.parseFromArray body).map .item
    else none

theorem readRecord_eq (clickf : CategoryClick → σ → Status × σ) (itemf : CategoryItem → σ → Status × σ)
    (fields : σ) (data : Bytes) :
    DistTable.readRecord clickf itemf fields data = (ofRecord data).elim fields (handle clickf itemf fields) := by
  cases data with
  | nil => rfl
  | cons kind body =>
    rw [DistTable.readRecord, ofRecord]
    by_cases click : kind = DistTable.kLogTypeClick
    · rw [if_pos click, if_pos click]
      cases CategoryClick.parseFromArray body <;> rfl
    · rw [if_neg click, if_neg click]
      by_cases item : kind = DistTable.kLogTypeItem
      · rw [if_pos item, if_pos item]
        cases CategoryItem.parseFromArray body <;> rfl
      · rw [if_neg item, if_neg item]
        rfl

/-- An event is read back as it was written. -/
theorem ofRecord_record (event : LogEvent) : ofRecord event.record = some event := by
  cases event with
  | click click =>
    obtain ⟨body, record, _, parsed⟩ := click_record click
    simp [record, ofRecord, parsed]
  | item item =>
    obtain ⟨body, record, _, parsed⟩ := item_record item
    have other : DistTable.kLogTypeItem ≠ DistTable.kLogTypeClick := by decide
    simp [record, ofRecord, parsed, other]

theorem foldl_readRecord (clickf : CategoryClick → σ → Status × σ) (itemf : CategoryItem → σ → Status × σ)
    (records : List Bytes) (fields : σ) :
    records.foldl (DistTable.readRecord clickf itemf) fields =
      (records.filterMap ofRecord).foldl (handle clickf itemf) fields := by
  induction records generalizing fields with
  | nil => rfl
  | cons record records ih =>
    rw [List.foldl_cons, readRecord_eq, ih]
    cases event : ofRecord record with
    | none => rw [List.filterMap_cons_none event, Option.elim_none]
    | some event' => rw [List.filterMap_cons_some event, Option.elim_some, List.foldl_cons]

/-- The recovery of a log that was still being written reads it so, too. -/
theorem visit_eq (virtual : Virtual σ) (fields : σ) (data : Bytes) :
    DistTable.visit virtual fields data =
      DistTable.readRecord virtual.recoveryClick virtual.recoveryItem fields data := by
  cases data with
  | nil => rfl
  | cons kind body =>
    simp only [DistTable.visit, DistTable.recoveryAheadLog, DistTable.readRecord]
    by_cases click : kind = DistTable.kLogTypeClick
    · rw [if_pos click, if_pos click]
      cases CategoryClick.parseFromArray body <;> rfl
    · rw [if_neg click, if_neg click]
      by_cases item : kind = DistTable.kLogTypeItem
      · rw [if_pos item, if_pos item]
        cases CategoryItem.parseFromArray body <;> rfl
      · rw [if_neg item, if_neg item]

theorem visit_record (virtual : Virtual σ) (fields : σ) (event : LogEvent) :
    DistTable.visit virtual fields event.record = event.handle virtual.recoveryClick virtual.recoveryItem fields := by
  rw [visit_eq, readRecord_eq, ofRecord_record, Option.elim_some]

theorem nil_not_mem_records (events : List LogEvent) : [] ∉ events.map record := by
  intro member
  obtain ⟨event, _, empty⟩ := List.mem_map.mp member
  exact event.record_ne_nil empty

/-- The events in a log: those of its records between the header and an empty one. -/
def inFile (file : File Bytes) : List LogEvent :=
  (file.content.tail.takeWhile fun record => !record.isEmpty).filterMap ofRecord

theorem inFile_synced (header : Bytes) (events : List LogEvent) :
    inFile (.synced (header :: events.map record)) = events := by
  rw [inFile, File.content_synced, List.tail_cons,
    show ((events.map record).takeWhile fun r => !r.isEmpty) = events.map record from
      replayable_eq_self (nil_not_mem_records events), List.filterMap_map]
  exact (List.filterMap_congr fun event _ => ofRecord_record event).trans List.filterMap_some

end LogEvent

namespace Journal

/-- The journal of a log that was opened once, in an empty directory, and then rolled. -/
def ofSegments (s : Segments Bytes) : Journal where
  counter := s.rolled.length
  header := (s.rolled.length - 1 : Nat)
  current := s.current
  rolled n := if n < 0 then none else s.rolled[n.toNat]?.map fun part => ((n.toNat - 1 : Nat), part)

theorem ofSegments_empty : ofSegments .empty = .fresh 0 := by
  simp [ofSegments, Segments.empty, fresh]

theorem ofSegments_add (s : Segments Bytes) (data : Bytes) :
    ofSegments (s.add data) = (ofSegments s).step (.write data) := rfl

theorem ofSegments_roll (s : Segments Bytes) : ofSegments s.roll = (ofSegments s).step .rollover := by
  have rolled (n : Int) : (ofSegments s.roll).rolled n = ((ofSegments s).step .rollover).rolled n := by
    simp only [ofSegments, Segments.roll, step]
    by_cases newest : n = s.rolled.length
    · subst newest
      simp
    · rw [Function.update_of_ne newest]
      by_cases negative : n < 0
      · simp [negative]
      · by_cases older : n.toNat < s.rolled.length
        · rw [List.getElem?_append_left older]
        · rw [List.getElem?_eq_none (by simp; omega), List.getElem?_eq_none (by omega)]
  have same : ofSegments s.roll =
      { (ofSegments s).step .rollover with rolled := (ofSegments s.roll).rolled } := by
    simp [ofSegments, Segments.roll, step]
  rw [same, funext rolled]

end Journal

/-- The log object and the directory hold these events and nothing else. -/
def Recorded (path prefix_ : String) (log : PeriodicLog) (disk : Files) (s : Segments LogEvent) : Prop :=
  Represents path prefix_ ⟨log, disk, []⟩ (.ofSegments (s.map LogEvent.record))

/-- The rolled logs up to this number are there, and they hold these events. -/
def RolledLogs (path prefix_ : String) (disk : Files) (logs : List (List LogEvent)) : Prop :=
  ∀ (n : Nat) (events : List LogEvent), logs[n]? = some events →
    ∃ header : Int, disk (.log path prefix_ n) = some (.synced (decimal header :: events.map LogEvent.record))

section
variable {σ : Type} {path prefix_ : String} {log : PeriodicLog} {disk : Files} {s : Segments LogEvent}

theorem Represents.rolledLogs {j : Journal} {acked : List Bytes} (rep : Represents path prefix_ ⟨log, disk, acked⟩ j)
    (same : j.rolled = (Journal.ofSegments (s.map LogEvent.record)).rolled) : RolledLogs path prefix_ disk s.rolled := by
  intro n events present
  have onDisk := rep.rolled n
  have inside : ¬ (n : Int) < 0 := by omega
  simp only [same, Journal.ofSegments, if_neg inside, Int.toNat_natCast, Segments.map, List.getElem?_map, present,
    Option.map_some] at onDisk
  exact ⟨_, onDisk⟩

theorem Recorded.rolledLogs (rec_ : Recorded path prefix_ log disk s) : RolledLogs path prefix_ disk s.rolled :=
  Represents.rolledLogs rec_ rfl

theorem Recorded.log_none (rec_ : Recorded path prefix_ log disk s) {n : Int} (outside : n < 0 ∨ s.rolled.length ≤ n) :
    disk (.log path prefix_ n) = none := by
  have onDisk := rec_.rolled n
  simp only [Journal.ofSegments, Segments.map, List.getElem?_map] at onDisk
  rw [onDisk]
  by_cases negative : n < 0
  · simp [negative]
  · have beyond : s.rolled[n.toNat]? = none := List.getElem?_eq_none (by omega)
    simp [beyond]

theorem Recorded.lastCounter (rec_ : Recorded path prefix_ log disk s) :
    log.lastCounter.toInt = s.rolled.length := by
  have counter := Represents.lastCounter rec_
  simpa [Journal.ofSegments] using counter

namespace DistTable

def add (table : DistTable σ) : LogEvent → Program Status
  | .click message => table.addClick message
  | .item message => table.addItem message

theorem add_eq_write (table : DistTable σ) (event : LogEvent) :
    table.add event = table.periodicLog.write event.record := by
  cases event with
  | click message =>
    obtain ⟨body, record, serialized, _⟩ := LogEvent.click_record message
    simp only [add, addClick, serialized, record]
  | item message =>
    obtain ⟨body, record, serialized, _⟩ := LogEvent.item_record message
    simp only [add, addItem, serialized, record]

theorem add_completes (table : DistTable σ) (rec_ : Recorded path prefix_ table.periodicLog disk s) (event : LogEvent) :
    ∃ after, Completes (table.add event) disk (.ok ()) after ∧
      Recorded path prefix_ table.periodicLog after (s.add event) := by
  obtain ⟨after, run, rep⟩ := Represents.write rec_ event.record
  refine ⟨after, ?_, ?_⟩
  · rw [add_eq_write]
    exact run
  · have grown := rep []
    rw [← Journal.ofSegments_add, ← Segments.map_add] at grown
    exact grown

/-- As long as the numbers of the logs fit an `int`, a rollover of the log succeeds. -/
theorem rollover_completes (table : DistTable σ) (rec_ : Recorded path prefix_ table.periodicLog disk s)
    (room : s.rolled.length < 2 ^ 31 - 1) :
    ∃ log after, Completes table.rollover disk (.ok (), { table with periodicLog := log }) after ∧
      Recorded path prefix_ log after s.roll := by
  obtain ⟨log, after, run, rep⟩ := Represents.rollover rec_ (by
    simp only [Journal.ofSegments, Segments.map, List.length_map]
    omega)
  rw [← Journal.ofSegments_roll, ← Segments.map_roll] at rep
  exact ⟨log, after, .bind run (.pure _ _), rep⟩

/-- The log of a rollover that returned had room for one number more. -/
theorem rollover_room {table : DistTable σ} {result : Status × DistTable σ} {world : World FileName Bytes Failure}
    (rec_ : Recorded path prefix_ table.periodicLog disk s) (run : table.rollover ⟨disk, []⟩ = .ok (result, world)) :
    s.rolled.length < 2 ^ 31 - 1 := by
  obtain ⟨_, _, first, -⟩ := bind_inv run
  have room := Represents.rollover_room rec_ first
  simp only [Journal.ofSegments, Segments.map, List.length_map] at room
  omega

/-- In an empty directory there is nothing to recover. -/
theorem init_completes (virtual : Virtual σ) (path prefix_ tableName : String) (window : Int) (fields : σ) :
    ∃ log after, Completes ((new path prefix_ tableName window fields).init virtual) (fun _ => none)
        (.ok (), { new path prefix_ tableName window fields with periodicLog := log }) after ∧
      Recorded path prefix_ log after .empty := by
  obtain ⟨log, after, run, rep⟩ := Represents.fresh path prefix_ 0 (some (visit virtual)) fields
  rw [Int32.toInt_zero, ← Journal.ofSegments_empty] at rep
  exact ⟨log, after, .bind run (.pure _ _), rep⟩

theorem readPeriodicLog_completes {name : FileName} {file : File Bytes} (present : disk name = some file)
    (clickf : CategoryClick → σ → Status × σ) (itemf : CategoryItem → σ → Status × σ) (fields : σ) :
    Completes (readPeriodicLog name clickf itemf fields) disk
      (.ok (), (LogEvent.inFile file).foldl (LogEvent.handle clickf itemf) fields) disk := by
  have each (fields : σ) (record : Bytes) (disk : Files) :
      Completes (pure (.ok (), readRecord clickf itemf fields record) : Program (Status × σ)) disk
        (.ok (), readRecord clickf itemf fields record) disk := .pure _ _
  have loop := Completes.readLoop List.isEmpty each file.content.tail fields disk
  rw [LogEvent.foldl_readRecord, List.foldl_fixed] at loop
  exact .bind (openLogReader_opens present) (.bind loop (.pure _ _))

/-- The numbers of the logs that `forLogs` comes upon. -/
def visited (disk : Files) : Nat → Iterator → List Int
  | 0, _ => []
  | turns + 1, iter =>
    if iter.counter < 0 then []
    else if (disk iter.filename).isSome then iter.counter :: visited disk turns iter.next
    else visited disk turns iter.next

/-- As long as its body leaves the files alone, the loop runs it on each log it comes upon. -/
theorem forLogs_completes {body : Iterator → σ → Program (Status × σ)} {effect : σ → Int → σ} {holds : σ → Prop}
    (turns : Nat) (iter : Iterator) (each : ∀ n ∈ visited disk turns iter, ∀ fields, holds fields →
      Completes (body { iter with counter := n } fields) disk (.ok (), effect fields n) disk ∧ holds (effect fields n))
    (fields : σ) (initial : holds fields) :
    Completes (forLogs body turns iter fields) disk (.ok (), (visited disk turns iter).foldl effect fields) disk := by
  induction turns generalizing iter fields with
  | zero => exact .pure _ _
  | succ turns ih =>
    rw [forLogs]
    by_cases negative : iter.counter < 0
    · simp only [visited, if_pos negative]
      exact .pure _ _
    · simp only [visited, if_neg negative] at each ⊢
      refine .bind (.isFile _ _) ?_
      by_cases present : (disk iter.filename).isSome
      · simp only [present, if_true, List.foldl_cons] at each ⊢
        obtain ⟨here, kept⟩ := each iter.counter List.mem_cons_self fields initial
        exact .bind here (ih iter.next (fun n later => each n (List.mem_cons_of_mem _ later)) _ kept)
      · simp only [present, if_false, Bool.false_eq_true] at each ⊢
        exact ih iter.next each fields initial

/-- The loop comes upon no log older than its number of turns. -/
theorem visited_newest {turns : Nat} {iter : Iterator} {n : Int} (member : n ∈ visited disk turns iter) :
    iter.counter - turns < n ∧ n ≤ iter.counter := by
  induction turns generalizing iter with
  | zero => simp [visited] at member
  | succ turns ih =>
    rw [visited] at member
    have older (later : n ∈ visited disk turns iter.next) :
        iter.counter - (turns + 1 : Nat) < n ∧ n ≤ iter.counter := by
      have within := ih later
      simp only [Iterator.next] at within
      omega
    by_cases negative : iter.counter < 0
    · simp [negative] at member
    · rw [if_neg negative] at member
      split at member
      · rcases List.mem_cons.mp member with rfl | later
        · omega
        · exact older later
      · exact older member

theorem visited_present {turns : Nat} {iter : Iterator} {n : Int} (member : n ∈ visited disk turns iter) :
    (disk (.log iter.path iter.prefix_ n)).isSome := by
  induction turns generalizing iter with
  | zero => simp [visited] at member
  | succ turns ih =>
    rw [visited] at member
    by_cases negative : iter.counter < 0
    · simp [negative] at member
    · rw [if_neg negative] at member
      by_cases here : (disk iter.filename).isSome
      · rw [if_pos here] at member
        rcases List.mem_cons.mp member with rfl | later
        · exact here
        · have older := ih later
          exact older
      · rw [if_neg here] at member
        have older := ih member
        exact older

/-- When no log is missing, these are the newest ones. -/
theorem visited_all (turns count : Nat) (last : Int)
    (present : ∀ n : Nat, n < count → (disk (.log path prefix_ n)).isSome) :
    visited disk turns ⟨path, prefix_, last, count - 1⟩ = ((List.range count).reverse.take turns).map (↑) := by
  induction turns generalizing count with
  | zero => simp [visited]
  | succ turns ih =>
    cases count with
    | zero => simp [visited]
    | succ count =>
      have newest : ((count + 1 : Nat) : Int) - 1 = count := by omega
      have inside : ¬ (count : Int) < 0 := by omega
      have older := ih count fun n less => present n (by omega)
      rw [newest, visited, if_neg inside]
      simp only [Iterator.filename, present count (by omega), if_true, Iterator.next, older, List.range_succ,
        List.reverse_append, List.reverse_singleton, List.singleton_append, List.take_succ_cons, List.map_cons]

end DistTable
end

end ContentBased
