import ContentBased.FailedAction

namespace ContentBased
open RecordDisk

/-- One flush: the model before and after it, what its storage calls reported and its status. -/
structure FlushReport (υ ι ν : Type) where
  before : Model υ ι ν
  status : Status
  calls : List (StorageCall × Status)
  after : Model υ ι ν

inductive ModelCall (υ ι ν : Type) where
  | action (action : Action) (status : Status)
  | item (item : Item) (status : Status)
  | flush (report : FlushReport υ ι ν)

structure ModelState (υ ι ν : Type) where
  model : Model υ ι ν
  world : World FileName Bytes Failure

section
variable {υ ι ν : Type} (users : UserDB υ) (items : ItemDB ι)

/-- A call that returns. A process that dies in a call returns nothing. -/
inductive ModelStep : ModelState υ ι ν → ModelCall υ ι ν → ModelState υ ι ν → Prop
  | action {state action status model world} :
      Model.updateAction users items state.model action state.world = .ok ((status, model), world) →
      ModelStep state (.action action status) ⟨model, world⟩
  | item {state item status model world} :
      Model.updateItem items state.model item state.world = .ok ((status, model), world) →
      ModelStep state (.item item status) ⟨model, world⟩
  | flush {state status calls model world} :
      Model.flush users items state.model state.world = .ok ((status, calls, model), world) →
      ModelStep state (.flush ⟨state.model, status, calls, model⟩) ⟨model, world⟩

/-- The runs of the three calls from an initial state. -/
abbrev ModelReach (initial : ModelState υ ι ν) : List (ModelCall υ ι ν) → ModelState υ ι ν → Prop :=
  Run (ModelStep users items) initial

/-- The status is OK only if all four storage calls ran and succeeded and both tables are
saved, and whatever a storage call fails with is the status. -/
structure FlushReport.Durable (userSaved : υ → Prop) (itemSaved : ι → Prop) (report : FlushReport υ ι ν) : Prop where
  complete : report.status = .ok () → (∀ call, (call, .ok ()) ∈ report.calls) ∧
    userSaved report.after.userDb ∧ itemSaved report.after.itemDb
  returned : ∀ call failure, (call, .error failure) ∈ report.calls → report.status = .error failure

/-- The storage calls that fail are such that the flush ends with their failure: the first of
them, or the second and the third alike. -/
def FlushReport.Refused (report : FlushReport υ ι ν) : Prop :=
  (∃ failure, (users.eliminate report.before.userDb).1 = .error failure) ∨
  ∃ failure, (users.flushTable (users.eliminate report.before.userDb).2).1 = .error failure ∧
    (items.eliminate report.before.itemDb).1 = .error failure

/-- Writing the category table touches neither of the two tables. -/
theorem Model.flushCategory_keeps {model after : Model υ ι ν} {name : String} {status : Status}
    {world world' : World FileName Bytes Failure}
    (run : flushCategory model name world = .ok ((status, after), world')) :
    after.userDb = model.userDb ∧ after.itemDb = model.itemDb := by
  obtain ⟨created, opened, _, rest⟩ := bind_inv run
  cases created with
  | error errno => cases rest; exact ⟨rfl, rfl⟩
  | ok _ =>
    obtain ⟨_, _, _, rest⟩ := bind_inv rest
    obtain ⟨_, _, _, rest⟩ := bind_inv rest
    obtain ⟨renamed, _, _, rest⟩ := bind_inv rest
    cases renamed with
    | error errno => cases rest; exact ⟨rfl, rfl⟩
    | ok _ => cases rest; exact ⟨rfl, rfl⟩

theorem Model.flush_inv {model after : Model υ ι ν} {status : Status} {calls : List (StorageCall × Status)}
    {world world' : World FileName Bytes Failure}
    (run : flush users items model world = .ok ((status, calls, after), world')) :
    ∃ written : Model υ ι ν, written.userDb = model.userDb ∧ written.itemDb = model.itemDb ∧
      flushTables users items written = (status, calls, after) := by
  unfold flush at run
  split at run
  · obtain ⟨⟨_, written⟩, _, category, rest⟩ := bind_inv run
    obtain ⟨sameUsers, sameItems⟩ := flushCategory_keeps category
    exact ⟨written, sameUsers, sameItems, (Prod.mk.inj (Except.ok.inj rest)).1⟩
  · exact ⟨model, rfl, rfl, (Prod.mk.inj (Except.ok.inj run)).1⟩

/-- How a flush can end: with the failure of the first call, with the success of the second,
with the failure of the third, or after the fourth, whatever that reports. -/
theorem Model.flushTables_cases {model after : Model υ ι ν} {status : Status} {calls : List (StorageCall × Status)}
    (flushed : flushTables users items model = (status, calls, after)) :
    (∃ failure, (users.eliminate model.userDb).1 = .error failure ∧ status = .error failure ∧
        calls = [(.userEliminate, .error failure)]) ∨
      (users.eliminate model.userDb).1 = .ok () ∧
        ((users.flushTable (users.eliminate model.userDb).2).1 = .ok () ∧ status = .ok () ∧
            calls = [(.userEliminate, .ok ()), (.userFlushTable, .ok ())] ∨
          ∃ refused, (users.flushTable (users.eliminate model.userDb).2).1 = .error refused ∧
            ((∃ failure, (items.eliminate model.itemDb).1 = .error failure ∧ status = .error failure ∧
                calls = [(.userEliminate, .ok ()), (.userFlushTable, .error refused), (.itemEliminate, .error failure)]) ∨
              (items.eliminate model.itemDb).1 = .ok () ∧ status = .ok () ∧
                ∃ last, calls = [(.userEliminate, .ok ()), (.userFlushTable, .error refused),
                  (.itemEliminate, .ok ()), (.itemFlushTable, last)])) := by
  unfold flushTables at flushed
  rcases eliminated : users.eliminate model.userDb with ⟨failure | _, kept⟩
  · simp only [eliminated] at flushed
    cases flushed
    exact Or.inl ⟨failure, rfl, rfl, rfl⟩
  · refine Or.inr ⟨rfl, ?_⟩
    rcases saved : users.flushTable kept with ⟨refused | _, stored⟩
    · refine Or.inr ⟨refused, rfl, ?_⟩
      rcases cleaned : items.eliminate model.itemDb with ⟨failure | _, left⟩
      · simp only [eliminated, saved, cleaned] at flushed
        cases flushed
        exact Or.inl ⟨failure, rfl, rfl, rfl⟩
      · simp only [eliminated, saved, cleaned] at flushed
        cases flushed
        exact Or.inr ⟨rfl, rfl, _, rfl⟩
    · simp only [eliminated, saved] at flushed
      cases flushed
      exact Or.inl ⟨rfl, rfl, rfl⟩

/-- The call of `item_db_->flushTable` is reached only after `user_db_->flushTable` has failed,
so that no flush has all four succeed. -/
theorem FlushReport.durable_iff_refused (userSaved : υ → Prop) (itemSaved : ι → Prop) {report : FlushReport υ ι ν}
    {world world' : World FileName Bytes Failure}
    (run : Model.flush users items report.before world = .ok ((report.status, report.calls, report.after), world')) :
    report.Durable userSaved itemSaved ↔ report.Refused users items := by
  obtain ⟨written, sameUsers, sameItems, flushed⟩ := Model.flush_inv users items run
  have ends := Model.flushTables_cases users items flushed
  rw [sameUsers, sameItems] at ends
  rcases ends with ⟨failure, first, status, calls⟩ | ⟨first, ends⟩
  · refine iff_of_true ⟨?_, ?_⟩ (Or.inl ⟨failure, first⟩)
    · intro ok
      rw [status] at ok
      cases ok
    · intro call failure' member
      rw [calls, List.mem_singleton] at member
      cases member
      exact status
  rcases ends with ⟨second, status, calls⟩ | ⟨refused, second, ends⟩
  · refine iff_of_false (fun durable => ?_) ?_
    · have all := (durable.complete status).1 .itemFlushTable
      simp [calls] at all
    · simp [Refused, first, second]
  rcases ends with ⟨failure, third, status, calls⟩ | ⟨third, status, last, calls⟩
  · simp only [Refused, first, second, third]
    constructor
    · intro durable
      have same := durable.returned .userFlushTable refused (by simp [calls])
      rw [status] at same
      exact Or.inr ⟨failure, same.symm, rfl⟩
    · rintro (⟨_, impossible⟩ | ⟨failure', same, same'⟩)
      · cases impossible
      cases same
      cases same'
      refine ⟨?_, ?_⟩
      · intro ok
        rw [status] at ok
        cases ok
      · intro call failure' member
        simp only [calls, List.mem_cons, Prod.mk.injEq, reduceCtorEq, and_false, false_or, List.not_mem_nil,
          or_false, Except.error.injEq] at member
        rcases member with ⟨-, rfl⟩ | ⟨-, rfl⟩ <;> exact status
  · refine iff_of_false (fun durable => ?_) ?_
    · have all := (durable.complete status).1 .userFlushTable
      simp [calls] at all
    · simp [Refused, first, second, third]

theorem ModelReach.flushed {initial : ModelState υ ι ν} {calls : List (ModelCall υ ι ν)} {state : ModelState υ ι ν}
    (reach : ModelReach users items initial calls state) {report : FlushReport υ ι ν}
    (member : ModelCall.flush report ∈ calls) :
    ∃ world world', Model.flush users items report.before world =
      .ok ((report.status, report.calls, report.after), world') := by
  induction reach with
  | start => cases member
  | @next calls state call after _ taken ih =>
    rcases List.mem_append.mp member with earlier | last
    · exact ih earlier
    · rw [List.mem_singleton] at last
      cases taken with
      | action => cases last
      | item => cases last
      | flush run => cases last; exact ⟨_, _, run⟩

/-- In a run every flush does what its name says exactly when every flush is one that is
refused: those that return OK never do. -/
theorem flushes_durable_iff {initial : ModelState υ ι ν} (userSaved : υ → Prop) (itemSaved : ι → Prop)
    {calls : List (ModelCall υ ι ν)} {state : ModelState υ ι ν} (reach : ModelReach users items initial calls state) :
    (∀ report, ModelCall.flush report ∈ calls → report.Durable userSaved itemSaved) ↔
      ∀ report, ModelCall.flush report ∈ calls → report.Refused users items := by
  refine forall₂_congr fun report member => ?_
  obtain ⟨world, world', run⟩ := reach.flushed users items member
  exact FlushReport.durable_iff_refused users items userSaved itemSaved run

end

/-- The user table whose old rows cannot be dropped. -/
def stuckPairs : UserDB (List (UInt64 × UInt64)) :=
  { readPairs with eliminate := fun pairs => (.error ⟨.ioError, "user-table"⟩, pairs) }

theorem refused_flush_durable : ∃ report state,
    ModelReach stuckPairs oneItem ⟨openedModel, ⟨fun _ => none, []⟩⟩ [.flush report] state ∧
      report.Durable (fun _ => False) (fun _ => False) := by
  have reach : ModelReach stuckPairs oneItem ⟨openedModel, ⟨fun _ => none, []⟩⟩
      [.flush ⟨openedModel, .error ⟨.ioError, "user-table"⟩,
        [(.userEliminate, .error ⟨.ioError, "user-table"⟩)], openedModel⟩] ⟨openedModel, ⟨fun _ => none, []⟩⟩ :=
    .next .start (.flush rfl)
  refine ⟨_, _, reach, (flushes_durable_iff stuckPairs oneItem _ _ reach).mpr ?_ _ List.mem_cons_self⟩
  intro report member
  cases List.mem_singleton.mp member
  exact Or.inl ⟨_, rfl⟩

/-- A new item and a flush in which nothing fails: the flush returns OK and the item table
has not been written. -/
theorem flush_leaves_items : ∃ report state,
    ModelReach readPairs oneItem ⟨openedModel, ⟨fun _ => none, []⟩⟩
        [.item ⟨5, 90000, [3]⟩ (.ok ()), .flush report] state ∧
      report.status = .ok () ∧ .itemFlushTable ∉ report.calls.map Prod.fst ∧
      ∀ userSaved itemSaved, ¬ report.Durable userSaved itemSaved := by
  refine ⟨_, _, .next (.next .start (.item rfl)) (.flush rfl), rfl, by decide, ?_⟩
  intro userSaved itemSaved durable
  have all := (durable.complete rfl).1 .itemFlushTable
  simp at all

end ContentBased
