import ContentBased.NewsTrends
import ContentBased.Library.ReadFaults

namespace ContentBased
open RecordDisk

namespace DistTable
variable {σ : Type} {format : ItemTagFormat} {virtual : Virtual σ}

/-- The records of a table, up to an empty one that ends it. -/
def records (file : File Bytes) : List Bytes := file.content.takeWhile fun record => !record.isEmpty

/-- The records are these distributions. -/
def Parses (format : ItemTagFormat) (records : List Bytes) (dists : List CategoryDistribution) : Prop :=
  records.map (CategoryDistribution.parseFromString format) = dists.map some

def load (virtual : Virtual σ) (fields : σ) (dists : List CategoryDistribution) : σ :=
  dists.foldl (fun fields dist => (virtual.loadDistribution dist fields).2) fields

theorem handles_loadRecord {fields after : σ} {records : List Bytes}
    (handles : Handles (loadRecord format virtual) fields records after) :
    ∃ dists, Parses format records dists ∧ after = load virtual fields dists := by
  induction handles with
  | nil => exact ⟨[], rfl, rfl⟩
  | @cons fields next after record records handled _ ih =>
    obtain ⟨dists, parses, rfl⟩ := ih
    rw [loadRecord] at handled
    cases parsed : CategoryDistribution.parseFromString format record with
    | none =>
      rw [parsed] at handled
      cases handled
    | some dist =>
      rw [parsed] at handled
      cases handled
      refine ⟨dist :: dists, ?_, rfl⟩
      rw [Parses, List.map_cons, List.map_cons, parsed]
      exact congrArg _ parses

theorem Parses.handles {records : List Bytes} {dists : List CategoryDistribution} (parses : Parses format records dists)
    (fields : σ) : Handles (loadRecord format virtual) fields records (load virtual fields dists) := by
  induction records generalizing fields dists with
  | nil =>
    obtain rfl : dists = [] := List.map_eq_nil_iff.mp parses.symm
    exact .nil
  | cons record records ih =>
    rw [Parses, List.map_cons] at parses
    obtain ⟨dist, dists', rfl, parsed, rest⟩ := List.map_eq_cons_iff.mp parses.symm
    have handled : loadRecord format virtual fields record = (.ok (), (virtual.loadDistribution dist fields).2) := by
      rw [loadRecord, ← parsed]
    exact .cons handled (ih rest.symm _)

/-- When no file step fails, a table whose records all parse is loaded. -/
theorem reload_completes {table : DistTable σ} {cleared : σ} {disk : Files} {file : File Bytes}
    {dists : List CategoryDistribution} (before : virtual.reloadBefore table.fields = (.ok (), cleared))
    (present : disk (.table table.workPath table.tableName) = some file) (parses : Parses format (records file) dists) :
    Completes (reload format virtual table) disk ((virtual.reloadCompleted (load virtual cleared dists)).1,
      { table with fields := (virtual.reloadCompleted (load virtual cleared dists)).2 }) disk := by
  simp only [reload, before]
  exact .bind (.openReader present) (.bind (.readLoop_handles disk (parses.handles cleared)) (.pure _ _))

/-- The table can be opened and the records before number `i` are read and are these distributions,
but the read of record `i` fails. -/
structure BrokenAt (format : ItemTagFormat) (name : FileName) (world : World FileName Bytes Failure) (file : File Bytes)
    (i : Nat) (dists : List CategoryDistribution) : Prop where
  present : world.disk name = some file
  opens : ¬ FailsAt world.faults 0
  inside : i < (records file).length
  reads : ∀ j < i, ¬ FailsAt world.faults (j + 1)
  parses : Parses format ((records file).take i) dists
  fails : FailsAt world.faults (i + 1)

theorem Parses.unique {records : List Bytes} {left right : List CategoryDistribution}
    (first : Parses format records left) (second : Parses format records right) : left = right :=
  List.map_injective_iff.mpr (Option.some_injective _) (first.symm.trans second)

theorem BrokenAt.unique {name : FileName} {world : World FileName Bytes Failure} {file file' : File Bytes} {i i' : Nat}
    {dists dists' : List CategoryDistribution} (broken : BrokenAt format name world file i dists)
    (broken' : BrokenAt format name world file' i' dists') : file = file' ∧ i = i' ∧ dists = dists' := by
  obtain rfl : file = file' := Option.some.inj (broken.present.symm.trans broken'.present)
  obtain rfl : i = i' := by
    rcases Nat.lt_trichotomy i i' with less | same | more
    · exact absurd broken.fails (broken'.reads i less)
    · exact same
    · exact absurd broken'.fails (broken.reads i' more)
  exact ⟨rfl, rfl, broken.parses.unique broken'.parses⟩

/-- The loop over the records of a table, which comes after the opening, ends at the end mark, at a read
that fails or at a record that does not parse. -/
theorem records_inv {state after : σ} {file : File Bytes} {world world' : World FileName Bytes Failure} {status : Status}
    {faults : List (Fault Failure)} (opened : world.faults = faults.tail)
    (returned : readLoop List.isEmpty (fun fields data => return loadRecord format virtual fields data) file.content
      state world = .ok ((status, after), world')) :
    world'.disk = world.disk ∧ ∃ k dists, (∀ j < k, ¬ FailsAt faults (j + 1)) ∧
      Parses format ((records file).take k) dists ∧ after = load virtual state dists ∧
      (status = .ok () ∧ (k = (records file).length ∨ k < (records file).length ∧ FailsAt faults (k + 1)) ∨
        status ≠ .ok () ∧ ∃ record, (records file)[k]? = some record ∧ ¬ FailsAt faults (k + 1) ∧
          CategoryDistribution.parseFromString format record = none) := by
  obtain ⟨disk, k, mid, reads, within, handles, outcome⟩ := readLoop_inv returned
  change k ≤ (records file).length at within
  obtain ⟨dists, parses, reached⟩ := handles_loadRecord handles
  simp only [opened, ← failsAt_succ] at reads outcome
  refine ⟨disk, k, dists, reads, parses, ?_⟩
  rcases outcome with ⟨rfl, rfl, ended⟩ | ⟨record, error, here, passes, handled, rfl⟩
  · refine ⟨reached, .inl ⟨rfl, ?_⟩⟩
    rcases ended with whole | fails
    · exact .inl whole
    · exact within.eq_or_lt.imp_right fun less => ⟨less, fails⟩
  · rw [loadRecord] at handled
    cases parsed : CategoryDistribution.parseFromString format record with
    | some dist =>
      rw [parsed] at handled
      cases handled
    | none =>
      rw [parsed] at handled
      cases handled
      exact ⟨reached, .inr ⟨nofun, record, here, passes, parsed⟩⟩

theorem Parses.parsed {recs : List Bytes} {dists : List CategoryDistribution} (parses : Parses format recs dists)
    {k : Nat} {record : Bytes} (here : recs[k]? = some record) :
    CategoryDistribution.parseFromString format record ≠ none := by
  have member : CategoryDistribution.parseFromString format record ∈ dists.map some := by
    rw [← parses]
    exact List.mem_map_of_mem (List.mem_of_getElem? here)
  obtain ⟨dist, -, same⟩ := List.mem_map.mp member
  rw [← same]
  nofun

/-- The read that fails comes after those that were seen to pass. -/
theorem BrokenAt.least {name : FileName} {world : World FileName Bytes Failure} {file file' : File Bytes} {i k : Nat}
    {dists : List CategoryDistribution} (broken : BrokenAt format name world file' i dists)
    (present : world.disk name = some file) (reads : ∀ j < k, ¬ FailsAt world.faults (j + 1)) : file' = file ∧ k ≤ i :=
  ⟨Option.some.inj (broken.present.symm.trans present), Nat.le_of_not_lt fun less => reads i less broken.fails⟩

/-- The three ways that a reload comes to its end. It leaves the files alone. -/
theorem reload_inv {table after : DistTable σ} {cleared : σ} {world world' : World FileName Bytes Failure}
    {status : Status} (before : virtual.reloadBefore table.fields = (.ok (), cleared))
    (completed : ∀ fields, (virtual.reloadCompleted fields).1 = .ok ())
    (returned : reload format virtual table world = .ok ((status, after), world')) :
    world'.disk = world.disk ∧
    ((status ≠ .ok () ∧ (∃ dists, after = { table with fields := load virtual cleared dists }) ∧
        ∀ file i dists, ¬ BrokenAt format (.table table.workPath table.tableName) world file i dists) ∨
      status = .ok () ∧ ∃ file dists, world.disk (.table table.workPath table.tableName) = some file ∧
        after = { table with fields := (virtual.reloadCompleted (load virtual cleared dists)).2 } ∧
        (Parses format (records file) dists ∧
            (∀ file i dists, ¬ BrokenAt format (.table table.workPath table.tableName) world file i dists) ∨
          ∃ i, BrokenAt format (.table table.workPath table.tableName) world file i dists)) := by
  simp only [reload, before] at returned
  obtain ⟨opened, middle, ran, rest⟩ := bind_inv returned
  obtain ⟨faults, ⟨fails, ⟨error, rfl⟩, same⟩ | ⟨opens, ⟨contents, effected, rfl⟩ | ⟨error, effected, rfl, same⟩⟩⟩ := step_inv ran
  · cases rest
    exact ⟨same, .inl ⟨nofun, ⟨[], rfl⟩, fun file i dists broken => broken.opens fails⟩⟩
  · cases present : world.disk (.table table.workPath table.tableName) with
    | none =>
      rw [present] at effected
      cases effected
    | some file =>
      rw [present] at effected
      obtain ⟨rfl, same⟩ := Prod.mk.inj (Except.ok.inj effected)
      obtain ⟨⟨outcome, fields⟩, here, looped, rest⟩ := bind_inv rest
      obtain ⟨kept, k, dists, reads, parses, rfl, ended⟩ := records_inv faults looped
      have kept : here.disk = world.disk := kept.trans same.symm
      rcases ended with ⟨rfl, rfl | ⟨less, fails⟩⟩ | ⟨failed, record, at_, passes, parsed⟩
      · cases rest
        rw [List.take_length] at parses
        refine ⟨kept, .inr ⟨completed _, file, dists, rfl, rfl, .inl ⟨parses, fun file' i dists' broken => ?_⟩⟩⟩
        obtain ⟨rfl, least⟩ := broken.least present reads
        exact absurd broken.inside (Nat.not_lt.mpr least)
      · cases rest
        exact ⟨kept, .inr ⟨completed _, file, dists, rfl, rfl, .inr ⟨k, present, opens, less, reads, parses, fails⟩⟩⟩
      · cases outcome with
        | ok => exact absurd rfl failed
        | error failure =>
          cases rest
          refine ⟨kept, .inl ⟨nofun, ⟨dists, rfl⟩, fun file' i dists' broken => ?_⟩⟩
          obtain ⟨rfl, least⟩ := broken.least present reads
          rcases least.eq_or_lt with rfl | less
          · exact passes broken.fails
          · refine broken.parses.parsed (k := k) ?_ parsed
            rw [List.getElem?_take_of_lt less]
            exact at_
  · cases rest
    refine ⟨same, .inl ⟨nofun, ⟨[], rfl⟩, fun file i dists broken => ?_⟩⟩
    rw [broken.present] at effected
    cases effected

end DistTable

end ContentBased
