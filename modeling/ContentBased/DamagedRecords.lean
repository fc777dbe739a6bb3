import ContentBased.RecoveryFaults

namespace ContentBased
open RecordDisk Decimal

namespace PeriodicLog
variable {σ : Type}

/-- The loop of a recovery over what its reads give; once they are used up, a read gives no data.
The status is tested before the data and once more after it. -/
def recoverReads (writer : WALWriter) (visitor : Option (σ → Bytes → σ)) :
    List (Except Failure Bytes) → Bool × PeriodicLog × σ → Program (Status × Bool × PeriodicLog × σ)
  | [], state => return (.ok (), state)
  | result :: rest, state =>
    if !result.isOk then return (.ok (), state)
    else if (result.toOption.getD []).isEmpty then return (.ok (), state)
    else
      match result with
      | .error failure =>
        if failure.code ≠ .invalidData then return (.ok (), state) else recoverReads writer visitor rest state
      | .ok data => do
        match ← recoverRecord writer visitor state data with
        | (.error failure, state) => return (.error failure, state)
        | (.ok (), state) => recoverReads writer visitor rest state

/-- `recovery` once its reader is open. -/
def recoverFrom (log : PeriodicLog) (name : FileName) (writer : WALWriter) (visitor : Option (σ → Bytes → σ))
    (reads : List (Except Failure Bytes)) (seen : σ) : Program (Status × PeriodicLog × σ) := do
  match ← recoverReads writer visitor reads (true, log, seen) with
  | (.error failure, _, log, seen) => return (.error failure, log, seen)
  | (.ok (), _, log, seen) =>
    let _ ← writer.flush
    let _ ← remove noSuchFile name
    return (.ok (), log, seen)

section
variable {writer : WALWriter} {visitor : Option (σ → Bytes → σ)} {log : PeriodicLog}

/-- When every read succeeds, this is the loop of `recovery`. -/
theorem recoverReads_ok (records : List Bytes) (state : Bool × PeriodicLog × σ) (disk : Files) :
    recoverReads writer visitor (records.map .ok) state ⟨disk, []⟩ =
      readLoop List.isEmpty (recoverRecord writer visitor) records state ⟨disk, []⟩ := by
  induction records generalizing state disk with
  | nil => rfl
  | cons record records ih =>
    cases record with
    | nil => rfl
    | cons byte bytes =>
      obtain ⟨first, log, seen⟩ := state
      have reads := Completes.read (ε := Failure) ((byte :: bytes) :: records) disk
      cases open_ : writer.opened with
      | false =>
        have closed (disk : Files) : Completes (writer.append (byte :: bytes) false) disk
            (.error ⟨.ioError, "Bad file descriptor"⟩) disk := by
          unfold WALWriter.append
          rw [open_]
          rfl
        have failed : Completes (recoverRecord writer visitor (first, log, seen) (byte :: bytes)) disk _ disk :=
          .bind (closed disk) (.pure _ _)
        exact (bind_of_ok failed).trans ((bind_of_ok reads).trans (bind_of_ok failed)).symm
      | true =>
        have copied := recoverRecord_completes open_ visitor (first, log, seen) (byte :: bytes) disk
        exact (bind_of_ok copied).trans ((ih _ _).trans ((bind_of_ok reads).trans (bind_of_ok copied)).symm)

theorem recovery_eq_recoverFrom {name : FileName} {disk : Files} {file : File Bytes} (present : disk name = some file)
    (seen : σ) : recovery log name writer visitor seen ⟨disk, []⟩ =
      recoverFrom log name writer visitor (file.content.map .ok) seen ⟨disk, []⟩ := by
  refine (bind_of_ok (Completes.openReader present)).trans ?_
  change (readLoop _ _ _ _ >>= _) _ = (recoverReads _ _ _ _ >>= _) _
  change Except.bind _ _ = Except.bind _ _
  rw [recoverReads_ok]
  rfl

end

/-- The records that are read until a read fails or gives no data. -/
def beforeDamage : List (Except Failure Bytes) → List Bytes
  | [] => []
  | .error _ :: _ => []
  | .ok data :: rest => if data.isEmpty then [] else data :: beforeDamage rest

/-- The records that are not damaged. -/
def undamaged (reads : List (Except Failure Bytes)) : List Bytes := reads.filterMap Except.toOption

/-- Only what stands before the first damaged record is copied. -/
theorem recoverReads_completes {writer : WALWriter} (open_ : writer.opened = true) (visitor : Option (σ → Bytes → σ))
    (reads : List (Except Failure Bytes)) (state : Bool × PeriodicLog × σ) {disk : Files} {stored copied : List Bytes}
    (present : disk writer.filename = some ⟨stored, copied⟩) :
    Completes (recoverReads writer visitor reads state) disk (.ok (), (beforeDamage reads).foldl (recovered visitor) state)
      (Function.update disk writer.filename (some ⟨stored, copied ++ beforeDamage reads⟩)) := by
  induction reads generalizing state disk copied with
  | nil =>
    rw [beforeDamage, List.append_nil, ← present, Function.update_eq_self]
    exact .pure _ _
  | cons result reads ih =>
    cases result with
    | error failure =>
      rw [beforeDamage, List.append_nil, ← present, Function.update_eq_self]
      exact .pure _ _
    | ok data =>
      cases data with
      | nil =>
        rw [beforeDamage, List.isEmpty_nil, if_pos rfl, List.append_nil, ← present, Function.update_eq_self]
        exact .pure _ _
      | cons byte bytes =>
        have here := recoverRecord_completes open_ visitor state (byte :: bytes) disk
        rw [present] at here
        have rest := ih (recovered visitor state (byte :: bytes)) (Function.update_self writer.filename
          (some ⟨stored, copied ++ [byte :: bytes]⟩) disk)
        rw [Function.update_idem, List.append_assoc] at rest
        exact .bind here rest

/-- Nothing is missed when no undamaged record is empty or stands behind a damaged one. -/
theorem beforeDamage_eq_iff (reads : List (Except Failure Bytes)) :
    beforeDamage reads = undamaged reads ↔
      reads.Pairwise (fun earlier later => earlier.isOk = false → later.isOk = false) ∧ .ok [] ∉ reads := by
  induction reads with
  | nil => exact iff_of_true rfl ⟨.nil, nofun⟩
  | cons result reads ih =>
    cases result with
    | error failure =>
      have all : undamaged reads = [] ↔ ∀ later ∈ reads, later.isOk = false := by
        rw [undamaged, List.filterMap_eq_nil_iff]
        refine forall₂_congr fun later _ => ?_
        cases later <;> simp [Except.toOption, Except.isOk, Except.toBool]
      have damaged : (Except.error failure : Except Failure Bytes).isOk = false := rfl
      rw [beforeDamage, undamaged, List.filterMap_cons_none rfl, ← undamaged, eq_comm, all, List.pairwise_cons]
      constructor
      · intro rest
        refine ⟨⟨fun later member _ => rest later member, ?_⟩, ?_⟩
        · exact List.Pairwise.imp_of_mem (fun _ member _ _ => rest _ member)
            (List.pairwise_of_forall fun _ _ => trivial : reads.Pairwise fun _ _ => True)
        · intro member
          rcases List.mem_cons.mp member with same | member
          · cases same
          · cases rest _ member
      · rintro ⟨⟨rest, -⟩, -⟩ later member
        exact rest later member damaged
    | ok data =>
      have sound : ¬ (Except.ok data : Except Failure Bytes).isOk = false := by
        simp [Except.isOk, Except.toBool]
      have kept : undamaged (.ok data :: reads) = data :: undamaged reads := List.filterMap_cons_some rfl
      rw [beforeDamage, kept, List.pairwise_cons]
      cases data with
      | nil =>
        refine iff_of_false ?_ fun clean => clean.2 List.mem_cons_self
        rw [List.isEmpty_nil, if_pos rfl]
        nofun
      | cons byte bytes =>
        rw [List.isEmpty_cons, if_neg Bool.false_ne_true, List.cons_inj_right, ih]
        constructor
        · rintro ⟨ordered, nonempty⟩
          refine ⟨⟨fun _ _ damaged => absurd damaged sound, ordered⟩, fun member => ?_⟩
          rcases List.mem_cons.mp member with same | member
          · cases same
          · exact nonempty member
        · rintro ⟨⟨-, ordered⟩, nonempty⟩
          exact ⟨ordered, fun member => nonempty (List.mem_cons_of_mem _ member)⟩

/-- A recovery visits these records and appends them, in order, while the file they come from is still there, and
then it removes the file. -/
structure Salvages (log : PeriodicLog) (counter : Int32) (visitor : Option (σ → Bytes → σ)) (seen : σ) (disk : Files)
    (reads : List (Except Failure Bytes)) (header : Bytes) (rest : List Bytes) : Prop where
  copies : ∃ middle, Completes (recoverReads log.openWriter visitor reads (true, log.opened counter, seen)) disk
      (.ok (), false, log.opened (atoi header), visitAll visitor seen rest) middle ∧
    middle (.writing log.path log.prefix_) = some ⟨[], header :: rest⟩ ∧
    middle (.recovering log.path log.prefix_) = disk (.recovering log.path log.prefix_)
  removes : ∃ after, Completes (recoverFrom (log.opened counter) (.recovering log.path log.prefix_) log.openWriter visitor
      reads seen) disk (.ok (), log.opened (atoi header), visitAll visitor seen rest) after ∧
    after (.writing log.path log.prefix_) = some (.synced (header :: rest)) ∧
    after (.recovering log.path log.prefix_) = none

/-- With damaged records after the first, whatever makes them unreadable, a recovery keeps all others exactly when
none of these is empty and every damaged one stands behind all of them. -/
theorem recovery_skips_damaged_iff (log : PeriodicLog) (counter : Int32) (visitor : Option (σ → Bytes → σ)) (seen : σ)
    {disk : Files} {file : File Bytes} {header : Bytes} {rest : List (Except Failure Bytes)}
    (target : disk (.writing log.path log.prefix_) = some (.synced []))
    (source : disk (.recovering log.path log.prefix_) = some file) :
    Salvages log counter visitor seen disk (.ok header :: rest) header (undamaged rest) ↔
      (Except.ok header :: rest).Pairwise (fun earlier later => earlier.isOk = false → later.isOk = false) ∧
        .ok [] ∉ Except.ok header :: rest := by
  have loop := recoverReads_completes (writer_open log) visitor (.ok header :: rest) (true, log.opened counter, seen) target
  rw [← beforeDamage_eq_iff]
  constructor
  · rintro ⟨⟨middle, copies, written, -⟩, -⟩
    obtain ⟨-, rfl⟩ := copies.unique loop
    have same : some (File.mk [] (beforeDamage (.ok header :: rest))) = some ⟨[], header :: undamaged rest⟩ :=
      (Function.update_self _ _ disk).symm.trans written
    exact (File.mk.inj (Option.some.inj same)).2
  · intro whole
    have all : undamaged (.ok header :: rest) = header :: undamaged rest := List.filterMap_cons_some rfl
    rw [whole, all, foldl_recovered, List.nil_append] at loop
    refine ⟨⟨_, loop, Function.update_self _ _ _, ?_⟩, ?_⟩
    · simp [openWriter]
    · have flushed := WALWriter.flush_completes (writer_open log)
        (Function.update disk log.openWriter.filename (some ⟨[], header :: undamaged rest⟩))
      simp only [Function.update_self, Option.map_some, Function.update_idem] at flushed
      refine ⟨_, .bind loop (.bind flushed (.bind (.remove (by simpa [openWriter] using source)) (.pure _ _))), ?_, ?_⟩
      · simp [openWriter, File.sync, File.content]
      · simp

/-- A log in recovery while the log in writing has just been created. -/
def recovering : Files :=
  Function.update (Function.update (fun _ => none) (.recovering "." "periodic") (some (.synced [[48], [67], [68]])))
    (.writing "." "periodic") (some (.synced []))

def invalidData : Except Failure Bytes := .error ⟨.invalidData, "Invalid data"⟩

theorem recovery_skips_last_record :
    Salvages (new "." "periodic") 0 (some fun seen record => seen ++ [record]) [] recovering
      [.ok [48], .ok [67], invalidData] [48] [[67]] := by
  have skips := @recovery_skips_damaged_iff _ (new "." "periodic") 0 (some fun seen record => seen ++ [record]) []
    recovering (.synced [[48], [67], [68]]) [48] [.ok [67], invalidData] rfl rfl
  exact skips.mpr (by simp [invalidData, Except.isOk, Except.toBool])

/-- A damaged record in the middle takes the one behind it away. -/
theorem recovery_drops_behind_damage :
    ¬ Salvages (new "." "periodic") 0 (some fun seen record => seen ++ [record]) [] recovering
      [.ok [48], invalidData, .ok [68]] [48] [[68]] := by
  rintro ⟨⟨middle, copies, -⟩, -⟩
  cases copies

end PeriodicLog

end ContentBased
