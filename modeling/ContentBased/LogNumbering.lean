import ContentBased.LogJournal

namespace ContentBased
open RecordDisk Decimal PeriodicLog

/-- The header of the log in writing is the counter in memory, and the reader of each rolled
log finds the number in its name. -/
structure Numbered (path prefix_ : String) (s : LogSession) : Prop where
  writing : ∃ file, s.disk (.writing path prefix_) = some file ∧
    file.content.head? = some (decimal s.log.lastCounter.toInt)
  rolled : ∀ iter : Iterator, iter.path = path → iter.prefix_ = prefix_ → (s.disk iter.filename).isSome →
    ∃ reader, Completes (openLogReader iter.filename) s.disk (.ok (), reader) s.disk ∧
      reader.numb.toInt = iter.counter

theorem decimal_injective : Function.Injective decimal :=
  Function.LeftInverse.injective integer_decimal

section
variable {path prefix_ : String} {s : LogSession} {j : Journal}

theorem Represents.numbered_iff (rep : Represents path prefix_ s j) :
    Numbered path prefix_ s ↔ j.header = j.counter ∧ ∀ n file, j.rolled n = some file → file.1 = n := by
  constructor
  · rintro ⟨⟨file, onDisk, header⟩, rolled⟩
    refine ⟨?_, ?_⟩
    · rw [rep.writing] at onDisk
      cases onDisk
      rw [show s.log.lastCounter.toInt = j.counter from rep.lastCounter] at header
      exact decimal_injective (by simpa using header)
    · intro n file present
      have onDisk := rep.rolled n
      rw [present, Option.map_some] at onDisk
      obtain ⟨reader, run, numb⟩ := rolled ⟨path, prefix_, n, n⟩ rfl rfl (by simp [Iterator.filename, onDisk])
      obtain ⟨values, _⟩ := run.unique (openLogReader_completes onDisk)
      cases values
      obtain ⟨header', same⟩ := rep.headers n file present
      rwa [← same, atoi_decimal, same] at numb
  · rintro ⟨header, rolled⟩
    refine ⟨⟨_, rep.writing, ?_⟩, ?_⟩
    · rw [show s.log.lastCounter.toInt = j.counter from rep.lastCounter, File.content_synced, header, List.head?_cons]
    · rintro ⟨_, _, last, n⟩ rfl rfl present
      simp only [Iterator.filename, rep.rolled n, Option.isSome_map] at present ⊢
      obtain ⟨file, inJournal⟩ := Option.isSome_iff_exists.mp present
      have onDisk := rep.rolled n
      rw [inJournal, Option.map_some] at onDisk
      refine ⟨_, openLogReader_completes onDisk, ?_⟩
      obtain ⟨header', same⟩ := rep.headers n file inJournal
      rw [← same, atoi_decimal, same, rolled n file inJournal]

namespace Journal

theorem run_of_no_rollover (counter : Int) {calls : List LogCall} (none_ : .rollover ∉ calls) :
    (run counter calls).counter = counter ∧ (run counter calls).header = counter ∧
      (run counter calls).rolled = fun _ => none := by
  induction calls using List.reverseRecOn with
  | nil => exact ⟨rfl, rfl, rfl⟩
  | append_singleton front call ih =>
    simp only [List.mem_append, List.mem_singleton, not_or] at none_
    obtain ⟨_, header, rolled⟩ := ih none_.1
    rw [run_snoc]
    cases call with
    | openLog _ => exact ⟨header, header, rolled⟩
    | write _ => exact ih none_.1
    | rollover => exact absurd rfl none_.2

theorem header_after_rollover (j : Journal) : (j.step .rollover).header ≠ (j.step .rollover).counter := by
  simp only [step]
  omega

end Journal

/-- The numbering is right in every state of a run exactly when the run has no rollover: the
first rollover gives the new log the number of the log it rolled. -/
theorem numbered_iff_no_rollover {calls : List LogCall} (reach : LogReach path prefix_ calls s) :
    (∀ front t, front <+: calls → front ≠ [] → LogReach path prefix_ front t → Numbered path prefix_ t) ↔
      .rollover ∉ calls := by
  constructor
  · intro always member
    obtain ⟨before, rest, rfl⟩ := List.append_of_mem member
    rw [List.append_cons] at reach
    obtain ⟨t, toRollover, _⟩ := reach.split
    have numbered := always _ t (by simp) (by simp) toRollover
    obtain ⟨u, toHere, taken⟩ := toRollover.snoc_inv
    rcases LogReach.represents toHere with ⟨rfl, rfl⟩ | ⟨counter, _, _, rep, _⟩
    · obtain ⟨_, impossible, _⟩ := taken.of_start
      cases impossible
    · have after := (taken.represents rep).1
      exact Journal.header_after_rollover _ (after.numbered_iff.mp numbered).1
  · intro none_ front t isPrefix nonempty reached
    rcases LogReach.represents reached with ⟨empty, _⟩ | ⟨counter, rest, rfl, rep, _⟩
    · exact absurd empty nonempty
    · have none_' : .rollover ∉ rest := fun member =>
        none_ (isPrefix.subset (List.mem_cons_of_mem _ member))
      obtain ⟨same, header, rolled⟩ := Journal.run_of_no_rollover counter.toInt none_'
      refine rep.numbered_iff.mpr ⟨header.trans same.symm, ?_⟩
      intro n file present
      rw [rolled] at present
      cases present

end

theorem numbered_after_reopen :
    ∃ s, LogReach "." "periodic" [.openLog 3, .write [49], .openLog 0] s ∧ Numbered "." "periodic" s := by
  obtain ⟨s, reach, -⟩ := LogReach.exists "." "periodic" 3 [.write [49], .openLog 0] (by decide)
  exact ⟨s, reach, (numbered_iff_no_rollover reach).mpr (by simp) _ s (List.prefix_refl _) (by simp) reach⟩

/-- After the first rollover the log in writing has header 0 while the counter is 1. -/
theorem not_numbered_after_rollover :
    ∃ s, LogReach "." "periodic" [.openLog 0, .rollover] s ∧ ¬ Numbered "." "periodic" s := by
  obtain ⟨s, reach, -⟩ := LogReach.exists "." "periodic" 0 [.rollover] (by decide)
  rcases reach.represents with ⟨impossible, _⟩ | ⟨_, _, same, rep, _⟩
  · cases impossible
  cases same
  exact ⟨s, reach, fun numbered => Journal.header_after_rollover _ (rep.numbered_iff.mp numbered).1⟩

end ContentBased
