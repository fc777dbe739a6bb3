import ContentBased.LogJournal

namespace ContentBased
open RecordDisk Decimal PeriodicLog

/-- The payloads of a log file: its records after the header. -/
def payloads : Option (File Bytes) → List Bytes
  | some file => file.content.tail
  | none => []

/-- Read by increasing number and the log in writing last, the files hold the payloads whose
`write` returned OK, each once and in write order. -/
def Kept (path prefix_ : String) (s : LogSession) : Prop :=
  ∃ numbers : List Int, numbers.Pairwise (· < ·) ∧
    (∀ n, n ∈ numbers ↔ (s.disk (.log path prefix_ n)).isSome) ∧
    numbers.flatMap (fun n => payloads (s.disk (.log path prefix_ n))) ++
      payloads (s.disk (.writing path prefix_)) = s.acked

/-- No rollover of the run renames onto a log that is already there. -/
def NeverOverwrites (path prefix_ : String) (calls : List LogCall) : Prop :=
  ∀ front s, front ++ [.rollover] <+: calls → LogReach path prefix_ front s →
    s.disk (.log path prefix_ s.log.lastCounter.toInt) = none

/-- No open lies between two rollovers. -/
def RolledInOneSession (calls : List LogCall) : Prop :=
  ¬ List.Sublist [.rollover, .openLog 0, .rollover] calls

/-- No open finds an empty payload in the log in writing. -/
def Replayed (calls : List LogCall) : Prop :=
  ∀ before between after, calls = before ++ .write [] :: between ++ .openLog 0 :: after → .rollover ∈ between

theorem concat_sublist_concat {α : Type} {xs ys : List α} {x y : α} :
    (xs ++ [x]).Sublist (ys ++ [y]) ↔ (xs ++ [x]).Sublist ys ∨ x = y ∧ xs.Sublist ys := by
  rw [← List.reverse_sublist, List.reverse_concat, List.reverse_concat]
  constructor
  · intro h
    cases h with
    | cons _ h => left; rw [← List.reverse_sublist, List.reverse_concat]; exact h
    | cons_cons _ h => right; exact ⟨rfl, List.reverse_sublist.mp h⟩
  · rintro (h | ⟨rfl, h⟩)
    · rw [← List.reverse_sublist, List.reverse_concat] at h
      exact h.cons _
    · exact (List.reverse_sublist.mpr h).cons_cons _

/-- The log in writing holds an empty payload, as far as the calls tell. -/
def Pending (calls : List LogCall) : Prop :=
  ∃ before after, calls = before ++ .write [] :: after ∧ .rollover ∉ after

section
variable {calls : List LogCall} {call : LogCall}

theorem replayed_snoc : Replayed (calls ++ [call]) ↔ Replayed calls ∧ (call = .openLog 0 → ¬ Pending calls) := by
  constructor
  · intro replayed
    refine ⟨?_, ?_⟩
    · rintro before between after rfl
      exact replayed before between (after ++ [call]) (by simp)
    · rintro rfl ⟨before, between, rfl, unrolled⟩
      exact unrolled (replayed before between [] (by simp))
  · rintro ⟨replayed, last⟩ before between after same
    rcases List.concat_eq_append_cons.mp same with ⟨_, rfl, rfl⟩ | ⟨front, _, rfl⟩
    · by_contra unrolled
      exact last rfl ⟨before, between, rfl, unrolled⟩
    · exact replayed before between front rfl

theorem pending_snoc : Pending (calls ++ [call]) ↔ call = .write [] ∨ call ≠ .rollover ∧ Pending calls := by
  constructor
  · rintro ⟨before, after, same, unrolled⟩
    rcases List.concat_eq_append_cons.mp same with ⟨_, _, rfl⟩ | ⟨front, rfl, rfl⟩
    · exact Or.inl rfl
    · simp only [List.mem_append, List.mem_singleton, not_or] at unrolled
      exact Or.inr ⟨fun last => unrolled.2 last.symm, before, front, rfl, unrolled.1⟩
  · rintro (rfl | ⟨other, before, after, rfl, unrolled⟩)
    · exact ⟨calls, [], rfl, by simp⟩
    · exact ⟨before, after ++ [call], by simp, by simpa using ⟨unrolled, fun last => other last.symm⟩⟩

/-- An open after a rollover has read the number of the rolled log back. -/
def Stale (calls : List LogCall) : Prop := List.Sublist [.rollover, .openLog 0] calls

theorem stale_snoc : Stale (calls ++ [call]) ↔ Stale calls ∨ call = .openLog 0 ∧ .rollover ∈ calls := by
  unfold Stale
  rw [show ([.rollover, .openLog 0] : List LogCall) = [.rollover] ++ [.openLog 0] from rfl,
    concat_sublist_concat, List.singleton_sublist, eq_comm (a := LogCall.openLog 0)]

theorem rolledInOneSession_snoc : RolledInOneSession (calls ++ [call]) ↔
    RolledInOneSession calls ∧ (call = .rollover → ¬ Stale calls) := by
  unfold RolledInOneSession Stale
  rw [show ([.rollover, .openLog 0, .rollover] : List LogCall) = [.rollover, .openLog 0] ++ [.rollover] from rfl,
    concat_sublist_concat, not_or, not_and, eq_comm (a := LogCall.rollover)]

end

namespace Journal

/-- Everything in the journal, the rolled logs 0 to `m - 1` first. -/
def contents (j : Journal) (m : Nat) : List Bytes :=
  (List.range m).flatMap (fun n : Nat => ((j.rolled (n : Int)).map Prod.snd).getD []) ++ j.current

/-- The rolled logs are 0 to `m - 1`. The counter is `m`, or `m - 1` once an open has read it
back from the header that the last rollover wrote. -/
structure Layout (calls : List LogCall) (j : Journal) (m : Nat) : Prop where
  rolled : ∀ n : Int, (j.rolled n).isSome ↔ 0 ≤ n ∧ n < m
  positive : 0 < m ↔ .rollover ∈ calls
  header : j.header = (m - 1 : Nat)
  stale : Stale calls → j.counter = (m - 1 : Nat)
  current : ¬ Stale calls → j.counter = m

theorem Layout.step {calls : List LogCall} {call : LogCall} {j : Journal} {m : Nat}
    (layout : Layout calls j m) (zero : ∀ counter, call = .openLog counter → counter = 0)
    (fits : call = .rollover → ¬ Stale calls) :
    Layout (calls ++ [call]) (j.step call) (if call = .rollover then m + 1 else m) := by
  obtain ⟨rolled, positive, header, stale, current⟩ := layout
  cases call with
  | openLog counter =>
    cases zero counter rfl
    simp only [reduceCtorEq, if_false]
    refine ⟨rolled, by simpa using positive, header, fun _ => header, ?_⟩
    intro fresh
    have none_ : ¬ 0 < m := fun some_ => fresh (stale_snoc.mpr (Or.inr ⟨rfl, positive.mp some_⟩))
    simp only [Journal.step]
    omega
  | write data =>
    simp only [reduceCtorEq, if_false]
    refine ⟨rolled, by simpa using positive, header, ?_, ?_⟩
    · intro old
      exact stale (by simpa [stale_snoc] using old)
    · intro fresh
      exact current fun old => fresh (stale_snoc.mpr (Or.inl old))
  | rollover =>
    have counter := current (fits rfl)
    simp only [if_true]
    refine ⟨?_, by simp, by simpa [Journal.step] using counter, ?_, ?_⟩
    · intro n
      simp only [Journal.step, counter]
      by_cases newest : n = m
      · subst newest
        simp
      · rw [Function.update_of_ne newest, rolled]
        push_cast
        omega
    · intro old
      exact absurd (by simpa [stale_snoc] using old) (fits rfl)
    · intro _
      simp only [Journal.step, counter]
      push_cast
      rfl

theorem layout {calls : List LogCall} (zero : ∀ counter, .openLog counter ∈ calls → counter = 0)
    (session : RolledInOneSession calls) : Layout calls (run 0 calls) (calls.count .rollover) := by
  induction calls using List.reverseRecOn with
  | nil =>
    refine ⟨fun n => ?_, by simp, rfl, ?_, fun _ => rfl⟩
    · simp [run, fresh]
    · intro old
      cases old
  | append_singleton front call ih =>
    obtain ⟨before, fits⟩ := rolledInOneSession_snoc.mp session
    have layout := ih (fun counter member => zero counter (List.mem_append_left _ member)) before
    have next := layout.step (fun counter same => zero counter (by simp [same])) fits
    rw [run_snoc, List.count_append, List.count_singleton]
    split at next <;> simp_all

/-- Rolling a log moves the payloads to the end of the rolled ones. -/
theorem contents_rollover {j : Journal} {m : Nat} (counter : j.counter = m) :
    (j.step .rollover).contents (m + 1) = j.contents m := by
  have older (n : Nat) (inside : n ∈ List.range m) :
      (((j.step .rollover).rolled n).map Prod.snd).getD [] = ((j.rolled n).map Prod.snd).getD [] := by
    have other : (n : Int) ≠ j.counter := by
      have := List.mem_range.mp inside
      omega
    simp [step, Function.update_of_ne other]
  unfold contents
  rw [List.range_succ, List.flatMap_append, List.flatMap_congr older]
  simp [step, ← counter]

/-- While no log is overwritten the journal is a part of the acknowledged payloads, and all of
them exactly when no open has dropped any. -/
theorem contents_acked {calls : List LogCall} (zero : ∀ counter, .openLog counter ∈ calls → counter = 0)
    (session : RolledInOneSession calls) :
    ((run 0 calls).contents (calls.count .rollover)).Sublist (calls.flatMap LogCall.payload) ∧
      ((run 0 calls).contents (calls.count .rollover) = calls.flatMap LogCall.payload ↔ Replayed calls) ∧
      (Replayed calls → ([] ∈ (run 0 calls).current ↔ Pending calls)) := by
  induction calls using List.reverseRecOn with
  | nil =>
    refine ⟨.refl _, iff_of_true rfl ?_, fun _ => iff_of_false (by simp [run, fresh]) ?_⟩
    · intro before between after same
      simp at same
    · rintro ⟨before, after, same, _⟩
      simp at same
  | append_singleton front call ih =>
    obtain ⟨before, fits⟩ := rolledInOneSession_snoc.mp session
    have zero' : ∀ counter, .openLog counter ∈ front → counter = 0 :=
      fun counter member => zero counter (List.mem_append_left _ member)
    obtain ⟨part, whole, pending⟩ := ih zero' before
    have layout := layout zero' before
    rw [run_snoc, replayed_snoc, pending_snoc, List.flatMap_append, List.count_append]
    generalize run 0 front = j at *
    cases call with
    | write data =>
      have grown : (j.step (.write data)).contents (front.count .rollover) =
          j.contents (front.count .rollover) ++ [data] := by
        simp [contents, step]
      simp only [List.count_singleton, beq_iff_eq, reduceCtorEq, if_false, Nat.add_zero, grown,
        List.flatMap_singleton, LogCall.payload]
      refine ⟨part.append_right _, ?_, ?_⟩
      · simpa using whole
      · rintro ⟨replayed, _⟩
        simp [step, pending replayed, or_comm, eq_comm]
    | rollover =>
      rw [List.count_singleton_self, contents_rollover (layout.current (fits rfl))]
      simp only [List.flatMap_singleton, LogCall.payload, List.append_nil]
      exact ⟨part, by simpa using whole, fun _ => by simp [step]⟩
    | openLog counter =>
      cases zero counter (by simp)
      let older := (List.range (front.count .rollover)).flatMap
        fun n : Nat => ((j.rolled (n : Int)).map Prod.snd).getD []
      have before_ : j.contents (front.count .rollover) = older ++ j.current := rfl
      have after_ : (j.step (.openLog 0)).contents (front.count .rollover) = older ++ replayable j.current := rfl
      have shorter : (older ++ replayable j.current).Sublist (older ++ j.current) :=
        (List.takeWhile_sublist _).append_left _
      rw [before_] at part whole
      simp only [List.count_singleton, beq_iff_eq, reduceCtorEq, if_false, Nat.add_zero, after_,
        List.flatMap_singleton, LogCall.payload, List.append_nil, forall_const, false_or, ne_eq,
        not_false_eq_true, true_and]
      refine ⟨shorter.trans part, ⟨?_, ?_⟩, ?_⟩
      · intro same
        have all : older ++ j.current = front.flatMap LogCall.payload := by
          refine part.eq_of_length_le ?_
          rw [← same]
          exact shorter.length_le
        have kept : replayable j.current = j.current := List.append_cancel_left (same.trans all.symm)
        refine ⟨whole.mp all, fun unread => nil_not_mem_replayable j.current ?_⟩
        rw [kept]
        exact (pending (whole.mp all)).mpr unread
      · rintro ⟨replayed, read⟩
        rw [replayable_eq_self fun member => read ((pending replayed).mp member)]
        exact whole.mpr replayed
      · rintro ⟨_, read⟩
        exact iff_of_false (nil_not_mem_replayable j.current) read

end Journal

section
variable {path prefix_ : String} {s : LogSession} {calls : List LogCall} {j : Journal} {m : Nat}

theorem Represents.payloads_log (rep : Represents path prefix_ s j) (n : Int) :
    payloads (s.disk (.log path prefix_ n)) = ((j.rolled n).map Prod.snd).getD [] := by
  rw [rep.rolled]
  cases j.rolled n with
  | none => rfl
  | some file => simp [payloads]

/-- Reading the files by number is reading the journal. -/
theorem Represents.kept_iff (rep : Represents path prefix_ s j) (layout : j.Layout calls m) :
    Kept path prefix_ s ↔ j.contents m = s.acked := by
  have writing : payloads (s.disk (.writing path prefix_)) = j.current := by simp [rep.writing, payloads]
  have onDisk (n : Int) : (s.disk (.log path prefix_ n)).isSome ↔ 0 ≤ n ∧ n < m := by
    rw [rep.rolled, Option.isSome_map]
    exact layout.rolled n
  let numbers := (List.range m).map fun n : Nat => (n : Int)
  have sorted : numbers.Pairwise (· < ·) := by
    rw [List.pairwise_map]
    exact List.pairwise_lt_range.imp fun less => by omega
  have member (n : Int) : n ∈ numbers ↔ 0 ≤ n ∧ n < m := by
    simp only [numbers, List.mem_map, List.mem_range]
    exact ⟨by rintro ⟨k, inside, rfl⟩; omega, fun inside => ⟨n.toNat, by omega, by omega⟩⟩
  have read : numbers.flatMap (fun n => payloads (s.disk (.log path prefix_ n))) ++
      payloads (s.disk (.writing path prefix_)) = j.contents m := by
    simp only [numbers, Journal.contents, List.flatMap_map, rep.payloads_log, writing]
  constructor
  · rintro ⟨numbers', sorted', member', all⟩
    have same : numbers' = numbers := sorted'.eq_of_mem_iff sorted fun n => by rw [member', onDisk, member]
    rw [← all, same, read]
  · intro all
    exact ⟨numbers, sorted, fun n => by rw [onDisk, member], by rw [read, all]⟩

theorem neverOverwrites_iff (reach : LogReach path prefix_ (.openLog 0 :: calls) s)
    (zero : ∀ counter, .openLog counter ∈ calls → counter = 0) :
    NeverOverwrites path prefix_ (.openLog 0 :: calls) ↔ RolledInOneSession calls := by
  constructor
  · intro never
    induction calls using List.reverseRecOn generalizing s with
    | nil => intro impossible; cases impossible
    | append_singleton front call ih =>
      obtain ⟨before, toFront, -⟩ := @Run.snoc_inv _ _ _ _ (.openLog 0 :: front) call _ reach
      have zero' : ∀ counter, .openLog counter ∈ front → counter = 0 :=
        fun counter member => zero counter (List.mem_append_left _ member)
      have session := ih toFront zero' fun calls s isPrefix => never calls s (isPrefix.trans (by simp))
      refine rolledInOneSession_snoc.mpr ⟨session, ?_⟩
      rintro rfl stale
      have layout := Journal.layout zero' session
      have positive := layout.positive.mpr (stale.subset (by simp))
      rcases LogReach.represents toFront with ⟨impossible, _⟩ | ⟨_, _, same, rep, _⟩
      · cases impossible
      cases same
      have free := never (.openLog 0 :: front) before (by simp) toFront
      rw [rep.lastCounter, rep.log_free_iff, Int32.toInt_zero, layout.stale stale] at free
      have taken := (layout.rolled (front.count .rollover - 1 : Nat)).mpr (by omega)
      rw [free] at taken
      cases taken
  · intro session before s isPrefix reach
    rcases reach.represents with ⟨rfl, rfl⟩ | ⟨counter, rest, rfl, rep, _⟩
    · rfl
    · obtain ⟨same, inside⟩ := List.cons_prefix_cons.mp isPrefix
      cases same
      have session' : RolledInOneSession (rest ++ [.rollover]) := fun bad => session (bad.trans inside.sublist)
      obtain ⟨session', fits⟩ := rolledInOneSession_snoc.mp session'
      have zero' : ∀ counter, .openLog counter ∈ rest → counter = 0 :=
        fun counter member => zero counter (inside.subset (List.mem_append_left _ member))
      have layout := Journal.layout zero' session'
      rw [rep.lastCounter, rep.log_free_iff, Int32.toInt_zero, ← Option.not_isSome_iff_eq_none, layout.rolled,
        layout.current (fits rfl)]
      omega

theorem rolledInOneSession_cons (counter : Int32) :
    RolledInOneSession (.openLog counter :: calls) ↔ RolledInOneSession calls := by
  unfold RolledInOneSession
  rw [List.sublist_cons_iff]
  simp

theorem replayed_cons (counter : Int32) : Replayed (.openLog counter :: calls) ↔ Replayed calls := by
  constructor
  · rintro replayed before between after rfl
    exact replayed (.openLog counter :: before) between after rfl
  · intro replayed before between after same
    cases before with
    | nil => cases same
    | cons head before =>
      obtain ⟨_, rfl⟩ := List.cons.inj same
      exact replayed before between after rfl

/-- Nothing acknowledged is lost and nothing overwritten exactly in the runs that have no open
between two rollovers and no open while the log in writing holds an empty payload. -/
theorem kept_iff_rolled_in_one_session (reach : LogReach path prefix_ calls s)
    (zero : ∀ counter, .openLog counter ∈ calls → counter = 0) :
    Kept path prefix_ s ∧ NeverOverwrites path prefix_ calls ↔ RolledInOneSession calls ∧ Replayed calls := by
  rcases reach.represents with ⟨rfl, rfl⟩ | ⟨counter, rest, rfl, rep, acked⟩
  · refine iff_of_true ⟨⟨[], .nil, by simp [LogSession.start], rfl⟩, ?_⟩ ⟨?_, ?_⟩
    · intro front t impossible
      simp at impossible
    · intro impossible
      cases impossible
    · intro before between after impossible
      simp at impossible
  · cases zero counter List.mem_cons_self
    have zero' : ∀ counter, .openLog counter ∈ rest → counter = 0 :=
      fun counter member => zero counter (List.mem_cons_of_mem _ member)
    rw [neverOverwrites_iff reach zero', rolledInOneSession_cons, replayed_cons, and_comm]
    refine and_congr_right fun session => ?_
    rw [rep.kept_iff (Journal.layout zero' session), acked]
    exact (Journal.contents_acked zero' session).2.1

end

/-- One restart after a rollover does no harm. -/
theorem kept_after_rollover_and_restart :
    ∃ s, LogReach "." "periodic" [.openLog 0, .write [49], .rollover, .openLog 0, .write [50]] s ∧
      Kept "." "periodic" s ∧
      NeverOverwrites "." "periodic" [.openLog 0, .write [49], .rollover, .openLog 0, .write [50]] := by
  obtain ⟨s, reach, -⟩ := LogReach.exists "." "periodic" 0 [.write [49], .rollover, .openLog 0, .write [50]] (by decide)
  refine ⟨s, reach, (kept_iff_rolled_in_one_session reach (by simp)).mpr ⟨?_, ?_⟩⟩
  · unfold RolledInOneSession
    decide
  · intro before between after same
    have member : LogCall.write [] ∈ before ++ .write [] :: between ++ .openLog 0 :: after := by simp
    rw [← same] at member
    simp at member

/-- The rollover after the restart renames onto `periodic-0.log`, and the payload in it is gone. -/
theorem lost_by_rollover_after_restart :
    ∃ s, LogReach "." "periodic" [.openLog 0, .write [49], .rollover, .openLog 0, .rollover] s ∧
      s.acked = [[49]] ∧ ¬ Kept "." "periodic" s := by
  obtain ⟨s, reach, -⟩ := LogReach.exists "." "periodic" 0 [.write [49], .rollover, .openLog 0, .rollover] (by decide)
  rcases reach.represents with ⟨impossible, _⟩ | ⟨_, _, same, rep, acked⟩
  · cases impossible
  cases same
  have empty (n : Int) : payloads (s.disk (.log "." "periodic" n)) = [] := by
    rw [rep.payloads_log]
    by_cases first : n = 0
    · subst first
      rfl
    · simp [Journal.run, Journal.step, Journal.fresh, Function.update_of_ne first]
  refine ⟨s, reach, acked, ?_⟩
  rintro ⟨numbers, _, _, all⟩
  have writing : payloads (s.disk (.writing "." "periodic")) = [] := by
    rw [rep.writing]
    rfl
  have rolled : numbers.flatMap (fun n => payloads (s.disk (.log "." "periodic" n))) = [] :=
    List.flatMap_eq_nil_iff.mpr fun n _ => empty n
  rw [rolled, writing, acked] at all
  cases all

end ContentBased
