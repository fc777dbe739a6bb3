import ContentBased.CenterThreads

namespace ContentBased.FrameworkCenter
open FrameworkCache KeyedLocks

variable {Thread : Type} [DecidableEq Thread] {config : Config}
  {start state : State Thread UInt64 (Option Entry) CacheWork (Shared Thread)}
  {actions : List (Action Thread UInt64 CacheWork)}

section Times

/-- The time that was read inside the lock. -/
def CacheWork.time : CacheWork → Option Int
  | .timed _ _ now | .stored _ now => some now.toInt
  | .gotten _ _ seen | .reported _ _ seen _ | .finished _ _ seen _ => seen.map Int32.toInt
  | _ => none

theorem clocked : Clocked (center Thread config) (fun shared => shared.clock.toInt) CacheWork.time where
  calls called := by
    cases called with
    | task => exact ⟨le_rfl, rfl⟩
    | flush flushing => exact ⟨le_rfl, rfl⟩
  works worked := by
    cases worked with
    | pop | miss | add | report | push | skip => exact ⟨le_rfl, .inl rfl⟩
    | time | put => exact ⟨le_rfl, .inr rfl⟩
  others changed := by
    cases changed with
    | tick later => exact later
    | take first idle => exact le_rfl
    | fail => exact le_rfl

/-- When a query that has found an entry asks for a new list, for whatever code. -/
def CacheWork.asksAt : CacheWork → Option Int32
  | .finished _ _ (some now) outcome => if outcome.flushed then some now else none
  | _ => none

/-- What a section that puts nothing does to a value of the cache. The time of the search is the old one or that of the
section, and that of the section when it asks for a new list with a code that is set. -/
theorem searched_of_whole {uid : UInt64} {section_ : CacheWork × CacheWork} {entry : Entry} {cell : Option Entry}
    (whole : (center Thread config).Whole uid section_.1 section_.2 (some entry) cell)
    (unput : ∀ list now, section_.2 ≠ .stored list now) :
    ∃ kept, cell = some kept ∧
      (kept.searchTime = entry.searchTime ∨ section_.2.time = some kept.searchTime.toInt) ∧
      ∀ now, section_.2.Coded → section_.2.asksAt = some now →
        60 < now - entry.searchTime ∧ kept.searchTime = now ∧ section_.2.time = some now.toInt := by
  obtain ⟨begun, final⟩ := section_
  obtain ⟨called, works, ended⟩ := whole
  have reached := reached_of_works called works
  cases ended with
  | @finished task got seen outcome =>
    obtain ⟨-, rfl, ⟨rand, now, ran, rfl⟩, isNewUser, unset, rfl⟩ := reached
    cases gets_of_get ran with
    | searched count late =>
      refine ⟨_, rfl, .inr rfl, fun time _ asks => ?_⟩
      obtain rfl := Option.some.inj asks
      exact ⟨late, rfl, rfl⟩
    | unset => exact ⟨_, rfl, .inl rfl, fun _ coded => by cases coded⟩
    | enough => exact ⟨_, rfl, .inl rfl, fun _ _ asks => by cases asks⟩
    | expired late =>
      refine ⟨_, rfl, .inr rfl, fun time _ asks => ?_⟩
      obtain rfl := Option.some.inj asks
      exact ⟨late, rfl, rfl⟩
    | gone => exact ⟨_, rfl, .inl rfl, fun _ _ asks => by cases asks⟩
  | @stored list now => exact absurd rfl (unput list now)

/-- As long as no list is put, the entry has the time of the last request. -/
theorem searched_of_run {uid : UInt64} {entry : Entry} {sections : List (CacheWork × CacheWork)} {cell : Option Entry}
    (run : Run (fun before section_ after => (center Thread config).Whole uid section_.1 section_.2 before after)
      (some entry) sections cell) (unput : ∀ section_ ∈ sections, ∀ list now, section_.2 ≠ .stored list now) :
    ∃ kept, cell = some kept ∧ (kept.searchTime = entry.searchTime ∨
      ∃ section_ ∈ sections, section_.2.time = some kept.searchTime.toInt) := by
  induction run with
  | start => exact ⟨entry, rfl, .inl rfl⟩
  | @next sections cell section_ after _ taken ih =>
    obtain ⟨kept, rfl, times⟩ := ih fun section_ member => unput section_ (List.mem_append_left _ member)
    obtain ⟨kept', rfl, searched⟩ := searched_of_whole taken (unput section_ (List.mem_concat_self ..))
    refine ⟨kept', rfl, ?_⟩
    rcases searched.1 with same | stamp
    · rw [same]
      exact times.imp_right fun ⟨earlier, member, time⟩ => ⟨earlier, List.mem_append_left _ member, time⟩
    · exact .inr ⟨section_, List.mem_concat_self .., stamp⟩

/-- A difference of two times in their order that is read to be more than a minute. -/
theorem minute_of_sub {now since : Int32} (order : since.toInt ≤ now.toInt) (late : 60 < now - since) :
    60 < now.toInt - since.toInt := by
  rw [Int32.lt_iff_toInt_lt, Int32.toInt_sub] at late
  have sixty : (60 : Int32).toInt = 60 := by decide +kernel
  have bounds := Wrapping.bounds now
  have bounds' := Wrapping.bounds since
  rw [sixty, Int.bmod_def] at late
  split at late <;> omega

theorem unput_of_asks {work : CacheWork} {now : Int32} (asks : work.asksAt = some now) :
    ∀ list time, work ≠ .stored list time := by
  rintro list time rfl
  cases asks

/-- A section that asks for a new list with a code that is set has found an entry, more than a minute after the time it
has. -/
theorem whole_of_asks {uid : UInt64} {section_ : CacheWork × CacheWork} {before cell : Option Entry} {now : Int32}
    (whole : (center Thread config).Whole uid section_.1 section_.2 before cell) (coded : section_.2.Coded)
    (asks : section_.2.asksAt = some now) :
    ∃ entry kept, before = some entry ∧ cell = some kept ∧ 60 < now - entry.searchTime ∧ kept.searchTime = now ∧
      section_.2.time = some now.toInt := by
  cases before with
  | none =>
    obtain ⟨begun, final⟩ := section_
    obtain ⟨called, works, ended⟩ := whole
    have reached := reached_of_works called works
    cases ended with
    | finished =>
      obtain ⟨-, -, ⟨rand, time, -, rfl⟩, -⟩ := reached
      cases asks
    | stored => cases asks
  | some entry =>
    obtain ⟨kept, rfl, -, searched⟩ := searched_of_whole whole (unput_of_asks asks)
    exact ⟨entry, kept, rfl, rfl, searched now coded asks⟩

def secondId : Got := ⟨some 1, 1, [6], some (six.drop 1100 1)⟩

theorem get_secondId : get sampleConfig (some six) oneId.requestNum 0 1100 = some secondId := by
  have asked : oneId.requestNum = 1 := by decide +kernel
  have count : returnCount six 1 0 = 1 := by decide +kernel
  have returned : (returnCount six 1 0).toInt = (1 : Nat) := by decide +kernel
  have left_ : (six.num - returnCount six 1 0).toInt = (six.list.drop 1).length := by decide +kernel
  have fresh : 1100 - six.updateTime < sampleConfig.flushTime := by decide +kernel
  have late : 60 < 1100 - six.searchTime := by decide +kernel
  have short : ((six.list.drop 1).length : Int) ≤ sampleConfig.flushCount.toInt := by decide +kernel
  have small : ¬ 254 < (six.list.drop 1).length := by decide +kernel
  rw [asked, get_of_fresh fresh returned left_, if_neg small, if_pos short, if_pos late, count]
  rfl

def answeredAt (got : Got) (now : Int32) : CacheWork × CacheWork :=
  (.asked oneId, .finished oneId got (some now) (.of oneId.query false 0 got))

end Times

section Reports

/-- What was reported of a user. -/
def reportsOf (shared : Shared Thread) (uid : UInt64) : List (UInt64 × Int32 × List UInt64) :=
  shared.pushed.filter fun report => report.1 = uid

/-- What a section has reported. -/
def CacheWork.reports : CacheWork → List (UInt64 × Int32 × List UInt64)
  | .reported _ _ _ outcome | .finished _ _ _ outcome => outcome.feedback.toList
  | _ => []

theorem userId_of_feedback {query : Query} {isNewUser : Bool} {unset : Int32} {got : Got}
    {report : UInt64 × Int32 × List UInt64} (member : report ∈ (Outcome.of query isNewUser unset got).feedback.toList) :
    report.1 = query.userId := by
  have fed := Option.mem_toList.mp member
  unfold Outcome.of at fed
  dsimp only at fed
  split at fed
  · exact congrArg Prod.fst (Option.some.inj fed).symm
  · cases fed

theorem ledger_reports : Ledger (center Thread config) reportsOf CacheWork.reports where
  calls called := by
    cases called with
    | task => exact ⟨rfl, rfl⟩
    | flush flushing => exact ⟨rfl, rfl⟩
  works worked := by
    cases worked with
    | pop | miss | time | add | push | skip | put =>
      exact ⟨[], (List.append_nil _).symm, (List.append_nil _).symm, fun _ _ => rfl⟩
    | report isNewUser unset =>
      refine ⟨_, rfl, ?_, fun other apart => ?_⟩
      · rw [reportsOf, List.filter_append]
        refine congrArg (reportsOf _ _ ++ ·) (List.filter_eq_self.mpr fun report member => ?_)
        exact decide_eq_true (userId_of_feedback member)
      · rw [reportsOf, List.filter_append]
        refine (congrArg (reportsOf _ _ ++ ·) (List.filter_eq_nil_iff.mpr fun report member => ?_)).trans
          (List.append_nil _)
        exact fun same => apart ((of_decide_eq_true same).symm.trans (userId_of_feedback member))
  others changed := by
    cases changed with
    | tick | take | fail => rfl

/-- A read that counts no ids hands out none. -/
theorem retLst_of_zero {entry : Option Entry} {reqNum now : Int32} {rand : Nat} {got : Got}
    (ran : get config entry reqNum rand now = some got) (zero : got.retNum = 0) : got.retLst = [] := by
  cases entry with
  | none =>
    obtain rfl := Option.some.inj ran
    rfl
  | some entry =>
    cases gets_of_get ran with
    | @searched returned count | @unset returned count | @enough returned count =>
      change returnCount entry reqNum rand = 0 at zero
      change entry.list.take returned = []
      rw [zero, Int32.toInt_zero] at count
      rw [show returned = 0 by omega, List.take_zero]
    | expired | gone => rfl

/-- The ids that a call has reported are those it has taken. -/
theorem Served.reported {entries entries' : UInt64 → Option Entry} {served : UInt64 × CacheWork × CacheWork}
    (call : Served config entries served entries') :
    (served.2.2.reports.flatMap fun report => report.2.2) = served.2.2.taken := by
  cases call with
  | @query task isNewUser rand now unset got outcome seen ran comes read =>
    obtain rfl := outcome_of_got ran comes
    by_cases zero : got.retNum = 0
    · have silent : (Outcome.of task.query isNewUser unset got).feedback = none := if_neg (not_not.mpr zero)
      simp only [CacheWork.reports, CacheWork.taken, silent, retLst_of_zero ran zero]
      rfl
    · have fed : (Outcome.of task.query isNewUser unset got).feedback = some (task.query.userId, got.retNum, got.retLst) :=
        if_pos zero
      simp only [CacheWork.reports, CacheWork.taken, fed]
      exact List.append_nil _
  | put ran => rfl

/-- A reply lists the ids that the call shows. -/
theorem Served.lists {entries entries' : UInt64 → Option Entry} {served : UInt64 × CacheWork × CacheWork}
    (call : Served config entries served entries') {task : QueryTask} {got : Got} {now : Option Int32} {outcome : Outcome}
    (ends : served.2.2 = .finished task got now outcome) : Lists outcome.sendText served.2.2.shown := by
  cases call with
  | query ran comes read =>
    obtain ⟨rfl, rfl, rfl, rfl⟩ := CacheWork.finished.inj ends
    obtain rfl := outcome_of_got ran comes
    exact lists_replyText _ _ _ _
  | put ran => cases ends

theorem Served.shown_sublist {entries entries' : UInt64 → Option Entry} {served : UInt64 × CacheWork × CacheWork}
    (call : Served config entries served entries') : served.2.2.shown.Sublist served.2.2.taken := by
  cases call with
  | query => exact listedIds_sublist _ _
  | put => exact .slnil

/-- What the calls for a user have taken and shown, in the order of the sections. -/
theorem reported_of_served {entries entries' : UInt64 → Option Entry} {done : List (UInt64 × CacheWork × CacheWork)}
    (run : Run (Served config) entries done entries') (uid : UInt64) :
    ((recorded CacheWork.reports uid done).flatMap fun report => report.2.2) = recorded CacheWork.taken uid done ∧
      (recorded CacheWork.shown uid done).Sublist (recorded CacheWork.taken uid done) ∧
      ((∀ served ∈ done, served.1 = uid → served.2.2.Coded) →
        recorded CacheWork.shown uid done = recorded CacheWork.taken uid done) := by
  induction run with
  | start => exact ⟨rfl, .slnil, fun _ => rfl⟩
  | @next done entries' served after _ call ih =>
    simp only [recorded_concat, List.flatMap_append]
    split
    · rename_i same
      refine ⟨congrArg₂ (· ++ ·) ih.1 call.reported, ih.2.1.append call.shown_sublist, fun coded => ?_⟩
      exact congrArg₂ (· ++ ·) (ih.2.2 fun served member => coded served (List.mem_append_left _ member))
        (call.shown_of_coded (coded served (List.mem_concat_self ..) same))
    · simp only [List.flatMap_nil, List.append_nil]
      exact ⟨ih.1, ih.2.1, fun coded => ih.2.2 fun served member => coded served (List.mem_append_left _ member)⟩

end Reports

end ContentBased.FrameworkCenter
