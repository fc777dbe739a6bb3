import ContentBased.CenterThreads
import ContentBased.MessageBuffers
import ContentBased.PinnedPartition

namespace ContentBased.FrameworkCenter

section Refresh
variable {ι : Type} (sort : List (Option ℚ × ι) → List (Option ℚ × ι)) (factors : Factors) (fwCacheSavecount : Int32)
  (candidates : Candidates ι) (calcPwr : List ℚ)

/-- The powers and the documents when the loops are over. Without powers of the calculators the loops do nothing. -/
def finalEntries : List (Option ℚ × ι) :=
  let moved := movePinned calcPwr.length candidates
  let powers := moved.recommendPwr.zipIdx.map fun (pwr, i) =>
    if i < calcPwr.length then finalPower factors calcPwr moved i else some pwr
  powers.zip moved.recommendDid

/-- The list that `process_query` puts into the cache, if it comes to one: the documents behind the pinned ones are sorted
by their powers, and the list is read from the end. Its buffer has 64 places. -/
def requestList : Option (List ι) :=
  let recommendNum := candidates.recommendDid.length
  if recommendNum = 0 then none
  else if calcPwr.length ≠ 0 ∧ calcPwr.length ≠ recommendNum then none
  else
    let entries := finalEntries factors candidates calcPwr
    let topPos := (movePinned calcPwr.length candidates).topPos
    let recommendDid := (entries.take topPos ++ sort (entries.drop topPos)).map Prod.snd
    let num := requestNum fwCacheSavecount (Int32.ofNat recommendNum)
    if 64 < num ∨ num < 0 then none
    else some ((List.range num.toInt.toNat).filterMap fun i => recommendDid[recommendNum - i - 1]?)

/-- What the sort is relied on for. A power that comes of a division by zero has no place in an order. -/
structure Sorts : Prop where
  perm : ∀ entries, (sort entries).Perm entries
  ordered : ∀ entries : List (Option ℚ × ι), (∀ entry ∈ entries, entry.1.isSome) →
    (sort entries).Pairwise fun left right => left.1.getD 0 ≤ right.1.getD 0

end Refresh

section Ranked
variable {ι : Type} {sort : List (Option ℚ × ι) → List (Option ℚ × ι)} {factors : Factors} {fwCacheSavecount : Int32}
  {candidates : Candidates ι} {calcPwr : List ℚ} {list : List ι}

/-- The pinned documents, as far as the loop has moved them. -/
def pinnedDid (candidates : Candidates ι) (calcPwr : List ℚ) : List ι :=
  if calcPwr.length = 0 then [] else (candidates.triples.filter fun triple => triple.2.2 < 0).map Prod.fst

theorem TakenAt.length_eq {α : Type} {order : List Nat} {xs base : List α} (takes : TakenAt order xs base) :
    xs.length = order.length := by
  have same := congrArg List.length takes
  rwa [List.length_map, List.length_map] at same

/-- The arrays stay together, with the pinned documents in front. -/
theorem did_movePinned (number : calcPwr.length = 0 ∨ calcPwr.length = candidates.recommendDid.length) :
    (movePinned calcPwr.length candidates).recommendPwr.length =
        (movePinned calcPwr.length candidates).recommendDid.length ∧
      (movePinned calcPwr.length candidates).recommendDid.Perm candidates.recommendDid ∧
      (movePinned calcPwr.length candidates).recommendDid.take (movePinned calcPwr.length candidates).topPos =
        pinnedDid candidates calcPwr := by
  by_cases offline : calcPwr.length = 0
  · rw [pinnedDid, if_pos offline, offline]
    exact ⟨candidates.length_pwr, .refl _, List.take_zero⟩
  · obtain ⟨did, pwr, time⟩ := candidates.moved_arrangement
    have front := candidates.partitioned.front
    have lengths : candidates.moved.recommendPwr.length = candidates.moved.recommendDid.length := by
      rw [pwr.length_eq, did.length_eq]
    have whole : candidates.moved.triples.map Prod.fst = candidates.moved.recommendDid := by
      refine List.map_fst_zip ?_
      rw [List.length_zip, pwr.length_eq, time.length_eq, did.length_eq, Nat.min_self]
    rw [pinnedDid, if_neg offline, number.resolve_left offline]
    exact ⟨lengths, did.perm candidates.arrangement_perm, by rw [← front, List.map_take, whole]⟩

theorem did_finalEntries (factors : Factors)
    (number : calcPwr.length = 0 ∨ calcPwr.length = candidates.recommendDid.length) :
    (finalEntries factors candidates calcPwr).map Prod.snd = (movePinned calcPwr.length candidates).recommendDid := by
  refine List.map_snd_zip ?_
  rw [List.length_map, List.length_zipIdx, (did_movePinned number).1]

/-- Places that are read from the end on. -/
theorem filterMap_from_end {α : Type} (xs : List α) {count : Nat} (few : count ≤ xs.length) :
    (List.range count).filterMap (fun i => xs[xs.length - i - 1]?) = xs.reverse.take count := by
  induction count with
  | zero => rfl
  | succ count ih =>
    have small : xs.length - count - 1 < xs.length := by omega
    have last : xs.reverse[count]? = some xs[xs.length - count - 1] := by
      rw [List.getElem?_reverse (by omega), Nat.sub_sub, Nat.add_comm, ← Nat.sub_sub]
      exact List.getElem?_eq_getElem (by omega)
    rw [List.range_succ, List.filterMap_append, ih (by omega), List.take_add_one, last]
    exact congrArg _ (List.filterMap_cons_some (List.getElem?_eq_getElem small))

theorem toNat_requestNum (fwCacheSavecount : Int32) {recommendNum : Nat} (small : recommendNum < 2 ^ 31) :
    (requestNum fwCacheSavecount (Int32.ofNat recommendNum)).toInt.toNat =
      min fwCacheSavecount.toInt.toNat recommendNum := by
  have number : (Int32.ofNat recommendNum).toInt = recommendNum := Int32.toInt_ofNat_of_lt small
  rw [requestNum]
  split
  · rename_i below
    rw [Int32.lt_iff_toInt_lt, number] at below
    rw [number]
    omega
  · rename_i above
    rw [Int32.lt_iff_toInt_lt, number] at above
    omega

/-- The list that is put is the front of a ranking: the documents that are not pinned by falling power, and then the pinned
ones from the last to the first. -/
theorem requestList_ranked (sorts : Sorts sort)
    (made : requestList sort factors fwCacheSavecount candidates calcPwr = some list) :
    ∃ ranked : List (Option ℚ × ι),
      ranked.Perm ((finalEntries factors candidates calcPwr).drop (movePinned calcPwr.length candidates).topPos) ∧
      ((∀ entry ∈ ranked, entry.1.isSome) → ranked.Pairwise fun left right => right.1.getD 0 ≤ left.1.getD 0) ∧
      (ranked.map Prod.snd ++ (pinnedDid candidates calcPwr).reverse).Perm candidates.recommendDid ∧
      list = (ranked.map Prod.snd ++ (pinnedDid candidates calcPwr).reverse).take
        (min fwCacheSavecount.toInt.toNat candidates.recommendDid.length) ∧ list.length ≤ 64 := by
  unfold requestList at made
  dsimp only at made
  split at made
  · cases made
  split at made
  · cases made
  rename_i some_ accepted
  have number : calcPwr.length = 0 ∨ calcPwr.length = candidates.recommendDid.length := by
    by_contra neither
    exact accepted (not_or.mp neither)
  obtain ⟨-, perm, front⟩ := did_movePinned number
  have dids := did_finalEntries factors number
  generalize finalEntries factors candidates calcPwr = entries at *
  generalize movePinned calcPwr.length candidates = moved at *
  split at made
  · cases made
  rename_i fits
  obtain rfl := Option.some.inj made
  have sorted := sorts.perm (entries.drop moved.topPos)
  have pinned : (entries.take moved.topPos).map Prod.snd = pinnedDid candidates calcPwr := by
    rw [List.map_take, dids, front]
  have all :
      ((entries.take moved.topPos ++ sort (entries.drop moved.topPos)).map Prod.snd).Perm candidates.recommendDid := by
    have kept := ((sorted.append_left (entries.take moved.topPos)).map Prod.snd)
    rw [List.take_append_drop, dids] at kept
    exact kept.trans perm
  have back : ((entries.take moved.topPos ++ sort (entries.drop moved.topPos)).map Prod.snd).reverse =
      (sort (entries.drop moved.topPos)).reverse.map Prod.snd ++ (pinnedDid candidates calcPwr).reverse := by
    rw [List.map_append, List.reverse_append, pinned, List.map_reverse]
  have count := toNat_requestNum fwCacheSavecount candidates.length_lt
  refine ⟨(sort (entries.drop moved.topPos)).reverse, (List.reverse_perm _).trans sorted, fun numbers => ?_, ?_, ?_, ?_⟩
  · refine List.pairwise_reverse.mpr (sorts.ordered _ fun entry member => numbers entry ?_)
    exact List.mem_reverse.mpr (sorted.mem_iff.mpr member)
  · rw [← back]
    exact (List.reverse_perm _).trans all
  · rw [← back, count, ← all.length_eq, filterMap_from_end _ (min_le_right ..)]
  · refine (List.length_filterMap_le ..).trans ?_
    have limit := Int32.le_iff_toInt_le.mp (Int32.not_lt.mp (not_or.mp fits).1)
    have places : (64 : Int32).toInt = 64 := by decide +kernel
    rw [List.length_range]
    omega

theorem nodup_requestList (sorts : Sorts sort)
    (made : requestList sort factors fwCacheSavecount candidates calcPwr = some list) (distinct : candidates.recommendDid.Nodup) : list.Nodup := by
  obtain ⟨ranked, -, -, perm, rfl, -⟩ := requestList_ranked sorts made
  exact (perm.nodup_iff.mpr distinct).sublist (List.take_sublist ..)

end Ranked

section Runs
open FrameworkCache KeyedLocks
variable {Thread : Type} [DecidableEq Thread] {config : Config}
  {start state : State Thread UInt64 (Option Entry) CacheWork (Shared Thread)}
  {actions : List (Action Thread UInt64 CacheWork)}

/-- The list that was last put for a user is one that was put, or the one it had. -/
theorem last_list (uid : UInt64) (entry : Option Entry) (done : List (UInt64 × CacheWork × CacheWork)) :
    (handedOutSince uid entry done).list = ids entry ∨
      ∃ begun list now, (uid, begun, .stored list now) ∈ done ∧ (handedOutSince uid entry done).list = list := by
  induction done using List.reverseRecOn with
  | nil => exact .inl rfl
  | append_singleton front served ih =>
    rw [handedOutSince, List.foldl_concat]
    have before : (handedOutSince uid entry front).list = ids entry ∨ ∃ begun list now,
        (uid, begun, .stored list now) ∈ front ++ [served] ∧ (handedOutSince uid entry front).list = list := by
      rcases ih with same | ⟨begun, list, now, member, same⟩
      · exact .inl same
      · exact .inr ⟨begun, list, now, List.mem_append_left _ member, same⟩
    by_cases same : served.1 = uid
    · obtain ⟨user, begun, work⟩ := served
      obtain rfl : user = uid := same
      cases work with
      | stored list now =>
        rw [handOut_stored]
        exact .inr ⟨begun, list, now, List.mem_concat_self .., rfl⟩
      | asked | popped | timed | gotten | reported | finished | listed =>
        simp only [handOut, if_true]
        exact before
    · rw [handOut_of_ne same]
      exact before

/-- A thread alone puts a list for a user. -/
theorem puts {list : List UInt64} {entry : Entry} {uid : UInt64} {log : Int32} (thread : Thread) (quiet : Quiet start)
    (flushing : start.env.flushing thread = some (uid, log)) (ran : put list start.env.clock = some entry) :
    ∃ actions state, CenterRun config start actions state ∧ Quiet state ∧
      state.cells = Function.update start.cells uid (some entry) ∧ state.env.clock = start.env.clock ∧
      completed actions = [(uid, .listed list, .stored list start.env.clock)] := by
  have free : uid ∉ start.flags := by
    rw [quiet.flags]
    exact Set.notMem_empty _
  have works : (center Thread config).WorksAlone uid
      ({ start.env with flushing := Function.update start.env.flushing thread none }, .listed list, start.cells uid)
      ({ start.env with flushing := Function.update start.env.flushing thread none }, .stored list start.env.clock,
        some entry) := .single (.put ran)
  obtain ⟨actions, run, done⟩ := alone (quiet.outside thread) free (Calls.flush flushing) works Ends.stored
  exact ⟨actions, _, run, ⟨quiet.flags, quiet.outside⟩, rfl, rfl, done⟩

end Runs

section Samples
open FrameworkCache KeyedLocks

def sampleSort : List (Option ℚ × UInt64) → List (Option ℚ × UInt64) :=
  List.insertionSort fun left right => left.1.getD 0 ≤ right.1.getD 0

theorem sorts_sampleSort : Sorts sampleSort where
  perm := List.perm_insertionSort _
  ordered entries _ := by
    have total : Std.Total fun left right : Option ℚ × UInt64 => left.1.getD 0 ≤ right.1.getD 0 := ⟨fun _ _ => le_total _ _⟩
    have trans : IsTrans (Option ℚ × UInt64) fun left right => left.1.getD 0 ≤ right.1.getD 0 := ⟨fun _ _ _ => le_trans⟩
    exact List.pairwise_insertionSort _ entries

theorem requestList_twoCandidates : requestList sampleSort ⟨1, 1, 1⟩ 20 (twoCandidates 1 3) [10, 20] = some [8, 7] := by
  decide +kernel

theorem twoCandidates_ranked : ∃ ranked : List (Option ℚ × UInt64),
    ranked.Perm ((finalEntries ⟨1, 1, 1⟩ (twoCandidates 1 3) [10, 20]).drop (movePinned 2 (twoCandidates 1 3)).topPos) ∧
      ((∀ entry ∈ ranked, entry.1.isSome) → ranked.Pairwise fun left right => right.1.getD 0 ≤ left.1.getD 0) ∧
      (ranked.map Prod.snd ++ (pinnedDid (twoCandidates 1 3) [10, 20]).reverse).Perm (twoCandidates 1 3).recommendDid ∧
      [8, 7] = (ranked.map Prod.snd ++ (pinnedDid (twoCandidates 1 3) [10, 20]).reverse).take
        (min (20 : Int32).toInt.toNat (twoCandidates 1 3).recommendDid.length) ∧ [8, 7].length ≤ 64 :=
  requestList_ranked sorts_sampleSort requestList_twoCandidates

/-- A thread has a request to flush the cache for a user, who has no list. -/
def unlisted : State Bool UInt64 (Option Entry) CacheWork (Shared Bool) where
  flags := ∅
  cells _ := none
  places _ := .outside
  env := ⟨1030, [], fun thread => if thread then some (9, 0) else none, []⟩

def eightSeven : Entry := ⟨0, 1030, [8, 7], by decide⟩

def seven : Entry := ⟨1030, 1030, [7], by decide⟩

theorem get_eightSeven :
    get sampleConfig (some eightSeven) oneId.requestNum 0 1030 = some ⟨some 1, 1, [8], some seven⟩ := by
  have asked : oneId.requestNum = 1 := by decide +kernel
  have count : returnCount eightSeven 1 0 = 1 := by decide +kernel
  have returned : (returnCount eightSeven 1 0).toInt = (1 : Nat) := by decide +kernel
  have left_ : (eightSeven.num - returnCount eightSeven 1 0).toInt = (eightSeven.list.drop 1).length := by decide +kernel
  have fresh : 1030 - eightSeven.updateTime < sampleConfig.flushTime := by decide +kernel
  have late : 60 < 1030 - eightSeven.searchTime := by decide +kernel
  have short : ((eightSeven.list.drop 1).length : Int) ≤ sampleConfig.flushCount.toInt := by decide +kernel
  have small : ¬ 254 < (eightSeven.list.drop 1).length := by decide +kernel
  rw [asked, get_of_fresh fresh returned left_, if_neg small, if_pos short, if_pos late, count]
  rfl

end Samples

end ContentBased.FrameworkCenter
