import ContentBased.Library.Decimal
import ContentBased.Library.Fronting
import ContentBased.Library.Wrapping

namespace ContentBased.FrameworkCenter
open Fronting

/-- The factors of `CENTER_CONFIG` that the powers are combined with. -/
structure Factors where
  fwFilterFactor : ℚ
  fwAlgorithmFactor : ℚ
  fwTimeFactor : ℚ

/-- What the filter answers a query with: three arrays of `recommend_num` entries, and the history. -/
structure Candidates (ι : Type) where
  recommendDid : List ι
  recommendPwr : List ℚ
  recommendTime : List Int32
  historyList : List ι
  length_pwr : recommendPwr.length = recommendDid.length
  length_time : recommendTime.length = recommendDid.length
  length_lt : recommendDid.length < 2 ^ 31

/-- What the calculators are asked: the powers come back in the order of these documents. -/
structure CalcRequest (ι : Type) where
  type : Int32
  uid : UInt64
  recommendDid : List ι
  historyList : List ι
deriving DecidableEq, Repr

/-- The arrays while pinned entries move to the front. -/
structure Moving (ι : Type) where
  recommendDid : List ι
  recommendPwr : List ℚ
  recommendTime : List Int32
  topPos : Nat := 0
  oneTime : UInt64 := 0

section Query
variable {ι : Type}

def calcRequest (uid : UInt64) (candidates : Candidates ι) : CalcRequest ι :=
  ⟨4, uid, candidates.recommendDid, candidates.historyList⟩

/-- One turn of the loop over the times. -/
def moveTurn (moving : Moving ι) (i : Nat) : Moving ι :=
  match moving.recommendTime[i]? with
  | none => moving
  | some time =>
    if time < 0 then
      { moving with
        recommendDid := swap moving.recommendDid moving.topPos i
        recommendPwr := swap moving.recommendPwr moving.topPos i
        recommendTime := swap moving.recommendTime moving.topPos i
        topPos := moving.topPos + 1 }
    else { moving with oneTime := moving.oneTime + time.toInt64.toUInt64 }

def movePinned (calcNum : Nat) (candidates : Candidates ι) : Moving ι :=
  (List.range calcNum).foldl moveTurn
    { recommendDid := candidates.recommendDid
      recommendPwr := candidates.recommendPwr
      recommendTime := candidates.recommendTime }

/-- The power that the second loop stores at a place. There is none when it divides by zero. -/
def finalPower (factors : Factors) (calcPwr : List ℚ) (moved : Moving ι) (i : Nat) : Option ℚ := do
  let recommendPwr ← moved.recommendPwr[i]?
  let calcPower ← calcPwr[i]?
  let time ← moved.recommendTime[i]?
  let power := factors.fwFilterFactor * recommendPwr + calcPower
  if moved.topPos ≤ i then
    if moved.oneTime = 0 then none
    else some (factors.fwAlgorithmFactor * power + factors.fwTimeFactor * time.toInt / moved.oneTime.toNat)
  else some power

/-- The ids and their final powers, unless the assertion on the number of powers fails. -/
def combinePowers (factors : Factors) (candidates : Candidates ι) (calcPwr : List ℚ) : Option (List (ι × Option ℚ)) :=
  if calcPwr.length ≠ 0 ∧ calcPwr.length ≠ candidates.recommendDid.length then none
  else
    let moved := movePinned calcPwr.length candidates
    some (moved.recommendDid.zipIdx.map fun (did, i) => (did, finalPower factors calcPwr moved i))

namespace Candidates

/-- The documents by their places in the request. -/
def numbered (candidates : Candidates ι) : Candidates Nat where
  recommendDid := List.range candidates.recommendDid.length
  recommendPwr := candidates.recommendPwr
  recommendTime := candidates.recommendTime
  historyList := []
  length_pwr := by rw [List.length_range, candidates.length_pwr]
  length_time := by rw [List.length_range, candidates.length_time]
  length_lt := by rw [List.length_range]; exact candidates.length_lt

def Pinned (candidates : Candidates ι) (place : Nat) : Bool :=
  (candidates.recommendTime[place]?).any fun time => time < 0

/-- The time of all documents that are not pinned. -/
def totalTime (candidates : Candidates ι) : Int :=
  (candidates.recommendTime.map fun time => if time < 0 then 0 else time.toInt).sum

/-- The power of a document of its own. -/
def ownPower (factors : Factors) (calcPwr : List ℚ) (candidates : Candidates ι) (place : Nat) : Option ℚ := do
  let recommendPwr ← candidates.recommendPwr[place]?
  let calcPower ← calcPwr[place]?
  let time ← candidates.recommendTime[place]?
  let power := factors.fwFilterFactor * recommendPwr + calcPower
  if candidates.Pinned place then some power
  else some (factors.fwAlgorithmFactor * power + factors.fwTimeFactor * time.toInt / candidates.totalTime)

/-- Where the documents are after the loop: their places in the request, in the order of the places they have then. -/
def arrangement (candidates : Candidates ι) : List Nat :=
  let arranged := arrange candidates.Pinned (List.range candidates.recommendDid.length)
  arranged.1 ++ arranged.2

end Candidates

section TakenAt
variable {α : Type}

/-- A list has the elements of another one, at the places that are given. -/
def TakenAt (order : List Nat) (xs base : List α) : Prop := xs.map some = order.map fun place => base[place]?

theorem TakenAt.start (xs : List α) : TakenAt (List.range xs.length) xs xs := by
  refine List.ext_getElem (by simp) fun i small _ => ?_
  simp

theorem TakenAt.swap {order : List Nat} {xs base : List α} (takes : TakenAt order xs base) (i j : Nat) :
    TakenAt (swap order i j) (swap xs i j) base := by
  rw [TakenAt, ← swap_map, ← swap_map, takes]

theorem TakenAt.getElem? {order : List Nat} {xs base : List α} (takes : TakenAt order xs base) {i place : Nat}
    (here : order[i]? = some place) : xs[i]? = base[place]? := by
  have same := congrArg (fun list => list[i]?) takes
  simp only [List.getElem?_map, here, Option.map_some] at same
  cases found : xs[i]? with
  | none =>
    rw [found] at same
    cases same
  | some x =>
    rw [found] at same
    exact Option.some.inj same

end TakenAt

/-- The arrays after some turns: the documents that were reached are arranged, the others are where they were. -/
structure MovedTo (candidates : Candidates ι) (i : Nat) (moving : Moving ι) : Prop where
  did : TakenAt ((arrange candidates.Pinned (List.range i)).1 ++ (arrange candidates.Pinned (List.range i)).2 ++
    (List.range candidates.recommendDid.length).drop i) moving.recommendDid candidates.recommendDid
  pwr : TakenAt ((arrange candidates.Pinned (List.range i)).1 ++ (arrange candidates.Pinned (List.range i)).2 ++
    (List.range candidates.recommendDid.length).drop i) moving.recommendPwr candidates.recommendPwr
  time : TakenAt ((arrange candidates.Pinned (List.range i)).1 ++ (arrange candidates.Pinned (List.range i)).2 ++
    (List.range candidates.recommendDid.length).drop i) moving.recommendTime candidates.recommendTime
  topPos : moving.topPos = (arrange candidates.Pinned (List.range i)).1.length
  oneTime : (moving.oneTime.toNat : Int) =
    ((candidates.recommendTime.take i).map fun time => if time < 0 then 0 else time.toInt).sum

theorem times_le (times : List Int32) :
    (times.map fun time => if time < 0 then 0 else time.toInt).sum ≤ times.length * 2 ^ 31 ∧
      0 ≤ (times.map fun time => if time < 0 then 0 else time.toInt).sum := by
  induction times with
  | nil => exact ⟨le_rfl, le_rfl⟩
  | cons time rest ih =>
    have bounds := Wrapping.bounds time
    simp only [List.map_cons, List.sum_cons, List.length_cons, Int32.lt_iff_toInt_lt, Int32.toInt_zero] at ih ⊢
    split <;> omega

/-- The sum of the times, of which there are not so many that it wraps. -/
theorem times_append {times : List Int32} {time : Int32} {sum : UInt64} (few : times.length < 2147483648)
    (so_far : (sum.toNat : Int) = (times.map fun time => if time < 0 then 0 else time.toInt).sum) (positive : ¬ time < 0) :
    ((sum + time.toInt64.toUInt64).toNat : Int) =
      ((times ++ [time]).map fun time => if time < 0 then 0 else time.toInt).sum := by
  have before := times_le times
  have bounds := Wrapping.bounds time
  have added : (time.toInt64.toUInt64.toNat : Int) = time.toInt :=
    Wrapping.toNat_toUInt64_of_nonneg (by simpa [Int32.lt_iff_toInt_lt] using positive)
  rw [List.map_append, List.sum_append, List.map_singleton, List.sum_singleton, if_neg positive, ← so_far, ← added,
    UInt64.toNat_add, Nat.mod_eq_of_lt (by omega), Nat.cast_add]

namespace MovedTo
variable {candidates : Candidates ι}

theorem start (candidates : Candidates ι) :
    MovedTo candidates 0
      { recommendDid := candidates.recommendDid
        recommendPwr := candidates.recommendPwr
        recommendTime := candidates.recommendTime } := by
  refine ⟨TakenAt.start _, ?_, ?_, rfl, rfl⟩
  · have takes := TakenAt.start candidates.recommendPwr
    rwa [candidates.length_pwr] at takes
  · have takes := TakenAt.start candidates.recommendTime
    rwa [candidates.length_time] at takes

theorem turn {i : Nat} {moving : Moving ι} (moved : MovedTo candidates i moving)
    (small : i < candidates.recommendDid.length) : MovedTo candidates (i + 1) (moveTurn moving i) := by
  have timeSmall : i < candidates.recommendTime.length := by rw [candidates.length_time]; exact small
  have next : (List.range candidates.recommendDid.length).drop i =
      i :: (List.range candidates.recommendDid.length).drop (i + 1) := by
    rw [List.drop_eq_getElem_cons (by rwa [List.length_range]), List.getElem_range]
  have lengths := (arrange_perm candidates.Pinned (List.range i)).length_eq
  have step : arrange candidates.Pinned (List.range (i + 1)) =
      arrangeStep candidates.Pinned (arrange candidates.Pinned (List.range i)) i := by
    rw [List.range_succ, arrange_append_singleton]
  obtain ⟨did, pwr, time, topPos, oneTime⟩ := moved
  rw [next] at did pwr time
  generalize arrange candidates.Pinned (List.range i) = arranged at did pwr time topPos lengths step
  obtain ⟨top, rest⟩ := arranged
  dsimp only at did pwr time topPos lengths
  rw [List.length_append, List.length_range] at lengths
  have here : (top ++ rest ++ i :: (List.range candidates.recommendDid.length).drop (i + 1))[i]? = some i := by
    rw [List.getElem?_append_right (by rw [List.length_append]; omega), List.length_append, lengths, Nat.sub_self,
      List.getElem?_cons_zero]
  have reached : moving.recommendTime[i]? = some candidates.recommendTime[i] := by
    rw [time.getElem? here, List.getElem?_eq_getElem timeSmall]
  have taken : candidates.recommendTime.take (i + 1) = candidates.recommendTime.take i ++ [candidates.recommendTime[i]] := by
    rw [List.take_append_getElem]
  have pinned : candidates.Pinned i = decide (candidates.recommendTime[i] < 0) := by
    rw [Candidates.Pinned, List.getElem?_eq_getElem timeSmall, Option.any_some]
  rw [moveTurn, reached]
  dsimp only
  split
  · rename_i negative
    rw [decide_eq_true negative] at pinned
    rw [arrangeStep, if_pos pinned] at step
    have swapped := swap_arranged top rest ((List.range candidates.recommendDid.length).drop (i + 1)) i
    rw [lengths, ← topPos] at swapped
    refine ⟨?_, ?_, ?_, ?_, ?_⟩
    · rw [step, ← swapped]
      exact did.swap _ _
    · rw [step, ← swapped]
      exact pwr.swap _ _
    · rw [step, ← swapped]
      exact time.swap _ _
    · rw [step, topPos, List.length_append, List.length_singleton]
    · rw [taken, List.map_append, List.sum_append, List.map_singleton, List.sum_singleton, if_pos negative, add_zero]
      exact oneTime
  · rename_i positive
    rw [decide_eq_false positive] at pinned
    rw [arrangeStep, if_neg (by rw [pinned]; exact Bool.false_ne_true)] at step
    have queued : top ++ (rest ++ [i]) ++ (List.range candidates.recommendDid.length).drop (i + 1) =
        top ++ rest ++ i :: (List.range candidates.recommendDid.length).drop (i + 1) := by
      simp
    refine ⟨?_, ?_, ?_, ?_, ?_⟩
    · rw [step, queued]
      exact did
    · rw [step, queued]
      exact pwr
    · rw [step, queued]
      exact time
    · rw [step, topPos]
    · have shorter : (candidates.recommendTime.take i).length = i := List.length_take_of_le timeSmall.le
      have limit := candidates.length_lt
      rw [taken]
      exact times_append (by omega) oneTime positive

end MovedTo

/-- The arrays after the loop, when there is a power for each document. -/
abbrev Candidates.moved (candidates : Candidates ι) : Moving ι :=
  movePinned candidates.recommendDid.length candidates

theorem movedTo_movePinned (candidates : Candidates ι) :
    MovedTo candidates candidates.recommendDid.length candidates.moved := by
  have upTo : ∀ i ≤ candidates.recommendDid.length, MovedTo candidates i (movePinned i candidates) := by
    intro i small
    induction i with
    | zero => exact MovedTo.start candidates
    | succ i ih =>
      have turned := (ih (Nat.le_of_succ_le small)).turn (Nat.lt_of_succ_le small)
      rwa [movePinned, List.range_succ, List.foldl_append, List.foldl_cons, List.foldl_nil]
  exact upTo _ le_rfl

namespace Candidates
variable (candidates : Candidates ι)

theorem arrangement_perm : candidates.arrangement.Perm (List.range candidates.recommendDid.length) := arrange_perm _ _

theorem length_arrangement : candidates.arrangement.length = candidates.recommendDid.length := by
  rw [candidates.arrangement_perm.length_eq, List.length_range]

theorem lt_of_mem_arrangement {place : Nat} (member : place ∈ candidates.arrangement) :
    place < candidates.recommendDid.length :=
  List.mem_range.mp (candidates.arrangement_perm.mem_iff.mp member)

/-- What the loop makes of the arrays. -/
theorem moved_arrangement :
    TakenAt candidates.arrangement candidates.moved.recommendDid candidates.recommendDid ∧
      TakenAt candidates.arrangement candidates.moved.recommendPwr candidates.recommendPwr ∧
      TakenAt candidates.arrangement candidates.moved.recommendTime candidates.recommendTime := by
  have moved := movedTo_movePinned candidates
  have nothing : (List.range candidates.recommendDid.length).drop candidates.recommendDid.length = [] :=
    List.drop_eq_nil_of_le (List.length_range).le
  obtain ⟨did, pwr, time, -, -⟩ := moved
  rw [nothing, List.append_nil] at did pwr time
  exact ⟨did, pwr, time⟩

/-- The numbers that are moved along tell where each document was. -/
theorem recommendDid_numbered :
    (movePinned candidates.recommendDid.length candidates.numbered).recommendDid = candidates.arrangement := by
  have same : candidates.numbered.recommendDid.length = candidates.recommendDid.length := List.length_range
  have arranged : candidates.numbered.arrangement = candidates.arrangement := by
    unfold arrangement
    rw [same]
    rfl
  have takes := candidates.numbered.moved_arrangement.1
  rw [arranged, moved, same] at takes
  refine List.map_injective_iff.mpr (Option.some_injective Nat) (takes.trans ?_)
  refine List.map_congr_left fun place member => ?_
  exact List.getElem?_range (candidates.lt_of_mem_arrangement member)

/-- The pinned documents are those before `topPos`. -/
theorem topPos_le_iff {i place : Nat} (here : candidates.arrangement[i]? = some place) :
    candidates.moved.topPos ≤ i ↔ candidates.Pinned place = false := by
  rw [(movedTo_movePinned candidates).topPos]
  unfold arrangement at here
  by_cases front : i < (arrange candidates.Pinned (List.range candidates.recommendDid.length)).1.length
  · rw [List.getElem?_append_left front] at here
    have pinned := mem_arrange_fst (List.mem_of_getElem? here)
    exact iff_of_false (Nat.not_le.mpr front) (by simp [pinned])
  · rw [List.getElem?_append_right (Nat.not_lt.mp front)] at here
    exact iff_of_true (Nat.not_lt.mp front) (mem_arrange_snd (List.mem_of_getElem? here))

theorem oneTime_eq : (candidates.moved.oneTime.toNat : Int) = candidates.totalTime := by
  have oneTime := (movedTo_movePinned candidates).oneTime
  rwa [← candidates.length_time, List.take_length] at oneTime

/-- The powers of a document, and what is stored at its place. -/
theorem exists_entry (calcPwr : List ℚ) (same : calcPwr.length = candidates.recommendDid.length) {i place : Nat}
    (here : candidates.arrangement[i]? = some place) :
    ∃ did pwr time at_ own, candidates.recommendDid[place]? = some did ∧
      candidates.recommendPwr[place]? = some pwr ∧ candidates.recommendTime[place]? = some time ∧
      calcPwr[i]? = some at_ ∧ calcPwr[place]? = some own := by
  have placed := candidates.lt_of_mem_arrangement (List.mem_of_getElem? here)
  have small : i < candidates.recommendDid.length := by
    obtain ⟨bound, -⟩ := List.getElem?_eq_some_iff.mp here
    rwa [candidates.length_arrangement] at bound
  exact ⟨_, _, _, _, _, List.getElem?_eq_getElem placed,
    List.getElem?_eq_getElem (by rw [candidates.length_pwr]; exact placed),
    List.getElem?_eq_getElem (by rw [candidates.length_time]; exact placed),
    List.getElem?_eq_getElem (by rw [same]; exact small), List.getElem?_eq_getElem (by rw [same]; exact placed)⟩

end Candidates

/-- At each place, the id is stored beside the power of the document that was moved there. -/
def PowersOwn (factors : Factors) (uid : UInt64) (candidates : Candidates ι) (calcPwr : List ℚ) : Prop :=
  ∃ stored, combinePowers factors candidates calcPwr = some stored ∧
    ∀ i place : Nat, (movePinned calcPwr.length candidates.numbered).recommendDid[i]? = some place →
      ∃ did, (calcRequest uid candidates).recommendDid[place]? = some did ∧
        stored[i]? = some (did, candidates.ownPower factors calcPwr place)

/-- The algorithm powers are aligned with the documents that are moved: at each place the power is that of the document's
place in the request, or it does not count; and the times that do count have a sum. -/
def Aligned (factors : Factors) (candidates : Candidates ι) (calcPwr : List ℚ) : Prop :=
  ∀ i place : Nat, candidates.arrangement[i]? = some place →
    if candidates.Pinned place then calcPwr[i]? = calcPwr[place]?
    else candidates.totalTime ≠ 0 ∧ (factors.fwAlgorithmFactor = 0 ∨ calcPwr[i]? = calcPwr[place]?)

theorem finalPower_own_iff (factors : Factors) {candidates : Candidates ι} {calcPwr : List ℚ}
    (same : calcPwr.length = candidates.recommendDid.length) {i place : Nat}
    (here : candidates.arrangement[i]? = some place) :
    finalPower factors calcPwr candidates.moved i =
        candidates.ownPower factors calcPwr place ↔
      if candidates.Pinned place then calcPwr[i]? = calcPwr[place]?
      else candidates.totalTime ≠ 0 ∧ (factors.fwAlgorithmFactor = 0 ∨ calcPwr[i]? = calcPwr[place]?) := by
  obtain ⟨did, pwr, time, at_, own, -, atPwr, atTime, atCalc, ownCalc⟩ := candidates.exists_entry calcPwr same here
  obtain ⟨-, pwrs, times⟩ := candidates.moved_arrangement
  have front := candidates.topPos_le_iff here
  have total := candidates.oneTime_eq
  have movedPwr := (pwrs.getElem? here).trans atPwr
  have movedTime := (times.getElem? here).trans atTime
  simp only [finalPower, Candidates.ownPower, movedPwr, movedTime, atPwr, atTime, atCalc, ownCalc, Option.bind_eq_bind,
    Option.bind_some, Option.some.injEq]
  by_cases pinned : candidates.Pinned place = true
  · have before : ¬ candidates.moved.topPos ≤ i := fun behind => by
      rw [front.mp behind] at pinned
      cases pinned
    rw [if_neg before, if_pos pinned, if_pos pinned, Option.some.injEq, add_right_inj]
  · have behind := front.mpr (Bool.eq_false_iff.mpr pinned)
    rw [if_pos behind, if_neg pinned, if_neg pinned]
    by_cases zero : candidates.moved.oneTime = 0
    · rw [if_pos zero]
      rw [zero] at total
      exact iff_of_false (by simp) fun fine => fine.1 total.symm
    · have sum : (candidates.moved.oneTime.toNat : ℚ) = candidates.totalTime := by
        exact_mod_cast congrArg (Int.cast : Int → ℚ) total
      have positive : candidates.totalTime ≠ 0 := by
        intro none_
        rw [none_] at total
        exact zero (UInt64.toNat_inj.mp (by exact_mod_cast total))
      rw [if_neg zero, sum, Option.some.injEq, add_left_inj, mul_eq_mul_left_iff, add_right_inj, or_comm]
      exact (and_iff_right positive).symm

/-- The final powers are those of their documents exactly when the algorithm powers are aligned with them. -/
theorem final_powers_iff (factors : Factors) (uid : UInt64) (candidates : Candidates ι) (calcPwr : List ℚ)
    (same : calcPwr.length = candidates.recommendDid.length) :
    PowersOwn factors uid candidates calcPwr ↔ Aligned factors candidates calcPwr := by
  have accepted : ¬ (calcPwr.length ≠ 0 ∧ calcPwr.length ≠ candidates.recommendDid.length) := fun differs =>
    differs.2 same
  rw [PowersOwn, combinePowers, if_neg accepted, same, candidates.recommendDid_numbered]
  have stored {i place : Nat} (here : candidates.arrangement[i]? = some place) :
      ∃ did, candidates.recommendDid[place]? = some did ∧
        (candidates.moved.recommendDid.zipIdx.map fun (did, i) => (did, finalPower factors calcPwr candidates.moved i))[i]? =
          some (did, finalPower factors calcPwr candidates.moved i) := by
    obtain ⟨did, -, -, -, -, atDid, -⟩ := candidates.exists_entry calcPwr same here
    have movedDid := (candidates.moved_arrangement.1.getElem? here).trans atDid
    exact ⟨did, atDid, by simp [movedDid]⟩
  constructor
  · rintro ⟨powers, combined, own⟩ i place here
    obtain rfl := Option.some.inj combined
    obtain ⟨did, asked, found⟩ := own i place here
    obtain ⟨did', asked', found'⟩ := stored here
    have both := Option.some.inj (found'.symm.trans found)
    exact (finalPower_own_iff factors same here).mp (congrArg Prod.snd both)
  · intro aligned
    refine ⟨_, rfl, fun i place here => ?_⟩
    obtain ⟨did, asked, found⟩ := stored here
    refine ⟨did, asked, found.trans ?_⟩
    rw [(finalPower_own_iff factors same here).mpr (aligned i place here)]

end Query

/-- Two documents with these times, of which each is pinned when its time is below zero. -/
def twoCandidates (first second : Int32) : Candidates UInt64 := ⟨[7, 8], [0, 0], [first, second], [], rfl, rfl, by decide⟩

/-- A pinned document that is in front already leaves the powers where they are. -/
theorem final_powers_pinned_first : PowersOwn ⟨1, 1, 1⟩ 5 (twoCandidates (-1) 3) [10, 20] := by
  refine (final_powers_iff ⟨1, 1, 1⟩ 5 (twoCandidates (-1) 3) [10, 20] rfl).mpr fun i place here => ?_
  have order : (twoCandidates (-1) 3).arrangement = [0, 1] := by decide +kernel
  have same : i = place := by
    rw [order] at here
    match i with
    | 0 => exact Option.some.inj here
    | 1 => exact Option.some.inj here
  rw [same]
  split
  · rfl
  · exact ⟨by decide +kernel, .inr rfl⟩

/-- The pinned document goes to the front, and the powers of the calculators stay where they are. -/
theorem pinned_takes_power_of_first : ¬ PowersOwn ⟨1, 1, 1⟩ 5 (twoCandidates 1 (-1)) [10, 20] := by
  rintro ⟨stored, combined, own⟩
  obtain ⟨did, asked, found⟩ := own 0 1 (by decide +kernel)
  have first : stored[0]? = some (8, some 10) := by
    rw [← Option.some.inj combined]
    decide +kernel
  have power : (twoCandidates 1 (-1)).ownPower ⟨1, 1, 1⟩ [10, 20] 1 = some 20 := by decide +kernel
  rw [power] at found
  have both := Option.some.inj (first.symm.trans found)
  exact absurd (Option.some.inj (congrArg Prod.snd both)) (by decide +kernel)

end ContentBased.FrameworkCenter
