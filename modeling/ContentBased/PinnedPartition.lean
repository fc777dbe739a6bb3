import ContentBased.FinalPowers

/-! What the loop over the times leaves: the pinned documents in front, and the sum that the times of the others are
divided by. -/
namespace ContentBased.FrameworkCenter
open Fronting
variable {ι : Type}

/-- The documents, each with its base power and its time. -/
def triples (did : List ι) (pwr : List ℚ) (time : List Int32) : List (ι × ℚ × Int32) := did.zip (pwr.zip time)

def Candidates.triples (candidates : Candidates ι) : List (ι × ℚ × Int32) :=
  FrameworkCenter.triples candidates.recommendDid candidates.recommendPwr candidates.recommendTime

def Moving.triples (moved : Moving ι) : List (ι × ℚ × Int32) :=
  FrameworkCenter.triples moved.recommendDid moved.recommendPwr moved.recommendTime

/-- The pinned triples are those before `topPos`, in the order they had, and the others are behind them. -/
structure Partitioned (candidates : Candidates ι) (moved : Moving ι) : Prop where
  perm : moved.triples.Perm candidates.triples
  front : moved.triples.take moved.topPos = candidates.triples.filter fun triple => triple.2.2 < 0
  behind : ∀ triple ∈ moved.triples.drop moved.topPos, 0 ≤ triple.2.2

section TakenAt
variable {α β : Type} {order : List Nat} {xs base : List α}

theorem TakenAt.zip {ys base' : List β} (first : TakenAt order xs base) (second : TakenAt order ys base') :
    TakenAt order (xs.zip ys) (base.zip base') := by
  induction order generalizing xs ys with
  | nil =>
    rw [List.map_eq_nil_iff.mp first]
    rfl
  | cons place order ih =>
    rw [TakenAt, List.map_cons] at first second
    obtain ⟨x, xs, rfl, atX, restX⟩ := List.map_eq_cons_iff.mp first
    obtain ⟨y, ys, rfl, atY, restY⟩ := List.map_eq_cons_iff.mp second
    have both : (base.zip base')[place]? = some (x, y) := List.getElem?_zip_eq_some.mpr ⟨atX.symm, atY.symm⟩
    rw [TakenAt, List.zip_cons_cons, List.map_cons, List.map_cons, both]
    exact congrArg _ (ih restX restY)

/-- All places taken once make a permutation. -/
theorem TakenAt.perm (takes : TakenAt order xs base) (all : order.Perm (List.range base.length)) : xs.Perm base := by
  have same : (List.range base.length).map (fun place => base[place]?) = base.map some := (TakenAt.start base).symm
  refine (List.map_perm_map_iff (Option.some_injective α)).mp ?_
  rw [TakenAt] at takes
  rw [takes, ← same]
  exact all.map _

/-- The places of some elements, taken in their order. -/
theorem TakenAt.filter {chosen : α → Bool}
    (takes : TakenAt ((List.range base.length).filter fun place => (base[place]?).any chosen) xs base) :
    xs = base.filter chosen := by
  have same : base.map some = (List.range base.length).map fun place => base[place]? := TakenAt.start base
  refine List.map_injective_iff.mpr (Option.some_injective α) (takes.trans ?_)
  have kept : (base.filter chosen).map some = (base.map some).filter (·.any chosen) := by
    rw [List.filter_map]
    rfl
  rw [kept, same, List.filter_map]
  rfl

theorem TakenAt.take {behind : List Nat} (takes : TakenAt (order ++ behind) xs base) :
    TakenAt order (xs.take order.length) base := by
  rw [TakenAt, List.map_append] at takes
  have front := congrArg (List.take order.length) takes
  rwa [← List.map_take, List.take_left' (List.length_map _)] at front

theorem TakenAt.drop {front : List Nat} (takes : TakenAt (front ++ order) xs base) :
    TakenAt order (xs.drop front.length) base := by
  rw [TakenAt, List.map_append] at takes
  have back := congrArg (List.drop front.length) takes
  rwa [← List.map_drop, List.drop_left' (List.length_map _)] at back

theorem TakenAt.exists_place (takes : TakenAt order xs base) {x : α} (member : x ∈ xs) :
    ∃ place ∈ order, base[place]? = some x := by
  have kept : some x ∈ order.map fun place => base[place]? := takes ▸ List.mem_map_of_mem member
  exact List.mem_map.mp kept

end TakenAt

namespace Candidates
variable (candidates : Candidates ι)

theorem length_triples : candidates.triples.length = candidates.recommendDid.length := by
  rw [triples, FrameworkCenter.triples, List.length_zip, List.length_zip, candidates.length_pwr, candidates.length_time,
    Nat.min_self, Nat.min_self]

/-- A document is pinned when its triple has a negative time. -/
theorem pinned_eq_any {place : Nat} (small : place < candidates.recommendDid.length) :
    candidates.Pinned place = (candidates.triples[place]?).any fun triple => triple.2.2 < 0 := by
  have pwrSmall : place < candidates.recommendPwr.length := by rw [candidates.length_pwr]; exact small
  have timeSmall : place < candidates.recommendTime.length := by rw [candidates.length_time]; exact small
  have found : candidates.triples[place]? =
      some (candidates.recommendDid[place], candidates.recommendPwr[place], candidates.recommendTime[place]) :=
    List.getElem?_zip_eq_some.mpr ⟨List.getElem?_eq_getElem small,
      List.getElem?_zip_eq_some.mpr ⟨List.getElem?_eq_getElem pwrSmall, List.getElem?_eq_getElem timeSmall⟩⟩
  rw [found, Pinned, List.getElem?_eq_getElem timeSmall, Option.any_some, Option.any_some]

/-- The places of the pinned documents, and of the others. -/
def pinnedPlaces : List Nat := (arrange candidates.Pinned (List.range candidates.recommendDid.length)).1

def otherPlaces : List Nat := (arrange candidates.Pinned (List.range candidates.recommendDid.length)).2

theorem moved_triples :
    TakenAt (candidates.pinnedPlaces ++ candidates.otherPlaces) candidates.moved.triples candidates.triples := by
  obtain ⟨did, pwr, time⟩ := candidates.moved_arrangement
  exact did.zip (pwr.zip time)

theorem topPos_eq : candidates.moved.topPos = candidates.pinnedPlaces.length := (movedTo_movePinned candidates).topPos

theorem partitioned : Partitioned candidates candidates.moved where
  perm := by
    refine candidates.moved_triples.perm ?_
    rw [candidates.length_triples]
    exact candidates.arrangement_perm
  front := by
    rw [candidates.topPos_eq]
    refine TakenAt.filter ?_
    have places : candidates.pinnedPlaces = (List.range candidates.triples.length).filter fun place =>
        (candidates.triples[place]?).any fun triple => triple.2.2 < 0 := by
      rw [pinnedPlaces, arrange_fst, candidates.length_triples]
      exact List.filter_congr fun place small => candidates.pinned_eq_any (List.mem_range.mp small)
    have takes := candidates.moved_triples.take
    rwa [places] at takes ⊢
  behind := by
    rw [candidates.topPos_eq]
    intro triple member
    obtain ⟨place, queued, found⟩ := candidates.moved_triples.drop.exists_place member
    have free := mem_arrange_snd queued
    have small : place < candidates.recommendDid.length :=
      candidates.lt_of_mem_arrangement (List.mem_append_right _ queued)
    rw [candidates.pinned_eq_any small, found, Option.any_some, decide_eq_false_iff_not] at free
    exact Int32.not_lt.mp free

end Candidates

/-- The loop makes a partition when there are powers, and leaves the arrays alone when there are none. -/
theorem pinned_partition (candidates : Candidates ι) :
    Partitioned candidates (movePinned candidates.recommendDid.length candidates) ∧
      (movePinned 0 candidates).triples = candidates.triples ∧ (movePinned 0 candidates).topPos = 0 :=
  ⟨candidates.partitioned, rfl, rfl⟩

/-- Nothing is moved when all calculators are offline. -/
theorem offline_not_partitioned :
    ¬ ∀ calcPwr : List ℚ, calcPwr.length = 0 ∨ calcPwr.length = (twoCandidates 1 (-1)).recommendDid.length →
      Partitioned (twoCandidates 1 (-1)) (movePinned calcPwr.length (twoCandidates 1 (-1))) := by
  intro always
  have stays := (always [] (.inl rfl)).front
  have length : ((twoCandidates 1 (-1)).triples.filter fun triple => triple.2.2 < 0).length = 1 := by decide +kernel
  rw [← stays] at length
  cases length

/-- The shares of the time that the second loop takes, of the documents behind the pinned ones. -/
def Moving.shares (moved : Moving ι) : List ℚ :=
  (moved.recommendTime.drop moved.topPos).map fun time => (time.toInt : ℚ) / moved.oneTime.toNat

/-- The divisor is the sum of the times, and the shares are parts of a whole. -/
structure TimeShares (candidates : Candidates ι) (moved : Moving ι) : Prop where
  divisor : (moved.oneTime.toNat : Int) = candidates.totalTime
  positive : moved.oneTime ≠ 0
  share : ∀ share ∈ moved.shares, 0 ≤ share ∧ share ≤ 1
  whole : moved.shares.sum = 1

/-- The sum of times counts those that are not negative. -/
theorem sum_times_eq_zero {times : List Int32} (negative : ∀ time ∈ times, time < 0) :
    (times.map fun time => if time < 0 then 0 else time.toInt).sum = 0 := by
  refine List.sum_eq_zero fun summand member => ?_
  obtain ⟨time, inside, rfl⟩ := List.mem_map.mp member
  exact if_pos (negative time inside)

theorem sum_times_eq_sum {times : List Int32} (free : ∀ time ∈ times, ¬ time < 0) :
    (times.map fun time => if time < 0 then 0 else time.toInt).sum = (times.map (·.toInt)).sum :=
  congrArg List.sum (List.map_congr_left fun time inside => if_neg (free time inside))

theorem sum_times_pos_iff {times : List Int32} :
    0 < (times.map fun time => if time < 0 then 0 else time.toInt).sum ↔ ∃ time ∈ times, 0 < time := by
  induction times with
  | nil => simp
  | cons time rest ih =>
    have nonneg := (times_le rest).2
    rw [List.map_cons, List.sum_cons, List.exists_mem_cons_iff, ← ih]
    simp only [Int32.lt_iff_toInt_lt, Int32.toInt_zero] at nonneg ⊢
    split <;> omega

/-- Parts of a sum that is not zero are shares of it. -/
theorem shares_of_sum {parts : List Int} {total : ℚ} (nonneg : ∀ part ∈ parts, 0 ≤ part) (sum : (parts.sum : ℚ) = total)
    (positive : total ≠ 0) :
    (∀ share ∈ parts.map fun part : Int => (part : ℚ) / total, 0 ≤ share ∧ share ≤ 1) ∧
      (parts.map fun part : Int => (part : ℚ) / total).sum = 1 := by
  have totalNonneg : 0 ≤ total := by
    rw [← sum]
    exact_mod_cast List.sum_nonneg nonneg
  constructor
  · intro share member
    obtain ⟨part, inside, rfl⟩ := List.mem_map.mp member
    have small : part ≤ parts.sum := List.single_le_sum nonneg part inside
    have below : (part : ℚ) ≤ total := by
      rw [← sum]
      exact_mod_cast small
    exact ⟨div_nonneg (by exact_mod_cast nonneg part inside) totalNonneg, div_le_one_of_le₀ below totalNonneg⟩
  · have divided : (parts.map fun part : Int => (part : ℚ) / total).sum = (parts.sum : ℚ) / total := by
      simp only [div_eq_mul_inv]
      rw [List.sum_map_mul_right, Int.cast_list_sum]
    rw [divided, sum, div_self positive]

namespace Candidates
variable (candidates : Candidates ι)

theorem moved_times :
    TakenAt (candidates.pinnedPlaces ++ candidates.otherPlaces) candidates.moved.recommendTime candidates.recommendTime :=
  candidates.moved_arrangement.2.2

theorem negative_of_front {time : Int32}
    (member : time ∈ candidates.moved.recommendTime.take candidates.moved.topPos) : time < 0 := by
  rw [candidates.topPos_eq] at member
  obtain ⟨place, front, found⟩ := candidates.moved_times.take.exists_place member
  have pinned := mem_arrange_fst front
  rwa [Pinned, found, Option.any_some, decide_eq_true_eq] at pinned

theorem free_of_behind {time : Int32}
    (member : time ∈ candidates.moved.recommendTime.drop candidates.moved.topPos) : ¬ time < 0 := by
  rw [candidates.topPos_eq] at member
  obtain ⟨place, queued, found⟩ := candidates.moved_times.drop.exists_place member
  have free := mem_arrange_snd queued
  rwa [Pinned, found, Option.any_some, decide_eq_false_iff_not] at free

/-- The times behind the pinned documents have the sum that was counted while they were moved. -/
theorem sum_behind :
    ((candidates.moved.recommendTime.drop candidates.moved.topPos).map (·.toInt)).sum = candidates.totalTime := by
  have all : candidates.moved.recommendTime.Perm candidates.recommendTime := by
    refine candidates.moved_times.perm ?_
    rw [candidates.length_time]
    exact candidates.arrangement_perm
  have total := (all.map fun time => if time < 0 then 0 else time.toInt).sum_eq
  rw [← List.take_append_drop candidates.moved.topPos candidates.moved.recommendTime, List.map_append, List.sum_append,
    sum_times_eq_zero fun time => candidates.negative_of_front, sum_times_eq_sum fun time => candidates.free_of_behind,
    zero_add] at total
  exact total

end Candidates

/-- The times can be shared when one of them is positive. -/
theorem timeShares_iff (candidates : Candidates ι) :
    TimeShares candidates (movePinned candidates.recommendDid.length candidates) ↔
      ∃ time ∈ candidates.recommendTime, 0 < time := by
  have divisor := candidates.oneTime_eq
  rw [← sum_times_pos_iff]
  constructor
  · rintro ⟨-, positive, -, -⟩
    have counted : candidates.moved.oneTime.toNat ≠ 0 := fun zero =>
      positive (UInt64.toNat_inj.mp zero)
    change 0 < candidates.totalTime
    omega
  · intro some_
    change 0 < candidates.totalTime at some_
    have counted : candidates.moved.oneTime.toNat ≠ 0 := by omega
    have nonneg : ∀ part ∈ (candidates.moved.recommendTime.drop candidates.moved.topPos).map (·.toInt), 0 ≤ part := by
      intro part member
      obtain ⟨time, inside, rfl⟩ := List.mem_map.mp member
      have free := candidates.free_of_behind inside
      rwa [Int32.lt_iff_toInt_lt, Int32.toInt_zero, not_lt] at free
    have sum : ((((candidates.moved.recommendTime.drop candidates.moved.topPos).map (·.toInt)).sum : Int) : ℚ) =
        (candidates.moved.oneTime.toNat : ℚ) := by
      rw [candidates.sum_behind, ← divisor]
      norm_cast
    obtain ⟨share, whole⟩ := shares_of_sum nonneg sum (by exact_mod_cast counted)
    rw [List.map_map] at share whole
    exact ⟨divisor, fun zero => counted (by rw [zero]; rfl), share, whole⟩

/-- One document with the time 0 has no share. -/
theorem no_share_of_zero_times : ¬ ∀ candidates : Candidates UInt64, (∃ time ∈ candidates.recommendTime, 0 ≤ time) →
    TimeShares candidates (movePinned candidates.recommendDid.length candidates) := by
  intro always
  have shared := always ⟨[7], [0], [0], [], rfl, rfl, by decide⟩ ⟨0, List.mem_cons_self, by decide⟩
  exact shared.positive (by decide +kernel)

end ContentBased.FrameworkCenter
