import ContentBased.ReloadAtomic
import ContentBased.TrainAtomic
import ContentBased.Library.DoubleBuffer

/-! Queries that read the maps in use while the thread of the jobs fills the other ones. -/
namespace ContentBased
open Std DoubleBuffer RecordDisk DistTable

/-- The loop that copies a map: where its iterator stands, unless it is at the end, and what it has copied. -/
structure MapCopy where
  iter : Option Int32
  trends : Tally Int32

namespace MapCopy

def first (dist : Tally Int32) : MapCopy := ⟨dist.keys.head?, ∅⟩

/-- One turn, or the copy at the end. There is no entry to read when the one that the iterator stands at is gone. -/
def turn (dist : Tally Int32) (copying : MapCopy) : Option (MapCopy ⊕ Tally Int32) :=
  match copying.iter with
  | none => some (.inr copying.trends)
  | some category => (dist[category]?).map fun weight =>
    .inl ⟨dist.keys.find? (category < ·), copying.trends.insertIfNew category weight⟩

/-- Where the loop is when it has copied the keys `front` and the keys `back` are left. -/
def between (dist : Tally Int32) (front back : List Int32) : MapCopy :=
  ⟨back.head?, front.foldl (fun map key => map.insertIfNew key (dist.getD key 0)) ∅⟩

variable {dist : Tally Int32} {front back : List Int32} {key : Int32}

theorem first_eq : first dist = between dist [] dist.keys := rfl

theorem getElem?_of_mem (member : key ∈ dist) : dist[key]? = some (dist.getD key 0) := by
  rw [ExtTreeMap.getD_eq_getD_getElem?]
  obtain ⟨weight, found⟩ := Option.isSome_iff_exists.mp (ExtTreeMap.mem_iff_isSome_getElem?.mp member)
  rw [found, Option.getD_some]

theorem turn_between (keys : dist.keys = front ++ key :: back) :
    (between dist front (key :: back)).turn dist = some (.inl (between dist (front ++ [key]) back)) := by
  have member : key ∈ dist := ExtTreeMap.mem_keys.mp (by rw [keys]; exact List.mem_append_right _ List.mem_cons_self)
  have found := getElem?_of_mem member
  have ordered := dist.ordered_keys
  rw [keys, List.pairwise_append, List.pairwise_cons] at ordered
  have next : dist.keys.find? (key < ·) = back.head? := by
    have passed : (front ++ [key]).find? (key < ·) = none := by
      refine List.find?_eq_none.mpr fun other inside => ?_
      rw [decide_eq_true_eq, Int32.not_lt]
      rcases List.mem_append.mp inside with early | last
      · exact Int32.le_of_lt (compare_eq_lt.mp (ordered.2.2 other early key List.mem_cons_self))
      · rw [List.mem_singleton.mp last]
        exact Int32.le_refl key
    rw [keys, ← List.singleton_append, ← List.append_assoc, List.find?_append, passed, Option.none_or]
    cases back with
    | nil => rfl
    | cons other back =>
      exact List.find?_cons_of_pos (decide_eq_true (compare_eq_lt.mp (ordered.2.1.1 other List.mem_cons_self)))
  simp only [turn, between, List.head?_cons, found, next, Option.map_some, List.foldl_append, List.foldl_cons,
    List.foldl_nil]

theorem turn_end (keys : dist.keys = front) : (between dist front []).turn dist = some (.inr dist) := by
  have whole : front.foldl (fun map key => map.insertIfNew key (dist.getD key 0)) ∅ = dist := by
    refine ExtTreeMap.ext_getElem? fun key => ?_
    by_cases member : key ∈ dist
    · rw [getElem?_of_mem member, ← keys]
      exact ExtTreeMap.getElem?_foldl_insertIfNew_of_mem _ ExtTreeMap.getElem?_empty (ExtTreeMap.mem_keys.mpr member)
    · have absent : key ∉ front.foldl (fun map key => map.insertIfNew key (dist.getD key 0)) (∅ : Tally Int32) := by
        rw [ExtTreeMap.mem_foldl_insertIfNew, ← keys, ExtTreeMap.mem_keys, not_or]
        exact ⟨member, ExtTreeMap.not_mem_empty⟩
      rw [ExtTreeMap.getElem?_eq_none member, ExtTreeMap.getElem?_eq_none absent]
  simp only [turn, between, List.head?_nil, whole]

end MapCopy

/-- What a query comes to. It is lost when the map is changed under its iterators. -/
abbrev MapAnswer := Option (Status × Tally Int32)

/-- A turn of the loop on what its iterators point to, if they still do. -/
def MapCopy.look {Reader : Type} (resume : MapCopy → Reader) (dist : Option (Tally Int32)) (copying : MapCopy) :
    Reader ⊕ MapAnswer :=
  match dist.bind copying.turn with
  | none => .inr none
  | some (.inl copying) => .inl (resume copying)
  | some (.inr trends) => .inr (some (.ok (), trends))

section Copy
variable {Table Reader : Type} {look : Table → Reader → Reader ⊕ MapAnswer} {resume : MapCopy → Reader} {table : Table}
  {dist : Tally Int32}

theorem reads_between (looks : ∀ copying, look table (resume copying) = copying.look resume (some dist))
    {front back : List Int32} (keys : dist.keys = front ++ back) :
    Reads look table (resume (.between dist front back)) (some (.ok (), dist)) := by
  induction back generalizing front with
  | nil =>
    refine .answer ?_
    rw [looks, MapCopy.look, Option.bind_some, MapCopy.turn_end (keys.trans (List.append_nil front))]
  | cons key back ih =>
    have rest : dist.keys = (front ++ [key]) ++ back := by rw [keys, List.append_assoc, List.singleton_append]
    refine .look ?_ (ih rest)
    rw [looks, MapCopy.look, Option.bind_some, MapCopy.turn_between keys]

/-- The loop copies a map that nobody changes. -/
theorem reads_copy (looks : ∀ copying, look table (resume copying) = copying.look resume (some dist)) :
    Reads look table (resume (.first dist)) (some (.ok (), dist)) := by
  rw [MapCopy.first_eq]
  exact reads_between looks rfl

end Copy

/-- A map of users in the memory. Each change of a `dense_hash_map` may move its entries. -/
structure UserTable where
  dist : TallyTable UInt64 Int32
  generation : Nat

/-- Where `queryUserInterests` is when it has noted the map. -/
inductive UserQuery where
  | find (userId : UInt64)
  | copy (userId : UInt64) (generation : Nat) (copying : MapCopy)

namespace UserQuery

def look (table : UserTable) : UserQuery → UserQuery ⊕ MapAnswer
  | .find userId =>
    match table.dist[userId]? with
    | none => .inr (some (.error ⟨.notFound, "user_id=" ++ toString userId⟩, ∅))
    | some dist => .inl (.copy userId table.generation (.first dist))
  | .copy userId generation copying =>
    copying.look (copy userId generation) (if table.generation = generation then table.dist[userId]? else none)

theorem reads_find {table : UserTable} {fields : Interests} (same : fields.userDist = table.dist) (userId : UInt64) :
    Reads look table (.find userId) (some (fields.queryUserInterests userId)) := by
  rw [Interests.queryUserInterests, same]
  cases found : table.dist[userId]? with
  | none =>
    refine .answer ?_
    rw [look, found]
  | some dist =>
    have copies : Reads look table (.copy userId table.generation (.first dist)) (some (.ok (), dist)) := by
      refine reads_copy fun copying => ?_
      rw [look, if_pos rfl, found]
    refine .look ?_ copies
    rw [look, found]

end UserQuery

/-- What is done to the fields of the user interests once they are set up, step by step. -/
inductive InterestsMaking where
  | reloadBefore
  | loadDistribution (dist : CategoryDistribution)
  | reloadCompleted
  | eliminateBefore (now : Int)
  | trainCategory (categoryId : Int32) (count : Int)
  | trainUserCategory (userId : UInt64) (categoryId : Int32) (count : Int)

namespace InterestsMaking

def run (fields : Interests) : InterestsMaking → Interests
  | .reloadBefore => fields.reloadBefore.2
  | .loadDistribution dist => (Interests.loadDistribution dist fields).2
  | .reloadCompleted => fields.reloadCompleted.2
  | .eliminateBefore now => (Interests.eliminateBefore now fields).2
  | .trainCategory categoryId count => fields.trainCategory categoryId count
  | .trainUserCategory userId categoryId count => fields.trainUserCategory userId categoryId count

/-- What a reload does to the map beside is done to a map in the memory. -/
def change (call : InterestsMaking) (fields : Interests) (table : UserTable) : UserTable :=
  ⟨(run { fields with userDistBak := table.dist } call).userDistBak, table.generation + 1⟩

def making : Making InterestsMaking Interests UserTable where
  swaps
    | .reloadCompleted => true
    | _ => false
  edit
    | .reloadBefore => some (change .reloadBefore)
    | .loadDistribution dist => some (change (.loadDistribution dist))
    | _ => none
  after call fields := run fields call

theorem mirroring : Mirroring making Interests.userDist Interests.userDistBak UserTable.dist where
  swap call fields swaps := by
    cases call with
    | reloadCompleted => exact ⟨rfl, rfl⟩
    | _ => cases swaps
  edit call fields table edit stays edits same := by
    cases call with
    | reloadBefore =>
      cases edits
      exact ⟨rfl, rfl⟩
    | loadDistribution dist =>
      cases edits
      refine ⟨rfl, ?_⟩
      rw [change, ← same]
      rfl
    | _ => cases edits
  leave call fields stays none_ := by
    cases call with
    | reloadCompleted => exact absurd rfl stays
    | eliminateBefore | trainCategory | trainUserCategory => exact ⟨rfl, rfl⟩
    | _ => cases none_

/-- What a reload does that loads these distributions. -/
def reload (dists : List CategoryDistribution) (completed : Bool) : List InterestsMaking :=
  .reloadBefore :: dists.map .loadDistribution ++ if completed then [.reloadCompleted] else []

theorem foldl_reload (fields : Interests) (dists : List CategoryDistribution) (completed : Bool) :
    (reload dists completed).foldl run fields =
      let loaded := load Interests.virtual fields.reloadBefore.2 dists
      if completed then loaded.reloadCompleted.2 else loaded := by
  rw [reload, List.cons_append, List.foldl_cons, List.foldl_append, List.foldl_map]
  cases completed <;> rfl

/-- The function makes these steps, whatever fails. -/
theorem reload_makes {format : ItemTagFormat} {table after : UserInterests} {status : Status}
    {world world' : World FileName Bytes Failure}
    (returned : UserInterests.reload format table world = .ok ((status, after), world')) :
    ∃ dists completed, after.fields = (reload dists completed).foldl run table.fields := by
  obtain ⟨-, ⟨-, ⟨dists, rfl⟩, -⟩ | ⟨-, -, dists, -, rfl, -⟩⟩ := reload_inv rfl (fun _ => rfl) returned
  · exact ⟨dists, false, (foldl_reload table.fields dists false).symm⟩
  · exact ⟨dists, true, (foldl_reload table.fields dists true).symm⟩

end InterestsMaking

/-- A map of trends in the memory. Only clearing a `std::map` takes its entries away. -/
structure TrendsTable where
  dist : Tally Int32
  generation : Nat

/-- Where `queryCurrentTrends` is when it has noted the map. -/
inductive TrendsQuery where
  | start
  | copy (generation : Nat) (copying : MapCopy)

namespace TrendsQuery

def look (table : TrendsTable) : TrendsQuery → TrendsQuery ⊕ MapAnswer
  | .start => .inl (.copy table.generation (.first table.dist))
  | .copy generation copying =>
    copying.look (copy generation) (if table.generation = generation then some table.dist else none)

theorem reads_start {table : TrendsTable} {fields : Trends} (same : fields.mapDist = table.dist) :
    Reads look table .start (some fields.queryCurrentTrends) := by
  rw [Trends.queryCurrentTrends, same]
  have copies : Reads look table (.copy table.generation (.first table.dist)) (some (.ok (), table.dist)) := by
    refine reads_copy fun copying => ?_
    rw [look, if_pos rfl]
  exact .look rfl copies

end TrendsQuery

/-- What is done to the fields of the news trends, step by step. -/
inductive TrendsMaking where
  | reloadBefore
  | loadDistribution (dist : CategoryDistribution)
  | reloadCompleted
  | trainBefore (now : Int)
  | trainClick (click : CategoryClick)
  | dumpTable
  | trainCompleted

namespace TrendsMaking

def run (fields : Trends) : TrendsMaking → Trends
  | .reloadBefore => fields.reloadBefore.2
  | .loadDistribution dist => (Trends.loadDistribution dist fields).2
  | .reloadCompleted => fields.reloadCompleted.2
  | .trainBefore now => (Trends.trainBefore now fields).2
  | .trainClick click => (Trends.trainClick click fields).2
  | .dumpTable => { fields with mapDistTraining := Trends.normalized fields.mapDistTraining }
  | .trainCompleted => fields.trainCompleted.2

def clears : TrendsMaking → Bool
  | .reloadBefore | .trainBefore _ => true
  | _ => false

def swaps : TrendsMaking → Bool
  | .reloadCompleted | .trainCompleted => true
  | _ => false

/-- What a job does to the map beside is done to a map in the memory. -/
def change (call : TrendsMaking) (fields : Trends) (table : TrendsTable) : TrendsTable :=
  ⟨(run { fields with mapDistTraining := table.dist } call).mapDistTraining,
    if call.clears then table.generation + 1 else table.generation⟩

def making : Making TrendsMaking Trends TrendsTable where
  swaps := swaps
  edit call := if call.swaps then none else some call.change
  after call fields := run fields call

theorem mapDist_of_stays {fields : Trends} {call : TrendsMaking} (stays : ¬ call.swaps) :
    (run fields call).mapDist = fields.mapDist := by
  cases call with
  | reloadCompleted | trainCompleted => exact absurd rfl stays
  | trainClick click =>
    rw [run, Trends.trainClick]
    split <;> rfl
  | _ => rfl

theorem mirroring : Mirroring making Trends.mapDist Trends.mapDistTraining TrendsTable.dist where
  swap call fields swaps := by
    cases call with
    | reloadCompleted | trainCompleted => exact ⟨rfl, rfl⟩
    | _ => cases swaps
  edit call fields table edit stays edits same := by
    obtain rfl : call.change = edit := Option.some.inj ((if_neg stays).symm.trans edits)
    refine ⟨mapDist_of_stays stays, ?_⟩
    rw [change, ← same]
    rfl
  leave call fields stays none_ := by
    have edits : making.edit call = some call.change := if_neg stays
    rw [edits] at none_
    cases none_

/-- What a training does that reads these clicks, as far as it comes. -/
def train (now : Int) (clicks : List CategoryClick) (rest : List TrendsMaking) : List TrendsMaking :=
  .trainBefore now :: clicks.map .trainClick ++ rest

theorem foldl_train (format : ItemTagFormat) (fields : Trends) (now : Int) (events : List LogEvent)
    (rest : List TrendsMaking) :
    (train now (events.filterMap LogEvent.asClick) rest).foldl run fields =
      rest.foldl run ((Trends.virtual format).train (Trends.trainBefore now fields).2 events) := by
  rw [train, List.cons_append, List.foldl_cons, List.foldl_append, List.foldl_map, List.foldl_filterMap]
  refine congrArg (rest.foldl run) (List.foldl_ext _ _ _ fun fields event _ => ?_)
  cases event <;> rfl

/-- The function makes these steps, whatever fails: all of them, or those before the table is opened or written. -/
theorem train_makes {format : ItemTagFormat} {now : Int} {table after : NewsTrends} {status : Status}
    {world world' : World FileName Bytes Failure}
    (returned : NewsTrends.train format now table world = .ok ((status, after), world')) :
    ∃ clicks rest, rest <+: [.dumpTable, .trainCompleted] ∧
      after.fields = (train now clicks rest).foldl run table.fields := by
  obtain ⟨⟨status1, trained⟩, world1, visited, later⟩ := bind_inv returned
  obtain ⟨rfl, same, -⟩ := trainPeriodicLog_gathers visited
  have counted (rest : List TrendsMaking) := foldl_train format table.fields now (table.walk world).1 rest
  have read : trained.fields =
      (Trends.virtual format).train (Trends.trainBefore now table.fields).2 (table.walk world).1 := by
    rw [same]
    rfl
  simp only [← read] at counted
  obtain ⟨created, world2, creates, later⟩ := bind_inv later
  cases created with
  | error failure =>
    cases later
    exact ⟨_, [], List.nil_prefix, (counted []).symm⟩
  | ok _ =>
    obtain ⟨⟨status3, fields3⟩, world3, dumps, later⟩ := bind_inv later
    obtain ⟨status', world3', appends, dumped⟩ := bind_inv dumps
    cases dumped
    cases status3 with
    | error failure =>
      cases later
      exact ⟨_, [.dumpTable], ⟨[.trainCompleted], rfl⟩, (counted [.dumpTable]).symm⟩
    | ok _ =>
      obtain ⟨renamed, world4, renames, later⟩ := bind_inv later
      refine ⟨_, [.dumpTable, .trainCompleted], List.prefix_rfl, Eq.trans ?_ (counted _).symm⟩
      cases renamed <;> cases later <;> rfl

end TrendsMaking

end ContentBased
