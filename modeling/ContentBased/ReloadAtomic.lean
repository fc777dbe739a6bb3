import ContentBased.Reload

namespace ContentBased
open RecordDisk DistTable Std

/-- What is seen of a table: what distributions say of a key, what is served for the key, and
which states answer every query alike. -/
structure View (σ κ β : Type) where
  content : List CategoryDistribution → κ → Option β
  served : σ → κ → Option β
  SameAnswers : σ → σ → Prop

namespace View
variable {σ κ β : Type}

/-- A distribution only says something of the keys that are free. Loading shows nothing before the
end of a reload, which serves what was loaded. -/
structure Lawful (view : View σ κ β) (virtual : Virtual σ) : Prop where
  content_append : ∀ first rest key,
    view.content (first ++ rest) key = (view.content first key).or (view.content rest key)
  started : ∀ fields, (virtual.reloadBefore fields).1 = .ok ()
  completed : ∀ fields, (virtual.reloadCompleted fields).1 = .ok ()
  loading : ∀ fields dists, view.SameAnswers fields (load virtual (virtual.reloadBefore fields).2 dists)
  swapped : ∀ fields dists,
    view.served (virtual.reloadCompleted (load virtual (virtual.reloadBefore fields).2 dists)).2 = view.content dists

/-- The whole file is served, or something is reported and every query answers as before. -/
def Atomic (view : View σ κ β) (format : ItemTagFormat) (disk : Disk FileName Bytes) (table after : DistTable σ)
    (status : Status) : Prop :=
  (status = .ok () ∧ ∃ file dists, disk (.table table.workPath table.tableName) = some file ∧
      Parses format (records file) dists ∧ view.served after.fields = view.content dists) ∨
    status ≠ .ok () ∧ view.SameAnswers table.fields after.fields

/-- Where the read of a record fails, it and the records after it parse and say nothing new. -/
def NothingLost (view : View σ κ β) (format : ItemTagFormat) (name : FileName) (world : World FileName Bytes Failure) :
    Prop :=
  ∀ file i dists, BrokenAt format name world file i dists →
    ∃ rest, Parses format ((records file).drop i) rest ∧ ∀ key, view.content dists key = none → view.content rest key = none

/-- The first distributions of a file are as good as all of them when the others say nothing new. -/
theorem whole_iff {view : View σ κ β} {virtual : Virtual σ} (lawful : view.Lawful virtual) {format : ItemTagFormat}
    {recs : List Bytes} {i : Nat} {dists : List CategoryDistribution} (parses : Parses format (recs.take i) dists) :
    (∃ whole, Parses format recs whole ∧ view.content dists = view.content whole) ↔
      ∃ rest, Parses format (recs.drop i) rest ∧ ∀ key, view.content dists key = none → view.content rest key = none := by
  constructor
  · rintro ⟨whole, all, same⟩
    have front : dists = whole.take i := by
      refine parses.unique ?_
      rw [Parses, List.map_take, all, List.map_take]
    refine ⟨whole.drop i, ?_, fun key free => ?_⟩
    · rw [Parses, List.map_drop, all, List.map_drop]
    · have split := lawful.content_append (whole.take i) (whole.drop i) key
      rw [List.take_append_drop, ← same, ← front, free, Option.none_or] at split
      exact split.symm
  · rintro ⟨rest, back, nothing⟩
    refine ⟨dists ++ rest, ?_, funext fun key => ?_⟩
    · rw [Parses, List.map_append, ← parses, ← back, ← List.map_append, List.take_append_drop]
    · rw [lawful.content_append]
      cases here : view.content dists key with
      | none => rw [nothing key here, Option.none_or]
      | some value => rw [Option.some_or]

/-- A reload is atomic exactly when no read fails before something new is to come. -/
theorem atomic_iff {view : View σ κ β} {virtual : Virtual σ} (lawful : view.Lawful virtual) {format : ItemTagFormat}
    {table after : DistTable σ} {world world' : World FileName Bytes Failure} {status : Status}
    (returned : reload format virtual table world = .ok ((status, after), world')) :
    view.Atomic format world.disk table after status ↔
      view.NothingLost format (.table table.workPath table.tableName) world := by
  have started : virtual.reloadBefore table.fields = (.ok (), (virtual.reloadBefore table.fields).2) :=
    Prod.ext (lawful.started _) rfl
  rcases (reload_inv started lawful.completed returned).2 with
    ⟨failed, ⟨dists, rfl⟩, unbroken⟩ | ⟨rfl, file, dists, present, rfl, ⟨parses, unbroken⟩ | ⟨i, broken⟩⟩
  · refine iff_of_true (.inr ⟨failed, lawful.loading _ _⟩) fun file i dists broken => ?_
    exact absurd broken (unbroken file i dists)
  · refine iff_of_true (.inl ⟨rfl, file, dists, present, parses, lawful.swapped _ _⟩) fun file i dists broken => ?_
    exact absurd broken (unbroken file i dists)
  · have whole := whole_iff lawful broken.parses
    constructor
    · rintro (⟨-, file', all, present', parses, served⟩ | ⟨failed, -⟩) file'' i' dists' broken'
      · obtain ⟨rfl, rfl, rfl⟩ := broken.unique broken'
        obtain rfl : file' = file := Option.some.inj (present'.symm.trans present)
        exact whole.mp ⟨all, parses, (lawful.swapped _ _).symm.trans served⟩
      · exact absurd rfl failed
    · intro nothing
      obtain ⟨all, parses, same⟩ := whole.mpr (nothing file i dists broken)
      exact .inl ⟨rfl, file, all, present, parses, (lawful.swapped _ _).trans same⟩

end View

namespace Interests

/-- The first record of a user counts, and its first tag of a category. -/
def content (dists : List CategoryDistribution) (userId : UInt64) : Option (Int32 → Option ℚ) :=
  (dists.find? fun dist => dist.userId = userId).map fun dist categoryId =>
    (dist.distribution.find? fun tag => tag.tagId = categoryId).map ItemTag.tagPower

def served (fields : Interests) (userId : UInt64) : Option (Int32 → Option ℚ) :=
  (fields.userDist[userId]?).map fun dist categoryId => dist[categoryId]?

def SameAnswers (before after : Interests) : Prop :=
  after.queryCurrentTrends = before.queryCurrentTrends ∧
    (∀ userId, after.queryUserInterests userId = before.queryUserInterests userId) ∧
    (∀ userId mapCategory, after.queryUserCurrentInterests exact userId mapCategory =
      before.queryUserCurrentInterests exact userId mapCategory) ∧
    ∀ userId categoryId, after.queryCategoryWeight userId categoryId = before.queryCategoryWeight userId categoryId

def view : View Interests UInt64 (Int32 → Option ℚ) := ⟨content, served, SameAnswers⟩

theorem load_eq (fields : Interests) (dists : List CategoryDistribution) :
    load virtual fields dists = { fields with
      userDistBak := dists.foldl (fun map dist => map.insertIfNew dist.userId
        (dist.distribution.foldl (fun map tag => map.insertIfNew tag.tagId tag.tagPower) ∅)) fields.userDistBak } := by
  induction dists generalizing fields with
  | nil => rfl
  | cons dist dists ih => exact ih _

theorem view_lawful : view.Lawful virtual where
  content_append first rest userId := by
    simp only [view, content, List.find?_append, Option.map_or]
  started _ := rfl
  completed _ := rfl
  loading fields dists := by
    rw [load_eq]
    refine ⟨rfl, fun _ => rfl, fun userId mapCategory => ?_, fun _ _ => rfl⟩
    apply queryUserCurrentInterests_congr exact <;> rfl
  swapped fields dists := by
    rw [load_eq]
    funext userId
    simp only [view, served, content, virtual, reloadBefore, reloadCompleted,
      ExtTreeMap.getElem?_foldl_insertIfNew CategoryDistribution.userId fun dist =>
        dist.distribution.foldl (fun map tag => map.insertIfNew tag.tagId tag.tagPower) (∅ : Tally Int32)]
    simp only [ExtTreeMap.getElem?_empty, Option.none_or, Option.map_map]
    refine congrArg (Option.map · _) (funext fun dist => funext fun categoryId => ?_)
    simp only [Function.comp_apply, ExtTreeMap.getElem?_foldl_insertIfNew ItemTag.tagId ItemTag.tagPower,
      ExtTreeMap.getElem?_empty, Option.none_or]

end Interests

namespace Trends

/-- The first tag of a category counts. -/
def content (dists : List CategoryDistribution) (categoryId : Int32) : Option ℚ :=
  ((dists.flatMap CategoryDistribution.distribution).find? fun tag => tag.tagId = categoryId).map ItemTag.tagPower

def served (fields : Trends) (categoryId : Int32) : Option ℚ := fields.mapDist[categoryId]?

def SameAnswers (before after : Trends) : Prop :=
  after.queryCurrentTrends = before.queryCurrentTrends ∧
    ∀ categoryId, after.queryCategoryWeight categoryId = before.queryCategoryWeight categoryId

def view : View Trends Int32 ℚ := ⟨content, served, SameAnswers⟩

theorem load_eq (format : ItemTagFormat) (fields : Trends) (dists : List CategoryDistribution) :
    load (virtual format) fields dists = { fields with
      mapDistTraining := (dists.flatMap CategoryDistribution.distribution).foldl
        (fun map tag => map.insertIfNew tag.tagId tag.tagPower) fields.mapDistTraining } := by
  induction dists generalizing fields with
  | nil => rfl
  | cons dist dists ih =>
    rw [List.flatMap_cons, List.foldl_append]
    exact ih _

theorem view_lawful (format : ItemTagFormat) : view.Lawful (virtual format) where
  content_append first rest categoryId := by
    simp only [view, content, List.flatMap_append, List.find?_append, Option.map_or]
  started _ := rfl
  completed _ := rfl
  loading fields dists := by
    rw [load_eq]
    exact ⟨rfl, fun _ => rfl⟩
  swapped fields dists := by
    rw [load_eq]
    funext categoryId
    simp only [view, served, content, virtual, reloadBefore, reloadCompleted, swap,
      ExtTreeMap.getElem?_foldl_insertIfNew ItemTag.tagId ItemTag.tagPower, ExtTreeMap.getElem?_empty, Option.none_or]

end Trends

namespace DistTable

/-- A disk with a table of these records. -/
def holding (name : FileName) (records : List Bytes) : Disk FileName Bytes :=
  fun other => if other = name then some (.synced records) else none

def noTags : ItemTagFormat := ⟨fun _ => [], fun _ => none⟩

/-- One user without a tag is served. -/
def oneUser : UserInterests :=
  { UserInterests.new { workPath := "" } 0 with
    fields := ⟨{ workPath := "" }, 0, ∅, ∅, ∅, (∅ : TallyTable UInt64 Int32).insertIfNew 1 ∅⟩ }

end DistTable

end ContentBased
