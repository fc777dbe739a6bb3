import ContentBased.UserInterests

namespace ContentBased
open RecordDisk Std

/-- The fields of `NewsTrends`, with exact weights. -/
structure Trends where
  options : ModelOptions
  clickExpired : Int
  mapDistTraining : Tally Int32
  mapDist : Tally Int32

namespace Trends

def reloadBefore (fields : Trends) : Status × Trends := (.ok (), { fields with mapDistTraining := ∅ })

def swap (fields : Trends) : Trends :=
  { fields with mapDist := fields.mapDistTraining, mapDistTraining := fields.mapDist }

def reloadCompleted (fields : Trends) : Status × Trends := (.ok (), fields.swap)

/-- `insert` keeps the weight of a category that is already there. -/
def loadDistribution (dist : CategoryDistribution) (fields : Trends) : Status × Trends :=
  (.ok (), { fields with mapDistTraining :=
    dist.distribution.foldl (fun map tag => map.insertIfNew tag.tagId tag.tagPower) fields.mapDistTraining })

/-- Adding a `double` to an `int32_t` drops what is behind the point. -/
def addTruncated (total : Int) (value : ℚ) : Int :=
  if 0 ≤ total + value then ⌊total + value⌋ else ⌈total + value⌉

/-- Divides the weights of the map where they are, and writes them as one record. -/
def dumpTable (format : ItemTagFormat) (writer : FileName) (fields : Trends) : Program (Status × Trends) := do
  let totalClick := fields.mapDistTraining.toList.foldl (fun total entry => addTruncated total entry.2) 0
  let totalClick := if totalClick ≤ 0 then 1 else totalClick
  let mapDistTraining : Tally Int32 := fields.mapDistTraining.map fun _ weight => weight / (totalClick : ℚ)
  let distribution : CategoryDistribution := ⟨0, mapDistTraining.toList.map fun entry => ⟨entry.1, entry.2⟩⟩
  let status ← append writer (distribution.serializeAsString format) false
  return (status, { fields with mapDistTraining })

def trainBefore (now : Int) (fields : Trends) : Status × Trends :=
  (.ok (), { fields with mapDistTraining := ∅,
                         clickExpired := windowStart now fields.options.newsTrendsTimeWindow })

def trainCompleted (fields : Trends) : Status × Trends := (.ok (), fields.swap)

def trainClick (click : CategoryClick) (fields : Trends) : Status × Trends :=
  if click.publishTime.toInt < fields.clickExpired then (.ok (), fields)
  else (.ok (), { fields with mapDistTraining := fields.mapDistTraining.raise click.categoryId 1 })

/-- The functions of `DistTable` that `NewsTrends` overrides. -/
def virtual (format : ItemTagFormat) : Virtual Trends where
  reloadBefore := reloadBefore
  reloadCompleted := reloadCompleted
  trainBefore := trainBefore
  trainCompleted := trainCompleted
  trainClick := trainClick
  dumpTable := dumpTable format
  loadDistribution := loadDistribution

/-- Gives a copy of the map. -/
def queryCurrentTrends (fields : Trends) : Status × Tally Int32 := (.ok (), fields.mapDist)

def queryCategoryWeight (fields : Trends) (categoryId : Int32) : Except Failure ℚ :=
  match fields.mapDist[categoryId]? with
  | some weight => .ok weight
  | none => .error ⟨.notFound, "category_id=" ++ toString categoryId⟩

end Trends

abbrev NewsTrends := DistTable Trends

namespace NewsTrends

/-- The constructor. -/
def new (opts : ModelOptions) : NewsTrends :=
  DistTable.new opts.workPath opts.newsTrendsLogPrefix opts.newsTrendsTableName opts.newsTrendsTimeWindow
    ⟨opts, 0, ∅, ∅⟩

def reload (format : ItemTagFormat) (table : NewsTrends) : Program (Status × NewsTrends) :=
  DistTable.reload format (Trends.virtual format) table

def train (format : ItemTagFormat) (now : Int) (table : NewsTrends) : Program (Status × NewsTrends) :=
  DistTable.train (Trends.virtual format) now table

end NewsTrends

end ContentBased
