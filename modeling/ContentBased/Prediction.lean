import ContentBased.ContentModel
import ContentBased.NewsTrends
import ContentBased.Marshaler

namespace ContentBased

/-- The greatest `float`. -/
def floatMax : ℚ := (2 ^ 24 - 1) * 2 ^ 104

/-- `std::sort` with `trends_sorter`; in which order it puts equal weights is left open. -/
structure TrendsSort where
  sort : VectorPair → VectorPair
  perm : ∀ trends, (sort trends).Perm trends
  sorted : ∀ trends, (sort trends).Pairwise fun a b => b.2 ≤ a.2

/-- A question for the categories of a user. -/
structure Category where
  userId : UInt64
  requestNum : Int32
deriving DecidableEq, Repr

structure CandidateSetBase where
  userId : UInt64
  itemId : List UInt64
deriving DecidableEq, Repr

def totalDistribution (trends : Tally Int32) : ℚ := if trends.total ≤ 0 then 1 else trends.total

namespace Model
variable {υ ι : Type}

/-- The overload that mixes the sources into a distribution. -/
def predictDistribution (options : ModelOptions) (model : Model υ ι Trends) (userId : UInt64)
    (dist : CategoryDistribution) : Status × CategoryDistribution :=
  let dbgUserId := if userId = 310744 then 36706 else userId
  let userInterests := (model.userInterests.fields.queryUserInterests dbgUserId).2
  let totalInterestsDist := totalDistribution userInterests
  let currentUserInterests :=
    (Interests.queryUserCurrentInterests Interests.exact model.userInterests.fields userId model.category).run.2
  let totalCurrentInterestsDist := totalDistribution currentUserInterests
  let newsTrends := model.newsTrends.fields.queryCurrentTrends.2
  let alpha := options.userInterestsMixAlpha
  let tags : List ItemTag :=
    if 0 < userInterests.size ∧ 0 < currentUserInterests.size then
      model.category.keys.filterMap fun category =>
        match userInterests[category]?, currentUserInterests[category]? with
        | some longTerm, some current =>
          some ⟨category, alpha * longTerm / totalInterestsDist + (1 - alpha) * current / totalCurrentInterestsDist⟩
        | _, _ => none
    else if 0 < currentUserInterests.size then
      model.category.keys.filterMap fun category => currentUserInterests[category]?.map fun power => ⟨category, power⟩
    else if 0 < userInterests.size then
      model.category.keys.filterMap fun category => userInterests[category]?.map fun power => ⟨category, power⟩
    else newsTrends.toList.map fun entry => ⟨entry.1, entry.2⟩
  (.ok (), { dist with distribution := dist.distribution ++ tags })

/-- The overload that normalises the mixture: category 10 counts less and category 13 gets the
smallest power there was. -/
def predictUserInterests (order : TrendsSort) (options : ModelOptions) (model : Model υ ι Trends) (userId : UInt64)
    (trends : VectorPair) : Status × VectorPair :=
  match model.predictDistribution options userId ⟨0, []⟩ with
  | (.error failure, _) => (.error failure, trends)
  | (.ok (), mixDist) =>
    if mixDist.distribution.length ≤ 0 then
      (.error ⟨.corruption, "PredictUserInterests failed: mix dist=0"⟩, trends)
    else
      let minPower := mixDist.distribution.foldl
        (fun minPower tag => if tag.tagPower < minPower then tag.tagPower else minPower) floatMax
      let lowered : List ItemTag := mixDist.distribution.map fun tag =>
        if tag.tagId = 10 then { tag with tagPower := tag.tagPower * (3 / 5) } else tag
      let power (tag : ItemTag) : ℚ := if tag.tagId = 13 then minPower else tag.tagPower
      let total := (lowered.map power).sum
      let total := if total ≤ 0 then 1 else total
      (.ok (), order.sort (trends ++ lowered.map fun tag => (tag.tagId, power tag / total)))

/-- No value while the marshaler has not ended. -/
def marshalUserInterests (order : TrendsSort) (options : ModelOptions) (model : Model υ ι Trends) (category : Category)
    (dist : List Int32) (draws : Nat → Fin 100) (turns : Nat) : Except Trap (Option (Status × List Int32)) :=
  match model.predictUserInterests order options category.userId [] with
  | (.error failure, _) => return some (.error failure, dist)
  | (.ok (), trends) =>
    -- the vector of the interests is made as long as is asked for
    if category.requestNum.toInt < 0 then .error .lengthError
    else do
      let marshaled ← Marshaler.marshal options trends (asSize category.requestNum) [] draws turns
      return marshaled.map fun
        | (.error failure, _) => (.error failure, dist)
        | (.ok (), interests) => (.ok (), dist ++ interests.map Prod.fst)

/-- The greatest weight that a user gives to a category of an item. -/
def maxPower (itemDb : ItemDB ι) (userDistMap : Tally Int32) (keys : List Int) : ℚ :=
  keys.foldl (fun maxPower key =>
    let id := itemDb.typeId key
    if id.type ≠ .category then maxPower
    else
      match userDistMap[id.id]? with
      | some weight => if maxPower < weight then weight else maxPower
      | none => maxPower) 0

/-- The powers so far and their total, with those of one more item. -/
def addPower (itemDb : ItemDB ι) (items : ι) (userDistMap : Tally Int32) (powers : List ℚ × ℚ) (itemId : UInt64) :
    List ℚ × ℚ :=
  match itemDb.fetchItemBelongsTo items itemId with
  | .error _ => (powers.1 ++ [0], powers.2)
  | .ok keys => (powers.1 ++ [maxPower itemDb userDistMap keys], powers.2 + maxPower itemDb userDistMap keys)

def queryCategoryWeight (itemDb : ItemDB ι) (order : TrendsSort) (options : ModelOptions) (model : Model υ ι Trends)
    (csb : CandidateSetBase) (power : List ℚ) : Status × List ℚ :=
  match model.predictUserInterests order options csb.userId [] with
  | (.error failure, _) => (.error failure, power)
  | (.ok (), userDist) =>
    let userDistMap : Tally Int32 := userDist.foldl (fun map entry => map.insertIfNew entry.1 entry.2) ∅
    let (power, totalPower) := csb.itemId.foldl (addPower itemDb model.itemDb userDistMap) (power, 0)
    let totalPower := if totalPower ≤ 0 then 1 else totalPower
    (.ok (), power.map (· / totalPower))

end Model

end ContentBased
