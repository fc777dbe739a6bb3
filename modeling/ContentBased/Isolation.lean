import ContentBased.Prediction

namespace ContentBased
open Std (ExtTreeMap)

namespace Model
variable {υ ι : Type}

/-- The states agree on everything that belongs to the user or to nobody. -/
structure SameSources (userId : UInt64) (left right : Model υ ι Trends) : Prop where
  options : left.userInterests.fields.options = right.userInterests.fields.options
  longTerm : left.userInterests.fields.userDist[userId]? = right.userInterests.fields.userDist[userId]?
  current : left.userInterests.fields.currentUserDist[userId]? = right.userInterests.fields.currentUserDist[userId]?
  dist : left.userInterests.fields.currentDist = right.userInterests.fields.currentDist
  newsTrends : left.newsTrends.fields.mapDist = right.newsTrends.fields.mapDist
  category : left.category = right.category

/-- The states answer every question about the user alike, about items that they both know alike. -/
structure SameAnswers (itemDb : ItemDB ι) (order : TrendsSort) (options : ModelOptions) (userId : UInt64)
    (left right : Model υ ι Trends) : Prop where
  distribution : ∀ dist, left.predictDistribution options userId dist = right.predictDistribution options userId dist
  interests : ∀ trends,
    left.predictUserInterests order options userId trends = right.predictUserInterests order options userId trends
  marshaled : ∀ requestNum dist draws turns,
    left.marshalUserInterests order options ⟨userId, requestNum⟩ dist draws turns =
      right.marshalUserInterests order options ⟨userId, requestNum⟩ dist draws turns
  weights : ∀ itemId power,
    (∀ item ∈ itemId, itemDb.fetchItemBelongsTo left.itemDb item = itemDb.fetchItemBelongsTo right.itemDb item) →
      left.queryCategoryWeight itemDb order options ⟨userId, itemId⟩ power =
        right.queryCategoryWeight itemDb order options ⟨userId, itemId⟩ power

section
variable {userId : UInt64} {left right : Model υ ι Trends} (options : ModelOptions) (order : TrendsSort)

theorem predictDistribution_congr (same : SameSources userId left right) (own : userId ≠ 310744)
    (dist : CategoryDistribution) :
    left.predictDistribution options userId dist = right.predictDistribution options userId dist := by
  have longTerm : left.userInterests.fields.queryUserInterests userId =
      right.userInterests.fields.queryUserInterests userId := by
    rw [Interests.queryUserInterests, Interests.queryUserInterests, same.longTerm]
  have current := Interests.queryUserCurrentInterests_congr Interests.exact same.options same.dist same.current
  simp only [predictDistribution, if_neg own, longTerm, current, same.category, Trends.queryCurrentTrends, same.newsTrends]

variable {options} in
theorem predictUserInterests_congr
    (same : ∀ dist, left.predictDistribution options userId dist = right.predictDistribution options userId dist)
    (trends : VectorPair) :
    left.predictUserInterests order options userId trends = right.predictUserInterests order options userId trends := by
  rw [predictUserInterests, predictUserInterests, same]

theorem addPower_congr {itemDb : ItemDB ι} {items items' : ι} {itemId : UInt64}
    (known : itemDb.fetchItemBelongsTo items itemId = itemDb.fetchItemBelongsTo items' itemId)
    (userDistMap : Tally Int32) (powers : List ℚ × ℚ) :
    addPower itemDb items userDistMap powers itemId = addPower itemDb items' userDistMap powers itemId := by
  rw [addPower, addPower, known]

theorem sameAnswers (itemDb : ItemDB ι) (same : SameSources userId left right) (own : userId ≠ 310744) :
    SameAnswers itemDb order options userId left right := by
  have distribution := predictDistribution_congr options same own
  have interests := predictUserInterests_congr order distribution
  refine ⟨distribution, interests, fun requestNum dist draws turns => ?_, fun itemId power known => ?_⟩
  · rw [marshalUserInterests, marshalUserInterests, interests]
  · have powers (userDistMap : Tally Int32) : itemId.foldl (addPower itemDb left.itemDb userDistMap) (power, 0) =
        itemId.foldl (addPower itemDb right.itemDb userDistMap) (power, 0) :=
      List.foldl_ext _ _ _ fun powers item member => addPower_congr (known item member) userDistMap powers
    simp only [queryCategoryWeight, interests, powers]

end

/-- A state in which nobody has clicked, with these long-term interests. -/
def remembering (userDb : υ) (itemDb : ι) (userDist : TallyTable UInt64 Int32) : Model υ ι Trends where
  categoryTableName := "category.dat"
  category := (∅ : ExtTreeMap Int32 Bytes).insert 1 []
  isCategoryModified := false
  userDb := userDb
  itemDb := itemDb
  newsTrends := NewsTrends.new { workPath := "" }
  userInterests := { UserInterests.new { workPath := "" } 0 with fields := ⟨{ workPath := "" }, 0, ∅, ∅, ∅, userDist⟩ }

/-- The long-term interests of user 36706 alone. -/
def interestsOfOther : TallyTable UInt64 Int32 := (∅ : TallyTable UInt64 Int32).insert 36706 ((∅ : Tally Int32).insert 1 1)

theorem remembering_sources (userDb : υ) (itemDb : ι) :
    SameSources 310744 (remembering userDb itemDb interestsOfOther) (remembering userDb itemDb ∅) where
  options := rfl
  longTerm := by simp [remembering, interestsOfOther]
  current := rfl
  dist := rfl
  newsTrends := rfl
  category := rfl

/-- User 310744 is answered with the interests of user 36706. -/
theorem remembering_ne (options : ModelOptions) (userDb : υ) (itemDb : ι) :
    (remembering userDb itemDb interestsOfOther).predictDistribution options 310744 ⟨0, []⟩ ≠
      (remembering userDb itemDb ∅).predictDistribution options 310744 ⟨0, []⟩ := by
  have keys : ((∅ : ExtTreeMap Int32 Bytes).insert 1 []).keys = [1] := rfl
  have leaked : (remembering userDb itemDb interestsOfOther).predictDistribution options 310744 ⟨0, []⟩ =
      (.ok (), ⟨0, [⟨1, 1⟩]⟩) := by
    simp [predictDistribution, remembering, interestsOfOther, Interests.queryUserInterests,
      Interests.queryUserCurrentInterests, ExtTreeMap.size_insert, keys]
  have none_ : (remembering userDb itemDb ∅).predictDistribution options 310744 ⟨0, []⟩ = (.ok (), ⟨0, []⟩) := by
    simp [predictDistribution, remembering, Interests.queryUserInterests, Interests.queryUserCurrentInterests,
      NewsTrends.new, DistTable.new, Trends.queryCurrentTrends]
  rw [leaked, none_]
  simp

/-- What the service answers about a user depends on nobody else, for every user but one. -/
theorem isolated_iff [Inhabited υ] [Inhabited ι] (itemDb : ItemDB ι) (order : TrendsSort) (options : ModelOptions)
    (userId : UInt64) :
    (∀ left right : Model υ ι Trends, SameSources userId left right →
      SameAnswers itemDb order options userId left right) ↔ userId ≠ 310744 := by
  constructor
  · rintro isolated rfl
    have same := isolated _ _ (remembering_sources default default)
    exact remembering_ne options default default (same.distribution ⟨0, []⟩)
  · exact fun own left right same => sameAnswers options order itemDb same own

theorem other_interests_leak :
    SameSources 310744 (remembering () () interestsOfOther) (remembering () () ∅) ∧
      (remembering () () interestsOfOther).predictDistribution { workPath := "" } 310744 ⟨0, []⟩ ≠
        (remembering () () ∅).predictDistribution { workPath := "" } 310744 ⟨0, []⟩ :=
  ⟨remembering_sources () (), remembering_ne _ () ()⟩

end Model

end ContentBased
