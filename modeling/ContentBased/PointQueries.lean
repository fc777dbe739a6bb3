import ContentBased.NewsTrends

namespace ContentBased
open Std (ExtTreeMap)

/-- The answer about one category is what the query for all of them says, and NotFound where that says nothing. -/
structure PointAnswer (bulk : Status × Tally Int32) (categoryId : Int32) (answer : Except Failure ℚ) : Prop where
  found : ∀ weight, answer = .ok weight ↔ bulk.1 = .ok () ∧ bulk.2[categoryId]? = some weight
  missing : ∀ failure, answer = .error failure → failure.code = .notFound

theorem Trends.queryCategoryWeight_answer (fields : Trends) (categoryId : Int32) :
    PointAnswer fields.queryCurrentTrends categoryId (fields.queryCategoryWeight categoryId) := by
  rw [queryCategoryWeight]
  cases present : fields.mapDist[categoryId]? with
  | none =>
    refine ⟨fun weight => ?_, fun failure same => ?_⟩
    · simp [queryCurrentTrends, present]
    · cases same
      rfl
  | some value =>
    refine ⟨fun weight => ?_, fun failure same => ?_⟩
    · simp [queryCurrentTrends, present]
    · cases same

namespace Interests
variable {fields : Interests} {userId : UInt64}

theorem queryCategoryWeight_answer (absent : userId ∉ fields.userDist) (categoryId : Int32) :
    ∃ answer, fields.queryCategoryWeight userId categoryId = some answer ∧
      PointAnswer (fields.queryUserInterests userId) categoryId answer := by
  have nothing : fields.userDist[userId]? = none := ExtTreeMap.getElem?_eq_none absent
  refine ⟨.error ⟨.notFound, "user_id=" ++ toString userId⟩, ?_, fun weight => ?_, fun failure same => ?_⟩
  · rw [queryCategoryWeight, nothing]
  · rw [queryUserInterests, nothing]
    exact iff_of_false nofun (fun both => nomatch both.1)
  · cases same
    rfl

/-- For a user with interests the test of the iterator is the wrong way round: a category that is there is not
found, and for one that is not the end of the map is read. -/
theorem queryCategoryWeight_inverted (known : userId ∈ fields.userDist) (categoryId : Int32) :
    ¬ ∃ answer, fields.queryCategoryWeight userId categoryId = some answer ∧
      PointAnswer (fields.queryUserInterests userId) categoryId answer := by
  obtain ⟨dist, there⟩ := Option.isSome_iff_exists.mp (ExtTreeMap.mem_iff_isSome_getElem?.mp known)
  rintro ⟨answer, answered, point⟩
  rw [queryCategoryWeight, there] at answered
  cases present : dist[categoryId]? with
  | none =>
    simp only [present] at answered
    cases answered
  | some weight =>
    simp only [present] at answered
    cases answered
    have bulk : fields.queryUserInterests userId = (.ok (), dist) := by
      rw [queryUserInterests, there]
    have right := (point.found weight).mpr ⟨by rw [bulk], by rw [bulk]; exact present⟩
    cases right

end Interests

end ContentBased
