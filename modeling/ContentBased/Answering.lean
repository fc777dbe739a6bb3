import ContentBased.Ranking
import ContentBased.CurrentInterests

namespace ContentBased
open Std (ExtTreeMap)

namespace Interests

/-- The query gives every category of the table an interest, or nothing for a user who is not known. -/
theorem mem_queryUserCurrentInterests (fields : Interests) (userId : UInt64) (mapCategory : ExtTreeMap Int32 Bytes)
    (category : Int32) : category ∈ (queryUserCurrentInterests exact fields userId mapCategory).run.2 ↔
      userId ∈ fields.currentUserDist ∧ category ∈ mapCategory := by
  rw [queryUserCurrentInterests]
  cases present : fields.currentUserDist[userId]? with
  | none =>
    have absent : ¬ userId ∈ fields.currentUserDist := by simpa using present
    simp [absent]
  | some dist =>
    have known : userId ∈ fields.currentUserDist := ExtTreeMap.mem_iff_isSome_getElem?.mpr (by rw [present]; rfl)
    simp only [known, true_and]
    rw [enterInterests_eq (m := Id) (fun _ => rfl)]
    exact (ExtTreeMap.mem_foldl_insertIfNew _ mapCategory.keys ∅ category).trans (by simp)

end Interests

namespace Model
variable {υ ι : Type} {options : ModelOptions} {model : Model υ ι Trends} {userId : UInt64}

theorem mem_currentInterests {category : Int32} : category ∈ model.currentInterests userId ↔
    userId ∈ model.userInterests.fields.currentUserDist ∧ category ∈ model.category :=
  Interests.mem_queryUserCurrentInterests _ _ _ _

theorem size_pos_iff {β : Type} {map : ExtTreeMap Int32 β} : 0 < map.size ↔ map ≠ ∅ := by
  rw [ne_eq, ExtTreeMap.eq_empty_iff_size_eq_zero, Nat.pos_iff_ne_zero]

theorem getElem?_eq_none_iff {β : Type} {map : ExtTreeMap Int32 β} {key : Int32} : map[key]? = none ↔ key ∉ map := by
  rw [ExtTreeMap.mem_iff_isSome_getElem?, Option.not_isSome_iff_eq_none]

theorem exists_mem_of_ne_empty {β : Type} {map : ExtTreeMap Int32 β} (some_ : map ≠ ∅) : ∃ key, key ∈ map := by
  rw [ne_eq, ExtTreeMap.eq_empty_iff_forall_not_mem] at some_
  push Not at some_
  exact some_

/-- Nothing is mixed exactly when there are long-term interests, but in no category of the table. -/
theorem mixture_eq_nil_iff (table : model.category ≠ ∅) (served : model.newsTrends.fields.mapDist ≠ ∅) :
    model.mixture options userId = [] ↔
      model.longTermInterests userId ≠ ∅ ∧ ∀ category ∈ model.category, category ∉ model.longTermInterests userId := by
  have current {category : Int32} := @mem_currentInterests υ ι model userId category
  obtain ⟨listed, inTable⟩ := exists_mem_of_ne_empty table
  rw [mixture_eq]
  simp only [size_pos_iff]
  by_cases known : userId ∈ model.userInterests.fields.currentUserDist
  · have some_ : model.currentInterests userId ≠ ∅ := ExtTreeMap.ne_empty_of_mem (current.mpr ⟨known, inTable⟩)
    by_cases longTerm : model.longTermInterests userId = ∅
    · rw [if_neg (fun both => both.1 longTerm), if_pos some_, List.filterMap_eq_nil_iff]
      refine iff_of_false (fun none_ => ?_) (fun both => both.1 longTerm)
      have missing := none_ listed (ExtTreeMap.mem_keys.mpr inTable)
      rw [Option.map_eq_none_iff, getElem?_eq_none_iff] at missing
      exact missing (current.mpr ⟨known, inTable⟩)
    · rw [if_pos ⟨longTerm, some_⟩, List.filterMap_eq_nil_iff, and_iff_right longTerm]
      simp only [ExtTreeMap.mem_keys]
      refine forall₂_congr fun category member => ?_
      obtain ⟨power, here⟩ := Option.isSome_iff_exists.mp
        (ExtTreeMap.mem_iff_isSome_getElem?.mp (current.mpr ⟨known, member⟩))
      rw [here, ← getElem?_eq_none_iff]
      cases (model.longTermInterests userId)[category]? <;> simp
  · have none_ : model.currentInterests userId = ∅ :=
      ExtTreeMap.eq_empty_iff_forall_not_mem.mpr fun category member => known (current.mp member).1
    rw [if_neg (fun both => both.2 none_), if_neg (not_not_intro none_)]
    by_cases longTerm : model.longTermInterests userId = ∅
    · rw [if_neg (not_not_intro longTerm), List.map_eq_nil_iff]
      refine iff_of_false (fun empty => ?_) (fun both => both.1 longTerm)
      obtain ⟨trend, member⟩ := exists_mem_of_ne_empty served
      rw [← ExtTreeMap.mem_keys, ← ExtTreeMap.map_fst_toList_eq_keys, empty] at member
      cases member
    · rw [if_pos longTerm, List.filterMap_eq_nil_iff, and_iff_right longTerm]
      simp only [ExtTreeMap.mem_keys, Option.map_eq_none_iff, getElem?_eq_none_iff]

/-- The user gets an answer, and no question about the user fails for want of one. -/
structure Answered (itemDb : ItemDB ι) (order : TrendsSort) (options : ModelOptions) (model : Model υ ι Trends)
    (userId : UInt64) : Prop where
  mixed : model.mixture options userId ≠ []
  marshaled : ∀ requestNum dist draws turns failure dist',
    model.marshalUserInterests order options ⟨userId, requestNum⟩ dist draws turns = .ok (some (.error failure, dist')) →
      failure.code ≠ .corruption
  weighed : ∀ itemId power failure power',
    model.queryCategoryWeight itemDb order options ⟨userId, itemId⟩ power = (.error failure, power') →
      failure.code ≠ .corruption

/-- A mixture of something is enough. -/
theorem answered_of_mixed (itemDb : ItemDB ι) (order : TrendsSort) (mixed : model.mixture options userId ≠ []) :
    Answered itemDb order options model userId := by
  have predicted := predictUserInterests_eq order options model userId
  rw [if_neg mixed] at predicted
  refine ⟨mixed, fun requestNum dist draws turns failure dist' marshaled => ?_,
    fun itemId power failure power' weighed => ?_⟩
  · simp only [marshalUserInterests, predicted] at marshaled
    split at marshaled
    · cases marshaled
    · obtain ⟨results, run, outcome⟩ := Except.bind_inv marshaled
      cases results with
      | none => cases outcome
      | some results =>
        obtain ⟨failure' | _, interests⟩ := results
        · simp only [Marshaler.marshal] at run
          split at run
          · cases run
          · obtain ⟨shuffle, -, run⟩ := Except.bind_inv run
            obtain ⟨filled, -, run⟩ := Except.bind_inv run
            cases filled <;> cases run
        · cases outcome
  · simp only [queryCategoryWeight, predicted] at weighed
    cases weighed

/-- An empty mixture is reported, and nothing is added to the trends. -/
theorem predictUserInterests_of_nil (order : TrendsSort) (nothing : model.mixture options userId = [])
    (trends : VectorPair) : model.predictUserInterests order options userId trends =
      (.error ⟨.corruption, "PredictUserInterests failed: mix dist=0"⟩, trends) := by
  have mixed : model.predictDistribution options userId ⟨0, []⟩ = (.ok (), ⟨0, model.mixture options userId⟩) := rfl
  rw [predictUserInterests, mixed, nothing]
  rfl

/-- With a table and served trends, exactly the users are answered that have no long-term interests or have one in a
category of the table. Any other is told so: nothing is mixed, and that is reported. -/
theorem answered_iff (itemDb : ItemDB ι) (order : TrendsSort) (options : ModelOptions) (table : model.category ≠ ∅)
    (served : model.newsTrends.fields.mapDist ≠ ∅) (userId : UInt64) :
    (Answered itemDb order options model userId ↔ model.longTermInterests userId = ∅ ∨
      ∃ category ∈ model.category, category ∈ model.longTermInterests userId) ∧
    (¬ Answered itemDb order options model userId → model.mixture options userId = [] ∧
      ∀ trends, model.predictUserInterests order options userId trends =
        (.error ⟨.corruption, "PredictUserInterests failed: mix dist=0"⟩, trends)) := by
  have mixed : model.mixture options userId ≠ [] ↔ model.longTermInterests userId = ∅ ∨
      ∃ category ∈ model.category, category ∈ model.longTermInterests userId := by
    rw [ne_eq, mixture_eq_nil_iff table served]
    push Not
    exact imp_iff_not_or.trans (or_congr_left not_not)
  have answered : Answered itemDb order options model userId ↔ model.mixture options userId ≠ [] :=
    ⟨Answered.mixed, answered_of_mixed itemDb order⟩
  refine ⟨answered.trans mixed, fun unanswered => ?_⟩
  have nothing : model.mixture options userId = [] := not_not.mp (unanswered ∘ answered.mpr)
  exact ⟨nothing, predictUserInterests_of_nil order nothing⟩

/-- The news trends that are served when category 1 alone was clicked, beside what is remembered of user 1. -/
def trending (interests : List (Int32 × ℚ)) : Model Unit Unit Trends :=
  { remembered interests with
    category := (∅ : ExtTreeMap Int32 Bytes).insert 1 []
    newsTrends := { NewsTrends.new { workPath := "" } with fields := ⟨{ workPath := "" }, 0, ∅, (∅ : Tally Int32).insert 1 1⟩ } }

/-- An item table without items. -/
def noItems : ItemDB Unit := ⟨fun _ _ => .error ⟨.notFound, ""⟩, fun _ => ⟨.category, 0⟩, fun items _ => (.ok (), items),
  fun items => (.ok (), items), fun items => (.ok (), items)⟩

/-- Interests in category 1 are an answer, in category 2 they are none. -/
theorem answered_known : Answered noItems insertedTrends { workPath := "" } (trending [(1, 1)]) 1 ∧
    ¬ Answered noItems insertedTrends { workPath := "" } (trending [(2, 1)]) 1 := by
  constructor
  · exact (answered_iff noItems insertedTrends { workPath := "" } (by decide +kernel) (by decide +kernel) 1).1.mpr
      (.inr ⟨1, by decide +kernel, by decide +kernel⟩)
  · intro answered
    rcases (answered_iff noItems insertedTrends { workPath := "" } (by decide +kernel) (by decide +kernel) 1).1.mp answered
      with none_ | ⟨category, inTable, interested⟩
    · exact absurd none_ (by decide +kernel)
    · obtain rfl : 1 = category := by simpa [trending] using inTable
      exact absurd interested (by decide +kernel)

/-- A user whose interests are all in categories that the table has no more gets no answer. -/
theorem forgotten_category_unanswered :
    (trending [(2, 1)]).category ≠ ∅ ∧ (trending [(2, 1)]).newsTrends.fields.mapDist ≠ ∅ ∧
      (trending [(2, 1)]).predictUserInterests insertedTrends { workPath := "" } 1 [] =
        (.error ⟨.corruption, "PredictUserInterests failed: mix dist=0"⟩, []) :=
  ⟨by decide +kernel, by decide +kernel, by decide +kernel⟩

end Model

end ContentBased
