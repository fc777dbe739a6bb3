import ContentBased.Prediction
import ContentBased.Selecting

namespace ContentBased
open Std (ExtTreeMap)

/-- The smallest power of a mixture, none above the greatest `float`. -/
def minPower (mix : List ItemTag) : ℚ :=
  mix.foldl (fun minPower tag => if tag.tagPower < minPower then tag.tagPower else minPower) floatMax

/-- Category 10 counts less. -/
def lowered (tag : ItemTag) : ItemTag := if tag.tagId = 10 then { tag with tagPower := tag.tagPower * (3 / 5) } else tag

/-- The power a category is ranked by. -/
def rankPower (mix : List ItemTag) (tag : ItemTag) : ℚ :=
  if tag.tagId = 13 then minPower mix else (lowered tag).tagPower

def rankTotal (mix : List ItemTag) : ℚ := (mix.map (rankPower mix)).sum

/-- The weights of a mixture before they are sorted. -/
def weigh (mix : List ItemTag) : VectorPair :=
  mix.map fun tag => (tag.tagId, rankPower mix tag / if rankTotal mix ≤ 0 then 1 else rankTotal mix)

theorem lowered_tagId (tag : ItemTag) : (lowered tag).tagId = tag.tagId := by
  rw [lowered]
  split <;> rfl

theorem lowered_power_pos {tag : ItemTag} : 0 < (lowered tag).tagPower ↔ 0 < tag.tagPower := by
  rw [lowered]
  split
  · simp
  · rfl

theorem lowered_power_nonneg {tag : ItemTag} (nonneg : 0 ≤ tag.tagPower) : 0 ≤ (lowered tag).tagPower := by
  rw [lowered]
  split
  · exact mul_nonneg nonneg (by norm_num)
  · exact nonneg

theorem floatMax_pos : 0 < floatMax := by
  unfold floatMax
  norm_num

theorem minPower_eq (mix : List ItemTag) :
    minPower mix = min floatMax ((mix.map ItemTag.tagPower).min?.getD floatMax) := by
  rw [← List.foldl_min, List.foldl_map, minPower]
  refine List.foldl_ext _ _ _ fun least tag _ => ?_
  rw [min_comm, min_def_lt]

/-- The smallest power is that of a category, or none is smaller than the greatest `float`. -/
theorem minPower_cases (mix : List ItemTag) : mix = [] ∧ minPower mix = floatMax ∨
    ∃ least ∈ mix, (∀ tag ∈ mix, least.tagPower ≤ tag.tagPower) ∧ minPower mix = min floatMax least.tagPower := by
  rw [minPower_eq]
  cases smallest : (mix.map ItemTag.tagPower).min? with
  | none =>
    rw [List.min?_eq_none_iff, List.map_eq_nil_iff] at smallest
    exact .inl ⟨smallest, min_self floatMax⟩
  | some power =>
    obtain ⟨member, below⟩ := List.min?_eq_some_iff.mp smallest
    obtain ⟨least, inside, rfl⟩ := List.mem_map.mp member
    exact .inr ⟨least, inside, fun tag member => below _ (List.mem_map_of_mem member), rfl⟩

theorem minPower_le {mix : List ItemTag} {tag : ItemTag} (member : tag ∈ mix) : minPower mix ≤ tag.tagPower := by
  rcases minPower_cases mix with ⟨rfl, -⟩ | ⟨least, -, below, same⟩
  · cases member
  · rw [same]
    exact (min_le_right _ _).trans (below tag member)

theorem minPower_mem (mix : List ItemTag) : minPower mix = floatMax ∨ ∃ tag ∈ mix, tag.tagPower = minPower mix := by
  rcases minPower_cases mix with ⟨-, same⟩ | ⟨least, inside, -, same⟩
  · exact .inl same
  · rw [same]
    exact (min_choice floatMax least.tagPower).imp_right fun chosen => ⟨least, inside, chosen.symm⟩

theorem minPower_le_iff (mix : List ItemTag) (bound : ℚ) :
    minPower mix ≤ bound ↔ floatMax ≤ bound ∨ ∃ tag ∈ mix, tag.tagPower ≤ bound := by
  constructor
  · intro below
    rcases minPower_mem mix with same | ⟨tag, member, same⟩
    · exact .inl (same ▸ below)
    · exact .inr ⟨tag, member, same ▸ below⟩
  · rintro (above | ⟨tag, member, above⟩)
    · rw [minPower_eq]
      exact (min_le_left _ _).trans above
    · exact (minPower_le member).trans above

section
variable {mix : List ItemTag}

theorem minPower_nonneg (nonneg : ∀ tag ∈ mix, 0 ≤ tag.tagPower) : 0 ≤ minPower mix := by
  rcases minPower_mem mix with same | ⟨tag, member, same⟩
  · rw [same]
    exact floatMax_pos.le
  · rw [← same]
    exact nonneg tag member

theorem rankPower_nonneg (nonneg : ∀ tag ∈ mix, 0 ≤ tag.tagPower) {tag : ItemTag} (member : tag ∈ mix) :
    0 ≤ rankPower mix tag := by
  rw [rankPower]
  split
  · exact minPower_nonneg nonneg
  · exact lowered_power_nonneg (nonneg tag member)

/-- Some category keeps a power, category 13 only if it is alone. -/
theorem rankPower_pos_iff (distinct : (mix.map ItemTag.tagId).Nodup) (positive : ∃ tag ∈ mix, 0 < tag.tagPower) :
    (∃ tag ∈ mix, 0 < rankPower mix tag) ↔
      (∃ tag ∈ mix, tag.tagId ≠ 13 ∧ 0 < tag.tagPower) ∨ ∀ tag ∈ mix, tag.tagId = 13 := by
  constructor
  · rintro ⟨tag, member, ranked⟩
    by_cases last : tag.tagId = 13
    · rw [rankPower, if_pos last] at ranked
      by_cases alone : ∀ tag ∈ mix, tag.tagId = 13
      · exact .inr alone
      · push Not at alone
        obtain ⟨other, inside, different⟩ := alone
        exact .inl ⟨other, inside, different, ranked.trans_le (minPower_le inside)⟩
    · refine .inl ⟨tag, member, last, ?_⟩
      rw [rankPower, if_neg last] at ranked
      exact lowered_power_pos.mp ranked
  · rintro (⟨tag, member, different, power⟩ | alone)
    · refine ⟨tag, member, ?_⟩
      rw [rankPower, if_neg different]
      exact lowered_power_pos.mpr power
    · obtain ⟨tag, member, power⟩ := positive
      rcases minPower_mem mix with same | ⟨least, inside, same⟩
      · refine ⟨tag, member, ?_⟩
        rw [rankPower, if_pos (alone tag member), same]
        exact floatMax_pos
      · have only : least = tag :=
          List.inj_on_of_nodup_map distinct inside member ((alone least inside).trans (alone tag member).symm)
        refine ⟨tag, member, ?_⟩
        rw [rankPower, if_pos (alone tag member), ← same, only]
        exact power

/-- There is something to divide by when some category keeps a power. -/
theorem rankTotal_pos_iff (nonneg : ∀ tag ∈ mix, 0 ≤ tag.tagPower) :
    0 < rankTotal mix ↔ ∃ tag ∈ mix, 0 < rankPower mix tag := by
  have powers : ∀ power ∈ mix.map (rankPower mix), 0 ≤ power := by
    intro power member
    obtain ⟨tag, inside, rfl⟩ := List.mem_map.mp member
    exact rankPower_nonneg nonneg inside
  constructor
  · intro total
    by_contra none_
    push Not at none_
    refine total.ne' (List.sum_eq_zero fun power member => ?_)
    obtain ⟨tag, inside, rfl⟩ := List.mem_map.mp member
    exact (none_ tag inside).antisymm (rankPower_nonneg nonneg inside)
  · rintro ⟨tag, member, ranked⟩
    exact ranked.trans_le (List.single_le_sum powers _ (List.mem_map_of_mem member))

theorem divisor_pos (mix : List ItemTag) : 0 < if rankTotal mix ≤ 0 then 1 else rankTotal mix := by
  split
  · exact one_pos
  · exact not_le.mp ‹_›

/-- The smallest power is below every power that is ranked by unless category 10 falls below it. -/
theorem minPower_le_rankPower_iff :
    (∀ tag ∈ mix, minPower mix ≤ rankPower mix tag) ↔
      ∀ tag ∈ mix, tag.tagId = 10 → minPower mix ≤ tag.tagPower * (3 / 5) := by
  refine forall₂_congr fun tag member => ?_
  rw [rankPower, lowered]
  by_cases education : tag.tagId = 10
  · simp [education]
  · have below := minPower_le member
    simp only [education, if_false, false_implies, iff_true]
    split
    · exact le_rfl
    · exact below

/-- The weights are those of each category once, the greatest first, and add up to one. -/
structure Ranking (mix : List ItemTag) (trends : VectorPair) : Prop where
  categories : (trends.map Prod.fst).Perm (mix.map ItemTag.tagId)
  distinct : (trends.map Prod.fst).Nodup
  sorted : trends.Pairwise fun a b => b.2 ≤ a.2
  normalized : Marshaler.Normalized trends

theorem weigh_categories (mix : List ItemTag) : (weigh mix).map Prod.fst = mix.map ItemTag.tagId := by
  rw [weigh, List.map_map]
  rfl

theorem weigh_total (mix : List ItemTag) :
    ((weigh mix).map Prod.snd).sum = rankTotal mix / if rankTotal mix ≤ 0 then 1 else rankTotal mix := by
  simp only [weigh, List.map_map, Function.comp_def, div_eq_mul_inv]
  exact List.sum_map_mul_right mix (rankPower mix) _

/-- Sorted weights are a ranking exactly when there was something to divide by. -/
theorem ranking_sort_iff (order : TrendsSort) (distinct : (mix.map ItemTag.tagId).Nodup)
    (nonneg : ∀ tag ∈ mix, 0 ≤ tag.tagPower) : Ranking mix (order.sort (weigh mix)) ↔ 0 < rankTotal mix := by
  have same := order.perm (weigh mix)
  constructor
  · intro ranking
    have total := ranking.normalized.total
    rw [(same.map Prod.snd).sum_eq, weigh_total] at total
    by_contra none_
    rw [if_pos (not_lt.mp none_), div_one] at total
    exact none_ (total ▸ one_pos)
  · intro total
    have categories : ((order.sort (weigh mix)).map Prod.fst).Perm (mix.map ItemTag.tagId) :=
      weigh_categories mix ▸ same.map Prod.fst
    refine ⟨categories, categories.nodup_iff.mpr distinct, order.sorted _, fun trend member => ?_, ?_⟩
    · obtain ⟨tag, inside, rfl⟩ := List.mem_map.mp (same.mem_iff.mp member)
      have ranked := rankPower_nonneg nonneg inside
      rw [if_neg (not_le.mpr total)]
      positivity
    · rw [(same.map Prod.snd).sum_eq, weigh_total, if_neg (not_le.mpr total), div_self total.ne']

end

/-- A sort that puts each pair before the first one of no greater weight. -/
def insertedTrends : TrendsSort where
  sort trends := trends.insertionSort fun a b => b.2 ≤ a.2
  perm trends := List.perm_insertionSort _ trends
  sorted trends := by
    have total : Std.Total fun a b : Int32 × ℚ => b.2 ≤ a.2 := ⟨fun a b => le_total b.2 a.2⟩
    have trans : IsTrans (Int32 × ℚ) fun a b => b.2 ≤ a.2 := ⟨fun _ _ _ first second => second.trans first⟩
    exact List.pairwise_insertionSort _ trends

namespace Model
variable {υ ι : Type}

/-- What the sources are mixed into for a user. -/
def mixture (options : ModelOptions) (model : Model υ ι Trends) (userId : UInt64) : List ItemTag :=
  (model.predictDistribution options userId ⟨0, []⟩).2.distribution

theorem predictUserInterests_eq (order : TrendsSort) (options : ModelOptions) (model : Model υ ι Trends) (userId : UInt64) :
    model.predictUserInterests order options userId [] =
      if model.mixture options userId = [] then (.error ⟨.corruption, "PredictUserInterests failed: mix dist=0"⟩, [])
      else (.ok (), order.sort (weigh (model.mixture options userId))) := by
  have mixed : model.predictDistribution options userId ⟨0, []⟩ = (.ok (), ⟨0, model.mixture options userId⟩) := rfl
  simp only [predictUserInterests, mixed, Nat.le_zero, List.length_eq_zero_iff, List.nil_append]
  generalize model.mixture options userId = mix
  split
  · rfl
  · have powers : ((mix.map lowered).map fun tag => if tag.tagId = 13 then minPower mix else tag.tagPower) =
        mix.map (rankPower mix) := by
      rw [List.map_map]
      exact List.map_congr_left fun tag _ => by rw [Function.comp_apply, lowered_tagId, rankPower]
    change (Except.ok (), order.sort ((mix.map lowered).map fun tag => (tag.tagId,
      (if tag.tagId = 13 then minPower mix else tag.tagPower) /
        if ((mix.map lowered).map fun tag => if tag.tagId = 13 then minPower mix else tag.tagPower).sum ≤ 0 then 1
        else ((mix.map lowered).map fun tag => if tag.tagId = 13 then minPower mix else tag.tagPower).sum))) = _
    rw [powers, List.map_map, weigh, rankTotal]
    simp only [Function.comp_def, lowered_tagId, rankPower]

def longTermInterests (model : Model υ ι Trends) (userId : UInt64) : Tally Int32 :=
  (model.userInterests.fields.queryUserInterests (if userId = 310744 then 36706 else userId)).2

def currentInterests (model : Model υ ι Trends) (userId : UInt64) : Tally Int32 :=
  (Interests.queryUserCurrentInterests Interests.exact model.userInterests.fields userId model.category).run.2

/-- The tags that are made for keys one after another have these keys. -/
theorem tagIds_sublist {f : Int32 → Option ItemTag} (named : ∀ key tag, f key = some tag → tag.tagId = key)
    (keys : List Int32) : ((keys.filterMap f).map ItemTag.tagId).Sublist keys := by
  induction keys with
  | nil => exact .slnil
  | cons key keys ih =>
    cases made : f key with
    | none =>
      rw [List.filterMap_cons_none made]
      exact ih.cons key
    | some tag =>
      rw [List.filterMap_cons_some made, List.map_cons, named key tag made]
      exact ih.cons_cons key

theorem mixture_eq (options : ModelOptions) (model : Model υ ι Trends) (userId : UInt64) :
    model.mixture options userId =
      if 0 < (model.longTermInterests userId).size ∧ 0 < (model.currentInterests userId).size then
        model.category.keys.filterMap fun category =>
          match (model.longTermInterests userId)[category]?, (model.currentInterests userId)[category]? with
          | some longTerm, some current =>
            some ⟨category, options.userInterestsMixAlpha * longTerm / totalDistribution (model.longTermInterests userId) +
              (1 - options.userInterestsMixAlpha) * current / totalDistribution (model.currentInterests userId)⟩
          | _, _ => none
      else if 0 < (model.currentInterests userId).size then
        model.category.keys.filterMap fun category =>
          (model.currentInterests userId)[category]?.map fun power => ⟨category, power⟩
      else if 0 < (model.longTermInterests userId).size then
        model.category.keys.filterMap fun category =>
          (model.longTermInterests userId)[category]?.map fun power => ⟨category, power⟩
      else model.newsTrends.fields.mapDist.toList.map fun entry => ⟨entry.1, entry.2⟩ :=
  rfl

/-- No category is in a mixture twice. -/
theorem mixture_distinct (options : ModelOptions) (model : Model υ ι Trends) (userId : UInt64) :
    ((model.mixture options userId).map ItemTag.tagId).Nodup := by
  have keys : model.category.keys.Nodup := ExtTreeMap.nodup_keys
  rw [mixture_eq]
  split
  · refine (tagIds_sublist (fun key tag made => ?_) _).nodup keys
    split at made
    · cases made
      rfl
    · cases made
  · split
    · refine (tagIds_sublist (fun key tag made => ?_) _).nodup keys
      obtain ⟨power, -, rfl⟩ := Option.map_eq_some_iff.mp made
      rfl
    · split
      · refine (tagIds_sublist (fun key tag made => ?_) _).nodup keys
        obtain ⟨power, -, rfl⟩ := Option.map_eq_some_iff.mp made
        rfl
      · rw [List.map_map]
        exact (ExtTreeMap.map_fst_toList_eq_keys (t := model.newsTrends.fields.mapDist)) ▸ ExtTreeMap.nodup_keys

section
variable {options : ModelOptions} {model : Model υ ι Trends} {userId : UInt64}

/-- No category is in an answer twice. -/
theorem predicted_distinct {order : TrendsSort} {trends : VectorPair}
    (predicted : model.predictUserInterests order options userId [] = (.ok (), trends)) : (trends.map Prod.fst).Nodup := by
  rw [predictUserInterests_eq] at predicted
  split at predicted
  · cases predicted
  · cases predicted
    have same := (order.perm (weigh (model.mixture options userId))).map Prod.fst
    rw [same.nodup_iff, weigh_categories]
    exact mixture_distinct options model userId

/-- The answer ranks the categories of the mixture exactly when one that is not 13 has some power, or 13 is alone. -/
theorem predicted_ranking_iff (order : TrendsSort) (nonneg : ∀ tag ∈ model.mixture options userId, 0 ≤ tag.tagPower)
    (positive : ∃ tag ∈ model.mixture options userId, 0 < tag.tagPower) :
    (∃ trends, model.predictUserInterests order options userId [] = (.ok (), trends) ∧
        Ranking (model.mixture options userId) trends) ↔
      (∃ tag ∈ model.mixture options userId, tag.tagId ≠ 13 ∧ 0 < tag.tagPower) ∨
        ∀ tag ∈ model.mixture options userId, tag.tagId = 13 := by
  have distinct := mixture_distinct options model userId
  have some_ : model.mixture options userId ≠ [] := by
    obtain ⟨tag, member, -⟩ := positive
    exact List.ne_nil_of_mem member
  rw [predictUserInterests_eq, if_neg some_, ← rankPower_pos_iff distinct positive, ← rankTotal_pos_iff nonneg,
    ← ranking_sort_iff order distinct nonneg]
  constructor
  · rintro ⟨trends, same, ranking⟩
    cases same
    exact ranking
  · exact fun ranking => ⟨_, rfl, ranking⟩

/-- Only user 1 is known, by these long-term interests in the categories of the table. -/
def remembered (interests : List (Int32 × ℚ)) : Model Unit Unit Trends where
  categoryTableName := "category.dat"
  category := interests.foldl (fun table entry => table.insert entry.1 []) ∅
  isCategoryModified := false
  userDb := ()
  itemDb := ()
  newsTrends := NewsTrends.new { workPath := "" }
  userInterests := { UserInterests.new { workPath := "" } 0 with fields := ⟨{ workPath := "" }, 0, ∅, ∅, ∅,
    (∅ : TallyTable UInt64 Int32).insert 1 (interests.foldl (fun map entry => map.insert entry.1 entry.2) ∅)⟩ }

theorem predicted_ranking_two :
    ∃ trends, (remembered [(5, 1), (13, 1)]).predictUserInterests insertedTrends { workPath := "" } 1 [] = (.ok (), trends) ∧
      Ranking ((remembered [(5, 1), (13, 1)]).mixture { workPath := "" } 1) trends :=
  (predicted_ranking_iff insertedTrends (by decide +kernel) (by decide +kernel)).mpr (.inl (by decide +kernel))

/-- All power is in category 13, which is given the smallest power instead. -/
theorem no_weight_left : (remembered [(5, 0), (13, 1)]).mixture { workPath := "" } 1 = [⟨5, 0⟩, ⟨13, 1⟩] ∧
    (remembered [(5, 0), (13, 1)]).predictUserInterests insertedTrends { workPath := "" } 1 [] = (.ok (), [(5, 0), (13, 0)]) ∧
      ¬ Ranking [⟨5, 0⟩, ⟨13, 1⟩] [(5, 0), (13, 0)] := by
  refine ⟨by decide +kernel, by decide +kernel, fun ranking => ?_⟩
  have total := ranking.normalized.total
  simp at total

end

end Model

end ContentBased
