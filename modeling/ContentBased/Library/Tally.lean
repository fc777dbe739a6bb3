import Mathlib

/-- When entries only fill keys that are free, a key has its old value or that of its first entry. -/
theorem Std.ExtTreeMap.getElem?_foldl_insertIfNew {κ β ρ : Type} [Ord κ] [TransOrd κ] [LawfulEqOrd κ] [DecidableEq κ]
    (key : ρ → κ) (value : ρ → β) (entries : List ρ) (map : ExtTreeMap κ β) (k : κ) :
    (entries.foldl (fun map entry => map.insertIfNew (key entry) (value entry)) map)[k]? =
      map[k]?.or ((entries.find? fun entry => key entry = k).map value) := by
  induction entries generalizing map with
  | nil => simp
  | cons entry entries ih =>
    rw [List.foldl_cons, ih, ExtTreeMap.getElem?_insertIfNew, List.find?_cons]
    by_cases same : key entry = k
    · subst same
      cases present : map[key entry]? with
      | none =>
        have absent : ¬ key entry ∈ map := by simpa using present
        simp [absent]
      | some old =>
        have member : key entry ∈ map := ExtTreeMap.mem_iff_isSome_getElem?.mpr (by rw [present]; rfl)
        simp [member]
    · simp [same]

/-- Each key of a list is entered with its value. -/
theorem Std.ExtTreeMap.getElem?_foldl_insertIfNew_of_mem {κ β : Type} [Ord κ] [TransOrd κ] [LawfulEqOrd κ]
    [DecidableEq κ] (value : κ → β) {keys : List κ} {map : ExtTreeMap κ β} {k : κ} (free : map[k]? = none)
    (member : k ∈ keys) : (keys.foldl (fun map key => map.insertIfNew key (value key)) map)[k]? = some (value k) := by
  rw [getElem?_foldl_insertIfNew (fun key => key) value, free, Option.none_or]
  cases found : keys.find? fun key => key = k with
  | none =>
    have missing := List.find?_eq_none.mp found k member
    simp at missing
  | some key =>
    have same : key = k := by simpa using List.find?_some found
    rw [same, Option.map_some]

theorem Std.ExtTreeMap.mem_foldl_insertIfNew {κ β : Type} [Ord κ] [TransOrd κ] [LawfulEqOrd κ] (value : κ → β)
    (keys : List κ) (map : ExtTreeMap κ β) (k : κ) :
    k ∈ keys.foldl (fun map key => map.insertIfNew key (value key)) map ↔ k ∈ keys ∨ k ∈ map := by
  induction keys generalizing map with
  | nil => simp
  | cons key keys ih =>
    rw [List.foldl_cons, ih, ExtTreeMap.mem_insertIfNew, compare_eq_iff_eq, List.mem_cons]
    tauto

/-- When entries replace earlier ones, a key has the value of its last entry. -/
theorem Std.ExtTreeMap.getElem?_foldl_insert {κ β : Type} [Ord κ] [TransOrd κ] [LawfulEqOrd κ] [DecidableEq κ]
    (entries : List (κ × β)) (map : ExtTreeMap κ β) (k : κ) :
    (entries.foldl (fun map entry => map.insert entry.1 entry.2) map)[k]? =
      (entries.reverse.lookup k).or map[k]? := by
  induction entries generalizing map with
  | nil => simp
  | cons entry entries ih =>
    obtain ⟨key, value⟩ := entry
    rw [List.foldl_cons, ih, List.reverse_cons, List.lookup_append, Option.or_assoc, ExtTreeMap.getElem?_insert]
    refine congrArg _ ?_
    by_cases same : key = k
    · subst same
      simp
    · have other : (k == key) = false := beq_false_of_ne (Ne.symm same)
      simp [same, List.lookup_cons, other]

/-- Two keys can be given new values in either order, and so can one key when the values do not tell. -/
theorem Std.ExtTreeMap.insert_insert_comm {κ β : Type} [Ord κ] [TransOrd κ] [LawfulEqOrd κ] [DecidableEq κ]
    {f g : Option β → β} {k k' : κ} (map : ExtTreeMap κ β) (same : k = k' → ∀ old, f (some (g old)) = g (some (f old))) :
    (map.insert k' (g map[k']?)).insert k (f (map.insert k' (g map[k']?))[k]?) =
      (map.insert k (f map[k]?)).insert k' (g (map.insert k (f map[k]?))[k']?) := by
  refine ExtTreeMap.ext_getElem? fun key => ?_
  simp only [ExtTreeMap.getElem?_insert, compare_eq_iff_eq]
  by_cases apart : k = k'
  · subst apart
    simp only [if_true, same rfl]
    split <;> rfl
  · simp only [apart, Ne.symm apart, if_false]
    by_cases first : k = key
    · have second : ¬ k' = key := fun other => apart (first.trans other.symm)
      simp only [first, second, if_true, if_false]
    · simp only [first, if_false]

theorem List.mem_of_lookup_eq_some {κ β : Type} [DecidableEq κ] {entries : List (κ × β)} {key : κ} {value : β}
    (found : entries.lookup key = some value) : (key, value) ∈ entries := by
  obtain ⟨before, after, rfl, -⟩ := List.lookup_eq_some_iff.mp found
  exact List.mem_append_right _ List.mem_cons_self

/-- The entries of a map make it up. -/
theorem Std.ExtTreeMap.foldl_insert_toList {κ β : Type} [Ord κ] [TransOrd κ] [LawfulEqOrd κ] [DecidableEq κ]
    (map : ExtTreeMap κ β) : map.toList.foldl (fun map entry => map.insert entry.1 entry.2) ∅ = map := by
  refine ExtTreeMap.ext_getElem? fun k => ?_
  rw [getElem?_foldl_insert, ExtTreeMap.getElem?_empty, Option.or_none]
  cases found : map.toList.reverse.lookup k with
  | some value =>
    have member := List.mem_reverse.mp (List.mem_of_lookup_eq_some found)
    exact (ExtTreeMap.mem_toList_iff_getElem?_eq_some.mp member).symm
  | none =>
    cases present : map[k]? with
    | none => rfl
    | some value =>
      have member := List.mem_reverse.mpr (ExtTreeMap.mem_toList_iff_getElem?_eq_some.mpr present)
      have other := List.lookup_eq_none_iff.mp found _ member
      simp at other

/-- Entries that leave every map as it is are none. -/
theorem Std.ExtTreeMap.forall_foldl_insert_eq_self_iff {κ β : Type} [Ord κ] [TransOrd κ] [LawfulEqOrd κ]
    [DecidableEq κ] (entries : List (κ × β)) :
    (∀ map : ExtTreeMap κ β, entries.foldl (fun map entry => map.insert entry.1 entry.2) map = map) ↔ entries = [] := by
  constructor
  · intro same
    by_contra nonempty
    obtain ⟨entry, more, first⟩ := List.exists_cons_of_ne_nil nonempty
    have unchanged := getElem?_foldl_insert entries ∅ entry.1
    rw [same ∅, ExtTreeMap.getElem?_empty, Option.or_none] at unchanged
    have missing := List.lookup_eq_none_iff.mp unchanged.symm entry (by rw [first]; simp)
    simp at missing
  · intro empty map
    rw [empty, List.foldl_nil]

/-- Entries that do to every map what one entry does have its key, and the last of them has its value. -/
theorem Std.ExtTreeMap.forall_foldl_insert_eq_insert_iff {κ β : Type} [Ord κ] [TransOrd κ] [LawfulEqOrd κ]
    [DecidableEq κ] (entries : List (κ × β)) (key : κ) (value : β) :
    (∀ map : ExtTreeMap κ β,
        entries.foldl (fun map entry => map.insert entry.1 entry.2) map = map.insert key value) ↔
      (∀ entry ∈ entries, entry.1 = key) ∧ entries.getLast?.map Prod.snd = some value := by
  rw [List.getLast?_eq_head?_reverse]
  constructor
  · intro same
    have found (k : κ) : entries.reverse.lookup k = if key = k then some value else none := by
      have changed := getElem?_foldl_insert entries ∅ k
      rw [same ∅, ExtTreeMap.getElem?_insert, ExtTreeMap.getElem?_empty, Option.or_none] at changed
      simpa using changed.symm
    have keys : ∀ entry ∈ entries, entry.1 = key := by
      intro entry member
      by_contra other
      have missing := found entry.1
      rw [if_neg (Ne.symm other)] at missing
      have absent := List.lookup_eq_none_iff.mp missing entry (List.mem_reverse.mpr member)
      simp at absent
    refine ⟨keys, ?_⟩
    have last := found key
    rw [if_pos rfl] at last
    cases order : entries.reverse with
    | nil =>
      rw [order] at last
      cases last
    | cons entry more =>
      obtain ⟨k, v⟩ := entry
      have here : k = key := keys (k, v) (by rw [← List.mem_reverse, order]; exact List.mem_cons_self)
      subst here
      rw [order, List.lookup_cons_self] at last
      exact last
  · rintro ⟨keys, last⟩ map
    refine ExtTreeMap.ext_getElem? fun k => ?_
    rw [getElem?_foldl_insert, ExtTreeMap.getElem?_insert]
    by_cases here : key = k
    · subst here
      cases order : entries.reverse with
      | nil =>
        rw [order] at last
        cases last
      | cons entry more =>
        obtain ⟨k, v⟩ := entry
        have first : k = key := keys (k, v) (by rw [← List.mem_reverse, order]; exact List.mem_cons_self)
        subst first
        rw [order] at last
        have named : v = value := Option.some.inj last
        simp [named]
    · have missing : entries.reverse.lookup k = none := by
        refine List.lookup_eq_none_iff.mpr fun entry member => ?_
        rw [keys entry (List.mem_reverse.mp member)]
        simpa using Ne.symm here
      simp [missing, here]

/-- A sum over the entries of a map is a sum over its keys. -/
theorem Std.ExtTreeMap.sum_toList {κ β M : Type} [Ord κ] [TransOrd κ] [LawfulEqOrd κ] [DecidableEq κ] [AddCommMonoid M]
    (map : ExtTreeMap κ β) (fallback : β) (f : κ → β → M) :
    (map.toList.map fun entry => f entry.1 entry.2).sum = ∑ key ∈ map.keys.toFinset, f key (map.getD key fallback) := by
  rw [List.sum_toFinset _ ExtTreeMap.nodup_keys, ← ExtTreeMap.map_fst_toList_eq_keys, List.map_map]
  refine congrArg List.sum (List.map_congr_left fun entry member => ?_)
  have present := ExtTreeMap.mem_toList_iff_getElem?_eq_some.mp member
  rw [Function.comp_apply, ExtTreeMap.getD_eq_getD_getElem?, present, Option.getD_some]

theorem List.mem_filterMap_snoc {α β : Type} {f : α → Option β} {xs : List α} {x : α} {y : β} :
    y ∈ (xs ++ [x]).filterMap f ↔ f x = some y ∨ y ∈ xs.filterMap f := by
  simp [or_comm]

theorem List.count_filterMap_snoc {α β : Type} [DecidableEq β] (f : α → Option β) (xs : List α) (x : α) (y : β) :
    ((xs ++ [x]).filterMap f).count y = (xs.filterMap f).count y + if f x = some y then 1 else 0 := by
  rw [List.filterMap_append, List.count_append]
  cases here : f x with
  | none => simp [here]
  | some z => by_cases same : z = y <;> simp [here, same]

/-- Finite maps from keys to numbers. -/
abbrev Tally (κ : Type) [Ord κ] := Std.ExtTreeMap κ ℚ

namespace Tally
open Std
variable {κ : Type} [Ord κ] [TransOrd κ] [LawfulEqOrd κ]

/-- Adds to the number of a key, or enters the key with it. -/
def raise (tally : Tally κ) (key : κ) (amount : ℚ) : Tally κ :=
  match tally[key]? with
  | some value => tally.insert key (value + amount)
  | none => tally.insert key amount

/-- The numbers of all keys added up. -/
def total (tally : Tally κ) : ℚ := (tally.toList.map Prod.snd).sum

variable [DecidableEq κ]

theorem getD_raise (tally : Tally κ) (key other : κ) (amount : ℚ) :
    (tally.raise key amount).getD other 0 = tally.getD other 0 + if key = other then amount else 0 := by
  unfold raise
  by_cases same : key = other
  · subst same
    cases present : tally[key]? with
    | none => simp [ExtTreeMap.getD_eq_getD_getElem?, present]
    | some value => simp [ExtTreeMap.getD_eq_getD_getElem?, present]
  · cases tally[key]? with
    | none => simp [ExtTreeMap.getD_insert, same]
    | some value => simp [ExtTreeMap.getD_insert, same]

omit [DecidableEq κ] in
theorem mem_raise {tally : Tally κ} {key other : κ} {amount : ℚ} :
    other ∈ tally.raise key amount ↔ key = other ∨ other ∈ tally := by
  unfold raise
  cases tally[key]? <;> simp [ExtTreeMap.mem_insert]

/-- The map gives how often each key occurs in the list, and has no key that does not. -/
def Counts (tally : Tally κ) (keys : List κ) : Prop :=
  ∀ key, tally[key]? = if keys.count key = 0 then none else some (keys.count key : ℚ)

omit [LawfulEqOrd κ] in
theorem Counts.empty : Counts (∅ : Tally κ) [] := by
  intro key
  simp

theorem Counts.raise {tally : Tally κ} {keys : List κ} (counts : Counts tally keys) (key : κ) :
    Counts (tally.raise key 1) (keys ++ [key]) := by
  intro other
  have here := counts key
  unfold Tally.raise
  rw [here, List.count_append, List.count_singleton]
  by_cases fresh : keys.count key = 0
  · simp only [fresh, if_true]
    by_cases same : key = other
    · subst same
      simp [fresh]
    · have there := counts other
      simp [ExtTreeMap.getElem?_insert, same, there]
  · simp only [fresh, if_false]
    by_cases same : key = other
    · subst same
      simp [fresh]
    · have there := counts other
      simp [ExtTreeMap.getElem?_insert, same, there]

omit [LawfulEqOrd κ] in
theorem Counts.getD {tally : Tally κ} {keys : List κ} (counts : Counts tally keys) (key : κ) :
    tally.getD key 0 = keys.count key := by
  rw [ExtTreeMap.getD_eq_getD_getElem?, counts key]
  by_cases absent : keys.count key = 0
  · simp [absent]
  · simp [absent]

/-- A sum over the entries is a sum over the keys. -/
theorem sum_toList (tally : Tally κ) (f : κ → ℚ → ℚ) :
    (tally.toList.map fun entry => f entry.1 entry.2).sum =
      ∑ key ∈ tally.keys.toFinset, f key (tally.getD key 0) :=
  ExtTreeMap.sum_toList tally 0 f

theorem Counts.keys_toFinset {tally : Tally κ} {keys : List κ} (counts : Counts tally keys) :
    tally.keys.toFinset = keys.toFinset := by
  ext key
  rw [List.mem_toFinset, List.mem_toFinset, ExtTreeMap.mem_keys, ExtTreeMap.mem_iff_isSome_getElem?, counts key,
    ← List.count_pos_iff]
  by_cases absent : keys.count key = 0
  · simp [absent]
  · simp [absent, Nat.pos_of_ne_zero absent]

/-- The counts add up to the length of the list. -/
theorem Counts.total {tally : Tally κ} {keys : List κ} (counts : Counts tally keys) : tally.total = keys.length := by
  have sum := tally.sum_toList fun _ number => number
  rw [counts.keys_toFinset] at sum
  rw [Tally.total]
  refine sum.trans ?_
  simp only [counts.getD]
  rw [← Nat.cast_sum, List.sum_toFinset_count_eq_length]

/-- The map gives the part of the keys that each of them makes up, and has no key that is not there. -/
def Shares (tally : Tally κ) (keys : Multiset κ) : Prop :=
  ∀ key, tally[key]? = if keys.count key = 0 then none else some (keys.count key / keys.card : ℚ)

theorem Counts.shares {tally : Tally κ} {keys : List κ} (counts : Counts tally keys) {size : ℚ}
    (whole : keys ≠ [] → size = keys.length) : Shares (tally.map fun _ weight => weight / size) keys := by
  intro key
  rw [ExtTreeMap.getElem?_map, counts key, Multiset.coe_count, Multiset.coe_card]
  by_cases absent : keys.count key = 0
  · simp [absent]
  · have some_ : keys ≠ [] := by
      rintro rfl
      exact absent List.count_nil
    simp [absent, whole some_]

namespace Shares
variable {tally : Tally κ} {keys : Multiset κ}

theorem unique {other : Tally κ} (first : Shares tally keys) (second : Shares other keys) : tally = other :=
  ExtTreeMap.ext_getElem? fun key => (first key).trans (second key).symm

omit [LawfulEqOrd κ] in
theorem getD (shares : Shares tally keys) (key : κ) : tally.getD key 0 = keys.count key / keys.card := by
  rw [ExtTreeMap.getD_eq_getD_getElem?, shares key]
  by_cases absent : keys.count key = 0
  · simp [absent]
  · simp [absent]

omit [LawfulEqOrd κ] in
theorem positive (shares : Shares tally keys) {key : κ} {weight : ℚ} (here : tally[key]? = some weight) : 0 < weight := by
  rw [shares key] at here
  by_cases absent : keys.count key = 0
  · simp [absent] at here
  · rw [if_neg absent] at here
    cases here
    have some_ : 0 < keys.count key := Nat.pos_of_ne_zero absent
    have within := keys.count_le_card key
    have card : 0 < keys.card := by omega
    positivity

theorem keys_toFinset (shares : Shares tally keys) : tally.keys.toFinset = keys.toFinset := by
  ext key
  rw [List.mem_toFinset, Multiset.mem_toFinset, ExtTreeMap.mem_keys, ExtTreeMap.mem_iff_isSome_getElem?, shares key,
    ← Multiset.count_pos]
  by_cases absent : keys.count key = 0
  · simp [absent]
  · simp [absent, Nat.pos_of_ne_zero absent]

/-- The shares are parts of one. -/
theorem total (shares : Shares tally keys) (some_ : keys ≠ 0) : tally.total = 1 := by
  have card : (keys.card : ℚ) ≠ 0 := by simpa using some_
  calc tally.total = ∑ key ∈ keys.toFinset, tally.getD key 0 := by
        rw [← shares.keys_toFinset]
        exact tally.sum_toList fun _ number => number
    _ = ∑ key ∈ keys.toFinset, (keys.count key : ℚ) / keys.card := by simp only [shares.getD]
    _ = (keys.card : ℚ) / keys.card := by rw [← Finset.sum_div, ← Nat.cast_sum, Multiset.toFinset_sum_count_eq]
    _ = 1 := div_self card

end Shares

/-- Two lists are counted by one map exactly when they hold the same keys equally often. -/
theorem Counts.eq_iff {left right : Tally κ} {xs ys : List κ} (first : Counts left xs) (second : Counts right ys) :
    left = right ↔ xs.Perm ys := by
  rw [List.perm_iff_count]
  constructor
  · rintro rfl key
    have same := first.getD key
    rw [second.getD key] at same
    exact_mod_cast same.symm
  · intro same
    refine ExtTreeMap.ext_getElem? fun key => ?_
    rw [first key, second key, same key]

end Tally

/-- A tally for each key of a first kind. -/
abbrev TallyTable (ι κ : Type) [Ord ι] [Ord κ] := Std.ExtTreeMap ι (Tally κ)

namespace TallyTable
open Std
variable {ι κ : Type} [DecidableEq ι]

/-- The second keys that occur with a first one. -/
def row (pairs : List (ι × κ)) (key : ι) : List κ :=
  pairs.filterMap fun pair => if pair.1 = key then some pair.2 else none

theorem count_row [DecidableEq κ] (pairs : List (ι × κ)) (key : ι) (second : κ) :
    (row pairs key).count second = pairs.count (key, second) := by
  induction pairs with
  | nil => rfl
  | cons pair rest ih =>
    rw [List.count_cons, ← ih, row, List.filterMap_cons]
    by_cases same : pair.1 = key
    · obtain ⟨first, other⟩ := pair
      subst same
      simp [row, List.count_cons]
    · have different : ¬ pair = (key, second) := fun equal => same (by rw [equal])
      simp [row, same, different]

theorem row_eq_map (pairs : List (ι × κ)) (key : ι) :
    row pairs key = (pairs.filter fun pair => pair.1 = key).map Prod.snd := by
  rw [row, ← List.filterMap_eq_map, List.filterMap_filter]
  refine List.filterMap_congr fun pair _ => ?_
  by_cases same : pair.1 = key <;> simp [same]

theorem length_row_le (pairs : List (ι × κ)) (key : ι) : (row pairs key).length ≤ pairs.length :=
  List.length_filterMap_le _ _

/-- A second key occurs with a first one no more often than at all. -/
theorem count_row_le [DecidableEq κ] (pairs : List (ι × κ)) (key : ι) (second : κ) :
    (row pairs key).count second ≤ (pairs.map Prod.snd).count second := by
  rw [row_eq_map]
  exact (List.filter_sublist.map Prod.snd).count_le second

theorem row_snoc (pairs : List (ι × κ)) (pair : ι × κ) (key : ι) :
    row (pairs ++ [pair]) key = row pairs key ++ if pair.1 = key then [pair.2] else [] := by
  rw [row, List.filterMap_append]
  by_cases same : pair.1 = key <;> simp [row, same]

variable [Ord ι] [TransOrd ι] [LawfulEqOrd ι] [Ord κ] [TransOrd κ] [DecidableEq κ]

/-- The table gives how often each pair occurs, and has no first key that does not. -/
def Counts (table : TallyTable ι κ) (pairs : List (ι × κ)) : Prop :=
  ∀ key, Tally.Counts (table.getD key ∅) (row pairs key) ∧ (key ∈ table ↔ row pairs key ≠ [])

omit [LawfulEqOrd ι] in
theorem Counts.empty : Counts (∅ : TallyTable ι κ) [] := by
  intro key
  exact ⟨by simpa [row] using Tally.Counts.empty, by simp [row]⟩

def raise (table : TallyTable ι κ) (pair : ι × κ) : TallyTable ι κ :=
  table.insert pair.1 ((table.getD pair.1 ∅).raise pair.2 1)

theorem Counts.raise [LawfulEqOrd κ] {table : TallyTable ι κ} {pairs : List (ι × κ)} (counts : Counts table pairs) (pair : ι × κ) :
    Counts (table.raise pair) (pairs ++ [pair]) := by
  intro key
  rw [row_snoc, TallyTable.raise]
  by_cases same : pair.1 = key
  · subst same
    have raised := (counts pair.1).1.raise pair.2
    exact ⟨by simpa using raised, by simp⟩
  · have there := counts key
    simpa [same, ExtTreeMap.getD_insert] using there

omit [LawfulEqOrd ι] in
theorem Counts.getD {table : TallyTable ι κ} {pairs : List (ι × κ)} (counts : Counts table pairs)
    (key : ι) (second : κ) : (table.getD key ∅).getD second 0 = pairs.count (key, second) := by
  rw [(counts key).1.getD, count_row]

theorem Counts.eq_iff [LawfulEqOrd κ] {left right : TallyTable ι κ} {xs ys : List (ι × κ)}
    (first : Counts left xs) (second : Counts right ys) : left = right ↔ xs.Perm ys := by
  constructor
  · rintro rfl
    rw [List.perm_iff_count]
    rintro ⟨key, other⟩
    have same := first.getD key other
    rw [second.getD key other] at same
    exact_mod_cast same.symm
  · intro perm
    refine ExtTreeMap.ext_getElem? fun key => ?_
    have rows : (row xs key).Perm (row ys key) := perm.filterMap _
    have tallies : left.getD key ∅ = right.getD key ∅ := ((first key).1.eq_iff (second key).1).mpr rows
    have keys : key ∈ left ↔ key ∈ right := by
      rw [(first key).2, (second key).2, ← List.length_pos_iff, ← List.length_pos_iff, rows.length_eq]
    by_cases present : key ∈ left
    · have there := keys.mp present
      rw [ExtTreeMap.getD_eq_getD_getElem?, ExtTreeMap.getD_eq_getD_getElem?,
        ExtTreeMap.getElem?_eq_some_getElem present, ExtTreeMap.getElem?_eq_some_getElem there] at tallies
      rw [ExtTreeMap.getElem?_eq_some_getElem present, ExtTreeMap.getElem?_eq_some_getElem there]
      exact congrArg some tallies
    · rw [ExtTreeMap.getElem?_eq_none present, ExtTreeMap.getElem?_eq_none fun there => present (keys.mpr there)]

omit [TransOrd κ] [DecidableEq κ] in
/-- A sum over the rows is a sum over the first keys. -/
theorem sum_rows [LawfulEqOrd κ] [TransOrd κ] (table : TallyTable ι κ) (second : κ) :
    (table.toList.map fun entry => entry.2.getD second 0).sum =
      ∑ key ∈ table.keys.toFinset, (table.getD key ∅).getD second 0 :=
  ExtTreeMap.sum_toList table ∅ fun _ row => row.getD second 0

omit [Ord ι] [TransOrd ι] [LawfulEqOrd ι] [Ord κ] [TransOrd κ] in
/-- Each pair is counted once when all first keys are gone through. -/
theorem sum_count (pairs : List (ι × κ)) (second : κ) {firsts : Finset ι} (all : ∀ pair ∈ pairs, pair.1 ∈ firsts) :
    ∑ first ∈ firsts, pairs.count (first, second) = (pairs.map Prod.snd).count second := by
  induction pairs with
  | nil => simp
  | cons pair pairs ih =>
    have rest := ih fun other member => all other (List.mem_cons_of_mem _ member)
    have here (first : ι) : (if pair == (first, second) then 1 else 0) =
        if pair.1 = first then if pair.2 = second then 1 else 0 else 0 := by
      obtain ⟨left, right⟩ := pair
      by_cases same : left = first <;> simp [same]
    simp only [List.count_cons, List.map_cons, here]
    rw [Finset.sum_add_distrib, rest, Finset.sum_ite_eq, if_pos (all pair List.mem_cons_self)]
    simp

end TallyTable
