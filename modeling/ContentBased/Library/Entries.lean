import ContentBased.Library.Tally

/-! Maps that are filled from a list, where a key has the value of its last entry. -/
namespace Entries
open Std
variable {κ β : Type}

/-- The values that a key has in the entries, in their order. -/
def valuesOf [DecidableEq κ] (entries : List (κ × β)) (key : κ) : List β :=
  (entries.filter fun entry => entry.1 = key).map Prod.snd

theorem mem_valuesOf [DecidableEq κ] {entries : List (κ × β)} {key : κ} {value : β} :
    value ∈ valuesOf entries key ↔ (key, value) ∈ entries := by
  simp [valuesOf]

theorem exists_value_cons_iff {chosen : β → Prop} {key first : κ} {value : β} {entries : List (κ × β)} :
    (∃ other, (key, other) ∈ (first, value) :: entries ∧ chosen other) ↔
      key = first ∧ chosen value ∨ ∃ other, (key, other) ∈ entries ∧ chosen other := by
  simp only [List.mem_cons, Prod.mk.injEq, or_and_right, exists_or, and_assoc, exists_and_left, exists_eq_left]

/-- A key that occurs once picks its element. -/
theorem filter_key_eq [DecidableEq κ] {ρ : Type} {key : ρ → κ} {elements : List ρ} {element : ρ}
    (distinct : (elements.map key).Nodup) (member : element ∈ elements) :
    (elements.filter fun other => key other = key element) = [element] := by
  induction elements with
  | nil => cases member
  | cons first rest ih =>
    obtain ⟨fresh, distinct⟩ := List.nodup_cons.mp distinct
    rcases List.mem_cons.mp member with rfl | later
    · have others : (rest.filter fun other => key other = key element) = [] := by
        refine List.filter_eq_nil_iff.mpr fun other inside same => fresh ?_
        rw [← of_decide_eq_true same]
        exact List.mem_map_of_mem inside
      rw [List.filter_cons_of_pos (by simp), others]
    · have other : ¬ key first = key element := fun same => fresh (same ▸ List.mem_map_of_mem later)
      rw [List.filter_cons_of_neg (by simpa using other), ih distinct later]

theorem nodup_keys [Ord κ] [TransOrd κ] (map : ExtTreeMap κ β) : (map.toList.map Prod.fst).Nodup := by
  rw [ExtTreeMap.map_fst_toList_eq_keys]
  exact ExtTreeMap.nodup_keys

section OfEntries
variable [Ord κ] [TransOrd κ] [LawfulEqOrd κ]

def ofEntries (entries : List (κ × β)) : ExtTreeMap κ β :=
  entries.foldl (fun map entry => map.insert entry.1 entry.2) ∅

variable [DecidableEq κ] {entries : List (κ × β)}

theorem getElem?_ofEntries (entries : List (κ × β)) (key : κ) :
    (ofEntries entries)[key]? = (valuesOf entries key).getLast? := by
  induction entries using List.reverseRecOn with
  | nil => simp [ofEntries, valuesOf]
  | append_singleton entries entry ih =>
    rw [ofEntries, List.foldl_append, List.foldl_cons, List.foldl_nil, ExtTreeMap.getElem?_insert]
    by_cases same : entry.1 = key
    · simp [valuesOf, same]
    · have other : ¬ compare entry.1 key = .eq := fun equal => same (LawfulEqOrd.eq_of_compare equal)
      rw [if_neg other]
      refine ih.trans ?_
      simp [valuesOf, same]

theorem mem_toList_ofEntries {entry : κ × β} (member : entry ∈ (ofEntries entries).toList) : entry ∈ entries := by
  have found := ExtTreeMap.mem_toList_iff_getElem?_eq_some.mp member
  rw [getElem?_ofEntries] at found
  exact mem_valuesOf.mp (List.mem_of_getLast? found)

/-- The keys of the map are those of the entries, each once. -/
theorem keys_perm_dedup (entries : List (κ × β)) :
    ((ofEntries entries).toList.map Prod.fst).Perm (entries.map Prod.fst).dedup := by
  refine (List.perm_ext_iff_of_nodup (nodup_keys _) (List.nodup_dedup _)).mpr fun key => ?_
  rw [List.mem_dedup]
  constructor
  · intro member
    obtain ⟨entry, inside, rfl⟩ := List.mem_map.mp member
    exact List.mem_map_of_mem (mem_toList_ofEntries inside)
  · intro member
    obtain ⟨⟨key, value⟩, inside, rfl⟩ := List.mem_map.mp member
    have some_ : valuesOf entries key ≠ [] := List.ne_nil_of_mem (mem_valuesOf.mpr inside)
    have found := getElem?_ofEntries entries key
    rw [List.getLast?_eq_some_getLast some_] at found
    exact List.mem_map.mpr ⟨_, ExtTreeMap.mem_toList_iff_getElem?_eq_some.mpr found, rfl⟩

theorem length_toList (entries : List (κ × β)) :
    (ofEntries entries).toList.length = (entries.map Prod.fst).dedup.length := by
  rw [← (keys_perm_dedup entries).length_eq, List.length_map]

theorem length_toList_le (entries : List (κ × β)) : (ofEntries entries).toList.length ≤ entries.length := by
  have shorter := (List.dedup_sublist (entries.map Prod.fst)).length_le
  rwa [← length_toList, List.length_map] at shorter

/-- No entry is lost exactly when the keys are distinct. -/
theorem length_toList_eq_iff : (ofEntries entries).toList.length = entries.length ↔ (entries.map Prod.fst).Nodup := by
  rw [length_toList, ← List.dedup_eq_self]
  constructor
  · intro same
    exact (List.dedup_sublist _).eq_of_length (same.trans (List.length_map _).symm)
  · intro same
    rw [same, List.length_map]

theorem toList_perm (distinct : (entries.map Prod.fst).Nodup) : (ofEntries entries).toList.Perm entries := by
  have inside : (ofEntries entries).toList.Subperm entries :=
    List.subperm_of_subset (nodup_keys _).of_map fun _ member => mem_toList_ofEntries member
  exact inside.perm_of_length_le (length_toList_eq_iff.mpr distinct).ge

end OfEntries

end Entries
