import Mathlib

namespace Ring
variable {α : Type*}

/-- The last `n` of the values written so far. -/
def recent (n : Nat) (writes : List α) : List α := writes.drop (writes.length - n)

theorem mem_recent {n : Nat} {writes : List α} {x : α} :
    x ∈ recent n writes ↔ ∃ j, writes[j]? = some x ∧ writes.length ≤ j + n := by
  rw [recent, List.mem_iff_getElem?]
  constructor
  · rintro ⟨i, at_⟩
    rw [List.getElem?_drop] at at_
    exact ⟨_, at_, by omega⟩
  · rintro ⟨j, at_, late⟩
    refine ⟨j - (writes.length - n), ?_⟩
    rw [List.getElem?_drop, show writes.length - n + (j - (writes.length - n)) = j by omega]
    exact at_

theorem recent_of_le {n : Nat} {writes : List α} (short : writes.length ≤ n) : recent n writes = writes := by
  rw [recent, Nat.sub_eq_zero_of_le short, List.drop_zero]

theorem length_recent (n : Nat) (writes : List α) : (recent n writes).length = min n writes.length := by
  rw [recent, List.length_drop]
  omega

theorem recent_subset (n : Nat) (writes : List α) : recent n writes ⊆ writes := List.drop_subset _ _

/-- The ring holds the newest of the values written to it, the one with number `j` at the place
`j % ring.length`, and `blank` wherever nothing was written. -/
structure Holds (blank : α) (ring writes : List α) : Prop where
  newest : ∀ j x, writes[j]? = some x → writes.length ≤ j + ring.length → ring[j % ring.length]? = some x
  unwritten : ∀ i, writes.length ≤ i → i < ring.length → ring[i]? = some blank

theorem Holds.start (blank : α) (n : Nat) : Holds blank (List.replicate n blank) [] where
  newest j x at_ := by simp at at_
  unwritten i _ inside := by
    rw [List.length_replicate] at inside
    exact List.getElem?_replicate_of_lt inside

/-- Two numbers of one round fall on different places. -/
theorem mod_ne {n j g : Nat} (older : j < g) (near : g < j + n) : j % n ≠ g % n := by
  intro same
  have apart : n ∣ g - j := (Nat.modEq_iff_dvd' older.le).mp same
  exact absurd (Nat.le_of_dvd (by omega) apart) (by omega)

theorem Holds.push {blank : α} {ring writes : List α} (holds : Holds blank ring writes) (room : 0 < ring.length)
    (x : α) : Holds blank (ring.set (writes.length % ring.length) x) (writes ++ [x]) where
  newest j y at_ late := by
    rw [List.length_set, List.length_append, List.length_singleton] at late
    rw [List.length_set]
    rcases Nat.lt_trichotomy j writes.length with older | rfl | beyond
    · rw [List.getElem?_append_left older] at at_
      rw [List.getElem?_set_ne (mod_ne older (by omega)).symm]
      exact holds.newest j y at_ (by omega)
    · rw [List.getElem?_append_right le_rfl, Nat.sub_self, List.getElem?_cons_zero] at at_
      rw [List.getElem?_set_self (Nat.mod_lt _ room)]
      exact at_
    · rw [List.getElem?_eq_none (by rw [List.length_append, List.length_singleton]; omega)] at at_
      cases at_
  unwritten i late inside := by
    rw [List.length_append, List.length_singleton] at late
    rw [List.length_set] at inside
    rw [List.getElem?_set_ne (by rw [Nat.mod_eq_of_lt (by omega)]; omega)]
    exact holds.unwritten i (by omega) inside

/-- What is in the ring was written lately, or the ring has not been filled yet. -/
theorem Holds.mem_iff {blank : α} {ring writes : List α} (holds : Holds blank ring writes) {x : α} :
    x ∈ ring ↔ x ∈ recent ring.length writes ∨ (writes.length < ring.length ∧ x = blank) := by
  constructor
  · intro member
    obtain ⟨i, inside, rfl⟩ := List.mem_iff_getElem.mp member
    have at_ := List.getElem?_eq_getElem inside
    by_cases unwritten : writes.length ≤ i
    · rw [holds.unwritten i unwritten inside] at at_
      exact .inr ⟨by omega, (Option.some.inj at_).symm⟩
    · -- the newest number that falls on this place
      obtain ⟨round, last⟩ : ∃ round, i + ring.length * round < writes.length ∧
          writes.length ≤ i + ring.length * round + ring.length := by
        refine ⟨(writes.length - 1 - i) / ring.length, ?_⟩
        have quotient := Nat.div_add_mod (writes.length - 1 - i) ring.length
        have remainder := Nat.mod_lt (writes.length - 1 - i) (show 0 < ring.length by omega)
        omega
      have written := List.getElem?_eq_getElem last.1
      have found := holds.newest _ _ written last.2
      rw [Nat.add_mul_mod_self_left, Nat.mod_eq_of_lt inside, at_] at found
      exact .inl (mem_recent.mpr ⟨_, written.trans found.symm, last.2⟩)
  · rintro (late | ⟨short, rfl⟩)
    · obtain ⟨j, at_, late⟩ := mem_recent.mp late
      exact List.mem_of_getElem? (holds.newest j x at_ late)
    · exact List.mem_of_getElem? (holds.unwritten _ le_rfl short)

/-- A value does not come again within the next `gap` ones. -/
def Spaced (gap : Nat) (writes : List α) : Prop :=
  ∀ i j x, i < j → j ≤ i + gap → writes[i]? = some x → writes[j]? ≠ some x

theorem Spaced.of_nodup {gap : Nat} {writes : List α} (different : writes.Nodup) : Spaced gap writes := by
  intro i j x before _ first second
  have inside : i < writes.length := (List.getElem?_eq_some_iff.mp first).1
  exact absurd ((List.getElem?_inj inside different).mp (first.trans second.symm)) before.ne

theorem Spaced.push {gap : Nat} {writes : List α} {x : α} (spaced : Spaced gap writes)
    (fresh : x ∉ recent gap writes) : Spaced gap (writes ++ [x]) := by
  intro i j y before near first second
  have inside : i < writes.length := by
    have bound := (List.getElem?_eq_some_iff.mp second).1
    rw [List.length_append, List.length_singleton] at bound
    omega
  rw [List.getElem?_append_left inside] at first
  by_cases older : j < writes.length
  · rw [List.getElem?_append_left older] at second
    exact spaced i j y before near first second
  · obtain rfl : x = y := by
      rw [List.getElem?_append_right (by omega)] at second
      exact List.mem_singleton.mp (List.mem_of_getElem? second) |>.symm
    exact fresh (mem_recent.mpr ⟨i, first, by omega⟩)

/-- Neighbours of a spaced list are different. -/
theorem Spaced.nodup_window {gap : Nat} {writes : List α} (spaced : Spaced gap writes) (start : Nat) :
    ((writes.drop start).take (gap + 1)).Nodup := by
  rw [List.nodup_iff_getElem?_ne_getElem?]
  intro i j before inside same
  rw [List.length_take, List.length_drop] at inside
  rw [List.getElem?_take_of_lt (by omega), List.getElem?_take_of_lt (by omega), List.getElem?_drop,
    List.getElem?_drop, List.getElem?_eq_getElem (show start + i < writes.length by omega)] at same
  exact spaced (start + i) (start + j) _ (by omega) (by omega)
    (List.getElem?_eq_getElem (by omega)) same.symm

end Ring
