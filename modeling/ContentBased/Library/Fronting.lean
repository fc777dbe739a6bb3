import Mathlib

/-! Swaps in a list, and what a loop leaves of it that swaps chosen elements to the front. -/
namespace Fronting
variable {α β : Type}

def swap (xs : List α) (i j : Nat) : List α :=
  match xs[i]?, xs[j]? with
  | some a, some b => (xs.set i b).set j a
  | _, _ => xs

theorem swap_map (f : α → β) (xs : List α) (i j : Nat) : swap (xs.map f) i j = (swap xs i j).map f := by
  unfold swap
  rw [List.getElem?_map, List.getElem?_map]
  cases xs[i]? with
  | none => rfl
  | some a =>
    cases xs[j]? with
    | none => rfl
    | some b => simp only [Option.map_some, List.map_set]

/-- The elements that go to the front, and the queue of the others: each of the former that finds a queue takes the
place of its first element, which goes to the end of the queue. -/
def arrangeStep (chosen : α → Bool) (state : List α × List α) (x : α) : List α × List α :=
  if chosen x then (state.1 ++ [x], state.2.rotate 1) else (state.1, state.2 ++ [x])

def arrange (chosen : α → Bool) (xs : List α) : List α × List α := xs.foldl (arrangeStep chosen) ([], [])

theorem arrange_append_singleton (chosen : α → Bool) (xs : List α) (x : α) :
    arrange chosen (xs ++ [x]) = arrangeStep chosen (arrange chosen xs) x := by
  simp only [arrange, List.foldl_append, List.foldl_cons, List.foldl_nil]

/-- The swap of the first element behind the front with the one that is reached. -/
theorem swap_arranged (top rest tail : List α) (x : α) :
    swap (top ++ rest ++ x :: tail) top.length (top.length + rest.length) = (top ++ [x]) ++ rest.rotate 1 ++ tail := by
  cases rest with
  | nil =>
    simp [swap]
  | cons r rest =>
    have first : (top ++ (r :: rest) ++ x :: tail)[top.length]? = some r := by simp
    have reached : (top ++ (r :: rest) ++ x :: tail)[top.length + (r :: rest).length]? = some x := by simp
    simp only [swap, first, reached]
    have placed : (top ++ (r :: rest) ++ x :: tail).set top.length x = (top ++ x :: rest) ++ x :: tail := by simp
    have length : top.length + (r :: rest).length = (top ++ x :: rest).length := by simp
    rw [placed, length, List.set_append_right _ _ le_rfl, Nat.sub_self, List.set_cons_zero]
    simp

theorem arrange_perm (chosen : α → Bool) (xs : List α) :
    ((arrange chosen xs).1 ++ (arrange chosen xs).2).Perm xs := by
  induction xs using List.reverseRecOn with
  | nil => exact .refl _
  | append_singleton xs x ih =>
    rw [arrange_append_singleton, arrangeStep]
    split
    · have turned : ((arrange chosen xs).1 ++ [x] ++ (arrange chosen xs).2.rotate 1).Perm
          ((arrange chosen xs).1 ++ [x] ++ (arrange chosen xs).2) := (List.rotate_perm _ 1).append_left _
      refine turned.trans ?_
      rw [List.append_assoc]
      refine (List.perm_append_comm.append_left _).trans ?_
      rw [← List.append_assoc]
      exact ih.append_right [x]
    · rw [← List.append_assoc]
      exact ih.append_right [x]

/-- Those that go to the front keep their order. -/
theorem arrange_fst (chosen : α → Bool) (xs : List α) : (arrange chosen xs).1 = xs.filter chosen := by
  induction xs using List.reverseRecOn with
  | nil => rfl
  | append_singleton xs x ih =>
    rw [arrange_append_singleton, arrangeStep, List.filter_append, ← ih]
    split
    · rename_i here
      rw [List.filter_cons_of_pos here, List.filter_nil]
    · rename_i other
      rw [List.filter_cons_of_neg other, List.filter_nil, List.append_nil]

theorem mem_arrange_fst {chosen : α → Bool} {xs : List α} {x : α} (front : x ∈ (arrange chosen xs).1) :
    chosen x = true := by
  induction xs using List.reverseRecOn with
  | nil => cases front
  | append_singleton xs y ih =>
    rw [arrange_append_singleton, arrangeStep] at front
    split at front
    · rename_i here
      rcases List.mem_append.mp front with before | last
      · exact ih before
      · rwa [List.mem_singleton.mp last]
    · exact ih front

theorem mem_arrange_snd {chosen : α → Bool} {xs : List α} {x : α} (queued : x ∈ (arrange chosen xs).2) :
    chosen x = false := by
  induction xs using List.reverseRecOn with
  | nil => cases queued
  | append_singleton xs y ih =>
    rw [arrange_append_singleton, arrangeStep] at queued
    split at queued
    · exact ih (List.mem_rotate.mp queued)
    · rename_i other
      rcases List.mem_append.mp queued with before | last
      · exact ih before
      · rw [List.mem_singleton.mp last]
        exact Bool.eq_false_iff.mpr other

end Fronting
