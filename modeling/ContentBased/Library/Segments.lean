import Mathlib

/-- A sequence cut into parts: the finished ones, the oldest first, and the one in progress. -/
structure Segments (α : Type) where
  rolled : List (List α)
  current : List α
deriving DecidableEq, Repr

namespace Segments
variable {α β : Type}

def empty : Segments α := ⟨[], []⟩

def add (s : Segments α) (entry : α) : Segments α := { s with current := s.current ++ [entry] }

def roll (s : Segments α) : Segments α := ⟨s.rolled ++ [s.current], []⟩

def all (s : Segments α) : List α := s.rolled.flatten ++ s.current

/-- The newest finished parts, the newest first. -/
def newest (s : Segments α) (count : Nat) : List (List α) := s.rolled.reverse.take count

def map (f : α → β) (s : Segments α) : Segments β := ⟨s.rolled.map (List.map f), s.current.map f⟩

@[simp] theorem all_empty : (empty : Segments α).all = [] := rfl

@[simp] theorem all_add (s : Segments α) (entry : α) : (s.add entry).all = s.all ++ [entry] := by
  simp [all, add]

@[simp] theorem all_roll (s : Segments α) : s.roll.all = s.all := by
  simp [all, roll]

@[simp] theorem map_empty (f : α → β) : (empty : Segments α).map f = empty := rfl

@[simp] theorem map_add (f : α → β) (s : Segments α) (entry : α) : (s.add entry).map f = (s.map f).add (f entry) := by
  simp [map, add]

@[simp] theorem map_roll (f : α → β) (s : Segments α) : s.roll.map f = (s.map f).roll := by
  simp [map, roll]

@[simp] theorem length_rolled_add (s : Segments α) (entry : α) : (s.add entry).rolled.length = s.rolled.length := rfl

@[simp] theorem length_rolled_roll (s : Segments α) : s.roll.rolled.length = s.rolled.length + 1 := by
  simp [roll]

@[simp] theorem length_rolled_map (f : α → β) (s : Segments α) : (s.map f).rolled.length = s.rolled.length := by
  simp [map]

def filter (p : α → Bool) (s : Segments α) : Segments α := ⟨s.rolled.map (List.filter p), s.current.filter p⟩

@[simp] theorem filter_empty (p : α → Bool) : (empty : Segments α).filter p = empty := rfl

theorem filter_add (p : α → Bool) (s : Segments α) (entry : α) :
    (s.add entry).filter p = if p entry then (s.filter p).add entry else s.filter p := by
  by_cases holds : p entry <;> simp [filter, add, holds]

@[simp] theorem filter_roll (p : α → Bool) (s : Segments α) : (s.roll).filter p = (s.filter p).roll := by
  simp [filter, roll]

@[simp] theorem length_rolled_filter (p : α → Bool) (s : Segments α) :
    (s.filter p).rolled.length = s.rolled.length := by
  simp [filter]

theorem newest_filter (p : α → Bool) (s : Segments α) (count : Nat) :
    (s.filter p).newest count = (s.newest count).map (List.filter p) := by
  simp [filter, newest, List.map_take, List.map_reverse]

/-- The entries of the newest finished parts and of the one in progress. -/
def recent (s : Segments α) (count : Nat) : List α := (s.newest count).flatten ++ s.current

theorem mem_recent_add (s : Segments α) (count : Nat) (new entry : α) :
    entry ∈ (s.add new).recent count ↔ entry ∈ s.recent count ∨ entry = new := by
  simp [recent, newest, add, or_assoc]

theorem recent_roll_zero (s : Segments α) : s.roll.recent 0 = [] := by
  simp [recent, newest, roll]

theorem mem_recent_roll (s : Segments α) (count : Nat) (entry : α) :
    entry ∈ s.roll.recent (count + 1) ↔ entry ∈ s.recent count := by
  simp [recent, newest, roll, or_comm]

/-- What is not recent is in the parts before. -/
theorem all_perm_recent (s : Segments α) (count : Nat) :
    s.all.Perm ((s.rolled.take (s.rolled.length - count)).flatten ++ s.recent count) := by
  have parts : s.rolled = s.rolled.take (s.rolled.length - count) ++ s.rolled.drop (s.rolled.length - count) :=
    (List.take_append_drop _ _).symm
  have newer : (s.newest count).Perm (s.rolled.drop (s.rolled.length - count)) := by
    rw [newest, List.take_reverse]
    exact List.reverse_perm _
  have split : s.all = (s.rolled.take (s.rolled.length - count)).flatten ++
      ((s.rolled.drop (s.rolled.length - count)).flatten ++ s.current) := by
    rw [← List.append_assoc, ← List.flatten_append, ← parts, all]
  rw [split, recent]
  exact (newer.symm.flatten.append_right _).append_left _

end Segments
