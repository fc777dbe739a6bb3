import ContentBased.Library.Decimal

theorem List.rdropWhile_append_cons {α : Type} {p : α → Bool} {y : α} (kept : p y = false) (xs ys : List α) :
    (xs ++ y :: ys).rdropWhile p = xs ++ y :: ys.rdropWhile p := by
  induction ys using List.reverseRecOn with
  | nil => rw [List.rdropWhile_concat_neg p xs y (by simp [kept]), List.rdropWhile_nil]
  | append_singleton ys z ih =>
    rw [← List.cons_append, ← List.append_assoc, List.rdropWhile_concat, List.rdropWhile_concat, ih]
    split
    · rfl
    · rw [List.append_assoc, List.cons_append]

theorem List.mem_of_mem_rdropWhile {α : Type} {p : α → Bool} {xs : List α} {x : α} (member : x ∈ xs.rdropWhile p) :
    x ∈ xs := (List.rdropWhile_prefix p xs).subset member

theorem List.takeWhile_ne_eq_self {α : Type} [DecidableEq α] {xs : List α} {y : α} (absent : y ∉ xs) :
    xs.takeWhile (· != y) = xs :=
  List.takeWhile_eq_self_iff.mpr fun _ member => bne_iff_ne.mpr (ne_of_mem_of_not_mem member absent)

theorem List.dropWhile_ne_eq_nil {α : Type} [DecidableEq α] {xs : List α} {y : α} (absent : y ∉ xs) :
    xs.dropWhile (· != y) = [] :=
  List.dropWhile_eq_nil_iff.mpr fun _ member => bne_iff_ne.mpr (ne_of_mem_of_not_mem member absent)

theorem List.dropWhile_ne_append_cons {α : Type} [DecidableEq α] {xs : List α} {y : α} (first : y ∉ xs) (ys : List α) :
    (xs ++ y :: ys).dropWhile (· != y) = y :: ys := by
  have before : ∀ x ∈ xs, (x != y) = true := fun x member => bne_iff_ne.mpr (ne_of_mem_of_not_mem member first)
  rw [List.dropWhile_append_of_pos before, List.dropWhile_cons_of_neg (by simp)]

theorem List.takeWhile_ne_append_cons {α : Type} [DecidableEq α] {xs : List α} {y : α} (first : y ∉ xs) (ys : List α) :
    (xs ++ y :: ys).takeWhile (· != y) = xs := by
  have before : ∀ x ∈ xs, (x != y) = true := fun x member => bne_iff_ne.mpr (ne_of_mem_of_not_mem member first)
  rw [List.takeWhile_append_of_pos before, List.takeWhile_cons_of_neg (by simp), List.append_nil]

namespace Lines

/-- Going through a stream line by line; the last line lacks a newline. -/
theorem line_induction {motive : Bytes → Prop} (last : ∀ line, 10 ∉ line → motive line)
    (more : ∀ line rest, 10 ∉ line → motive rest → motive (line ++ 10 :: rest)) (stream : Bytes) : motive stream := by
  induction length : stream.length using Nat.strong_induction_on generalizing stream with
  | _ n ih =>
    by_cases newline : 10 ∈ stream
    · obtain ⟨line, rest, rfl, plain⟩ := List.eq_append_cons_of_mem newline
      have shorter : rest.length < n := by
        rw [← length, List.length_append, List.length_cons]
        omega
      exact more line rest plain (ih _ shorter rest rfl)
    · exact last stream newline

theorem splitOn_line {line : Bytes} (plain : 10 ∉ line) (rest : Bytes) :
    (line ++ 10 :: rest).splitOn 10 = line :: rest.splitOn 10 := by
  rw [List.splitOn_append_cons_self, List.splitOn_eq_singleton plain, List.singleton_append]

theorem plain_of_mem_splitOn {stream line : Bytes} (member : line ∈ stream.splitOn 10) : 10 ∉ line := by
  induction stream using line_induction with
  | last stream plain =>
    rw [List.splitOn_eq_singleton plain] at member
    rwa [List.mem_singleton.mp member]
  | more first rest plain ih =>
    rw [splitOn_line plain] at member
    rcases List.mem_cons.mp member with rfl | later
    · exact plain
    · exact ih later

theorem mem_of_mem_splitOn {stream line : Bytes} {byte : UInt8} (member : line ∈ stream.splitOn 10)
    (inside : byte ∈ line) : byte ∈ stream := by
  induction stream using line_induction with
  | last stream plain =>
    rw [List.splitOn_eq_singleton plain] at member
    rwa [← List.mem_singleton.mp member]
  | more first rest plain ih =>
    rw [splitOn_line plain] at member
    rcases List.mem_cons.mp member with rfl | later
    · exact List.mem_append_left _ inside
    · exact List.mem_append_right _ (List.mem_cons_of_mem _ (ih later))

/-- One `fgets` into a buffer with room for so many bytes: a line with its newline, or as much of it as there is room
for, and what is left to read. -/
def fgets : Nat → Bytes → Bytes × Bytes
  | 0, stream => ([], stream)
  | _ + 1, [] => ([], [])
  | room + 1, byte :: rest =>
    if byte = 10 then ([10], rest) else (byte :: (fgets room rest).1, (fgets room rest).2)

theorem fgets_append (room : Nat) (stream : Bytes) : (fgets room stream).1 ++ (fgets room stream).2 = stream := by
  induction room generalizing stream with
  | zero => rfl
  | succ room ih =>
    cases stream with
    | nil => rfl
    | cons byte rest =>
      rw [fgets]
      split
      · rename_i newline
        rw [newline, List.singleton_append]
      · rw [List.cons_append, ih]

theorem length_fgets_le (room : Nat) (stream : Bytes) : (fgets room stream).1.length ≤ room := by
  induction room generalizing stream with
  | zero => exact le_rfl
  | succ room ih =>
    cases stream with
    | nil => exact Nat.zero_le _
    | cons byte rest =>
      rw [fgets]
      split
      · simp
      · simpa using ih rest

/-- A newline is the last byte that is read. -/
theorem plain_dropLast_fgets (room : Nat) (stream : Bytes) : 10 ∉ (fgets room stream).1.dropLast := by
  induction room generalizing stream with
  | zero => exact List.not_mem_nil
  | succ room ih =>
    cases stream with
    | nil => exact List.not_mem_nil
    | cons byte rest =>
      rw [fgets]
      split
      · exact List.not_mem_nil
      · rename_i other
        by_cases end_ : (fgets room rest).1 = []
        · rw [end_]
          exact List.not_mem_nil
        · rw [List.dropLast_cons_of_ne_nil end_, List.mem_cons, not_or]
          exact ⟨Ne.symm other, ih rest⟩

/-- A line that is shorter than the room is read with its newline. -/
theorem fgets_short {room : Nat} {line : Bytes} (plain : 10 ∉ line) (fits : line.length < room) (rest : Bytes) :
    fgets room (line ++ 10 :: rest) = (line ++ [10], rest) := by
  induction line generalizing room with
  | nil =>
    obtain ⟨room, rfl⟩ := Nat.exists_eq_succ_of_ne_zero (Nat.pos_iff_ne_zero.mp fits)
    rfl
  | cons byte line ih =>
    obtain ⟨room, rfl⟩ := Nat.exists_eq_succ_of_ne_zero (Nat.ne_of_gt (Nat.zero_lt_of_lt fits))
    obtain ⟨other, plain⟩ := not_or.mp (List.mem_cons.not.mp plain)
    have tail := ih plain (Nat.lt_of_succ_lt_succ fits)
    rw [List.cons_append, fgets, if_neg (Ne.symm other), tail]
    rfl

/-- A part of a line that fills the room is read alone. -/
theorem fgets_full {line : Bytes} (plain : 10 ∉ line) (rest : Bytes) :
    fgets line.length (line ++ rest) = (line, rest) := by
  induction line with
  | nil => rfl
  | cons byte line ih =>
    obtain ⟨other, plain⟩ := not_or.mp (List.mem_cons.not.mp plain)
    rw [List.cons_append, List.length_cons, fgets, if_neg (Ne.symm other), ih plain]

/-- A line at the end of the file may lack the newline. -/
theorem fgets_last {room : Nat} {line : Bytes} (plain : 10 ∉ line) (fits : line.length ≤ room) :
    fgets room line = (line, []) := by
  induction line generalizing room with
  | nil => cases room <;> rfl
  | cons byte line ih =>
    obtain ⟨room, rfl⟩ := Nat.exists_eq_succ_of_ne_zero (Nat.ne_of_gt (Nat.zero_lt_of_lt fits))
    obtain ⟨other, plain⟩ := not_or.mp (List.mem_cons.not.mp plain)
    rw [fgets, if_neg (Ne.symm other), ih plain (Nat.le_of_succ_le_succ fits)]

/-- What `fgets` returns, call after call, until it returns nothing. -/
def parts (room : Nat) (stream : Bytes) : List Bytes :=
  if (fgets room stream).1 = [] then []
  else (fgets room stream).1 :: parts room (fgets room stream).2
termination_by stream.length
decreasing_by
  rename_i some_read
  have whole := congrArg List.length (fgets_append room stream)
  have positive := List.length_pos_iff.mpr some_read
  rw [List.length_append] at whole
  omega

theorem parts_cons {room : Nat} {stream part rest : Bytes} (read : fgets room stream = (part, rest))
    (nonempty : part ≠ []) : parts room stream = part :: parts room rest := by
  rw [parts, read, if_neg nonempty]

@[simp] theorem parts_nil (room : Nat) : parts room [] = [] := by
  rw [parts, fgets_last List.not_mem_nil (Nat.zero_le room), if_pos rfl]

theorem parts_short {room : Nat} {line : Bytes} (plain : 10 ∉ line) (fits : line.length < room) (rest : Bytes) :
    parts room (line ++ 10 :: rest) = (line ++ [10]) :: parts room rest :=
  parts_cons (fgets_short plain fits rest) (by simp)

theorem parts_full {room : Nat} {line : Bytes} (plain : 10 ∉ line) (full : line.length = room) (positive : 0 < room)
    (rest : Bytes) : parts room (line ++ rest) = line :: parts room rest := by
  subst full
  exact parts_cons (fgets_full plain rest) (List.length_pos_iff.mp positive)

theorem parts_last {room : Nat} {line : Bytes} (plain : 10 ∉ line) (nonempty : line ≠ [])
    (fits : line.length ≤ room) : parts room line = [line] := by
  rw [parts_cons (fgets_last plain fits) nonempty, parts_nil]

theorem parts_flatten {room : Nat} (positive : 0 < room) (stream : Bytes) : (parts room stream).flatten = stream := by
  induction stream using parts.induct room with
  | case1 stream empty =>
    rw [parts, if_pos empty]
    obtain ⟨room, rfl⟩ := Nat.exists_eq_succ_of_ne_zero (Nat.pos_iff_ne_zero.mp positive)
    cases stream with
    | nil => rfl
    | cons byte rest =>
      rw [fgets] at empty
      split at empty <;> cases empty
  | case2 stream some_read ih =>
    rw [parts, if_neg some_read, List.flatten_cons, ih, fgets_append]

/-- Each part is what one `fgets` returned. -/
theorem exists_fgets_of_mem_parts {room : Nat} {stream part : Bytes} (member : part ∈ parts room stream) :
    ∃ rest, part = (fgets room rest).1 := by
  induction stream using parts.induct room with
  | case1 stream empty =>
    rw [parts, if_pos empty] at member
    cases member
  | case2 stream some_read ih =>
    rw [parts, if_neg some_read] at member
    rcases List.mem_cons.mp member with rfl | later
    · exact ⟨stream, rfl⟩
    · exact ih later

theorem length_le_of_mem_parts {room : Nat} {stream part : Bytes} (member : part ∈ parts room stream) :
    part.length ≤ room := by
  obtain ⟨rest, rfl⟩ := exists_fgets_of_mem_parts member
  exact length_fgets_le room rest

theorem plain_dropLast_of_mem_parts {room : Nat} {stream part : Bytes} (member : part ∈ parts room stream) :
    10 ∉ part.dropLast := by
  obtain ⟨rest, rfl⟩ := exists_fgets_of_mem_parts member
  exact plain_dropLast_fgets room rest

theorem mem_of_mem_parts {room : Nat} (positive : 0 < room) {stream part : Bytes} {byte : UInt8}
    (member : part ∈ parts room stream) (inside : byte ∈ part) : byte ∈ stream := by
  rw [← parts_flatten positive stream]
  exact List.mem_flatten_of_mem member inside

section Collect
variable {β : Type} {collect : Bytes → Option β} {room : Nat}

/-- What is collected from the parts of a line does not depend on its newline, when a newline at the end of a part
makes no difference. -/
theorem filterMap_parts_line (positive : 0 < room) (ending : ∀ part, collect (part ++ [10]) = collect part)
    (blank : collect [] = none) {line : Bytes} (plain : 10 ∉ line) (rest : Bytes) :
    (parts room (line ++ 10 :: rest)).filterMap collect =
      (parts room line).filterMap collect ++ (parts room rest).filterMap collect := by
  induction length : line.length using Nat.strong_induction_on generalizing line with
  | _ n ih =>
    by_cases fits : line.length < room
    · rw [parts_short plain fits]
      by_cases empty : line = []
      · subst empty
        rw [List.filterMap_cons_none (by rw [ending, blank]), parts_nil, List.filterMap_nil, List.nil_append]
      · rw [parts_last plain empty fits.le]
        simp only [List.filterMap_cons, ending, List.filterMap_nil]
        cases collect line <;> rfl
    · -- the first part of the line fills the room, and the rest of the line is shorter
      have split := List.take_append_drop room line
      have full : (line.take room).length = room := List.length_take_of_le (by omega)
      have head : 10 ∉ line.take room := fun member => plain (List.mem_of_mem_take member)
      have tail : 10 ∉ line.drop room := fun member => plain (List.mem_of_mem_drop member)
      have shorter : (line.drop room).length < n := by rw [List.length_drop]; omega
      have later := ih _ shorter tail rfl
      rw [← split, List.append_assoc, parts_full head full positive, parts_full head full positive]
      simp only [List.filterMap_cons, later]
      cases collect (line.take room) <;> rfl

/-- What is collected from a stream is what is collected from its lines. -/
theorem filterMap_parts (positive : 0 < room) (ending : ∀ part, collect (part ++ [10]) = collect part)
    (blank : collect [] = none) (stream : Bytes) :
    (parts room stream).filterMap collect =
      (stream.splitOn 10).flatMap fun line => (parts room line).filterMap collect := by
  induction stream using line_induction with
  | last line plain => rw [List.splitOn_eq_singleton plain, List.flatMap_singleton]
  | more line rest plain ih => rw [filterMap_parts_line positive ending blank plain, splitOn_line plain, List.flatMap_cons, ih]

end Collect

end Lines
