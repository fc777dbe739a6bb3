import Mathlib

/-- A byte string. -/
abbrev Bytes := List UInt8

namespace Decimal

def digitByte (digit : Nat) : UInt8 := UInt8.ofNat (48 + digit)

def digits (n : Nat) : Bytes := if n = 0 then [digitByte 0] else (Nat.digits 10 n).reverse.map digitByte

/-- What `sprintf` prints for `%d`. -/
def decimal (n : Int) : Bytes := if n < 0 then 45 :: digits n.natAbs else digits n.natAbs

def isDigit (byte : UInt8) : Bool := 48 ≤ byte && byte ≤ 57

/-- The white space `atoi` skips: blank, tab, newline, vertical tab, form feed, return. -/
def isSpace (byte : UInt8) : Bool := byte == 32 || 9 ≤ byte && byte ≤ 13

def number (bytes : Bytes) : Nat :=
  (bytes.takeWhile isDigit).foldl (fun value byte => value * 10 + (byte.toNat - 48)) 0

/-- The integer that a text starts with: blanks, a sign, then the longest run of digits; 0 when there is none. -/
def integer (bytes : Bytes) : Int :=
  match bytes.dropWhile isSpace with
  | 45 :: rest => -(number rest : Int)
  | 43 :: rest => number rest
  | rest => number rest

/-- `atoi` converts to a `long`, which stays at its bounds, and keeps the low bits of it. -/
def atoi (bytes : Bytes) : Int32 := Int32.ofInt (max (-2 ^ 63) (min (integer bytes) (2 ^ 63 - 1)))

theorem digitByte_toNat {digit : Nat} (small : digit < 10) : (digitByte digit).toNat = 48 + digit := by
  simp only [digitByte, UInt8.toNat_ofNat']
  omega

theorem digitByte_isDigit {digit : Nat} (small : digit < 10) : isDigit (digitByte digit) = true := by
  have value := digitByte_toNat small
  simp only [isDigit, Bool.and_eq_true, decide_eq_true_eq, UInt8.le_iff_toNat_le, value]
  exact ⟨by simp, by simpa using by omega⟩

theorem digits_eq_map (n : Nat) : ∃ ds : List Nat, digits n = ds.map digitByte ∧ ds ≠ [] ∧
    (∀ d ∈ ds, d < 10) ∧ ds.foldl (fun value d => value * 10 + d) 0 = n := by
  unfold digits
  split
  · rename_i zero
    exact ⟨[0], rfl, by simp, by simp, by simp [zero]⟩
  · rename_i positive
    refine ⟨(Nat.digits 10 n).reverse, rfl, ?_, ?_, ?_⟩
    · simpa [Nat.digits_eq_nil_iff_eq_zero] using positive
    · intro d member
      exact Nat.digits_lt_base (by decide) (List.mem_reverse.mp member)
    · rw [List.foldl_reverse]
      have value := Nat.ofDigits_digits 10 n
      rw [Nat.ofDigits_eq_foldr] at value
      simpa [Nat.mul_comm, Nat.add_comm] using value

theorem digits_isDigit (n : Nat) : ∀ byte ∈ digits n, isDigit byte = true := by
  obtain ⟨ds, text, -, small, -⟩ := digits_eq_map n
  intro byte member
  rw [text] at member
  obtain ⟨d, inside, rfl⟩ := List.mem_map.mp member
  exact digitByte_isDigit (small d inside)

theorem number_digits (n : Nat) : number (digits n) = n := by
  obtain ⟨ds, text, _, small, value⟩ := digits_eq_map n
  have all : (digits n).takeWhile isDigit = digits n := List.takeWhile_eq_self_iff.mpr (digits_isDigit n)
  rw [number, all, text, List.foldl_map, ← value]
  refine List.foldl_ext _ _ _ fun acc d member => ?_
  rw [digitByte_toNat (small d member)]
  omega

theorem digits_head (n : Nat) : ∃ d rest, digits n = digitByte d :: rest ∧ d < 10 := by
  obtain ⟨ds, text, nonempty, small, _⟩ := digits_eq_map n
  cases ds with
  | nil => exact absurd rfl nonempty
  | cons d rest => exact ⟨d, rest.map digitByte, text, small d List.mem_cons_self⟩

theorem integer_unsigned {text bytes : Bytes} (kept : text.dropWhile isSpace = bytes)
    (minus : ∀ rest, bytes ≠ 45 :: rest) (plus : ∀ rest, bytes ≠ 43 :: rest) : integer text = number bytes := by
  unfold integer
  rw [kept]
  split
  · exact absurd rfl (minus _)
  · exact absurd rfl (plus _)
  · rfl

theorem integer_of_digit {bytes rest : Bytes} {d : Nat} (text : bytes = digitByte d :: rest) (small : d < 10) :
    integer bytes = number bytes := by
  have value := digitByte_toNat small
  have notSpace : isSpace (digitByte d) = false := by
    interval_cases d <;> rfl
  have kept : bytes.dropWhile isSpace = bytes := by
    rw [text, List.dropWhile_cons, notSpace]
    rfl
  have notSign (sign : UInt8) (below : sign.toNat < 48) (tail : Bytes) : bytes ≠ sign :: tail := by
    rintro same
    rw [text] at same
    rw [(List.cons.inj same).1] at value
    omega
  exact integer_unsigned kept (notSign 45 (by decide)) (notSign 43 (by decide))

/-- Reading back a printed integer gives the integer. -/
theorem integer_decimal (n : Int) : integer (decimal n) = n := by
  have value := number_digits n.natAbs
  unfold decimal
  split
  · rename_i negative
    simp only [integer, List.dropWhile_cons, show isSpace 45 = false from rfl, Bool.false_eq_true, if_false, value]
    omega
  · rename_i positive
    obtain ⟨d, rest, text, small⟩ := digits_head n.natAbs
    rw [integer_of_digit text small, value]
    omega

/-- An integer that fits an `int` is what `atoi` makes of it. -/
theorem atoi_of_fits {text : Bytes} (low : -2 ^ 31 ≤ integer text) (high : integer text < 2 ^ 31) :
    (atoi text).toInt = integer text := by
  have clamped : max (-2 ^ 63) (min (integer text) (2 ^ 63 - 1)) = integer text := by omega
  rw [atoi, clamped, Int32.toInt_ofInt_of_le low high]

theorem atoi_decimal (n : Int32) : atoi (decimal n.toInt) = n := by
  refine Int32.toInt_inj.mp ?_
  rw [atoi_of_fits] <;> rw [integer_decimal]
  · exact n.le_toInt
  · exact n.toInt_lt

theorem eq_digitByte {byte : UInt8} (digit : isDigit byte = true) :
    byte = digitByte (byte.toNat - 48) ∧ byte.toNat - 48 < 10 := by
  simp only [isDigit, Bool.and_eq_true, decide_eq_true_eq, UInt8.le_iff_toNat_le] at digit
  have low : 48 ≤ byte.toNat := digit.1
  have high : byte.toNat ≤ 57 := digit.2
  refine ⟨?_, by omega⟩
  rw [digitByte, Nat.add_sub_cancel' low, UInt8.ofNat_toNat]

/-- A number ends before the first byte that is no digit. -/
theorem number_append (text : Bytes) {rest : Bytes} (stop : ∀ byte ∈ rest.head?, isDigit byte = false) :
    number (text ++ rest) = number text := by
  have none : rest.takeWhile isDigit = [] := by
    cases rest with
    | nil => rfl
    | cons byte rest => exact List.takeWhile_cons_of_neg (by simp [stop byte rfl])
  have same : (text ++ rest).takeWhile isDigit = text.takeWhile isDigit := by
    rw [List.takeWhile_append, none, List.append_nil]
    split
    · rename_i whole
      exact ((List.takeWhile_prefix isDigit).eq_of_length whole).symm
    · rfl
  rw [number, same, number]

theorem number_lt (text : Bytes) : number text < 10 ^ text.length := by
  have bound : ∀ (digits : Bytes) (value : Nat), (∀ byte ∈ digits, isDigit byte = true) →
      digits.foldl (fun value byte => value * 10 + (byte.toNat - 48)) value < (value + 1) * 10 ^ digits.length := by
    intro digits
    induction digits with
    | nil => intro value _; simp
    | cons byte rest ih =>
      intro value all
      have digit := (eq_digitByte (all byte List.mem_cons_self)).2
      have later := ih (value * 10 + (byte.toNat - 48)) fun byte member => all byte (List.mem_cons_of_mem _ member)
      rw [List.foldl_cons, List.length_cons, Nat.pow_succ']
      calc _ < (value * 10 + (byte.toNat - 48) + 1) * 10 ^ rest.length := later
        _ ≤ ((value + 1) * 10) * 10 ^ rest.length := Nat.mul_le_mul_right _ (by omega)
        _ = (value + 1) * (10 * 10 ^ rest.length) := Nat.mul_assoc ..
  have taken := bound (text.takeWhile isDigit) 0 fun byte member => List.mem_takeWhile_imp member
  rw [Nat.zero_add, Nat.one_mul] at taken
  exact lt_of_lt_of_le taken (Nat.pow_le_pow_right (by decide) (List.takeWhile_prefix isDigit).length_le)

theorem integer_of_digits {text : Bytes} (nonempty : text ≠ []) (all : ∀ byte ∈ text, isDigit byte = true) :
    integer text = number text := by
  obtain ⟨byte, rest, rfl⟩ := List.exists_cons_of_ne_nil nonempty
  obtain ⟨same, small⟩ := eq_digitByte (all byte List.mem_cons_self)
  exact integer_of_digit (congrArg (· :: rest) same) small

/-- Nothing is read beyond a byte that is neither a digit nor a blank nor a sign. -/
theorem integer_append (text : Bytes) {stop : UInt8} (digit : isDigit stop = false) (space : isSpace stop = false)
    (minus : stop ≠ 45) (plus : stop ≠ 43) (rest : Bytes) : integer (text ++ stop :: rest) = integer text := by
  have ends : ∀ byte ∈ (stop :: rest).head?, isDigit byte = false := by
    intro byte head
    cases head
    exact digit
  cases kept : text.dropWhile isSpace with
  | nil =>
    have whole : (text ++ stop :: rest).dropWhile isSpace = stop :: rest := by
      rw [List.dropWhile_append, kept, List.isEmpty_nil, if_pos rfl, List.dropWhile_cons_of_neg (by simp [space])]
    rw [integer_unsigned whole (fun _ same => minus (List.cons.inj same).1) (fun _ same => plus (List.cons.inj same).1),
      integer_unsigned kept (by simp) (by simp)]
    exact congrArg Nat.cast (number_append [] ends)
  | cons byte more =>
    have whole : (text ++ stop :: rest).dropWhile isSpace = byte :: (more ++ stop :: rest) := by
      rw [List.dropWhile_append, kept, List.isEmpty_cons, if_neg (by decide), List.cons_append]
    by_cases negative : byte = 45
    · subst negative
      simp only [integer, whole, kept, number_append more ends]
    · by_cases positive : byte = 43
      · subst positive
        simp only [integer, whole, kept, number_append more ends]
      · rw [integer_unsigned whole (fun _ same => negative (List.cons.inj same).1) fun _ same =>
            positive (List.cons.inj same).1,
          integer_unsigned kept (fun _ same => negative (List.cons.inj same).1) fun _ same =>
            positive (List.cons.inj same).1]
        exact congrArg Nat.cast (number_append (byte :: more) ends)

/-- The integer has no more digits than the text. -/
theorem natAbs_integer_lt (text : Bytes) : (integer text).natAbs < 10 ^ text.length := by
  have dropped : (text.dropWhile isSpace).length ≤ text.length := (List.dropWhile_suffix isSpace).length_le
  have small (rest : Bytes) (fits : rest.length ≤ text.length) : number rest < 10 ^ text.length :=
    lt_of_lt_of_le (number_lt rest) (Nat.pow_le_pow_right (by decide) fits)
  unfold integer
  split
  · rename_i rest same
    rw [same, List.length_cons] at dropped
    simpa using small rest (by omega)
  · rename_i rest same
    rw [same, List.length_cons] at dropped
    simpa using small rest (by omega)
  · simpa using small _ dropped

theorem length_digits_le {n k : Nat} (small : n < 10 ^ k) (positive : 0 < k) : (digits n).length ≤ k := by
  unfold digits
  split
  · exact positive
  · rw [List.length_map, List.length_reverse]
    exact (Nat.digits_length_le_iff (by decide) n).mpr small

theorem decimal_ne_nil (n : Int) : decimal n ≠ [] := by
  obtain ⟨d, rest, text, _⟩ := digits_head n.natAbs
  unfold decimal
  split <;> simp [text]

end Decimal
