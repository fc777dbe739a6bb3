import ContentBased.Library.Decimal

/-! The wire format of protocol buffers, as far as messages of numbers need it. -/
namespace Wire

def writeDigits : Nat → Nat → Bytes
  | 0, _ => []
  | turns + 1, n =>
    if n < 128 then [UInt8.ofNat n] else UInt8.ofNat (n % 128 + 128) :: writeDigits turns (n / 128)

def readDigits : Nat → Bytes → Option (Nat × Bytes)
  | 0, _ => none
  | _ + 1, [] => none
  | turns + 1, byte :: rest =>
    if byte.toNat < 128 then some (byte.toNat, rest)
    else (readDigits turns rest).map fun (n, rest) => (byte.toNat - 128 + 128 * n, rest)

def writeVarint (value : UInt64) : Bytes := writeDigits 10 value.toNat

/-- At most ten bytes, of which the value keeps the low 64 bits. -/
def readVarint (bytes : Bytes) : Option (UInt64 × Bytes) :=
  (readDigits 10 bytes).map fun (n, rest) => (UInt64.ofNat n, rest)

/-- An `int32` is written sign-extended and read back by its low 32 bits. -/
def writeInt32 (value : Int32) : Bytes := writeVarint value.toInt64.toUInt64

def readInt32 (bytes : Bytes) : Option (Int32 × Bytes) :=
  (readVarint bytes).map fun (value, rest) => (value.toInt64.toInt32, rest)

/-- The four bytes of an `int` in memory, the low one first. -/
def rawInt (value : Int32) : Bytes :=
  let n := value.toUInt32.toNat
  [UInt8.ofNat n, UInt8.ofNat (n / 256), UInt8.ofNat (n / 65536), UInt8.ofNat (n / 16777216)]

def readRawInt : Bytes → Option (Int32 × Bytes)
  | a :: b :: c :: d :: rest =>
    some ((UInt32.ofNat (a.toNat + 256 * b.toNat + 65536 * c.toNat + 16777216 * d.toNat)).toInt32, rest)
  | _ => none

/-- A tag is the field number times eight and the wire type; no tag is zero. -/
def readTag (bytes : Bytes) : Option (Nat × Bytes) :=
  match readVarint bytes with
  | some (value, rest) => if value.toNat % 2 ^ 32 = 0 then none else some (value.toNat % 2 ^ 32, rest)
  | none => none

/-- Skips the value of a field that is not a group. -/
def skipValue (wireType : Nat) (bytes : Bytes) : Option Bytes :=
  match wireType with
  | 0 => (readVarint bytes).map Prod.snd
  | 1 => if bytes.length < 8 then none else some (bytes.drop 8)
  | 2 =>
    match readVarint bytes with
    | some (length, rest) => if rest.length < length.toNat then none else some (rest.drop length.toNat)
    | none => none
  | 5 => if bytes.length < 4 then none else some (bytes.drop 4)
  | _ => none

/-- Skips to the end of the groups that are open, of which there may be a hundred. -/
def skipGroups : Nat → List Nat → Bytes → Option Bytes
  | _, [], bytes => some bytes
  | 0, _ :: _, _ => none
  | turns + 1, field :: outer, bytes =>
    match readTag bytes with
    | none => none
    | some (tag, rest) =>
      if tag % 8 = 4 then
        if tag / 8 = field then skipGroups turns outer rest else none
      else if tag % 8 = 3 then
        if outer.length < 99 then skipGroups turns (tag / 8 :: field :: outer) rest else none
      else
        match skipValue (tag % 8) rest with
        | some rest => skipGroups turns (field :: outer) rest
        | none => none

def skipField (tag : Nat) (bytes : Bytes) : Option Bytes :=
  if tag % 8 = 3 then skipGroups bytes.length [tag / 8] bytes else skipValue (tag % 8) bytes

theorem readDigits_writeDigits (turns n : Nat) (fits : n < 128 ^ (turns + 1)) (rest : Bytes) :
    readDigits (turns + 1) (writeDigits (turns + 1) n ++ rest) = some (n, rest) := by
  induction turns generalizing n with
  | zero =>
    have small : n < 128 := by simpa using fits
    have byte : (UInt8.ofNat n).toNat = n := by rw [UInt8.toNat_ofNat']; omega
    simp only [writeDigits, if_pos small, List.singleton_append, readDigits, byte]
  | succ turns ih =>
    rw [writeDigits]
    by_cases small : n < 128
    · have byte : (UInt8.ofNat n).toNat = n := by rw [UInt8.toNat_ofNat']; omega
      simp only [if_pos small, List.singleton_append, readDigits, byte]
    · have byte : (UInt8.ofNat (n % 128 + 128)).toNat = n % 128 + 128 := by rw [UInt8.toNat_ofNat']; omega
      have continued : ¬ n % 128 + 128 < 128 := by omega
      have less : n / 128 < 128 ^ (turns + 1) := by
        rw [Nat.div_lt_iff_lt_mul (by decide), ← Nat.pow_succ]
        exact fits
      rw [if_neg small, List.cons_append, readDigits, byte, if_neg continued, ih _ less, Option.map_some]
      have value : n % 128 + 128 - 128 + 128 * (n / 128) = n := by omega
      simp only [value]

theorem readVarint_writeVarint (value : UInt64) (rest : Bytes) :
    readVarint (writeVarint value ++ rest) = some (value, rest) := by
  have fits : value.toNat < 128 ^ (9 + 1) := by
    have := value.toNat_lt
    omega
  rw [readVarint, writeVarint, readDigits_writeDigits 9 _ fits]
  simp

theorem readInt32_writeInt32 (value : Int32) (rest : Bytes) :
    readInt32 (writeInt32 value ++ rest) = some (value, rest) := by
  rw [readInt32, writeInt32, readVarint_writeVarint]
  simp

theorem readRawInt_rawInt (value : Int32) (rest : Bytes) : readRawInt (rawInt value ++ rest) = some (value, rest) := by
  have bounded := value.toUInt32.toNat_lt
  have digits : value.toUInt32.toNat % 256 + 256 * (value.toUInt32.toNat / 256 % 256) +
      65536 * (value.toUInt32.toNat / 65536 % 256) + 16777216 * (value.toUInt32.toNat / 16777216 % 256) =
      value.toUInt32.toNat := by omega
  simp only [rawInt, List.cons_append, List.nil_append, readRawInt, UInt8.toNat_ofNat']
  rw [digits, UInt32.ofNat_toNat]
  simp

/-- A tag of one byte. -/
theorem readTag_cons {byte : UInt8} (positive : 0 < byte.toNat) (small : byte.toNat < 128) (rest : Bytes) :
    readTag (byte :: rest) = some (byte.toNat, rest) := by
  have value : byte.toNat % 2 ^ 32 = byte.toNat := by omega
  have read : readVarint (byte :: rest) = some (UInt64.ofNat byte.toNat, rest) := by
    simp only [readVarint, readDigits, if_pos small, Option.map_some]
  have low : (UInt64.ofNat byte.toNat).toNat = byte.toNat := by
    rw [UInt64.toNat_ofNat']
    omega
  simp only [readTag, read, low, value]
  rw [if_neg (by omega)]

end Wire
