import ContentBased.Library.Wire

/-! Readers that take what they read off the front of the bytes. -/
namespace Readers
open Wire

abbrev Reader (α : Type) := StateT Bytes Option α

/-- The reader takes these bytes for this value, whatever comes behind. -/
def Reads {α : Type} (reader : Reader α) (bytes : Bytes) (value : α) : Prop :=
  ∀ rest, reader.run (bytes ++ rest) = some (value, rest)

/-- The eight bytes of a number of 64 bits in memory, the low one first. -/
def rawWord (value : UInt64) : Bytes :=
  rawInt (UInt32.ofNat value.toNat).toInt32 ++ rawInt (UInt32.ofNat (value.toNat / 2 ^ 32)).toInt32

def int : Reader Int32 := readRawInt

def word : Reader UInt64 := do
  let low ← int
  let high ← int
  return UInt64.ofNat (low.toUInt32.toNat + 2 ^ 32 * high.toUInt32.toNat)

def take (n : Nat) : Reader Bytes := fun bytes =>
  if bytes.length < n then none else some (bytes.take n, bytes.drop n)

/-- A length that is not negative, and so many bytes. -/
def sized : Reader Bytes := do
  let size ← int
  if size < 0 then failure else take size.toInt.toNat

def times {α : Type} (reader : Reader α) : Nat → Reader (List α)
  | 0 => pure []
  | n + 1 => do
    let first ← reader
    let rest ← times reader n
    return first :: rest

/-- A count that is not negative, and so many of a kind. -/
def counted {α : Type} (reader : Reader α) : Reader (List α) := do
  let num ← int
  if num < 0 then failure else times reader num.toInt.toNat

@[simp]
theorem length_rawInt (value : Int32) : (rawInt value).length = 4 := rfl

@[simp]
theorem length_rawWord (value : UInt64) : (rawWord value).length = 8 := rfl

/-- What a list is mapped to when no element fails. -/
theorem mapM_eq_some {α β : Type} {find : α → Option β} {xs : List α} {ys : List β} (found : xs.mapM find = some ys) :
    ys.map some = xs.map find := by
  induction xs generalizing ys with
  | nil =>
    obtain rfl := Option.some.inj found
    rfl
  | cons x xs ih =>
    rw [List.mapM_cons] at found
    obtain ⟨y, first, found⟩ := Option.bind_eq_some_iff.mp found
    obtain ⟨rest, more, same⟩ := Option.bind_eq_some_iff.mp found
    obtain rfl := Option.some.inj same
    rw [List.map_cons, List.map_cons, first, ih more]

theorem forall₂_mapM {α β : Type} {find : α → Option β} {xs : List α} {ys : List β} (found : xs.mapM find = some ys) :
    List.Forall₂ (fun x y => find x = some y) xs ys := by
  have same : List.Forall₂ Eq (xs.map find) (ys.map some) := List.forall₂_eq_eq_eq ▸ (mapM_eq_some found).symm
  rwa [List.forall₂_map_left_iff, List.forall₂_map_right_iff] at same

theorem exists_mem_of_mapM {α β : Type} {find : α → Option β} {xs : List α} {ys : List β} {x : α}
    (found : xs.mapM find = some ys) (member : x ∈ xs) : ∃ y ∈ ys, find x = some y := by
  have image : find x ∈ ys.map some := mapM_eq_some found ▸ List.mem_map_of_mem member
  obtain ⟨y, inside, same⟩ := List.mem_map.mp image
  exact ⟨y, inside, same.symm⟩

theorem exists_mapM {α β : Type} {find : α → Option β} {xs : List α} (all : ∀ x ∈ xs, ∃ y, find x = some y) :
    ∃ ys, xs.mapM find = some ys := by
  induction xs with
  | nil => exact ⟨[], rfl⟩
  | cons x xs ih =>
    obtain ⟨y, first⟩ := all x List.mem_cons_self
    obtain ⟨ys, rest⟩ := ih fun x member => all x (List.mem_cons_of_mem _ member)
    exact ⟨y :: ys, by rw [List.mapM_cons, first, rest]; rfl⟩

theorem length_of_times {α : Type} {reader : Reader α} {n : Nat} {bytes rest : Bytes} {values : List α}
    (read : (times reader n).run bytes = some (values, rest)) : values.length = n := by
  induction n generalizing bytes values with
  | zero =>
    obtain ⟨rfl, -⟩ := Prod.mk.inj (Option.some.inj read)
    rfl
  | succ n ih =>
    rw [times, StateT.run_bind] at read
    obtain ⟨⟨first, middle⟩, -, read⟩ := Option.bind_eq_some_iff.mp read
    rw [StateT.run_bind] at read
    obtain ⟨⟨others, after⟩, more, same⟩ := Option.bind_eq_some_iff.mp read
    obtain ⟨rfl, rfl⟩ := Prod.mk.inj (Option.some.inj same)
    rw [List.length_cons, ih more]

namespace Reads
variable {α β : Type} {reader : Reader α} {bytes more : Bytes} {value : α} {result : β}

theorem pure (value : α) : Reads (Pure.pure value) [] value := fun _ => rfl

theorem bind {next : α → Reader β} (first : Reads reader bytes value) (rest : Reads (next value) more result) :
    Reads (reader >>= next) (bytes ++ more) result := by
  intro behind
  rw [StateT.run_bind, List.append_assoc, first]
  exact rest behind

theorem map {next : α → β} (reads : Reads reader bytes value) :
    Reads (reader >>= fun value => Pure.pure (next value)) bytes (next value) := by
  have both : Reads (reader >>= fun value => Pure.pure (next value)) (bytes ++ []) (next value) :=
    reads.bind (pure (next value))
  rwa [List.append_nil] at both

theorem int (value : Int32) : Reads Readers.int (rawInt value) value := readRawInt_rawInt value

theorem word (value : UInt64) : Reads Readers.word (rawWord value) value := by
  have small := value.toNat_lt
  have same : UInt64.ofNat ((UInt32.ofNat value.toNat).toInt32.toUInt32.toNat +
      2 ^ 32 * (UInt32.ofNat (value.toNat / 2 ^ 32)).toInt32.toUInt32.toNat) = value := by
    rw [UInt32.toUInt32_toInt32, UInt32.toUInt32_toInt32, UInt32.toNat_ofNat', UInt32.toNat_ofNat']
    apply UInt64.toNat_inj.mp
    rw [UInt64.toNat_ofNat']
    omega
  have both : Reads Readers.word (rawWord value) (UInt64.ofNat ((UInt32.ofNat value.toNat).toInt32.toUInt32.toNat +
      2 ^ 32 * (UInt32.ofNat (value.toNat / 2 ^ 32)).toInt32.toUInt32.toNat)) := (int _).bind (int _).map
  rwa [same] at both

theorem take (bytes : Bytes) : Reads (Readers.take bytes.length) bytes bytes := by
  intro rest
  have enough : ¬ (bytes ++ rest).length < bytes.length := by simp
  change (if _ then _ else _) = _
  rw [if_neg enough, List.take_left, List.drop_left]

/-- What is read behind a count that is not negative. -/
theorem count {n : Nat} {next : Nat → Reader β} (small : n < 2 ^ 31) :
    (if Int32.ofNat n < 0 then failure else next (Int32.ofNat n).toInt.toNat : Reader β) = next n := by
  have value : (Int32.ofNat n).toInt = n := Int32.toInt_ofNat_of_lt (by omega)
  have positive : ¬ Int32.ofNat n < 0 := by
    rw [Int32.lt_iff_toInt_lt, value, Int32.toInt_zero]
    omega
  rw [if_neg positive, value, Int.toNat_natCast]

theorem times {values : List α} {encode : α → Bytes} (each : ∀ value ∈ values, Reads reader (encode value) value) :
    Reads (Readers.times reader values.length) (values.flatMap encode) values := by
  induction values with
  | nil => exact pure []
  | cons first rest ih =>
    have later := ih fun value member => each value (List.mem_cons_of_mem _ member)
    exact (each first List.mem_cons_self).bind later.map

end Reads

end Readers
