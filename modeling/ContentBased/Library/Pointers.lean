import ContentBased.Library.Readers

/-! A pointer that goes through memory and prints what it finds, with the end of the memory that it touches. -/
namespace Pointers
open Wire Readers

/-- The pointer is an offset into the memory. All offsets that have been read or written are below `touched`. -/
structure Walk where
  memory : Bytes
  ptr : Int
  touched : Nat := 0
  printed : Bytes := []

/-- Code that goes through memory, and comes to nothing when it leaves it. -/
abbrev Walking := StateT Walk Option

/-- Reads at an offset from the pointer, which stays where it is. -/
def load {α : Type} (reader : Reader α) (offset : Int) : Walking α := fun walk =>
  let place := walk.ptr + offset
  if place < 0 then none
  else
    (reader.run (walk.memory.drop place.toNat)).map fun (value, rest) =>
      (value, { walk with touched := max walk.touched (walk.memory.length - rest.length) })

def store (offset : Int) (byte : UInt8) : Walking Unit := fun walk =>
  let place := walk.ptr + offset
  if place < 0 ∨ walk.memory.length ≤ place.toNat then none
  else
    some ((), { walk with
      memory := walk.memory.set place.toNat byte
      touched := max walk.touched (place.toNat + 1) })

def advance (n : Int) : Walking Unit := modify fun walk => { walk with ptr := walk.ptr + n }

def print (text : Bytes) : Walking Unit := modify fun walk => { walk with printed := walk.printed ++ text }

def byte : Reader UInt8
  | [] => none
  | first :: rest => some (first, rest)

/-- The bytes before the first that is zero, and those behind it. -/
def splitAtZero : Bytes → Option (Bytes × Bytes)
  | [] => none
  | first :: rest =>
    if first = 0 then some ([], rest)
    else (splitAtZero rest).map fun (text, rest) => (first :: text, rest)

/-- A string with the zero at its end. -/
def cString : Reader Bytes := splitAtZero

theorem reads_byte (value : UInt8) : Reads byte [value] value := fun _ => rfl

theorem reads_cString {text : Bytes} (free : 0 ∉ text) : Reads cString (text ++ [0]) text := by
  intro rest
  change splitAtZero _ = _
  induction text with
  | nil => rfl
  | cons first text ih =>
    have other : first ≠ 0 := fun zero => free (zero ▸ List.mem_cons_self)
    have more := ih fun member => free (List.mem_cons_of_mem _ member)
    rw [List.cons_append, List.cons_append, splitAtZero, if_neg other, more]
    rfl

section Run
variable {α : Type} {reader : Reader α} {value : α} {memory before field rest : Bytes} {ptr offset : Int}

theorem load_run (reads : Reads reader field value) (place : ptr + offset = before.length)
    (there : memory = before ++ (field ++ rest)) (touched : Nat) (printed : Bytes) :
    load reader offset ⟨memory, ptr, touched, printed⟩ =
      some (value, ⟨memory, ptr, max touched (before.length + field.length), printed⟩) := by
  have inside : ¬ ptr + offset < 0 := by omega
  have dropped : memory.drop (ptr + offset).toNat = field ++ rest := by
    rw [place, Int.toNat_natCast, there, List.drop_left]
  have length : memory.length - rest.length = before.length + field.length := by
    simp only [there, List.length_append]
    omega
  simp only [load, if_neg inside, dropped, reads rest, Option.map_some, length]

theorem store_run {old : UInt8} (new : UInt8) (place : ptr + offset = before.length)
    (there : memory = before ++ old :: rest) (touched : Nat) (printed : Bytes) :
    store offset new ⟨memory, ptr, touched, printed⟩ =
      some ((), ⟨before ++ new :: rest, ptr, max touched (before.length + 1), printed⟩) := by
  have inside : ¬ (ptr + offset < 0 ∨ memory.length ≤ (ptr + offset).toNat) := by
    rw [there, List.length_append, List.length_cons]
    omega
  have last : (ptr + offset).toNat = before.length := by rw [place, Int.toNat_natCast]
  have written : memory.set before.length new = before ++ new :: rest := by
    rw [there, List.set_append_right _ _ le_rfl, Nat.sub_self, List.set_cons_zero]
  rw [store]
  dsimp only
  rw [if_neg inside, last, written]

end Run

/-- Started before some bytes, with at most so many of them touched, the program goes behind them, prints a text and
leaves the memory as it was. It touches at most so many bytes behind them, which must be there. -/
def Walks (ahead behind : Nat) (program : Walking Unit) (bytes text : Bytes) : Prop :=
  ∀ before rest touched printed, touched ≤ before.length + ahead → behind ≤ rest.length →
    ∃ touched' ≤ before.length + bytes.length + behind,
      program ⟨before ++ (bytes ++ rest), before.length, touched, printed⟩ =
        some ((), ⟨before ++ (bytes ++ rest), before.length + bytes.length, touched', printed ++ text⟩)

namespace Walks
variable {ahead behind middle : Nat} {program : Walking Unit} {bytes more text said : Bytes}

theorem done : Walks ahead ahead (pure ()) [] [] := by
  intro before rest touched printed small _
  refine ⟨touched, small, ?_⟩
  simp only [List.length_nil, Nat.cast_zero, add_zero, List.append_nil]
  rfl

/-- Fewer bytes may be touched before the start. -/
theorem weaken {fewer : Nat} (walks : Walks ahead behind program bytes text) (less : fewer ≤ ahead) :
    Walks fewer behind program bytes text := fun before rest touched printed small enough =>
  walks before rest touched printed (small.trans (Nat.add_le_add_left less _)) enough

theorem bind {next : Unit → Walking Unit} (first : Walks ahead middle program bytes text)
    (second : Walks middle behind (next ()) more said) (covered : middle ≤ more.length + behind) :
    Walks ahead behind (program >>= next) (bytes ++ more) (text ++ said) := by
  intro before rest touched printed small enough
  obtain ⟨touched', small', run⟩ := first before (more ++ rest) touched printed small (by
    rw [List.length_append]
    omega)
  obtain ⟨touched'', small'', run'⟩ := second (before ++ bytes) rest touched' (printed ++ text) (by
    rw [List.length_append]
    omega) enough
  simp only [List.length_append, List.append_assoc, Nat.cast_add] at run run' small'' ⊢
  refine ⟨touched'', by omega, ?_⟩
  change Option.bind (program _) _ = _
  rw [run]
  change next () _ = _
  rw [run', add_assoc]

/-- A value that is found at an offset. -/
theorem load {α : Type} {reader : Reader α} {value : α} {next : α → Walking Unit} {front field rest : Bytes}
    {offset : Int} (reads : Reads reader field value) (place : offset = front.length)
    (there : bytes = front ++ (field ++ rest))
    (walks : Walks (max ahead (front.length + field.length)) behind (next value) bytes text) :
    Walks ahead behind (load reader offset >>= next) bytes text := by
  intro before beyond touched printed small enough
  have found : before ++ (bytes ++ beyond) = (before ++ front) ++ (field ++ (rest ++ beyond)) := by
    simp only [there, List.append_assoc]
  have start : (before.length : Int) + offset = (before ++ front).length := by
    rw [place, List.length_append, Nat.cast_add]
  have run : Pointers.load reader offset ⟨before ++ (bytes ++ beyond), before.length, touched, printed⟩ =
      some (value, ⟨before ++ (bytes ++ beyond), before.length,
        max touched ((before ++ front).length + field.length), printed⟩) := load_run reads start found touched printed
  rw [List.length_append] at run
  have later := walks before beyond (max touched (before.length + front.length + field.length)) printed
    (by omega) enough
  change ∃ touched' ≤ _, Option.bind (Pointers.load reader offset _) _ = _
  rw [run]
  exact later

theorem advance {n : Int} (length : n = bytes.length) (walks : Walks (ahead - bytes.length) behind program more text) :
    Walks ahead behind (advance n >>= fun _ => program) (bytes ++ more) text := by
  intro before rest touched printed small enough
  obtain ⟨touched', small', run⟩ := walks (before ++ bytes) rest touched printed (by
    rw [List.length_append]
    omega) enough
  simp only [List.length_append, List.append_assoc, Nat.cast_add] at run small' ⊢
  refine ⟨touched', by omega, ?_⟩
  subst length
  change program _ = _
  rw [run, add_assoc]

theorem arrive {n : Int} (length : n = bytes.length) :
    Walks ahead (ahead - bytes.length) (Pointers.advance n) bytes [] := by
  have walks : Walks ahead (ahead - bytes.length) (Pointers.advance n >>= fun _ => pure ()) (bytes ++ []) [] :=
    advance length done
  rwa [List.append_nil, bind_pure] at walks

theorem print (walks : Walks ahead behind program bytes said) :
    Walks ahead behind (print text >>= fun _ => program) bytes (text ++ said) := by
  intro before rest touched printed small enough
  obtain ⟨touched', small', run⟩ := walks before rest touched (printed ++ text) small enough
  rw [List.append_assoc] at run
  exact ⟨touched', small', run⟩

theorem say (text : Bytes) : Walks ahead ahead (Pointers.print text) [] text := by
  have walks : Walks ahead ahead (Pointers.print text >>= fun _ => pure ()) [] (text ++ []) := print done
  rwa [List.append_nil, bind_pure] at walks

theorem forM {γ : Type} {elements : List γ} {body : γ → Walking Unit} {field line : γ → Bytes}
    (each : ∀ element ∈ elements, Walks ahead ahead (body element) (field element) (line element)) :
    Walks ahead ahead (elements.forM body) (elements.flatMap field) (elements.flatMap line) := by
  induction elements with
  | nil => exact done
  | cons element elements ih =>
    have later := ih fun element member => each element (List.mem_cons_of_mem _ member)
    exact (each element List.mem_cons_self).bind later (Nat.le_add_left _ _)

end Walks

end Pointers
