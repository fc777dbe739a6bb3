import ContentBased.Library.Trapping
import ContentBased.Library.Wire
import ContentBased.Library.Wrapping

/-! Fields that are put into a buffer one after the other, with an `int` that adds up their lengths. -/
namespace Writers
open Trapping Wire

/-- What has been put, and the length that is added up. -/
structure Cursor where
  written : Bytes := []
  len : Int32 := 0

/-- Puts a field, unless the length with it is above the size of the buffer. -/
def put (size : Int32) (full : Int) (length : Nat) (field : Trapping Cursor Int Bytes) : Trapping Cursor Int Unit := do
  modify fun cursor => { cursor with len := cursor.len + Int32.ofNat length }
  let cursor ← get
  if size < cursor.len then throw full
  else do
    let bytes ← field
    modify fun cursor => { cursor with written := cursor.written ++ bytes }

inductive Step where
  | put (full : Int) (field : Bytes)
  | stop (code : Int)

def Step.code : Step → Int
  | put full _ => full
  | stop code => code

def Step.recode (change : Int → Int) : Step → Step
  | put full field => put (change full) field
  | stop code => stop (change code)

/-- The fields that the steps put when none of them stops. -/
def fields : List Step → Option Bytes
  | [] => some []
  | .put _ field :: rest => (fields rest).map (field ++ ·)
  | .stop _ :: _ => none

def follow (size : Int32) : List Step → Cursor → Except Int Unit × Cursor
  | [], cursor => (.ok (), cursor)
  | .stop code :: _, cursor => (.error code, cursor)
  | .put full field :: rest, cursor =>
    let len := cursor.len + Int32.ofNat field.length
    if size < len then (.error full, { cursor with len })
    else follow size rest ⟨cursor.written ++ field, len⟩

/-- The program does what the steps say. -/
def Follows (size : Int32) (program : Trapping Cursor Int Unit) (steps : List Step) : Prop :=
  ∀ cursor, program cursor = some (follow size steps cursor)

section Follow
variable {size : Int32} {program : Trapping Cursor Int Unit} {steps later : List Step}

theorem follow_append (steps later : List Step) (cursor : Cursor) :
    follow size (steps ++ later) cursor = match follow size steps cursor with
      | (.ok (), cursor) => follow size later cursor
      | (.error code, cursor) => (.error code, cursor) := by
  induction steps generalizing cursor with
  | nil => rfl
  | cons step rest ih =>
    cases step with
    | stop code => rfl
    | put full field =>
      simp only [List.cons_append, follow]
      split
      · rfl
      · exact ih _

theorem fields_append (steps later : List Step) :
    fields (steps ++ later) = (fields steps).bind fun bytes => (fields later).map (bytes ++ ·) := by
  induction steps with
  | nil => simp [fields]
  | cons step rest ih =>
    cases step with
    | stop code => rfl
    | put full field =>
      rw [List.cons_append, fields, fields, ih]
      cases fields rest with
      | none => rfl
      | some bytes => cases fields later <;> simp

theorem follow_recode (change : Int → Int) (steps : List Step) (cursor : Cursor) :
    follow size (steps.map (Step.recode change)) cursor =
      ((follow size steps cursor).1.mapError change, (follow size steps cursor).2) := by
  induction steps generalizing cursor with
  | nil => rfl
  | cons step rest ih =>
    cases step with
    | stop code => rfl
    | put full field =>
      simp only [List.map_cons, Step.recode, follow]
      split
      · rfl
      · exact ih _

namespace Follows

theorem done : Follows size (pure ()) [] := fun _ => rfl

theorem throw (code : Int) : Follows size (MonadExcept.throw code) [.stop code] := fun _ => rfl

theorem put (full : Int) {field : Bytes} {length : Nat} (same : field.length = length) :
    Follows size (Writers.put size full length (pure field)) [.put full field] := by
  subst same
  intro cursor
  by_cases less : size < cursor.len + Int32.ofNat field.length
  · have stops : follow size [.put full field] cursor =
        (.error full, { cursor with len := cursor.len + Int32.ofNat field.length }) := if_pos less
    rw [stops]
    change (if _ then _ else _ : Trapping Cursor Int Unit) _ = _
    rw [if_pos less]
    rfl
  · have goes : follow size [.put full field] cursor =
        (.ok (), ⟨cursor.written ++ field, cursor.len + Int32.ofNat field.length⟩) := if_neg less
    rw [goes]
    change (if _ then _ else _ : Trapping Cursor Int Unit) _ = _
    rw [if_neg less]
    rfl

theorem bind {next : Unit → Trapping Cursor Int Unit} (first : Follows size program steps)
    (rest : Follows size (next ()) later) : Follows size (program >>= next) (steps ++ later) := by
  intro cursor
  rw [follow_append]
  have run := first cursor
  rcases ends : follow size steps cursor with ⟨code | ⟨⟩, cursor'⟩
  · rw [ends] at run
    rw [bind_of_error run]
  · rw [ends] at run
    rw [bind_of_ok run]
    exact rest cursor'

theorem forM {γ : Type} {elements : List γ} {body : γ → Trapping Cursor Int Unit} {each : γ → List Step}
    (bodies : ∀ element ∈ elements, Follows size (body element) (each element)) :
    Follows size (elements.forM body) (elements.flatMap each) := by
  induction elements with
  | nil => exact done
  | cons element rest ih =>
    exact bind (bodies element List.mem_cons_self) (ih fun element member => bodies element (List.mem_cons_of_mem _ member))

/-- The codes of a part may be replaced. -/
theorem recode {change : Int → Int} (follows : Follows size program steps) :
    Follows size (ExceptT.adapt change program) (steps.map (Step.recode change)) := by
  intro cursor
  have run : ExceptT.adapt change program cursor =
      (program cursor).bind fun ends => some (ends.1.mapError change, ends.2) := rfl
  rw [run, follows cursor, follow_recode]
  rfl

end Follows

/-- Steps that go through have put all their fields. -/
theorem fields_of_ok {cursor after : Cursor} (run : follow size steps cursor = (.ok (), after)) :
    ∃ bytes, fields steps = some bytes ∧ after.written = cursor.written ++ bytes := by
  induction steps generalizing cursor with
  | nil =>
    obtain rfl := (Prod.mk.inj run).2
    exact ⟨[], rfl, (List.append_nil _).symm⟩
  | cons step rest ih =>
    cases step with
    | stop code => cases run
    | put full field =>
      simp only [follow] at run
      split at run
      · cases run
      · obtain ⟨bytes, more, written⟩ := ih run
        exact ⟨field ++ bytes, by rw [fields, more, Option.map_some], by rw [written, List.append_assoc]⟩

theorem code_of_error {cursor after : Cursor} {code : Int} (run : follow size steps cursor = (.error code, after)) :
    ∃ step ∈ steps, step.code = code := by
  induction steps generalizing cursor with
  | nil => cases run
  | cons step rest ih =>
    cases step with
    | stop stopped =>
      exact ⟨_, List.mem_cons_self, Except.error.inj (Prod.mk.inj run).1⟩
    | put full field =>
      simp only [follow] at run
      split at run
      · exact ⟨_, List.mem_cons_self, Except.error.inj (Prod.mk.inj run).1⟩
      · obtain ⟨step, member, same⟩ := ih run
        exact ⟨step, List.mem_cons_of_mem _ member, same⟩

theorem written_le_follow (cursor : Cursor) :
    cursor.written.length ≤ (follow size steps cursor).2.written.length := by
  induction steps generalizing cursor with
  | nil => rfl
  | cons step rest ih =>
    cases step with
    | stop code => rfl
    | put full field =>
      simp only [follow]
      split
      · rfl
      · have more := ih ⟨cursor.written ++ field, cursor.len + Int32.ofNat field.length⟩
        simp only [List.length_append] at more
        omega

end Follow

/-- From a start on, no field ends at 2^31 or beyond, up to the first that ends above the size of the buffer. -/
def Unwrapped (size : Int32) : Nat → List Step → Prop
  | _, [] => True
  | _, .stop _ :: _ => True
  | start, .put _ field :: rest => start + field.length < 2 ^ 31 ∧
      ((start + field.length : Int) ≤ size.toInt → Unwrapped size (start + field.length) rest)

/-- A field that starts inside the buffer, behind fields that are all put. -/
theorem Unwrapped.field_end {size : Int32} {start : Nat} {before after : List Step} {full : Int} {field bytes : Bytes}
    (unwrapped : Unwrapped size start (before ++ .put full field :: after)) (all : fields before = some bytes)
    (inside : (start + bytes.length : Int) ≤ size.toInt) : start + bytes.length + field.length < 2 ^ 31 := by
  induction before generalizing start bytes with
  | nil =>
    obtain rfl : [] = bytes := Option.some.inj all
    exact unwrapped.1
  | cons step rest ih =>
    cases step with
    | stop code => cases all
    | put full' field' =>
      obtain ⟨more, later, rfl⟩ := Option.map_eq_some_iff.mp all
      rw [List.length_append] at inside ⊢
      have ends := ih (unwrapped.2 (by omega)) later (by omega)
      omega

/-- The length is that of what has been put, which is inside the buffer. -/
structure Within (size : Int32) (cursor : Cursor) : Prop where
  len_eq : cursor.len.toInt = cursor.written.length
  room : (cursor.written.length : Int) ≤ size.toInt

section Wrap
variable {size : Int32} {steps : List Step} {cursor : Cursor}

theorem follow_within (within : Within size cursor) (unwrapped : Unwrapped size cursor.written.length steps) :
    ((follow size steps cursor).2.written.length : Int) ≤ size.toInt ∧
      ∀ after, follow size steps cursor = (.ok (), after) → Within size after := by
  induction steps generalizing cursor with
  | nil =>
    refine ⟨within.room, fun after run => ?_⟩
    obtain rfl := (Prod.mk.inj run).2
    exact within
  | cons step rest ih =>
    cases step with
    | stop code => exact ⟨within.room, fun after run => by cases run⟩
    | put full field =>
      obtain ⟨fits, later⟩ := unwrapped
      have length : (Int32.ofNat field.length).toInt = field.length := Int32.toInt_ofNat_of_lt (by omega)
      have len : (cursor.len + Int32.ofNat field.length).toInt = (cursor.written ++ field).length := by
        have known := within.len_eq
        rw [Wrapping.toInt_add_of_fits (by omega) (by omega), known, length, List.length_append]
        rfl
      simp only [follow]
      split
      · exact ⟨within.room, fun after run => by cases run⟩
      · rename_i room
        rw [Int32.lt_iff_toInt_lt, len, not_lt] at room
        refine ih ⟨len, room⟩ ?_
        rw [List.length_append] at room ⊢
        exact later (by exact_mod_cast room)

/-- A length that wraps is negative, so that the field is put beyond the buffer. -/
theorem follow_beyond (small : ∀ full field, .put full field ∈ steps → field.length < 2 ^ 31) (within : Within size cursor)
    (wrapped : ¬ Unwrapped size cursor.written.length steps) :
    size.toInt < ((follow size steps cursor).2.written.length : Int) := by
  induction steps generalizing cursor with
  | nil => exact absurd trivial wrapped
  | cons step rest ih =>
    cases step with
    | stop code => exact absurd trivial wrapped
    | put full field =>
      have fits := small full field List.mem_cons_self
      have length : (Int32.ofNat field.length).toInt = field.length := Int32.toInt_ofNat_of_lt (by omega)
      obtain ⟨turns, len⟩ := Wrapping.toInt_add cursor.len (Int32.ofNat field.length)
      have bounds := Wrapping.bounds (cursor.len + Int32.ofNat field.length)
      have top := Wrapping.bounds size
      have known := within.len_eq
      have room := within.room
      simp only [follow]
      by_cases wraps : 2 ^ 31 ≤ cursor.written.length + field.length
      · rw [if_neg (by rw [Int32.lt_iff_toInt_lt]; omega)]
        have more := @written_le_follow size rest ⟨cursor.written ++ field, cursor.len + Int32.ofNat field.length⟩
        simp only [List.length_append] at more
        omega
      · have exact_ : (cursor.len + Int32.ofNat field.length).toInt = (cursor.written ++ field).length := by
          rw [List.length_append]
          omega
        have later : ¬ ((cursor.written.length + field.length : Int) ≤ size.toInt →
            Unwrapped size (cursor.written.length + field.length) rest) := fun holds => wrapped ⟨not_le.mp wraps, holds⟩
        obtain ⟨inside, rest_⟩ := not_forall.mp later
        have inside' : ((cursor.written ++ field).length : Int) ≤ size.toInt := by
          rw [List.length_append]
          exact_mod_cast inside
        rw [if_neg (by rw [Int32.lt_iff_toInt_lt, exact_]; omega)]
        refine ih (fun full field member => small full field (List.mem_cons_of_mem _ member)) ⟨exact_, inside'⟩ ?_
        rwa [List.length_append]

end Wrap

def Cursor.append (cursor : Cursor) (bytes : Bytes) : Cursor :=
  ⟨cursor.written ++ bytes, cursor.len + Int32.ofNat bytes.length⟩

/-- A program that goes through has put the bytes of a value, which is there. -/
def Puts {α : Type} (program : Trapping Cursor Int Unit) (value : Option α) (encode : α → Bytes) : Prop :=
  ∀ cursor after, program cursor = some (.ok (), after) →
    ∃ said, value = some said ∧ after = cursor.append (encode said)

namespace Puts
variable {α β : Type} {program program' : Trapping Cursor Int Unit} {value : Option α} {value' : Option β}
  {encode : α → Bytes} {encode' : β → Bytes} {size : Int32} {full : Int} {length : Nat}

theorem pure_put (encode : α → Bytes) (said : α) (same : (encode said).length = length) :
    Puts (put size full length (pure (encode said))) (some said) encode := by
  subst same
  intro cursor after run
  rw [Follows.put full rfl cursor, follow] at run
  split at run
  · cases run
  · obtain rfl := (Prod.mk.inj (Option.some.inj run)).2
    exact ⟨said, rfl, rfl⟩

/-- A value that is found through a pointer after the length has been tested. -/
theorem deref_put (same : ∀ said, value = some said → (encode said).length = length) :
    Puts (put size full length do
      let said ← deref value
      return encode said) value encode := by
  cases value with
  | none =>
    intro cursor after run
    have stops : put size full length (do
        let said ← deref (none : Option α)
        return encode said) cursor ≠ some (.ok (), after) := by
      intro run
      obtain ⟨_, _, _, run⟩ := of_bind_ok run
      obtain ⟨_, _, _, run⟩ := of_bind_ok run
      split at run <;> cases run
    exact absurd run stops
  | some said => exact pure_put encode said (same said rfl)

theorem map {γ : Type} {change : γ → α} {value : Option γ} (puts : Puts program value fun said => encode (change said)) :
    Puts program (value.map change) encode := by
  intro cursor after run
  obtain ⟨said, found, put⟩ := puts cursor after run
  exact ⟨change said, by rw [found, Option.map_some], put⟩

/-- What the first part has put, when both go through. -/
theorem first (puts : Puts program value encode) {next : Unit → Trapping Cursor Int Unit} {cursor after : Cursor}
    (run : (program >>= next) cursor = some (.ok (), after)) :
    ∃ said, value = some said ∧ next () (cursor.append (encode said)) = some (.ok (), after) := by
  obtain ⟨⟨⟩, middle, begun, rest⟩ := of_bind_ok run
  obtain ⟨said, found, rfl⟩ := puts cursor middle begun
  exact ⟨said, found, rest⟩

theorem append_append (cursor : Cursor) (bytes more : Bytes) :
    (cursor.append bytes).append more = cursor.append (bytes ++ more) := by
  simp only [Cursor.append, List.append_assoc, List.length_append, Int32.ofNat_add, Int32.add_assoc]

theorem bind (puts : Puts program value encode) (rest : Puts program' value' encode') :
    Puts (program >>= fun _ => program')
      (do
        let said ← value
        let more ← value'
        return (said, more))
      fun (said, more) => encode said ++ encode' more := by
  intro cursor after run
  obtain ⟨said, found, run⟩ := puts.first run
  obtain ⟨more, found', rfl⟩ := rest _ after run
  refine ⟨(said, more), ?_, append_append ..⟩
  rw [found, found']
  rfl

theorem recode {change : Int → Int} (puts : Puts program value encode) :
    Puts (ExceptT.adapt change program) value encode := by
  intro cursor after run
  refine puts cursor after ?_
  change (program cursor).bind (fun ends => some (ends.1.mapError change, ends.2)) = _ at run
  obtain ⟨⟨code | _, ends⟩, found, same⟩ := Option.bind_eq_some_iff.mp run
  · cases same
  · exact found.trans same

theorem forM {γ : Type} {elements : List γ} {body : γ → Trapping Cursor Int Unit} {value : γ → Option α}
    (bodies : ∀ element, Puts (body element) (value element) encode) :
    Puts (elements.forM body) (elements.mapM value) fun said => said.flatMap encode := by
  induction elements with
  | nil =>
    intro cursor after run
    obtain rfl := (Prod.mk.inj (Option.some.inj run)).2
    exact ⟨[], rfl, by simp [Cursor.append]⟩
  | cons element rest ih =>
    intro cursor after run
    obtain ⟨said, found, run⟩ := (bodies element).first run
    obtain ⟨more, found', rfl⟩ := ih _ after run
    refine ⟨said :: more, ?_, append_append ..⟩
    rw [List.mapM_cons, found, found']
    rfl

end Puts

end Writers
