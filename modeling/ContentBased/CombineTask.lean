import ContentBased.Receivers
import ContentBased.Library.Cells

namespace ContentBased.QueryProcessor

/-- A slot of the block: a length, and the bytes behind it. -/
structure Answer where
  length : Int32
  bytes : Nat → UInt8

namespace Answer

/-- The 32 bits from an offset on, the low byte first. -/
def bits (answer : Answer) (offset : Nat) : UInt32 :=
  UInt32.ofNat ((answer.bytes offset).toNat + 256 * (answer.bytes (offset + 1)).toNat +
    65536 * (answer.bytes (offset + 2)).toNat + 16777216 * (answer.bytes (offset + 3)).toNat)

def count (answer : Answer) : Int32 := (answer.bits 0).toInt32

/-- A power, which is the number of a `float`. -/
def power (varF4 : UInt32 → ℚ) (answer : Answer) (j : Nat) : ℚ := varF4 (answer.bits (4 + 4 * j))

/-- The tests by which `combine_task` skips a slot. -/
def Refused (answer : Answer) : Prop :=
  answer.length = -1 ∨ answer.length = 0 ∨ answer.length % 4 ≠ 0 ∨ (answer.count + 1) * 4 ≠ answer.length

instance (answer : Answer) : Decidable answer.Refused := inferInstanceAs (Decidable (_ ∨ _ ∨ _ ∨ _))

/-- A reply with so many powers. -/
def WellFormed (answer : Answer) (k : Nat) : Prop := answer.length.toInt = 4 * (k + 1) ∧ answer.count.toInt = k

instance (answer : Answer) (k : Nat) : Decidable (answer.WellFormed k) := inferInstanceAs (Decidable (_ ∧ _))

end Answer

/-- What `process_task` writes to its slot. -/
inductive SlotWrite where
  | length (value : Int32)
  | body (bytes : Bytes)

def SlotWrite.apply (answer : Answer) : SlotWrite → Answer
  | length value => { answer with length := value }
  | body bytes => { answer with bytes := fun offset => bytes[offset]?.getD (answer.bytes offset) }

/-- The writes of `process_task`, where a body may come in part. -/
def taskWrites (fwCalcRecvSize : Int32) (peer : Peer) (part : Bytes) : List SlotWrite :=
  .length (-1) ::
    if !peer.connects || !peer.takes then []
    else
      match peer.lengthPrefix with
      | none => []
      | some rLen =>
        if fwCalcRecvSize < rLen + 4 then []
        else
          match peer.body rLen with
          | none => [.body part]
          | some data => [.body data, .length rLen]

/-- The slot has the length that the task comes to, and the bytes of its body. -/
theorem taskWrites_processTask (fwCalcRecvSize : Int32) (sendBuf : Bytes) (peer : Peer) (part : Bytes) (stale : Answer) :
    ((taskWrites fwCalcRecvSize peer part).foldl SlotWrite.apply stale).length =
        (processTask fwCalcRecvSize sendBuf peer).1.length ∧
      ∀ offset byte, (processTask fwCalcRecvSize sendBuf peer).1.body[offset]? = some byte →
        ((taskWrites fwCalcRecvSize peer part).foldl SlotWrite.apply stale).bytes offset = byte := by
  obtain ⟨connects, takes, lengthPrefix, body⟩ := peer
  cases connects with
  | false => exact ⟨rfl, fun _ _ none_ => by cases none_⟩
  | true =>
    cases takes with
    | false => exact ⟨rfl, fun _ _ none_ => by cases none_⟩
    | true =>
      cases lengthPrefix with
      | none => exact ⟨rfl, fun _ _ none_ => by cases none_⟩
      | some rLen =>
        by_cases above : fwCalcRecvSize < rLen + 4
        · simp [taskWrites, processTask, ContentBased.processTask, above, SlotWrite.apply]
        · cases received : body rLen with
          | none => simp [taskWrites, processTask, ContentBased.processTask, above, received, SlotWrite.apply]
          | some data =>
            have writes : taskWrites fwCalcRecvSize ⟨true, true, some rLen, body⟩ part =
                [.length (-1), .body data, .length rLen] := by
              simp [taskWrites, above, received]
            have slot : (processTask fwCalcRecvSize sendBuf ⟨true, true, some rLen, body⟩).1 = ⟨rLen, data⟩ := by
              simp [processTask, ContentBased.processTask, above, received]
            rw [writes, slot]
            exact ⟨rfl, fun offset byte found => by simp [SlotWrite.apply, found]⟩

/-- The count and the sums of `combine_task`, which has no count before the first reply. -/
structure Sums where
  num : Option Int32 := none
  power : Nat → ℚ := fun _ => 0

section Combine
variable (resultSize : Int32) (log : Bool) (factor : Nat → ℚ) (varF4 : UInt32 → ℚ)

def Sums.add (sums : Sums) (answer : Answer) (i : Nat) : Sums where
  num := some answer.count
  power j := if (j : Int) < answer.count.toInt then sums.power j + answer.power varF4 j * factor i else sums.power j

/-- One turn of the loop. It comes to nothing when the assertion fails, when it reads a name that is not among the four,
or when it writes beyond the result area. -/
def addAnswer (sums : Sums) (turn : Answer × Nat) : Option Sums :=
  let (answer, i) := turn
  if answer.Refused then if i < 4 then some sums else none
  else if sums.num.any (· ≠ answer.count) then none
  else if log ∧ 4 ≤ i then none
  else if 0 < answer.count.toInt ∧ resultSize.toInt < 4 + 4 * answer.count.toInt then none
  else some (sums.add factor varF4 answer i)

/-- The count and the powers that `combine_task` leaves in the result area. -/
def combineTask (answers : List Answer) : Option (Int × List ℚ) :=
  if resultSize.toInt < 4 then none
  else
    (answers.zipIdx.foldlM (addAnswer resultSize log factor varF4) {}).map fun sums =>
      let num := (sums.num.getD 0).toInt
      (num, (List.range num.toNat).map sums.power)

/-- What is to come out for a request of so many documents. -/
def combined (k : Nat) (answers : List Answer) : Int × List ℚ :=
  let replies := answers.zipIdx.filter fun turn => turn.1.WellFormed k
  if replies = [] then (0, [])
  else (k, (List.range k).map fun j => (replies.map fun turn => factor turn.2 * turn.1.power varF4 j).sum)

end Combine

/-- When the replies combine: the result area holds them, those beyond the four names are replies and not logged, and those
that pass the tests are all without a power or all have one for each document. -/
structure Combinable (resultSize : Int32) (log : Bool) (k : Nat) (answers : List Answer) : Prop where
  area : 4 ≤ resultSize.toInt
  named : ∀ turn ∈ answers.zipIdx, turn.2 < 4 ∨ ¬ turn.1.Refused ∧ log = false
  agree : (∀ answer ∈ answers, ¬ answer.Refused → answer.count = 0) ∨
    (∀ answer ∈ answers, ¬ answer.Refused → answer.WellFormed k) ∧ 4 + 4 * (k : Int) ≤ resultSize.toInt

section Fold
variable {resultSize : Int32} {log : Bool} {factor : Nat → ℚ} {varF4 : UInt32 → ℚ} {sums final : Sums}
  {turns : List (Answer × Nat)}

/-- What a turn on a slot that passes the tests comes to. -/
theorem addAnswer_of_passed {turn : Answer × Nat} {after : Sums} (passed : ¬ turn.1.Refused)
    (run : addAnswer resultSize log factor varF4 sums turn = some after) :
    (∀ num ∈ sums.num, num = turn.1.count) ∧ (log = true → turn.2 < 4) ∧
      (0 < turn.1.count.toInt → 4 + 4 * turn.1.count.toInt ≤ resultSize.toInt) ∧ after.num = some turn.1.count ∧
      ∀ j, after.power j = if (j : Int) < turn.1.count.toInt then sums.power j + turn.1.power varF4 j * factor turn.2
        else sums.power j := by
  obtain ⟨answer, i⟩ := turn
  simp only [addAnswer, if_neg passed] at run
  split at run
  · cases run
  rename_i agrees
  split at run
  · cases run
  rename_i named
  split at run
  · cases run
  rename_i fits
  obtain rfl := Option.some.inj run
  refine ⟨fun num known => ?_, fun logs => ?_, fun positive => ?_, rfl, fun j => rfl⟩
  · by_contra other
    exact agrees (by rw [Option.mem_def.mp known]; simpa using other)
  · exact not_le.mp fun above => named ⟨logs, above⟩
  · exact not_lt.mp fun beyond => fits ⟨positive, beyond⟩

/-- What a loop over slots that comes to an end has met, and what it has added. -/
theorem fold_of_some (run : turns.foldlM (addAnswer resultSize log factor varF4) sums = some final) :
    (∀ turn ∈ turns, turn.2 < 4 ∨ ¬ turn.1.Refused ∧ log = false) ∧
      (∀ turn ∈ turns, ¬ turn.1.Refused → final.num = some turn.1.count ∧
        (0 < turn.1.count.toInt → 4 + 4 * turn.1.count.toInt ≤ resultSize.toInt)) ∧
      (∀ num ∈ sums.num, final.num = some num) ∧
      ((∀ turn ∈ turns, turn.1.Refused) → final.num = sums.num) ∧
      ∀ j, final.power j = sums.power j + ((turns.filter fun turn => ¬ turn.1.Refused).map fun turn =>
        if (j : Int) < turn.1.count.toInt then factor turn.2 * turn.1.power varF4 j else 0).sum := by
  induction turns generalizing sums with
  | nil =>
    obtain rfl := Option.some.inj run
    exact ⟨nofun, nofun, fun num known => known, fun _ => rfl, fun j => (add_zero _).symm⟩
  | cons turn rest ih =>
    obtain ⟨middle, first, later⟩ := Option.bind_eq_some_iff.mp run
    obtain ⟨named, passing, keeps, idle, power⟩ := ih later
    by_cases refused : turn.1.Refused
    · have skipped : turn.2 < 4 ∧ middle = sums := by
        simp only [addAnswer, if_pos refused] at first
        split at first
        · exact ⟨‹_›, (Option.some.inj first).symm⟩
        · cases first
      obtain ⟨low, rfl⟩ := skipped
      refine ⟨?_, ?_, keeps, fun all => idle fun turn member => all turn (List.mem_cons_of_mem _ member), fun j => ?_⟩
      · intro other member
        rcases List.mem_cons.mp member with rfl | member
        · exact .inl low
        · exact named other member
      · intro other member passed
        rcases List.mem_cons.mp member with rfl | member
        · exact absurd refused passed
        · exact passing other member passed
      · rw [power j, List.filter_cons_of_neg (by simpa using refused)]
    · obtain ⟨agrees, logged, fits, num, added⟩ := addAnswer_of_passed refused first
      have same : final.num = some turn.1.count := keeps _ num
      refine ⟨?_, ?_, ?_, ?_, fun j => ?_⟩
      · intro other member
        rcases List.mem_cons.mp member with rfl | member
        · cases log with
          | false => exact .inr ⟨refused, rfl⟩
          | true => exact .inl (logged rfl)
        · exact named other member
      · intro other member passed
        rcases List.mem_cons.mp member with rfl | member
        · exact ⟨same, fits⟩
        · exact passing other member passed
      · intro num known
        rw [agrees num known]
        exact same
      · exact fun all => absurd (all turn List.mem_cons_self) refused
      · rw [power j, added j, List.filter_cons_of_pos (by simpa using refused), List.map_cons, List.sum_cons, ← add_assoc]
        congr 1
        split
        · rw [mul_comm]
        · rw [add_zero]

/-- A loop over slots whose counts agree comes to an end. -/
theorem fold_total {c : Int32} (named : ∀ turn ∈ turns, turn.2 < 4 ∨ ¬ turn.1.Refused ∧ log = false)
    (agree : ∀ turn ∈ turns, ¬ turn.1.Refused → turn.1.count = c)
    (fits : 0 < c.toInt → 4 + 4 * c.toInt ≤ resultSize.toInt) (num : ∀ num ∈ sums.num, num = c) :
    ∃ final, turns.foldlM (addAnswer resultSize log factor varF4) sums = some final := by
  induction turns generalizing sums with
  | nil => exact ⟨sums, rfl⟩
  | cons turn rest ih =>
    have later {middle : Sums} (known : ∀ num ∈ middle.num, num = c) :
        ∃ final, rest.foldlM (addAnswer resultSize log factor varF4) middle = some final :=
      ih (fun turn member => named turn (List.mem_cons_of_mem _ member))
        (fun turn member => agree turn (List.mem_cons_of_mem _ member)) known
    have here := named turn List.mem_cons_self
    obtain ⟨answer, i⟩ := turn
    by_cases refused : answer.Refused
    · have low : i < 4 := here.resolve_right fun both => both.1 refused
      have skips : addAnswer resultSize log factor varF4 sums (answer, i) = some sums := by
        simp only [addAnswer, if_pos refused, if_pos low]
      obtain ⟨final, run⟩ := later num
      exact ⟨final, by rw [List.foldlM_cons, skips]; exact run⟩
    · have count : answer.count = c := agree (answer, i) List.mem_cons_self refused
      have agrees : ¬ (sums.num.any (· ≠ answer.count)) = true := by
        rw [Option.any_eq_true]
        rintro ⟨num', known, other⟩
        rw [num num' known, count] at other
        simp at other
      have logged : ¬ (log = true ∧ 4 ≤ i) := by
        rintro ⟨logs, above⟩
        rcases here with low | ⟨-, silent⟩
        · exact absurd low (not_lt.mpr above)
        · rw [logs] at silent
          cases silent
      have inside : ¬ (0 < answer.count.toInt ∧ resultSize.toInt < 4 + 4 * answer.count.toInt) := by
        rw [count]
        exact fun beyond => absurd (fits beyond.1) (not_le.mpr beyond.2)
      have adds : addAnswer resultSize log factor varF4 sums (answer, i) = some (sums.add factor varF4 answer i) := by
        simp only [addAnswer, if_neg refused, if_neg agrees, if_neg logged, if_neg inside]
      obtain ⟨final, run⟩ := @later (sums.add factor varF4 answer i) fun num' same =>
        (Option.some.inj same).symm.trans count
      exact ⟨final, by rw [List.foldlM_cons, adds]; exact run⟩

end Fold

namespace Answer

/-- A reply with so many powers passes the tests. -/
theorem WellFormed.passed {answer : Answer} {k : Nat} (formed : answer.WellFormed k) : ¬ answer.Refused := by
  obtain ⟨length, count⟩ := formed
  have bounds := Wrapping.bounds answer.length
  have one : (1 : Int32).toInt = 1 := rfl
  have four : (4 : Int32).toInt = 4 := rfl
  have product : ((answer.count + 1) * 4).toInt = answer.length.toInt := by
    have next : (answer.count + 1).toInt = k + 1 := by
      rw [Wrapping.toInt_add_of_fits (by omega) (by omega), one, count]
    rw [Wrapping.toInt_mul_of_fits (by rw [four]; omega) (by rw [four]; omega), next, four, length, mul_comm]
  have rest : (answer.length % 4).toInt = 0 := by
    rw [Int32.toInt_mod, length, four]
    exact Int.mul_tmod_right 4 _
  rintro (failed | empty | odd | wrong)
  · have value : answer.length.toInt = -1 := by rw [failed]; rfl
    omega
  · have value : answer.length.toInt = 0 := by rw [empty]; rfl
    omega
  · exact odd (Int32.toInt_inj.mp rest)
  · exact wrong (Int32.toInt_inj.mp product)

/-- The length of a reply that passes the tests, in numbers that do not wrap. -/
theorem exists_turns_of_passed {answer : Answer} (passed : ¬ answer.Refused) (below : answer.count.toInt < 2147483647) :
    ∃ turns : Int, answer.length.toInt = 4 * (answer.count.toInt + 1) - 4294967296 * turns := by
  have exact_ : (answer.count + 1) * 4 = answer.length := by
    by_contra wrong
    exact passed (.inr (.inr (.inr wrong)))
  have one : (1 : Int32).toInt = 1 := rfl
  have four : (4 : Int32).toInt = 4 := rfl
  have bounds := Wrapping.bounds answer.count
  have next : (answer.count + 1).toInt = answer.count.toInt + 1 := by
    rw [Wrapping.toInt_add_of_fits (by omega) (by omega), one]
  obtain ⟨turns, product⟩ := Wrapping.toInt_mul (answer.count + 1) 4
  rw [exact_, next, four, mul_comm] at product
  exact ⟨turns, product⟩

/-- A reply that passes the tests and whose count is small is well formed. -/
theorem wellFormed_of_passed {answer : Answer} {k : Nat} (passed : ¬ answer.Refused) (count : answer.count.toInt = k)
    (small : 4 + 4 * (k : Int) < 2147483648) : answer.WellFormed k := by
  refine ⟨?_, count⟩
  obtain ⟨turns, length⟩ := exists_turns_of_passed passed (by omega)
  have bounds := Wrapping.bounds answer.length
  omega

end Answer

section Combines
variable {resultSize : Int32} {log : Bool} {factor : Nat → ℚ} {varF4 : UInt32 → ℚ} {k : Nat} {answers : List Answer}

theorem mem_of_turn {turn : Answer × Nat} (member : turn ∈ answers.zipIdx) : turn.1 ∈ answers :=
  List.fst_mem_of_mem_zipIdx member

theorem exists_turn {answer : Answer} (member : answer ∈ answers) : ∃ i, (answer, i) ∈ answers.zipIdx := by
  obtain ⟨i, inside, rfl⟩ := List.getElem_of_mem member
  exact ⟨i, List.mem_zipIdx_iff_getElem?.mpr (List.getElem?_eq_getElem inside)⟩

theorem combined_fst (factor : Nat → ℚ) (varF4 : UInt32 → ℚ) (k : Nat) (answers : List Answer) :
    (combined factor varF4 k answers).1 = 0 ∨ (combined factor varF4 k answers).1 = k := by
  unfold combined
  dsimp only
  split
  · exact .inl rfl
  · exact .inr rfl

theorem combinable_of_combines
    (combines : combineTask resultSize log factor varF4 answers = some (combined factor varF4 k answers)) :
    Combinable resultSize log k answers := by
  unfold combineTask at combines
  split at combines
  · cases combines
  rename_i area
  obtain ⟨sums, run, result⟩ := Option.map_eq_some_iff.mp combines
  obtain ⟨named, passing, -, idle, -⟩ := fold_of_some run
  have num : (sums.num.getD 0).toInt = (combined factor varF4 k answers).1 := congrArg Prod.fst result
  have counts {answer : Answer} (member : answer ∈ answers) (passed : ¬ answer.Refused) :
      sums.num.getD 0 = answer.count ∧
        (0 < answer.count.toInt → 4 + 4 * answer.count.toInt ≤ resultSize.toInt) := by
    obtain ⟨i, turn⟩ := exists_turn member
    obtain ⟨same, fits⟩ := passing (answer, i) turn passed
    exact ⟨by rw [same, Option.getD_some], fits⟩
  refine ⟨not_lt.mp area, named, ?_⟩
  by_cases zero : (sums.num.getD 0).toInt = 0
  · left
    intro answer member passed
    rw [(counts member passed).1] at zero
    exact Int32.toInt_inj.mp zero
  · right
    have size : (sums.num.getD 0).toInt = k := by
      rcases combined_fst factor varF4 k answers with none_ | some_
      · exact absurd (num.trans none_) zero
      · exact num.trans some_
    have one : ∃ answer ∈ answers, ¬ answer.Refused := by
      by_contra none_
      have all : ∀ turn ∈ answers.zipIdx, turn.1.Refused := fun turn member => by
        by_contra passed
        exact none_ ⟨turn.1, mem_of_turn member, passed⟩
      rw [idle all] at zero
      exact zero rfl
    obtain ⟨first, inside, through⟩ := one
    have room : 4 + 4 * (k : Int) ≤ resultSize.toInt := by
      obtain ⟨same, fits⟩ := counts inside through
      rw [← same, size] at fits
      exact fits (by omega)
    have bounds := Wrapping.bounds resultSize
    refine ⟨fun answer member passed => ?_, room⟩
    have count : answer.count.toInt = k := by
      rw [← (counts member passed).1, size]
    exact Answer.wellFormed_of_passed passed count (by omega)

/-- What comes out when no slot has a power. -/
theorem combined_of_empty (none_ : ∀ answer ∈ answers, ¬ answer.Refused → answer.count = 0) :
    combined factor varF4 k answers = (0, []) := by
  unfold combined
  dsimp only
  split
  · rfl
  · rename_i some_
    obtain ⟨turn, member⟩ := List.exists_mem_of_ne_nil _ some_
    obtain ⟨inside, formed⟩ := List.mem_filter.mp member
    have formed : turn.1.WellFormed k := of_decide_eq_true formed
    have zero : (k : Int) = 0 := by
      rw [← formed.2, none_ turn.1 (mem_of_turn inside) formed.passed]
      rfl
    obtain rfl : k = 0 := by exact_mod_cast zero
    rfl

/-- Slots without a power combine to a count of 0. -/
theorem combines_of_empty (area : 4 ≤ resultSize.toInt)
    (named : ∀ turn ∈ answers.zipIdx, turn.2 < 4 ∨ ¬ turn.1.Refused ∧ log = false)
    (none_ : ∀ answer ∈ answers, ¬ answer.Refused → answer.count = 0) :
    combineTask resultSize log factor varF4 answers = some (combined factor varF4 k answers) := by
  have total := @fold_total resultSize log factor varF4 {} answers.zipIdx 0 named
    (fun turn member passed => none_ turn.1 (mem_of_turn member) passed) (fun positive => absurd positive (by decide)) nofun
  obtain ⟨final, run⟩ := total
  obtain ⟨-, passing, -, idle, -⟩ := fold_of_some run
  have num : final.num.getD 0 = 0 := by
    by_cases all : ∀ turn ∈ answers.zipIdx, turn.1.Refused
    · rw [idle all]
      rfl
    · push Not at all
      obtain ⟨turn, member, passed⟩ := all
      rw [(passing turn member passed).1, none_ turn.1 (mem_of_turn member) passed]
      rfl
  rw [combineTask, if_neg (not_lt.mpr area), run, combined_of_empty none_, Option.map_some, num]
  rfl

/-- The slots that pass the tests are those of the replies that are summed. -/
theorem filter_passed (formed : ∀ answer ∈ answers, ¬ answer.Refused → answer.WellFormed k) :
    (answers.zipIdx.filter fun turn => ¬ turn.1.Refused) = answers.zipIdx.filter fun turn => turn.1.WellFormed k := by
  apply List.filter_congr
  intro turn member
  rw [decide_eq_decide]
  exact ⟨fun passed => formed turn.1 (mem_of_turn member) passed, fun formed => formed.passed⟩

/-- Slots that all have a power for each document combine to their sums. -/
theorem combines_of_formed (area : 4 ≤ resultSize.toInt)
    (named : ∀ turn ∈ answers.zipIdx, turn.2 < 4 ∨ ¬ turn.1.Refused ∧ log = false)
    (formed : ∀ answer ∈ answers, ¬ answer.Refused → answer.WellFormed k) (room : 4 + 4 * (k : Int) ≤ resultSize.toInt) :
    combineTask resultSize log factor varF4 answers = some (combined factor varF4 k answers) := by
  have bounds := Wrapping.bounds resultSize
  have k32 : (Int32.ofNat k).toInt = k := Int32.toInt_ofNat_of_lt (by omega)
  have counts {turn : Answer × Nat} (member : turn ∈ answers.zipIdx) (passed : ¬ turn.1.Refused) :
      turn.1.count = Int32.ofNat k := by
    apply Int32.toInt_inj.mp
    rw [(formed turn.1 (mem_of_turn member) passed).2, k32]
  have total := @fold_total resultSize log factor varF4 {} answers.zipIdx (Int32.ofNat k) named
    (fun turn member passed => counts member passed) (fun _ => by rw [k32]; exact room) nofun
  obtain ⟨final, run⟩ := total
  obtain ⟨-, passing, -, idle, power⟩ := fold_of_some run
  have replies := filter_passed formed
  rw [combineTask, if_neg (not_lt.mpr area), run, Option.map_some, combined]
  dsimp only
  split
  · rename_i empty
    have all : ∀ turn ∈ answers.zipIdx, turn.1.Refused := by
      intro turn member
      by_contra passed
      have there : turn ∈ answers.zipIdx.filter fun turn => ¬ turn.1.Refused :=
        List.mem_filter.mpr ⟨member, by simpa using passed⟩
      rw [replies, empty] at there
      cases there
    rw [idle all]
    rfl
  · rename_i some_
    obtain ⟨turn, member⟩ := List.exists_mem_of_ne_nil _ some_
    rw [← replies] at member
    obtain ⟨inside, passed⟩ := List.mem_filter.mp member
    have passed : ¬ turn.1.Refused := of_decide_eq_true passed
    have num : final.num.getD 0 = Int32.ofNat k := by
      rw [(passing turn inside passed).1, Option.getD_some, counts inside passed]
    rw [num, k32, Int.toNat_natCast]
    congr 2
    apply List.map_congr_left
    intro j member
    have below : j < k := List.mem_range.mp member
    rw [power j, replies]
    change 0 + _ = _
    rw [zero_add]
    congr 1
    apply List.map_congr_left
    intro turn member
    have formed : turn.1.WellFormed k := of_decide_eq_true (List.mem_filter.mp member).2
    rw [formed.2, if_pos (by exact_mod_cast below)]

theorem combines_of_combinable (combinable : Combinable resultSize log k answers) :
    combineTask resultSize log factor varF4 answers = some (combined factor varF4 k answers) := by
  obtain ⟨area, named, none_ | ⟨formed, room⟩⟩ := combinable
  · exact combines_of_empty area named none_
  · exact combines_of_formed area named formed room

end Combines

section Schedules

/-- The slots behind a schedule of the writes of all tasks. -/
def slotsAfter (schedule : List (Nat × SlotWrite)) (stale : Nat → Answer) (fwCalcNum : Nat) : List Answer :=
  (List.range fwCalcNum).map (Cells.run SlotWrite.apply schedule stale)

/-- The slots as each task leaves its own. -/
def answersOf (fwCalcRecvSize : Int32) (peers : Nat → Peer) (parts : Nat → Bytes) (stale : Nat → Answer)
    (fwCalcNum : Nat) : List Answer :=
  (List.range fwCalcNum).map fun i => (taskWrites fwCalcRecvSize (peers i) (parts i)).foldl SlotWrite.apply (stale i)

/-- The slots combine, whatever the schedule, to what is to come out of the answers of the tasks. -/
def Combines (resultSize : Int32) (log : Bool) (factor : Nat → ℚ) (varF4 : UInt32 → ℚ) (k : Nat) (slots answers : List Answer) :
    Prop :=
  combineTask resultSize log factor varF4 slots = some (combined factor varF4 k answers)

instance (resultSize : Int32) (log : Bool) (factor : Nat → ℚ) (varF4 : UInt32 → ℚ) (k : Nat) (slots answers : List Answer) :
    Decidable (Combines resultSize log factor varF4 k slots answers) := inferInstanceAs (Decidable (_ = _))

theorem slotsAfter_eq {schedule : List (Nat × SlotWrite)} {stale : Nat → Answer} {fwCalcNum : Nat} {fwCalcRecvSize : Int32}
    {peers : Nat → Peer} {parts : Nat → Bytes}
    (tasks : ∀ i < fwCalcNum, Cells.writesTo schedule i = taskWrites fwCalcRecvSize (peers i) (parts i)) :
    slotsAfter schedule stale fwCalcNum = answersOf fwCalcRecvSize peers parts stale fwCalcNum := by
  apply List.map_congr_left
  intro i member
  rw [Cells.run_apply, tasks i (List.mem_range.mp member)]

def replying (data : Bytes) : Peer := ⟨true, true, some (Int32.ofNat data.length), fun _ => some data⟩

end Schedules

end ContentBased.QueryProcessor
