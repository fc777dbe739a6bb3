import ContentBased.CombineTask

namespace ContentBased.UpdateProcessor
open QueryProcessor (Answer SlotWrite slotsAfter)
open Wire

/-- What `process_task` writes to its slot, where a body may come in part. -/
def taskWrites (fwCalcRecvSize : Int32) (peer : Peer) (part : Bytes) : List SlotWrite :=
  .length 0 ::
    if !peer.connects || !peer.takes then []
    else
      match peer.lengthPrefix with
      | none => []
      | some rLen =>
        if fwCalcRecvSize < rLen + 4 then []
        else
          match peer.body rLen with
          | none => [.body part]
          | some data => [.body data, .length rLen]

/-- The tests by which `combine_task` counts a slot as failed. -/
def Failed (answer : Answer) : Prop := answer.length = 0 ∨ answer.length ≠ 4 ∨ (answer.bits 0).toInt32 ≠ 0

instance (answer : Answer) : Decidable (Failed answer) := inferInstanceAs (Decidable (_ ∨ _ ∨ _))

/-- One turn of the loop, which prints one of four names for a slot that failed. -/
def countFailed (retVal : Int32) (turn : Answer × Nat) : Option Int32 :=
  if Failed turn.1 then if turn.2 < 4 then some (retVal + 1) else none else some retVal

/-- The number that `combine_task` leaves in the result area. -/
def combineTask (resultSize : Int32) (answers : List Answer) : Option Int32 :=
  if resultSize.toInt < 4 then none else answers.zipIdx.foldlM countFailed 0

/-- A calculator takes the message and answers with a zero. -/
def Acknowledges (fwCalcRecvSize : Int32) (peer : Peer) : Prop :=
  peer.connects = true ∧ peer.takes = true ∧ peer.lengthPrefix = some 4 ∧ 8 ≤ fwCalcRecvSize.toInt ∧
    peer.body 4 = some (rawInt 0)

instance (fwCalcRecvSize : Int32) (peer : Peer) : Decidable (Acknowledges fwCalcRecvSize peer) :=
  inferInstanceAs (Decidable (_ ∧ _ ∧ _ ∧ _ ∧ _))

/-- A receive that succeeds brings as many bytes as it is asked for. -/
def Exact (peer : Peer) : Prop := ∀ length data, peer.body length = some data → (data.length : Int) = length.toInt

section Slots
variable {fwCalcRecvSize : Int32} {peer : Peer} {part : Bytes} {stale : Answer}

/-- The number in a slot whose first bytes are these. -/
theorem bits_eq_zero_iff (bytes : Nat → UInt8) (length : Int32) (a b c d : UInt8) :
    (Answer.bits ⟨length, fun offset => [a, b, c, d][offset]?.getD (bytes offset)⟩ 0).toInt32 = 0 ↔
      [a, b, c, d] = rawInt 0 := by
  have zero : rawInt 0 = [0, 0, 0, 0] := rfl
  rw [zero]
  constructor
  · intro none_
    have bits : UInt32.ofNat (a.toNat + 256 * b.toNat + 65536 * c.toNat + 16777216 * d.toNat) = 0 :=
      congrArg Int32.toUInt32 none_
    have sum := congrArg UInt32.toNat bits
    rw [UInt32.toNat_ofNat', UInt32.toNat_zero] at sum
    have low := a.toNat_lt
    have second := b.toNat_lt
    have third := c.toNat_lt
    have high := d.toNat_lt
    have zeros : a.toNat = 0 ∧ b.toNat = 0 ∧ c.toNat = 0 ∧ d.toNat = 0 := by omega
    have byte (x : UInt8) (none_ : x.toNat = 0) : x = 0 := UInt8.toNat_inj.mp none_
    rw [byte a zeros.1, byte b zeros.2.1, byte c zeros.2.2.1, byte d zeros.2.2.2]
  · intro same
    obtain ⟨rfl, rfl, rfl, rfl⟩ : a = 0 ∧ b = 0 ∧ c = 0 ∧ d = 0 := by simpa using same
    rfl

/-- A slot has failed exactly when its calculator does not acknowledge, whatever the slot had before. -/
theorem failed_iff (exact_ : Exact peer) :
    Failed ((taskWrites fwCalcRecvSize peer part).foldl SlotWrite.apply stale) ↔ ¬ Acknowledges fwCalcRecvSize peer := by
  obtain ⟨connects, takes, lengthPrefix, body⟩ := peer
  cases connects with
  | false => exact iff_of_true (.inl rfl) fun ack => Bool.noConfusion ack.1
  | true =>
    cases takes with
    | false => exact iff_of_true (.inl rfl) fun ack => Bool.noConfusion ack.2.1
    | true =>
      cases lengthPrefix with
      | none => exact iff_of_true (.inl rfl) fun ack => by cases ack.2.2.1
      | some rLen =>
        by_cases above : fwCalcRecvSize < rLen + 4
        · have writes : taskWrites fwCalcRecvSize ⟨true, true, some rLen, body⟩ part = [.length 0] := by
            simp [taskWrites, above]
          rw [writes]
          refine iff_of_true (.inl rfl) ?_
          rintro ⟨-, -, sent, room, -⟩
          obtain rfl := Option.some.inj sent
          have below := Int32.lt_iff_toInt_lt.mp above
          have eight : ((4 : Int32) + 4).toInt = 8 := by decide +kernel
          omega
        · cases received : body rLen with
          | none =>
            have writes : taskWrites fwCalcRecvSize ⟨true, true, some rLen, body⟩ part = [.length 0, .body part] := by
              simp [taskWrites, above, received]
            rw [writes]
            refine iff_of_true (.inl rfl) ?_
            rintro ⟨-, -, sent, -, data⟩
            obtain rfl := Option.some.inj sent
            cases received.symm.trans data
          | some data =>
            have writes : taskWrites fwCalcRecvSize ⟨true, true, some rLen, body⟩ part =
                [.length 0, .body data, .length rLen] := by simp [taskWrites, above, received]
            rw [writes]
            by_cases four : rLen = 4
            · subst four
              have length := exact_ 4 data received
              obtain ⟨a, b, c, d, rfl⟩ : ∃ a b c d, data = [a, b, c, d] := by
                match data, length with
                | [a, b, c, d], _ => exact ⟨a, b, c, d, rfl⟩
              have room : 8 ≤ fwCalcRecvSize.toInt := by
                rw [Int32.lt_iff_toInt_lt] at above
                have eight : ((4 : Int32) + 4).toInt = 8 := by decide +kernel
                omega
              have zero := bits_eq_zero_iff stale.bytes 4 a b c d
              constructor
              · rintro (none_ | other | number) ⟨-, -, -, -, acked⟩
                · exact absurd none_ (show ¬ (4 : Int32) = 0 by decide)
                · exact other rfl
                · exact number (zero.mpr (Option.some.inj (received.symm.trans acked)))
              · intro unacked
                refine .inr (.inr fun number => unacked ⟨rfl, rfl, rfl, room, ?_⟩)
                rw [← zero.mp number]
                exact received
            · refine iff_of_true (.inr (.inl four)) ?_
              rintro ⟨-, -, sent, -⟩
              exact four (Option.some.inj sent)

end Slots

section Fold
variable {turns : List (Answer × Nat)}

theorem fold_of_named (named : ∀ turn ∈ turns, Failed turn.1 → turn.2 < 4) (retVal : Int32) :
    turns.foldlM countFailed retVal = some (retVal + Int32.ofNat (turns.countP fun turn => Failed turn.1)) := by
  induction turns generalizing retVal with
  | nil => simp
  | cons turn rest ih =>
    have later := ih fun turn member => named turn (List.mem_cons_of_mem _ member)
    by_cases failed : Failed turn.1
    · have one : countFailed retVal turn = some (retVal + 1) := by
        rw [countFailed, if_pos failed, if_pos (named turn List.mem_cons_self failed)]
      rw [List.foldlM_cons, one, List.countP_cons_of_pos (by simpa using failed)]
      refine (later _).trans (congrArg some ?_)
      rw [Int32.add_assoc, Int32.add_comm 1, Int32.ofNat_add]
      rfl
    · have none_ : countFailed retVal turn = some retVal := by rw [countFailed, if_neg failed]
      rw [List.foldlM_cons, none_, List.countP_cons_of_neg (by simpa using failed)]
      exact later _

/-- A name beyond the four is read for a slot that failed. -/
theorem fold_of_unnamed {turn : Answer × Nat} (member : turn ∈ turns) (failed : Failed turn.1) (unnamed : 4 ≤ turn.2)
    (retVal : Int32) : turns.foldlM countFailed retVal = none := by
  induction turns generalizing retVal with
  | nil => cases member
  | cons first rest ih =>
    rw [List.foldlM_cons]
    rcases List.mem_cons.mp member with rfl | member
    · rw [countFailed, if_pos failed, if_neg (not_lt.mpr unnamed)]
      rfl
    · cases countFailed retVal first with
      | none => rfl
      | some next => exact ih member next

end Fold

/-- A calculator that answers with this number. -/
def answering (number : Int32) : Peer :=
  ⟨true, true, some 4, fun length => if length = 4 then some (rawInt number) else none⟩

theorem exact_answering (number : Int32) : Exact (answering number) := by
  intro length data received
  simp only [answering] at received
  split at received
  · rename_i four
    subst four
    obtain rfl := Option.some.inj received
    rfl
  · cases received

end ContentBased.UpdateProcessor
