import ContentBased.Library.Wrapping

namespace ContentBased.FrameworkCache

/-- The value of a user: the times of the last search and update, and the ids that remain. A value of the hash table is
smaller than 2^31 bytes. -/
structure Entry where
  searchTime : Int32
  updateTime : Int32
  list : List UInt64
  size_lt : 12 + 8 * list.length < 2 ^ 31

structure Config where
  flushCount : Int32
  flushTime : Int32

/-- What `get` comes to: its code, which may be left unset, what it hands out and the value that it leaves. -/
structure Got where
  code : Option Int32
  retNum : Int32
  retLst : List UInt64
  entry : Option Entry

def Entry.num (entry : Entry) : Int32 := Int32.ofNat entry.list.length

theorem Entry.toInt_num (entry : Entry) : entry.num.toInt = entry.list.length := by
  have small := entry.size_lt
  rw [Entry.num, Int32.toInt_ofNat_of_lt (by omega)]

def Entry.drop (entry : Entry) (searchTime : Int32) (n : Nat) : Entry where
  searchTime
  updateTime := entry.updateTime
  list := entry.list.drop n
  size_lt := by
    have small := entry.size_lt
    rw [List.length_drop]
    omega

def Entry.empty (searchTime : Int32) : Entry := ⟨searchTime, 0, [], by decide⟩

/-- How many ids are handed out: one of four numbers by chance, what is asked for, or what is left. -/
def returnCount (entry : Entry) (reqNum : Int32) (rand : Nat) : Int32 :=
  let randNum := Int32.ofNat (rand % 4 + 3)
  let retNum := if randNum < reqNum then randNum else reqNum
  if entry.num < retNum then entry.num else retNum

/-- `get` at a time and with a number of `rand`. It comes to nothing when it copies a negative number of bytes, or more
than its buffer takes. -/
def get (config : Config) (entry : Option Entry) (reqNum : Int32) (rand : Nat) (now : Int32) : Option Got :=
  match entry with
  | none => some ⟨some (-1), 0, [], none⟩
  | some entry =>
    if now - entry.updateTime < config.flushTime then
      let retNum := returnCount entry reqNum rand
      if retNum < 0 then none
      else
        let returned := retNum.toInt.toNat
        let remainCount := entry.num - retNum
        if 2048 < 12 + 8 * (entry.list.drop returned).length then none
        else
          let retLst := entry.list.take returned
          if remainCount ≤ config.flushCount then
            if 60 < now - entry.searchTime then some ⟨some 1, retNum, retLst, some (entry.drop now returned)⟩
            else some ⟨none, retNum, retLst, some (entry.drop entry.searchTime returned)⟩
          else some ⟨some 2, retNum, retLst, some (entry.drop entry.searchTime returned)⟩
    else if 60 < now - entry.searchTime then some ⟨some 3, 0, [], some (Entry.empty now)⟩
    else some ⟨some 4, 0, [], some (Entry.empty entry.searchTime)⟩

/-- The time since the last update is below the flush time. -/
def Fresh (config : Config) (entry : Entry) (now : Int32) : Prop :=
  now.toInt - entry.updateTime.toInt < config.flushTime.toInt

/-- What a hit gives: one of the codes, and on a fresh entry a part of its list. -/
structure Hit (config : Config) (entry : Entry) (reqNum now : Int32) (got : Got) (code : Int32) (kept : Entry) : Prop where
  code_eq : got.code = some code
  entry_eq : got.entry = some kept
  code_mem : code ∈ [(1 : Int32), 2, 3, 4]
  nonneg : Fresh config entry now → 0 ≤ got.retNum.toInt
  le_reqNum : Fresh config entry now → got.retNum.toInt ≤ reqNum.toInt
  length_retLst : Fresh config entry now → (got.retLst.length : Int) = got.retNum.toInt
  split : Fresh config entry now → got.retLst ++ kept.list = entry.list
  flush_iff : Fresh config entry now → (code = 1 ↔ (kept.list.length : Int) ≤ config.flushCount.toInt ∧
    60 < now.toInt - entry.searchTime.toInt)
  searched : Fresh config entry now → code = 1 → kept.searchTime = now
  otherwise : Fresh config entry now → code ≠ 1 → code = 2

def Conserves (config : Config) (entry : Entry) (reqNum : Int32) (rand : Nat) (now : Int32) : Prop :=
  ∃ got code kept, get config (some entry) reqNum rand now = some got ∧ Hit config entry reqNum now got code kept

/-- How many ids are left of a list after a read of a number that is not negative. -/
def remaining (entry : Entry) (reqNum : Int32) (rand : Nat) : Int :=
  entry.list.length - min (min (rand % 4 + 3 : Int) reqNum.toInt) entry.list.length

/-- When a read works: for an entry that the code takes as fresh, the number is not negative, what remains fits the
buffer, and a list that runs short was not searched for in the last minute. -/
def Readable (config : Config) (entry : Entry) (reqNum : Int32) (rand : Nat) (now : Int32) : Prop :=
  if now - entry.updateTime < config.flushTime then
    0 ≤ reqNum.toInt ∧ remaining entry reqNum rand ≤ 254 ∧
      (remaining entry reqNum rand ≤ config.flushCount.toInt → 60 < now - entry.searchTime ∧
        (Fresh config entry now → 60 < now.toInt - entry.searchTime.toInt))
  else ¬ Fresh config entry now

theorem toInt_returnCount (entry : Entry) (reqNum : Int32) (rand : Nat) :
    (returnCount entry reqNum rand).toInt = min (min (rand % 4 + 3 : Int) reqNum.toInt) entry.list.length := by
  have chance : (Int32.ofNat (rand % 4 + 3)).toInt = rand % 4 + 3 := by
    rw [Int32.toInt_ofNat_of_lt (by omega)]
    omega
  have asked : (if Int32.ofNat (rand % 4 + 3) < reqNum then Int32.ofNat (rand % 4 + 3) else reqNum).toInt =
      min (rand % 4 + 3 : Int) reqNum.toInt := by
    rw [← chance]
    split
    · rename_i less
      exact (min_eq_left (Int32.lt_iff_toInt_lt.mp less).le).symm
    · rename_i more
      exact (min_eq_right (not_lt.mp fun less => more (Int32.lt_iff_toInt_lt.mpr less))).symm
  have stored := entry.toInt_num
  rw [returnCount, ← asked, ← stored]
  generalize (if Int32.ofNat (rand % 4 + 3) < reqNum then Int32.ofNat (rand % 4 + 3) else reqNum) = retNum
  split
  · rename_i less
    exact (min_eq_right (Int32.lt_iff_toInt_lt.mp less).le).symm
  · rename_i more
    exact (min_eq_left (not_lt.mp fun less => more (Int32.lt_iff_toInt_lt.mpr less))).symm

section Read
variable {config : Config} {entry : Entry} {reqNum : Int32} {rand : Nat} {now : Int32}

theorem get_of_stale (reqNum : Int32) (rand : Nat) (stale : ¬ now - entry.updateTime < config.flushTime) :
    ∃ code kept, get config (some entry) reqNum rand now = some ⟨some code, 0, [], some kept⟩ ∧
      code ∈ [(3 : Int32), 4] := by
  simp only [get, if_neg stale]
  split
  · exact ⟨3, _, rfl, by decide⟩
  · exact ⟨4, _, rfl, by decide⟩

theorem get_of_negative (fresh : now - entry.updateTime < config.flushTime) (negative : reqNum.toInt < 0) :
    get config (some entry) reqNum rand now = none := by
  have count := toInt_returnCount entry reqNum rand
  have less : returnCount entry reqNum rand < 0 := by
    rw [Int32.lt_iff_toInt_lt, count, Int32.toInt_zero]
    omega
  simp only [get, if_pos fresh, if_pos less]

/-- The ids that a read hands out, of a number that is not negative. -/
theorem returned_spec (rand : Nat) (positive : 0 ≤ reqNum.toInt) :
    ∃ returned : Nat, (returnCount entry reqNum rand).toInt = returned ∧ returned ≤ entry.list.length ∧
      (returned : Int) ≤ reqNum.toInt ∧ remaining entry reqNum rand = (entry.list.drop returned).length ∧
      (entry.num - returnCount entry reqNum rand).toInt = (entry.list.drop returned).length := by
  have count := toInt_returnCount entry reqNum rand
  have stored := entry.toInt_num
  have small := entry.size_lt
  refine ⟨(returnCount entry reqNum rand).toInt.toNat, ?_, ?_, ?_, ?_, ?_⟩
  · omega
  · omega
  · omega
  · rw [remaining, List.length_drop]
    omega
  · rw [Wrapping.toInt_sub_of_fits (by omega) (by omega), List.length_drop]
    omega

/-- What a read of a fresh entry comes to, by what remains and by the time since the last search. -/
theorem get_of_fresh (fresh : now - entry.updateTime < config.flushTime) {returned : Nat}
    (count : (returnCount entry reqNum rand).toInt = returned)
    (left_ : (entry.num - returnCount entry reqNum rand).toInt = (entry.list.drop returned).length) :
    get config (some entry) reqNum rand now =
      if 254 < (entry.list.drop returned).length then none
      else if ((entry.list.drop returned).length : Int) ≤ config.flushCount.toInt then
        if 60 < now - entry.searchTime then
          some ⟨some 1, returnCount entry reqNum rand, entry.list.take returned, some (entry.drop now returned)⟩
        else some ⟨none, returnCount entry reqNum rand, entry.list.take returned,
          some (entry.drop entry.searchTime returned)⟩
      else some ⟨some 2, returnCount entry reqNum rand, entry.list.take returned,
        some (entry.drop entry.searchTime returned)⟩ := by
  have positive : ¬ returnCount entry reqNum rand < 0 := by
    rw [Int32.lt_iff_toInt_lt, count, Int32.toInt_zero]
    omega
  have number : (returnCount entry reqNum rand).toInt.toNat = returned := by rw [count, Int.toNat_natCast]
  have room : 2048 < 12 + 8 * (entry.list.drop returned).length ↔ 254 < (entry.list.drop returned).length := by omega
  simp only [get, if_pos fresh, if_neg positive, number, room, Int32.le_iff_toInt_le, left_]

/-- What a read of an entry can come to. -/
inductive Gets (config : Config) (entry : Entry) (reqNum : Int32) (rand : Nat) (now : Int32) : Got → Prop
  | searched {returned : Nat} (count : (returnCount entry reqNum rand).toInt = returned)
      (late : 60 < now - entry.searchTime) :
      Gets config entry reqNum rand now
        ⟨some 1, returnCount entry reqNum rand, entry.list.take returned, some (entry.drop now returned)⟩
  | unset {returned : Nat} (count : (returnCount entry reqNum rand).toInt = returned)
      (early : ¬ 60 < now - entry.searchTime) :
      Gets config entry reqNum rand now
        ⟨none, returnCount entry reqNum rand, entry.list.take returned, some (entry.drop entry.searchTime returned)⟩
  | enough {returned : Nat} (count : (returnCount entry reqNum rand).toInt = returned) :
      Gets config entry reqNum rand now
        ⟨some 2, returnCount entry reqNum rand, entry.list.take returned, some (entry.drop entry.searchTime returned)⟩
  | expired (late : 60 < now - entry.searchTime) :
      Gets config entry reqNum rand now ⟨some 3, 0, [], some (Entry.empty now)⟩
  | gone : Gets config entry reqNum rand now ⟨some 4, 0, [], some (Entry.empty entry.searchTime)⟩

theorem gets_of_get {got : Got} (ran : get config (some entry) reqNum rand now = some got) :
    Gets config entry reqNum rand now got := by
  by_cases fresh : now - entry.updateTime < config.flushTime
  · by_cases negative : reqNum.toInt < 0
    · rw [get_of_negative fresh negative] at ran
      cases ran
    obtain ⟨returned, count, -, -, -, left_⟩ := returned_spec rand (not_lt.mp negative)
    rw [get_of_fresh fresh count left_] at ran
    split at ran
    · cases ran
    split at ran
    · split at ran
      · rename_i late
        obtain rfl := Option.some.inj ran
        exact .searched count late
      · rename_i early
        obtain rfl := Option.some.inj ran
        exact .unset count early
    · obtain rfl := Option.some.inj ran
      exact .enough count
  · simp only [get, if_neg fresh] at ran
    split at ran
    · rename_i late
      obtain rfl := Option.some.inj ran
      exact .expired late
    · obtain rfl := Option.some.inj ran
      exact .gone

end Read

/-- The fields of a hit on an entry that the code takes as fresh, with the code 1 or 2. -/
theorem hit_of_fresh {config : Config} {entry : Entry} {reqNum now code searchTime retNum : Int32} {returned : Nat}
    (count : retNum.toInt = returned) (within : returned ≤ entry.list.length) (asked : (returned : Int) ≤ reqNum.toInt)
    (codes : code = 1 ∨ code = 2) (searched : code = 1 → searchTime = now)
    (flush : Fresh config entry now → (code = 1 ↔ ((entry.list.drop returned).length : Int) ≤ config.flushCount.toInt ∧
      60 < now.toInt - entry.searchTime.toInt)) :
    Hit config entry reqNum now ⟨some code, retNum, entry.list.take returned, some (entry.drop searchTime returned)⟩ code
      (entry.drop searchTime returned) where
  code_eq := rfl
  entry_eq := rfl
  code_mem := by rcases codes with rfl | rfl <;> decide
  nonneg _ := by
    show 0 ≤ retNum.toInt
    omega
  le_reqNum _ := by
    show retNum.toInt ≤ reqNum.toInt
    omega
  length_retLst _ := by
    show ((entry.list.take returned).length : Int) = retNum.toInt
    rw [List.length_take_of_le within, count]
  split _ := List.take_append_drop returned entry.list
  flush_iff := flush
  searched _ := searched
  otherwise _ other := codes.resolve_left other

/-- A read conserves the list, with a code that says what it did, exactly when it is a readable one. -/
theorem conserves_iff (config : Config) (entry : Entry) (reqNum : Int32) (rand : Nat) (now : Int32) :
    Conserves config entry reqNum rand now ↔ Readable config entry reqNum rand now := by
  unfold Conserves Readable
  by_cases fresh : now - entry.updateTime < config.flushTime
  · rw [if_pos fresh]
    by_cases negative : reqNum.toInt < 0
    · rw [get_of_negative fresh negative]
      exact iff_of_false (by rintro ⟨got, code, kept, nothing, -⟩; cases nothing) fun fine => by omega
    obtain ⟨returned, count, within, asked, rest, left_⟩ := returned_spec rand (not_lt.mp negative)
    rw [get_of_fresh fresh count left_, rest, and_iff_right (not_lt.mp negative)]
    by_cases large : 254 < (entry.list.drop returned).length
    · rw [if_pos large]
      exact iff_of_false (by rintro ⟨got, code, kept, nothing, -⟩; cases nothing) fun fine => by omega
    rw [if_neg large, and_iff_right (by omega)]
    by_cases short : ((entry.list.drop returned).length : Int) ≤ config.flushCount.toInt
    · rw [if_pos short, forall_prop_of_true short]
      by_cases late : 60 < now - entry.searchTime
      · rw [if_pos late, and_iff_right late]
        constructor
        · rintro ⟨got, code, kept, run, hit⟩ exact_
          obtain rfl := Option.some.inj run
          obtain rfl := Option.some.inj hit.code_eq
          exact ((hit.flush_iff exact_).mp rfl).2
        · intro passed
          exact ⟨_, 1, _, rfl, hit_of_fresh count within asked (.inl rfl) (fun _ => rfl) fun exact_ =>
            iff_of_true rfl ⟨short, passed exact_⟩⟩
      · rw [if_neg late]
        refine iff_of_false ?_ fun fine => late fine.1
        rintro ⟨got, code, kept, run, hit⟩
        obtain rfl := Option.some.inj run
        cases hit.code_eq
    · rw [if_neg short]
      refine iff_of_true ⟨_, 2, _, rfl, hit_of_fresh count within asked (.inr rfl) (fun one => absurd one (by decide))
        fun _ => ?_⟩ fun less => absurd less short
      exact iff_of_false (by decide) fun both => short both.1
  · rw [if_neg fresh]
    obtain ⟨code, kept, run, codes⟩ := get_of_stale reqNum rand fresh
    rw [run]
    have member : code ∈ [(1 : Int32), 2, 3, 4] := List.mem_cons_of_mem _ (List.mem_cons_of_mem _ codes)
    constructor
    · rintro ⟨got, code', kept', same, hit⟩ exact_
      obtain rfl := Option.some.inj same
      obtain rfl := Option.some.inj hit.code_eq
      have two := hit.otherwise exact_ (by rintro rfl; revert codes; decide)
      subst two
      revert codes
      decide
    · intro stale
      exact ⟨_, code, kept, rfl, rfl, rfl, member, fun exact_ => absurd exact_ stale, fun exact_ => absurd exact_ stale,
        fun exact_ => absurd exact_ stale, fun exact_ => absurd exact_ stale, fun exact_ => absurd exact_ stale,
        fun exact_ => absurd exact_ stale, fun exact_ => absurd exact_ stale⟩

/-- A list that runs short within a minute of the last search: the code is never set. -/
theorem short_list_leaves_code_unset :
    ¬ Conserves ⟨10, 3600⟩ ⟨1000, 1000, [1, 2], by decide⟩ 5 0 1030 := by
  rintro ⟨got, code, kept, run, hit⟩
  have unset : (get ⟨10, 3600⟩ (some ⟨1000, 1000, [1, 2], by decide⟩) 5 0 1030).map Got.code = some none := by
    decide +kernel
  rw [run, Option.map_some, hit.code_eq] at unset
  cases unset

end ContentBased.FrameworkCache
