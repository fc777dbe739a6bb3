import ContentBased.Converter

namespace ContentBased.Converter
open Std Wire Readers Entries

section Meaning
variable (splitString : Bytes → List Bytes) (files : Files)

/-- The names and numbers of the lines with two strings, and the ids and names of those with three. -/
def categoryLines (c : Bytes) : List (Bytes × Int32) :=
  (Lines.parts 299 c).filterMap fun part =>
    match strings splitString part with
    | [number, name] => some (name, categoryId number)
    | _ => none

def newsLine (part : Bytes) : Option (Int32 × Bytes) :=
  match strings splitString part with
  | [number, name, _] => some (categoryId number, name)
  | _ => none

def newsLines (nt : Bytes) : List (Int32 × Bytes) := (Lines.parts 299 nt).filterMap (newsLine splitString)

/-- The number of a category in the system is that of the first line with its name. -/
def systemId (name : Bytes) : Option Int32 :=
  ((categoryLines splitString files.c).find? fun category => category.1 = name).map Prod.snd

/-- The category of the files and that of the system have the same name. -/
def SameName (cid id : Int32) : Prop :=
  ∃ name, (cid, name) ∈ newsLines splitString files.nt ∧ systemId splitString files name = some id

/-- What the index and the data say: the pairs of each count that is not 0, as far as the data go. -/
def userEntries : List (UInt64 × Int32) → Bytes → Option (List (UInt64 × List (Int32 × UInt64)))
  | [], _ => some []
  | (uid, cnt) :: records, dat =>
    if cnt = 0 then userEntries records dat
    else do
      let (pairs, dat) ← (times readPair cnt.toInt.toNat).run dat
      let entries ← userEntries records dat
      return (uid, pairs) :: entries

/-- A user of the index with a positive count. -/
def Interested (uid : UInt64) : Prop := ∃ cnt : Int32, 0 < cnt ∧ (uid, cnt) ∈ index files.idx

/-- One record has the pairs of the user, each with an id of the system for its category. -/
def KeptIn (records : List UserRecord) (uid : UInt64) (pairs : List (Int32 × UInt64)) : Prop :=
  ∃ record order, (records.filter fun record => record.userId = uid) = [record] ∧ order.Perm pairs ∧
    List.Forall₂ (fun pair tag => SameName splitString files pair.1 tag.1 ∧ pair.2 = tag.2) order record.distribution

/-- The tool keeps every interest when it finishes, and reads no id that is missing. -/
def Keeps (atof : Bytes → UInt64) : Prop :=
  match convert splitString atof files with
  | .exit => True
  | .missing => False
  | .finished _ records => ∀ entries, userEntries (index files.idx) files.dat = some entries →
      ∀ uid, Interested files uid → KeptIn splitString files records uid (valuesOf entries uid).flatten

/-- A line with the category has a name with a number, and no line before it has a name with the same number. -/
def Known (lines : List (Int32 × Bytes)) (cid : Int32) : Prop :=
  ∃ before name after id, lines = before ++ (cid, name) :: after ∧ systemId splitString files name = some id ∧
    ∀ line ∈ before, systemId splitString files line.2 ≠ some id

/-- Each user has one list of pairs, of distinct categories, behind which there is no other; and all categories are
known. -/
def Convertible : Prop :=
  ∀ entries, userEntries (index files.idx) files.dat = some entries →
    (∀ uid, Interested files uid → ∃ before pairs, valuesOf entries uid = before ++ [pairs] ∧ (∀ other ∈ before, other = []) ∧
      (pairs.map Prod.fst).Nodup) ∧
    ∀ entry ∈ entries, ∀ pair ∈ entry.2, Known splitString files (newsLines splitString files.nt) pair.1

end Meaning

section Tables
variable {splitString : Bytes → List Bytes} {files : Files}

theorem getElem?_loadCategoryTable (name : Bytes) :
    (loadCategoryTable splitString files.c)[name]? = systemId splitString files name := by
  have filled : loadCategoryTable splitString files.c =
      (categoryLines splitString files.c).foldl (fun table category => table.insertIfNew category.1 category.2) ∅ := by
    rw [categoryLines, List.foldl_filterMap]
    refine List.foldl_ext _ _ _ fun table part _ => ?_
    match strings splitString part with
    | [] => rfl
    | [_] => rfl
    | [_, _] => rfl
    | _ :: _ :: _ :: _ => rfl
  rw [filled, ExtTreeMap.getElem?_foldl_insertIfNew Prod.fst Prod.snd, ExtTreeMap.getElem?_empty, Option.none_or]
  rfl

theorem known_append_iff (lines : List (Int32 × Bytes)) (cid cid' : Int32) (name : Bytes) :
    Known splitString files (lines ++ [(cid, name)]) cid' ↔
      Known splitString files lines cid' ∨ cid = cid' ∧ ∃ id, systemId splitString files name = some id ∧
        ∀ line ∈ lines, systemId splitString files line.2 ≠ some id := by
  constructor
  · rintro ⟨before, name', after, id, split, named, first⟩
    rcases List.eq_nil_or_concat after with rfl | ⟨after, last, rfl⟩
    · obtain ⟨rfl, same⟩ := List.append_inj' split rfl
      obtain ⟨rfl, rfl⟩ := Prod.mk.inj (List.singleton_inj.mp same)
      exact .inr ⟨rfl, id, named, first⟩
    · rw [List.concat_eq_append, ← List.cons_append, ← List.append_assoc] at split
      obtain ⟨rfl, -⟩ := List.append_inj' split rfl
      exact .inl ⟨before, name', after, id, rfl, named, first⟩
  · rintro (⟨before, name', after, id, rfl, named, first⟩ | ⟨rfl, id, named, first⟩)
    · exact ⟨before, name', after ++ [(cid, name)], id, by simp, named, first⟩
    · exact ⟨lines, name, [], id, rfl, named, first⟩

/-- The tables after some lines. -/
structure Joined (splitString : Bytes → List Bytes) (files : Files) (lines : List (Int32 × Bytes)) (loaded : Loaded) :
    Prop where
  seen : ∀ id, id ∈ loaded.trends ↔ ∃ line ∈ lines, systemId splitString files line.2 = some id
  named : ∀ cid id, loaded.idtab[cid]? = some id →
    ∃ name, (cid, name) ∈ lines ∧ systemId splitString files name = some id
  known : ∀ cid, cid ∈ loaded.idtab ↔ Known splitString files lines cid

namespace Joined
variable {lines : List (Int32 × Bytes)} {loaded : Loaded} {cid : Int32} {name : Bytes}

theorem start : Joined splitString files [] {} where
  seen id := by simp
  named cid id found := by simp at found
  known cid := by
    refine iff_of_false (by simp) ?_
    rintro ⟨before, name, after, id, split, -⟩
    simp at split

/-- A line that changes nothing, since its name has no number or one that has been seen. -/
theorem skip (joined : Joined splitString files lines loaded)
    (old : ∀ id, systemId splitString files name = some id → id ∈ loaded.trends) :
    Joined splitString files (lines ++ [(cid, name)]) loaded where
  seen id := by
    rw [joined.seen]
    constructor
    · rintro ⟨line, member, same⟩
      exact ⟨line, List.mem_append_left _ member, same⟩
    · rintro ⟨line, member, same⟩
      rcases List.mem_append.mp member with member | last
      · exact ⟨line, member, same⟩
      · rw [List.mem_singleton.mp last] at same
        exact (joined.seen id).mp (old id same)
  named cid' id found := by
    obtain ⟨name', member, same⟩ := joined.named cid' id found
    exact ⟨name', List.mem_append_left _ member, same⟩
  known cid' := by
    rw [joined.known, known_append_iff]
    refine (or_iff_left ?_).symm
    rintro ⟨-, id, same, first⟩
    obtain ⟨line, member, same'⟩ := (joined.seen id).mp (old id same)
    exact first line member same'

theorem add {id : Int32} (joined : Joined splitString files lines loaded) (weight : UInt64)
    (same : systemId splitString files name = some id) (fresh : id ∉ loaded.trends) :
    Joined splitString files (lines ++ [(cid, name)])
      { trends := loaded.trends.insert id weight, idtab := loaded.idtab.insertIfNew cid id } where
  seen id' := by
    rw [ExtTreeMap.mem_insert, joined.seen, Std.compare_eq_iff_eq]
    constructor
    · rintro (rfl | ⟨line, member, found⟩)
      · exact ⟨(cid, name), List.mem_append_right _ List.mem_cons_self, same⟩
      · exact ⟨line, List.mem_append_left _ member, found⟩
    · rintro ⟨line, member, found⟩
      rcases List.mem_append.mp member with member | last
      · exact .inr ⟨line, member, found⟩
      · rw [List.mem_singleton.mp last] at found
        exact .inl (Option.some.inj (same.symm.trans found))
  named cid' id' found := by
    rw [ExtTreeMap.getElem?_insertIfNew] at found
    split at found
    · rename_i here
      obtain rfl := Std.compare_eq_iff_eq.mp here.1
      obtain rfl := Option.some.inj found
      exact ⟨name, List.mem_append_right _ List.mem_cons_self, same⟩
    · obtain ⟨name', member, found'⟩ := joined.named cid' id' found
      exact ⟨name', List.mem_append_left _ member, found'⟩
  known cid' := by
    have first : ∀ line ∈ lines, systemId splitString files line.2 ≠ some id := fun line member found =>
      fresh ((joined.seen id).mpr ⟨line, member, found⟩)
    rw [ExtTreeMap.mem_insertIfNew, joined.known, known_append_iff, Std.compare_eq_iff_eq, or_comm]
    exact or_congr_right (and_iff_left ⟨id, same, first⟩).symm

theorem line (joined : Joined splitString files lines loaded) (atof : Bytes → UInt64) (part : Bytes) :
    Joined splitString files (lines ++ (newsLine splitString part).toList)
      (loadLine splitString atof (loadCategoryTable splitString files.c) loaded part) := by
  unfold newsLine loadLine
  match strings splitString part with
  | [] => simpa using joined
  | [_] => simpa using joined
  | [_, _] => simpa using joined
  | _ :: _ :: _ :: _ :: _ => simpa using joined
  | [number, name, weight] =>
    dsimp only [Option.toList]
    rw [getElem?_loadCategoryTable]
    cases same : systemId splitString files name with
    | none => exact joined.skip fun id found => by rw [same] at found; cases found
    | some id =>
      dsimp only
      split
      · rename_i old
        refine joined.skip fun id' found => ?_
        obtain rfl := Option.some.inj (same.symm.trans found)
        exact old
      · rename_i fresh
        exact joined.add (atof weight) same fresh

end Joined

/-- The tables after the news. -/
theorem joined_loadNewsTrends (splitString : Bytes → List Bytes) (atof : Bytes → UInt64) (files : Files) :
    Joined splitString files (newsLines splitString files.nt)
      (loadNewsTrends splitString atof (loadCategoryTable splitString files.c) files.nt) := by
  unfold newsLines loadNewsTrends
  generalize Lines.parts 299 files.nt = parts
  induction parts using List.reverseRecOn with
  | nil => exact Joined.start
  | append_singleton parts part ih =>
    rw [List.filterMap_append, List.foldl_append]
    have last := ih.line atof part
    cases found : newsLine splitString part with
    | none =>
      rw [found] at last
      simpa [found] using last
    | some news =>
      rw [found] at last
      simpa [found] using last

end Tables

section Users
variable {files : Files} {records : List (UInt64 × Int32)} {dat : Bytes} {entries : List (UInt64 × List (Int32 × UInt64))}
  {uid : UInt64}

theorem loadUsers_eq (records : List (UInt64 × Int32)) (dat : Bytes) (interests : ExtTreeMap UInt64 Distribution) :
    loadUsers records dat interests = (userEntries records dat).map fun entries =>
      entries.foldl (fun interests entry => interests.insert entry.1 (ofEntries entry.2)) interests := by
  induction records generalizing dat interests with
  | nil => rfl
  | cons record records ih =>
    obtain ⟨uid, cnt⟩ := record
    rw [loadUsers, userEntries]
    split
    · exact ih dat interests
    · cases (times readPair cnt.toInt.toNat).run dat with
      | none => rfl
      | some read =>
        obtain ⟨pairs, rest⟩ := read
        dsimp only
        rw [ih, Option.bind_eq_bind, Option.bind_some, Option.bind_eq_bind]
        cases userEntries records rest with
        | none => rfl
        | some entries => rfl

/-- The interests that the entries make. -/
def interestsOf (entries : List (UInt64 × List (Int32 × UInt64))) : ExtTreeMap UInt64 Distribution :=
  ofEntries (entries.map fun entry => (entry.1, ofEntries entry.2))

theorem loadUserInterests_eq (idx dat : Bytes) :
    loadUserInterests idx dat = (userEntries (index idx) dat).map interestsOf := by
  rw [loadUserInterests, loadUsers_eq]
  congr 1
  funext entries
  rw [interestsOf, ofEntries, List.foldl_map]

theorem getElem?_interestsOf (entries : List (UInt64 × List (Int32 × UInt64))) (uid : UInt64) :
    (interestsOf entries)[uid]? = (valuesOf entries uid).getLast?.map ofEntries := by
  have values : valuesOf (entries.map fun entry => (entry.1, ofEntries entry.2)) uid =
      (valuesOf entries uid).map ofEntries := by
    rw [valuesOf, List.filter_map, List.map_map, valuesOf, List.map_map]
    rfl
  rw [interestsOf, getElem?_ofEntries, values, List.getLast?_map]

/-- A count is positive when pairs are read for it. -/
theorem positive_iff {cnt : Int32} {pairs : List (Int32 × UInt64)} {rest : Bytes}
    (read : (times readPair cnt.toInt.toNat).run dat = some (pairs, rest)) : 0 < cnt ↔ pairs ≠ [] := by
  rw [← List.length_pos_iff, length_of_times read, Int32.lt_iff_toInt_lt, Int32.toInt_zero]
  omega

/-- A user of the index with a positive count is one with pairs. -/
theorem exists_count_iff (read : userEntries records dat = some entries) :
    (∃ cnt : Int32, (uid, cnt) ∈ records ∧ 0 < cnt) ↔ ∃ pairs, (uid, pairs) ∈ entries ∧ pairs ≠ [] := by
  induction records generalizing dat entries with
  | nil =>
    obtain rfl := Option.some.inj read
    simp
  | cons record records ih =>
    obtain ⟨user, cnt⟩ := record
    rw [userEntries] at read
    rw [exists_value_cons_iff]
    split at read
    · rename_i zero
      rw [← ih read, zero]
      exact or_iff_right fun here => Int32.lt_irrefl here.2
    · obtain ⟨⟨pairs, rest⟩, first, read⟩ := Option.bind_eq_some_iff.mp read
      obtain ⟨others, more, same⟩ := Option.bind_eq_some_iff.mp read
      obtain rfl := Option.some.inj same
      rw [exists_value_cons_iff, positive_iff first, ih more]

end Users

section Dump
variable {idtab : ExtTreeMap Int32 Int32} {interests : ExtTreeMap UInt64 Distribution} {map : Distribution}
  {records : List UserRecord} {uid : UInt64}

/-- A tag has the id of the table and the weight of the pair. -/
theorem forall₂_dumpTag {distribution : List (Int32 × UInt64)} (dumped : map.toList.mapM (dumpTag idtab) = some distribution) :
    List.Forall₂ (fun pair tag => idtab[pair.1]? = some tag.1 ∧ pair.2 = tag.2) map.toList distribution := by
  refine (forall₂_mapM dumped).imp fun pair tag made => ?_
  obtain ⟨id, found, same⟩ := Option.bind_eq_some_iff.mp made
  obtain rfl := Option.some.inj same
  exact ⟨found, rfl⟩

/-- A user has one record, which has a tag for each category. -/
theorem dumped_record (dumped : dumpUserInterests idtab interests = some records) (found : interests[uid]? = some map) :
    ∃ distribution, map.toList.mapM (dumpTag idtab) = some distribution ∧
      (records.filter fun record => record.userId = uid) = [⟨uid, distribution⟩] := by
  have made : List.Forall₂ (fun user record => dumpUser idtab user = some record) interests.toList records :=
    forall₂_mapM dumped
  have users : interests.toList.map Prod.fst = records.map UserRecord.userId := by
    rw [← List.forall₂_eq_eq_eq, List.forall₂_map_left_iff, List.forall₂_map_right_iff]
    refine made.imp fun user record same => ?_
    obtain ⟨distribution, -, same⟩ := Option.bind_eq_some_iff.mp same
    obtain rfl := Option.some.inj same
    rfl
  obtain ⟨record, member, same⟩ := exists_mem_of_mapM dumped (ExtTreeMap.mem_toList_iff_getElem?_eq_some.mpr found)
  obtain ⟨distribution, tags, same⟩ := Option.bind_eq_some_iff.mp same
  obtain rfl := Option.some.inj same
  refine ⟨distribution, tags, filter_key_eq ?_ member⟩
  rw [← users]
  exact nodup_keys interests

end Dump

section Kept
variable {splitString : Bytes → List Bytes} {files : Files} {loaded : Loaded} {records : List UserRecord}
  {entries : List (UInt64 × List (Int32 × UInt64))} {uid : UInt64} {before : List (List (Int32 × UInt64))}
  {pairs : List (Int32 × UInt64)}

/-- The last list of a user makes the tags of the record. -/
theorem record_of_last (dumped : dumpUserInterests loaded.idtab (interestsOf entries) = some records)
    (values : valuesOf entries uid = before ++ [pairs]) :
    ∃ distribution, (ofEntries pairs).toList.mapM (dumpTag loaded.idtab) = some distribution ∧
      (records.filter fun record => record.userId = uid) = [⟨uid, distribution⟩] := by
  refine dumped_record dumped ?_
  rw [getElem?_interestsOf, values, List.getLast?_concat, Option.map_some]

/-- Nothing is lost before the last list or among its pairs when there are as many tags as pairs. -/
theorem kept_length {distribution : List (Int32 × UInt64)}
    (tags : (ofEntries pairs).toList.mapM (dumpTag loaded.idtab) = some distribution)
    (same : (before ++ [pairs]).flatten.length = distribution.length) :
    (∀ other ∈ before, other = []) ∧ (pairs.map Prod.fst).Nodup := by
  rw [← (forall₂_mapM tags).length_eq, List.flatten_append, List.flatten_singleton, List.length_append] at same
  have shorter := length_toList_le pairs
  constructor
  · refine List.flatten_eq_nil_iff.mp (List.eq_nil_of_length_eq_zero ?_)
    omega
  · refine length_toList_eq_iff.mp ?_
    omega

theorem keptIn_of_last (joined : Joined splitString files (newsLines splitString files.nt) loaded)
    (dumped : dumpUserInterests loaded.idtab (interestsOf entries) = some records)
    (values : valuesOf entries uid = before ++ [pairs]) (others : ∀ other ∈ before, other = [])
    (distinct : (pairs.map Prod.fst).Nodup) :
    KeptIn splitString files records uid (valuesOf entries uid).flatten := by
  obtain ⟨distribution, tags, record⟩ := record_of_last dumped values
  refine ⟨⟨uid, distribution⟩, (ofEntries pairs).toList, record, ?_, (forall₂_dumpTag tags).imp ?_⟩
  · rw [values, List.flatten_append, List.flatten_eq_nil_iff.mpr others, List.flatten_singleton]
    exact toList_perm distinct
  · rintro pair tag ⟨found, weight⟩
    exact ⟨joined.named _ _ found, weight⟩

/-- A user whose pairs are kept has them in the last list. -/
theorem last_of_keptIn (dumped : dumpUserInterests loaded.idtab (interestsOf entries) = some records)
    (some_ : valuesOf entries uid ≠ []) (kept : KeptIn splitString files records uid (valuesOf entries uid).flatten) :
    ∃ before pairs, valuesOf entries uid = before ++ [pairs] ∧ (∀ other ∈ before, other = []) ∧
      (pairs.map Prod.fst).Nodup := by
  have values := (List.dropLast_append_getLast some_).symm
  refine ⟨_, _, values, ?_⟩
  obtain ⟨distribution, tags, made⟩ := record_of_last dumped values
  obtain ⟨record, order, one, perm, same⟩ := kept
  obtain rfl := List.singleton_inj.mp (made.symm.trans one)
  refine kept_length tags ?_
  rw [← values, ← perm.length_eq, same.length_eq]

/-- The categories of the last list have been looked up. -/
theorem known_of_last (joined : Joined splitString files (newsLines splitString files.nt) loaded)
    (dumped : dumpUserInterests loaded.idtab (interestsOf entries) = some records)
    (values : valuesOf entries uid = before ++ [pairs]) (distinct : (pairs.map Prod.fst).Nodup)
    {pair : Int32 × UInt64} (member : pair ∈ pairs) :
    Known splitString files (newsLines splitString files.nt) pair.1 := by
  obtain ⟨distribution, tags, -⟩ := record_of_last dumped values
  obtain ⟨tag, -, made⟩ := exists_mem_of_mapM tags ((toList_perm distinct).mem_iff.mpr member)
  obtain ⟨id, found, -⟩ := Option.bind_eq_some_iff.mp made
  exact (joined.known _).mp (ExtTreeMap.mem_iff_isSome_getElem?.mpr (Option.isSome_of_eq_some found))

theorem exists_records (joined : Joined splitString files (newsLines splitString files.nt) loaded)
    (known : ∀ entry ∈ entries, ∀ pair ∈ entry.2, Known splitString files (newsLines splitString files.nt) pair.1) :
    ∃ records, dumpUserInterests loaded.idtab (interestsOf entries) = some records := by
  refine exists_mapM fun user member => ?_
  obtain ⟨entry, inside, rfl⟩ := List.mem_map.mp (mem_toList_ofEntries member)
  have tags : ∃ distribution, (ofEntries entry.2).toList.mapM (dumpTag loaded.idtab) = some distribution := by
    refine exists_mapM fun pair member => ?_
    have listed := (joined.known _).mpr (known entry inside pair (mem_toList_ofEntries member))
    obtain ⟨id, found⟩ := Option.isSome_iff_exists.mp (ExtTreeMap.mem_iff_isSome_getElem?.mp listed)
    exact ⟨(id, pair.2), by rw [dumpTag, found]; rfl⟩
  obtain ⟨distribution, tags⟩ := tags
  exact ⟨⟨entry.1, distribution⟩, by rw [dumpUser, tags]; rfl⟩

end Kept

/-- The tool keeps the interests of exactly the files that it can convert. -/
theorem keeps_iff (splitString : Bytes → List Bytes) (atof : Bytes → UInt64) (files : Files) :
    Keeps splitString files atof ↔ Convertible splitString files := by
  have joined := joined_loadNewsTrends splitString atof files
  unfold Keeps convert
  rw [loadUserInterests_eq]
  generalize loadNewsTrends splitString atof (loadCategoryTable splitString files.c) files.nt = loaded at joined
  cases read : userEntries (index files.idx) files.dat with
  | none =>
    refine iff_of_true trivial fun entries found => ?_
    rw [read] at found
    cases found
  | some entries =>
    have interested_iff (uid : UInt64) : Interested files uid ↔ ∃ pairs ∈ valuesOf entries uid, pairs ≠ [] := by
      simp only [mem_valuesOf]
      exact (exists_congr fun _ => and_comm).trans (exists_count_iff read)
    dsimp only [Option.map_some]
    cases dumped : dumpUserInterests loaded.idtab (interestsOf entries) with
    | none =>
      refine iff_of_false id fun convertible => ?_
      obtain ⟨records, found⟩ := exists_records joined (convertible entries read).2
      rw [dumped] at found
      cases found
    | some records =>
      constructor
      · intro keeps entries' read'
        obtain rfl := Option.some.inj (read.symm.trans read')
        have single (uid : UInt64) (interested : Interested files uid) :
            ∃ before pairs, valuesOf entries uid = before ++ [pairs] ∧ (∀ other ∈ before, other = []) ∧
              (pairs.map Prod.fst).Nodup := by
          obtain ⟨pairs, member, -⟩ := (interested_iff uid).mp interested
          exact last_of_keptIn dumped (List.ne_nil_of_mem member) (keeps entries rfl uid interested)
        refine ⟨single, fun entry inside pair member => ?_⟩
        -- no list of the user but the last has a pair
        have listed : entry.2 ∈ valuesOf entries entry.1 := mem_valuesOf.mpr inside
        have filled : entry.2 ≠ [] := List.ne_nil_of_mem member
        obtain ⟨before, pairs, values, others, distinct⟩ := single entry.1 ((interested_iff _).mpr ⟨_, listed, filled⟩)
        rw [values] at listed
        rcases List.mem_append.mp listed with early | last
        · exact absurd (others _ early) filled
        · rw [List.mem_singleton.mp last] at member
          exact known_of_last joined dumped values distinct member
      · intro convertible entries' read' uid interested
        obtain rfl := Option.some.inj read'
        obtain ⟨before, pairs, values, others, distinct⟩ := (convertible entries read).1 uid interested
        exact keptIn_of_last joined dumped values others distinct

/-- The second line for a name stops before the table of the ids. -/
def secondLine : Files where
  c := [49, 124, 97, 10]
  nt := [49, 48, 124, 97, 124, 48, 10, 49, 49, 124, 97, 124, 48, 10]
  idx := rawWord 1 ++ rawInt 1
  dat := rawInt 11 ++ rawWord 0x3FF0000000000000

theorem missing_id : ¬ Keeps (List.splitOn 124) secondLine fun _ => 0 := by
  have missing : convert (List.splitOn 124) (fun _ => 0) secondLine = .missing := by decide +kernel
  rw [Keeps, missing]
  exact id

end ContentBased.Converter
