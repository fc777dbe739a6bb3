import ContentBased.CategoryTable

namespace ContentBased
open RecordDisk Std Decimal

/-- What is read into the buffer for an entry is, up to a NUL byte and less the blanks at its end, a text without a `|`,
a `|`, and the name. -/
theorem categoryEntry_inv {part name : Bytes} {id : Int32} (taken : categoryEntry part = some (id, name)) :
    ∃ number, (part.takeWhile (· != 0)).rdropWhile isBlank = number ++ 124 :: name ∧
      id = categoryId (number ++ 124 :: name) ∧ 0 ≤ id := by
  simp only [categoryEntry] at taken
  generalize (part.takeWhile (· != 0)).rdropWhile isBlank = line at taken ⊢
  split at taken
  case isTrue => cases taken
  case isFalse =>
    by_cases bar : 124 ∈ line
    · obtain ⟨number, text, rfl, first⟩ := List.eq_append_cons_of_mem bar
      rw [List.dropWhile_ne_append_cons first] at taken
      simp only at taken
      split at taken
      case isTrue => cases taken
      case isFalse nonneg =>
        obtain ⟨rfl, rfl⟩ := Prod.mk.inj (Option.some.inj taken)
        exact ⟨number, rfl, rfl, Int32.not_lt.mp nonneg⟩
    · rw [List.dropWhile_ne_eq_nil bar] at taken
      cases taken

/-- The number that is kept has no more digits than the text it was read from. -/
theorem toInt_categoryId_lt {number : Bytes} (rest : Bytes) (nonneg : 0 ≤ categoryId (number ++ 124 :: rest)) :
    (categoryId (number ++ 124 :: rest)).toInt.natAbs < 10 ^ number.length := by
  have value : categoryId (number ++ 124 :: rest) =
      Int32.ofInt (max (-2 ^ 63) (min (integer number) (2 ^ 63 - 1))) := by
    rw [categoryId, atoi, integer_append number rfl rfl (by decide) (by decide)]
  have bound := natAbs_integer_lt number
  rw [value] at nonneg ⊢
  rw [Int32.le_iff_toInt_le, Int32.toInt_ofInt] at nonneg
  rw [Int32.toInt_ofInt]
  generalize integer number = n at bound nonneg ⊢
  simp only [Int.bmod_def, Int32.size, Int32.toInt_zero] at nonneg ⊢
  by_cases large : 10 ≤ number.length
  · have power : 10 ^ 10 ≤ 10 ^ number.length := Nat.pow_le_pow_right (by decide) large
    omega
  · -- with fewer digits nothing is cut off, and a negative number stays negative
    have power : 10 ^ number.length ≤ 10 ^ 9 := Nat.pow_le_pow_right (by decide) (by omega)
    omega

/-- The line that is written for an entry, less its newline. -/
def writtenLine (entry : Int32 × Bytes) : Bytes := decimal entry.1.toInt ++ 124 :: entry.2

/-- An entry whose line is read for the same entry when it fits the buffer. -/
structure Printable (entry : Int32 × Bytes) : Prop where
  nonneg : 0 ≤ entry.1
  nonul : 0 ∉ entry.2
  plain : 10 ∉ entry.2
  trimmed : entry.2.rdropWhile isBlank = entry.2

theorem decimal_eq_digits {id : Int32} (nonneg : 0 ≤ id) : decimal id.toInt = digits id.toInt.natAbs := by
  have sign : ¬ id.toInt < 0 := Int.not_lt.mpr (Int32.le_iff_toInt_le.mp nonneg)
  rw [decimal, if_neg sign]

theorem length_decimal_le {id : Int32} {k : Nat} (nonneg : 0 ≤ id) (small : id.toInt.natAbs < 10 ^ k) (positive : 0 < k) :
    (decimal id.toInt).length ≤ k := by
  rw [decimal_eq_digits nonneg]
  exact length_digits_le small positive

/-- The blanks that are cut off include a newline at the end. -/
theorem plain_rdropWhile {part : Bytes} (last : 10 ∉ part.dropLast) : 10 ∉ part.rdropWhile isBlank := by
  induction part using List.reverseRecOn with
  | nil => exact List.not_mem_nil
  | append_singleton part byte ih =>
    rw [List.dropLast_concat] at last
    rw [List.rdropWhile_concat]
    split
    · exact fun inside => last (List.mem_of_mem_rdropWhile inside)
    · rename_i kept
      rw [List.mem_append, List.mem_singleton, not_or]
      refine ⟨last, ?_⟩
      rintro rfl
      exact kept rfl

theorem plain_dropLast_of_start {part whole : Bytes} (start : part <+: whole) (last : 10 ∉ whole.dropLast) :
    10 ∉ part.dropLast := by
  obtain ⟨rest, rfl⟩ := start
  by_cases empty : rest = []
  · rwa [empty, List.append_nil] at last
  · rw [List.dropLast_append_of_ne_nil empty] at last
    exact fun inside => last (List.mem_append_left _ (List.mem_of_mem_dropLast inside))

/-- What a file enters is printable, and its line fits the buffer again, unless its number was left out. -/
theorem printable_of_mem_entries {content : Bytes} {entry : Int32 × Bytes} (member : entry ∈ entries content) :
    Printable entry ∧ ((writtenLine entry).length ≤ 1021 ∨ entry.1 = 0 ∧ entry.2.length = 1020) := by
  obtain ⟨id, name⟩ := entry
  obtain ⟨part, inside, taken⟩ := List.mem_filterMap.mp member
  obtain ⟨number, line, rfl, nonneg⟩ := categoryEntry_inv taken
  have start : number ++ 124 :: name <+: part.takeWhile (· != 0) := line ▸ List.rdropWhile_prefix isBlank _
  have length := (start.trans (List.takeWhile_prefix _)).length_le.trans (Lines.length_le_of_mem_parts inside)
  rw [List.length_append, List.length_cons] at length
  refine ⟨⟨nonneg, fun nul => ?_, fun newline => ?_, ?_⟩, ?_⟩
  · have other := List.mem_takeWhile_imp (start.subset (List.mem_append_right _ (List.mem_cons_of_mem _ nul)))
    simp at other
  · have plain := plain_rdropWhile (plain_dropLast_of_start (List.takeWhile_prefix (· != 0))
      (Lines.plain_dropLast_of_mem_parts inside))
    rw [line] at plain
    exact plain (List.mem_append_right _ (List.mem_cons_of_mem _ newline))
  · have again := List.rdropWhile_idempotent isBlank (part.takeWhile (· != 0))
    rw [line, rdropWhile_line] at again
    exact (List.cons.inj (List.append_cancel_left again)).2
  · have small := toInt_categoryId_lt name nonneg
    have written : (writtenLine (categoryId (number ++ 124 :: name), name)).length =
        (decimal (categoryId (number ++ 124 :: name)).toInt).length + (name.length + 1) := by
      rw [writtenLine, List.length_append, List.length_cons]
    by_cases empty : number = []
    · subst empty
      have zero : categoryId ([] ++ 124 :: name) = 0 := by
        rw [categoryId, atoi, integer_append [] rfl rfl (by decide) (by decide)]
        rfl
      have digit : (decimal (0 : Int32).toInt).length = 1 := rfl
      rw [zero, digit] at written
      rw [zero, written]
      rw [List.length_nil] at length
      rcases Nat.lt_or_ge name.length 1020 with short | long
      · exact .inl (by omega)
      · exact .inr ⟨rfl, (by omega : name.length = 1020)⟩
    · have digits := length_decimal_le nonneg small (List.length_pos_iff.mpr empty)
      exact .inl (by omega)

namespace Printable
variable {entry : Int32 × Bytes} (printable : Printable entry)
include printable

theorem not_mem_writtenLine {byte : UInt8} (digit : isDigit byte = false) (bar : byte ≠ 124) (name : byte ∉ entry.2) :
    byte ∉ writtenLine entry := by
  rw [writtenLine, decimal_eq_digits printable.nonneg]
  intro inside
  rcases List.mem_append.mp inside with number | rest
  · rw [digits_isDigit _ byte number] at digit
    cases digit
  · rcases List.mem_cons.mp rest with rfl | later
    · exact bar rfl
    · exact name later

/-- The written line is one of the grammar and stands for the entry. -/
theorem lineEntry_writtenLine : lineEntry (writtenLine entry) = some entry := by
  obtain ⟨id, name⟩ := entry
  have bar : 124 ∉ decimal id.toInt := by
    rw [decimal_eq_digits printable.nonneg]
    intro inside
    have digit := digits_isDigit _ _ inside
    cases digit
  have nonneg : 0 ≤ id.toInt := Int32.le_iff_toInt_le.mp printable.nonneg
  have below := Int32.toInt_lt id
  have small : id.toInt.natAbs < 2 ^ 31 := by omega
  have value : number (decimal id.toInt) = id.toInt.natAbs := by
    rw [decimal_eq_digits printable.nonneg, number_digits]
  have same : Int32.ofNat id.toInt.natAbs = id := by
    refine Int32.toInt_inj.mp ?_
    rw [Int32.toInt_ofNat_of_lt small, Int.natAbs_of_nonneg nonneg]
  have allDigits : ∀ byte ∈ decimal id.toInt, isDigit byte = true := by
    rw [decimal_eq_digits printable.nonneg]
    exact digits_isDigit _
  rw [writtenLine, lineEntry_line bar (decimal_ne_nil _) allDigits (value ▸ small), value, same, printable.trimmed]

theorem plain_writtenLine : 10 ∉ writtenLine entry :=
  printable.not_mem_writtenLine rfl (by decide) printable.plain

theorem nonul_writtenLine : 0 ∉ writtenLine entry :=
  printable.not_mem_writtenLine rfl (by decide) printable.nonul

theorem categoryLine_eq : Model.categoryLine entry = writtenLine entry ++ [10] := by
  rw [Model.categoryLine, List.takeWhile_ne_eq_self printable.nonul, writtenLine, List.append_assoc, List.cons_append]

/-- A line that fits the buffer is read back. -/
theorem entries_writtenLine (fits : (writtenLine entry).length ≤ 1021) : entries (writtenLine entry) = [entry] := by
  have formed := printable.lineEntry_writtenLine
  have nonempty : writtenLine entry ≠ [] := by simp [writtenLine]
  obtain ⟨taken, number, text⟩ := entered_of_lineEntry formed
  rw [entries, Lines.parts_last printable.plain_writtenLine nonempty fits,
    List.filterMap_cons_some (by rw [categoryEntry_eq printable.nonul_writtenLine, if_pos taken, number, text])]
  rfl

end Printable

theorem categoryEntry_prefix {part name : Bytes} {id : Int32} (taken : categoryEntry part = some (id, name)) :
    ∃ number, number ++ 124 :: name <+: part := by
  obtain ⟨number, line, -, -⟩ := categoryEntry_inv taken
  exact ⟨number, (line ▸ List.rdropWhile_prefix isBlank _).trans (List.takeWhile_prefix _)⟩

/-- What stands before the `|` of a part leaves that much less room for the name. -/
theorem length_le_of_categoryEntry {part name : Bytes} {id : Int32} (taken : categoryEntry part = some (id, name))
    (fits : part.length ≤ 1021) (start : part.head? ≠ some 124) : name.length ≤ 1019 := by
  obtain ⟨number, inside⟩ := categoryEntry_prefix taken
  have length := inside.length_le.trans fits
  rw [List.length_append, List.length_cons] at length
  have nonempty : number ≠ [] := by
    rintro rfl
    obtain ⟨rest, rfl⟩ := inside
    exact start rfl
  have positive := List.length_pos_iff.mpr nonempty
  omega

/-- A line that does not fit is read for a shorter name, or for none. -/
theorem length_le_of_long {name : Bytes} (printable : Printable (0, name)) (long : name.length = 1020)
    {entry : Int32 × Bytes} (member : entry ∈ entries (writtenLine (0, name))) : entry.2.length ≤ 1019 := by
  have written : (writtenLine (0, name)).length = 1022 := by
    rw [writtenLine, List.length_append, List.length_cons, long]
    rfl
  have plain := printable.plain_writtenLine
  have full : ((writtenLine (0, name)).take 1021).length = 1021 := List.length_take_of_le (by omega)
  have rest : ((writtenLine (0, name)).drop 1021).length = 1 := by rw [List.length_drop, written]
  have parts : Lines.parts 1021 (writtenLine (0, name)) =
      [(writtenLine (0, name)).take 1021, (writtenLine (0, name)).drop 1021] := by
    have first := Lines.parts_full (fun inside => plain (List.mem_of_mem_take inside)) full (by decide)
      ((writtenLine (0, name)).drop 1021)
    rwa [List.take_append_drop, Lines.parts_last (fun inside => plain (List.mem_of_mem_drop inside))
      (List.ne_nil_of_length_pos (by omega)) (by omega)] at first
  obtain ⟨part, inside, taken⟩ := List.mem_filterMap.mp member
  rw [parts] at inside
  rcases List.mem_cons.mp inside with rfl | inside
  · exact length_le_of_categoryEntry taken full.le (by simp [writtenLine, decimal, digits, digitByte])
  · obtain rfl := List.mem_singleton.mp inside
    obtain ⟨number, start⟩ := categoryEntry_prefix taken
    have length := start.length_le
    rw [rest, List.length_append, List.length_cons] at length
    omega

/-- The file of a table is read entry by entry. -/
theorem entries_categoryLines {table : List (Int32 × Bytes)} (printable : ∀ entry ∈ table, Printable entry) :
    entries (table.map Model.categoryLine).flatten = table.flatMap fun entry => entries (writtenLine entry) := by
  induction table with
  | nil => simp [entries]
  | cons entry table ih =>
    have head := printable entry List.mem_cons_self
    have positive : 0 < 1021 := by decide
    have line := Lines.filterMap_parts_line positive categoryEntry_ending rfl head.plain_writtenLine
      (table.map Model.categoryLine).flatten
    rw [List.map_cons, List.flatten_cons, head.categoryLine_eq, List.append_assoc, List.singleton_append,
      List.flatMap_cons, ← ih fun entry member => printable entry (List.mem_cons_of_mem _ member)]
    exact line

section RoundTrip
variable {υ ι ν : Type}

theorem Model.flushLines_completes (name : FileName) (table : List (Int32 × Bytes)) {disk : Files} {file : File Bytes}
    (present : disk name = some file) :
    ∃ disk' file', Completes (flushLines name table) disk () disk' ∧ disk' name = some file' ∧
      file'.content = file.content ++ table.map categoryLine := by
  induction table generalizing disk file with
  | nil => exact ⟨disk, file, .pure _ _, present, by simp⟩
  | cons entry table ih =>
    have pushed : Function.update disk name ((disk name).map (·.push (categoryLine entry) false)) name =
        some (file.push (categoryLine entry) false) := by
      rw [Function.update_self, present, Option.map_some]
    obtain ⟨disk', file', rest, present', content⟩ := ih pushed
    refine ⟨disk', file', .bind (.append name _ false disk) rest, present', ?_⟩
    rw [content, List.map_cons]
    simp [File.push, File.content]

theorem Model.flushCategory_completes (model : Model υ ι ν) (name : String) (disk : Files) :
    ∃ disk' file, Completes (flushCategory model name) disk (.ok (), { model with isCategoryModified := false }) disk' ∧
      disk' (.plain name) = some file ∧ file.content = model.category.toList.map categoryLine := by
  have created : Function.update disk (.plain (name ++ ".tmp")) (some (File.synced ([] : List Bytes)))
      (.plain (name ++ ".tmp")) = some (.synced []) := Function.update_self ..
  obtain ⟨disk', file', lines, present, content⟩ :=
    flushLines_completes (.plain (name ++ ".tmp")) model.category.toList created
  have synced : Function.update disk' (.plain (name ++ ".tmp")) ((disk' (.plain (name ++ ".tmp"))).map File.sync)
      (.plain (name ++ ".tmp")) = some file'.sync := by
    rw [Function.update_self, present, Option.map_some]
  refine ⟨_, file'.sync, .bind (.create _ disk) (.bind lines (.bind (.sync _ disk') (.bind (.rename synced) (.pure _ _)))),
    Function.update_self .., ?_⟩
  rw [File.sync, File.content_synced, content, File.content_synced, List.nil_append]

/-- What a table that was loaded gives an id stands in its file. -/
theorem mem_entries_of_getElem?_entered {content name : Bytes} {id : Int32}
    (present : (entered ∅ content)[id]? = some name) : (id, name) ∈ entries content := by
  rw [getElem?_entered, ExtTreeMap.getElem?_empty, Option.or_none] at present
  exact List.mem_reverse.mp (List.mem_of_lookup_eq_some present)

/-- The table that is read from the file that is written for a table. -/
def readBack (table : ExtTreeMap Int32 Bytes) : ExtTreeMap Int32 Bytes :=
  entered ∅ (table.toList.map Model.categoryLine).flatten

theorem printable_of_mem_toList {content : Bytes} {entry : Int32 × Bytes} (member : entry ∈ (entered ∅ content).toList) :
    Printable entry ∧ ((writtenLine entry).length ≤ 1021 ∨ entry.1 = 0 ∧ entry.2.length = 1020) :=
  printable_of_mem_entries (mem_entries_of_getElem?_entered (ExtTreeMap.mem_toList_iff_getElem?_eq_some.mp member))

/-- A name of 1020 bytes under the id 0 is not read back. -/
theorem readBack_ne_of_long (content : Bytes) {name : Bytes} (long : name.length = 1020) :
    (readBack (entered ∅ content))[(0 : Int32)]? ≠ some name := by
  intro back
  have printable : ∀ entry ∈ (entered ∅ content).toList, Printable entry :=
    fun entry member => (printable_of_mem_toList member).1
  have member := mem_entries_of_getElem?_entered back
  rw [entries_categoryLines printable] at member
  obtain ⟨entry, inside, read⟩ := List.mem_flatMap.mp member
  obtain ⟨sound, fits | ⟨zero, full⟩⟩ := printable_of_mem_toList inside
  · rw [sound.entries_writtenLine fits] at read
    obtain rfl := List.mem_singleton.mp read
    rw [writtenLine, List.length_append, List.length_cons] at fits
    have digit := List.length_pos_iff.mpr (decimal_ne_nil (0 : Int32).toInt)
    simp only at fits
    omega
  · obtain ⟨id, written⟩ := entry
    simp only at zero full
    subst zero
    have short := length_le_of_long sound full read
    simp only at short
    omega

theorem readBack_eq_of_short {content : Bytes}
    (short : ∀ name, (entered ∅ content)[(0 : Int32)]? = some name → name.length ≠ 1020) :
    readBack (entered ∅ content) = entered ∅ content := by
  have printable : ∀ entry ∈ (entered ∅ content).toList, Printable entry :=
    fun entry member => (printable_of_mem_toList member).1
  have each : ∀ entry ∈ (entered ∅ content).toList, entries (writtenLine entry) = [entry] := by
    intro entry member
    obtain ⟨sound, fits | ⟨zero, full⟩⟩ := printable_of_mem_toList member
    · exact sound.entries_writtenLine fits
    · have present := ExtTreeMap.mem_toList_iff_getElem?_eq_some.mp member
      rw [zero] at present
      exact absurd full (short _ present)
  rw [readBack, entered, entries_categoryLines printable, List.flatMap_congr each, List.flatMap_singleton',
    ExtTreeMap.foldl_insert_toList]

/-- A loaded table is the same after it was written and loaded again exactly when the id 0 has no name of 1020 bytes. -/
theorem Model.category_roundTrip_iff (model : Model υ ι ν) (source target : String) {disk : Files}
    {loaded : Model υ ι ν}
    (load : Completes (loadCategory { model with category := ∅ } source) disk (.ok (), loaded) disk) :
    (∃ flushed disk' again, Completes (flushCategory loaded target) disk (.ok (), flushed) disk' ∧
      Completes (loadCategory { flushed with category := ∅ } target) disk' (.ok (), again) disk' ∧
      again.category = loaded.category) ↔
    ∀ name, loaded.category[(0 : Int32)]? = some name → name.length ≠ 1020 := by
  cases present : disk (.plain source) with
  | none =>
    have missing : Completes (openReader noSuchFile (.plain source)) disk (.error noSuchFile) disk := by
      simp only [Completes, openReader, step, present, List.tail_nil]
    have failed : Completes (loadCategory { model with category := ∅ } source) disk
        (.error ⟨.ioError, noSuchFile.message ++ ", file=" ++ source⟩, { model with category := ∅ }) disk :=
      .bind missing (.pure _ _)
    cases (Prod.mk.inj (load.unique failed).1).1
  | some file =>
    have same := (load.unique (loadCategory_completes _ present)).1
    have table := congrArg Model.category (Prod.mk.inj same).2
    simp only at table
    obtain ⟨disk', file', flush, present', content⟩ := flushCategory_completes loaded target disk
    have back := loadCategory_completes
      { { loaded with isCategoryModified := false } with category := (∅ : ExtTreeMap Int32 Bytes) } present'
    rw [content] at back
    rw [table]
    constructor
    · rintro ⟨flushed, _, again, flush', back', kept⟩ name named long
      obtain ⟨rest, rfl⟩ := flush'.unique flush
      obtain rfl := (Prod.mk.inj rest).2
      have read := congrArg Model.category (Prod.mk.inj (back'.unique back).1).2
      have reread : readBack (entered ∅ file.content.flatten) = entered ∅ file.content.flatten := by
        rw [table] at read
        exact read.symm.trans kept
      exact readBack_ne_of_long _ long (by rw [reread, named])
    · intro short
      refine ⟨_, disk', _, flush, back, ?_⟩
      have reread := readBack_eq_of_short short
      rw [← table] at reread
      exact reread.trans table

theorem Model.category_roundTrip_one :
    ∃ flushed disk' again,
      Completes (flushCategory { emptyModel with category := entered ∅ [53, 124, 120, 10] } "category.dat")
        (categoryFile [53, 124, 120, 10]) (.ok (), flushed) disk' ∧
      Completes (loadCategory { flushed with category := ∅ } "category.dat") disk' (.ok (), again) disk' ∧
      again.category = entered ∅ [53, 124, 120, 10] := by
  have present : categoryFile [53, 124, 120, 10] (.plain "category.dat") = some (.synced [[53, 124, 120, 10]]) := rfl
  have load := loadCategory_completes { emptyModel with category := ∅ } present
  refine (category_roundTrip_iff emptyModel "category.dat" "category.dat" load).mpr fun name named => ?_
  have plain : (10 : UInt8) ∉ ([53, 124, 120] : Bytes) := by decide
  have taken : entries [53, 124, 120, 10] = [(5, [120])] :=
    (entries_short plain (by decide)).trans (by decide +kernel)
  have other := mem_entries_of_getElem?_entered named
  rw [File.content_synced, List.flatten_singleton, taken] at other
  simp at other

/-- A line that begins with its `|` is entered under the id 0. -/
theorem entries_bar {name : Bytes} (nonul : 0 ∉ name) (plain : 10 ∉ name) (trimmed : name.rdropWhile isBlank = name)
    (fits : name.length ≤ 1020) : entries (124 :: name) = [(0, name)] := by
  have line : (124 :: name).rdropWhile isBlank = 124 :: name := by
    have cut := @rdropWhile_line [] name
    rwa [trimmed] at cut
  have zero : categoryId (124 :: name) = 0 := by
    have value := integer_append [] (rfl : isDigit 124 = false) rfl (by decide) (by decide) name
    rw [List.nil_append] at value
    rw [categoryId, atoi, value]
    rfl
  have text : textAfter (124 :: name) = name := by
    have after := textAfter_line (List.not_mem_nil : 124 ∉ ([] : Bytes)) name
    rwa [trimmed] at after
  have taken : Entered (124 :: name) := by
    refine ⟨by simp, List.mem_cons_self, ?_⟩
    rw [line, zero]
    exact Int32.le_refl 0
  have clean : 0 ∉ 124 :: name := by simpa using nonul
  rw [entries, Lines.parts_last (by simpa using plain) (by simp) (by simpa using Nat.succ_le_succ fits),
    List.filterMap_cons_some (by rw [categoryEntry_eq clean, if_pos taken, line, zero, text])]
  rfl

/-- A line of `|` and 1020 letters is loaded, and is written as a line that no longer fits the buffer. -/
theorem Model.long_name_is_cut :
    ∃ loaded flushed disk' again,
      Completes (loadCategory { emptyModel with category := ∅ } "category.dat")
        (categoryFile (124 :: List.replicate 1020 97)) (.ok (), loaded)
        (categoryFile (124 :: List.replicate 1020 97)) ∧
      Completes (flushCategory loaded "category.dat") (categoryFile (124 :: List.replicate 1020 97))
        (.ok (), flushed) disk' ∧
      Completes (loadCategory { flushed with category := ∅ } "category.dat") disk' (.ok (), again) disk' ∧
      loaded.category[(0 : Int32)]? = some (List.replicate 1020 97) ∧
      again.category[(0 : Int32)]? ≠ some (List.replicate 1020 97) := by
  have present : categoryFile (124 :: List.replicate 1020 97) (.plain "category.dat") =
      some (.synced [124 :: List.replicate 1020 97]) := rfl
  have load := loadCategory_completes { emptyModel with category := ∅ } present
  rw [File.content_synced, List.flatten_singleton] at load
  obtain ⟨disk', file', flush, present', content⟩ := flushCategory_completes
    { emptyModel with category := entered ∅ (124 :: List.replicate 1020 97) } "category.dat"
    (categoryFile (124 :: List.replicate 1020 97))
  have back := loadCategory_completes { emptyModel with category := ∅ } present'
  rw [content] at back
  have trimmed : (List.replicate 1020 (97 : UInt8)).rdropWhile isBlank = List.replicate 1020 97 := by
    rw [List.replicate_succ', List.rdropWhile_concat_neg _ _ _ (by decide)]
  have named : (entered ∅ (124 :: List.replicate 1020 97))[(0 : Int32)]? = some (List.replicate 1020 97) := by
    have other {byte : UInt8} (differs : byte ≠ 97) : byte ∉ List.replicate 1020 97 :=
      fun member => differs (List.eq_of_mem_replicate member)
    rw [getElem?_entered, entries_bar (other (by decide)) (other (by decide)) trimmed List.length_replicate.le]
    rfl
  exact ⟨_, _, disk', _, load, flush, back, named, readBack_ne_of_long _ List.length_replicate⟩

end RoundTrip

end ContentBased
