import ContentBased.ContentModel
import ContentBased.Library.Lines

namespace ContentBased
open RecordDisk Std

/-- The bytes that `loadCategory` cuts off the end. A `char` above 127 is negative. -/
def isBlank (byte : UInt8) : Bool := 0 < byte && byte ≤ 0x20

/-- The number that a line starts with. -/
def categoryId (buf : Bytes) : Int32 := Decimal.atoi buf

/-- What the buffer enters into the table, when it does. -/
def categoryEntry (part : Bytes) : Option (Int32 × Bytes) :=
  let buf := part.takeWhile (· != 0)
  let line := buf.rdropWhile isBlank
  if buf.head? = some 35 ∨ line = [] then none
  else
    match line.dropWhile (· != 124) with
    | [] => none
    | _ :: name => if categoryId line < 0 then none else some (categoryId line, name)

def loadPart (category : ExtTreeMap Int32 Bytes) (part : Bytes) : ExtTreeMap Int32 Bytes :=
  match categoryEntry part with
  | some (id, name) => category.insert id name
  | none => category

namespace Model
variable {υ ι ν : Type}

/-- Each pass of the loop works on what one `fgets` read. -/
def loadCategory (model : Model υ ι ν) (name : String) : Program (Status × Model υ ι ν) := do
  match ← openReader noSuchFile (.plain name) with
  | .error errno => return (.error ⟨.ioError, errno.message ++ ", file=" ++ name⟩, model)
  | .ok records =>
    readLoop (fun _ => false) (fun model part => return (.ok (), { model with category := loadPart model.category part }))
      (Lines.parts 1021 records.flatten) model

end Model

theorem categoryEntry_ending (part : Bytes) : categoryEntry (part ++ [10]) = categoryEntry part := by
  by_cases nul : 0 ∈ part
  · obtain ⟨first, rest, rfl, plain⟩ := List.eq_append_cons_of_mem nul
    have same : (first ++ 0 :: rest ++ [10]).takeWhile (· != 0) = (first ++ 0 :: rest).takeWhile (· != 0) := by
      rw [List.append_assoc, List.cons_append, List.takeWhile_ne_append_cons plain, List.takeWhile_ne_append_cons plain]
    simp only [categoryEntry, same]
  · have short : part.takeWhile (· != 0) = part := List.takeWhile_ne_eq_self nul
    have long : (part ++ [10]).takeWhile (· != 0) = part ++ [10] := List.takeWhile_ne_eq_self (by simpa using nul)
    have cut : (part ++ [10]).rdropWhile isBlank = part.rdropWhile isBlank :=
      List.rdropWhile_concat_pos isBlank part 10 rfl
    cases part with
    | nil => rfl
    | cons byte part =>
      simp only [categoryEntry, short, long, cut]
      rfl

/-- The text after the first `|`, less the blanks at its end. -/
def textAfter (line : Bytes) : Bytes := (line.dropWhile (· != 124)).tail.rdropWhile isBlank

/-- A part of the file is taken for an entry: it is no comment, has a `|`, and `atoi` reads no negative number. -/
def Entered (part : Bytes) : Prop :=
  part.head? ≠ some 35 ∧ 124 ∈ part ∧ 0 ≤ categoryId (part.rdropWhile isBlank)

instance (part : Bytes) : Decidable (Entered part) := inferInstanceAs (Decidable (_ ∧ _ ∧ _))

theorem rdropWhile_line {number : Bytes} (text : Bytes) :
    (number ++ 124 :: text).rdropWhile isBlank = number ++ 124 :: text.rdropWhile isBlank :=
  List.rdropWhile_append_cons rfl number text

theorem textAfter_line {number : Bytes} (first : 124 ∉ number) (text : Bytes) :
    textAfter (number ++ 124 :: text) = text.rdropWhile isBlank := by
  rw [textAfter, List.dropWhile_ne_append_cons first, List.tail_cons]

theorem categoryEntry_eq {part : Bytes} (nonul : 0 ∉ part) :
    categoryEntry part =
      if Entered part then some (categoryId (part.rdropWhile isBlank), textAfter part) else none := by
  have whole : part.takeWhile (· != 0) = part := List.takeWhile_ne_eq_self nonul
  by_cases bar : 124 ∈ part
  · obtain ⟨number, text, rfl, first⟩ := List.eq_append_cons_of_mem bar
    simp only [categoryEntry, Entered, whole, rdropWhile_line, textAfter_line first, List.dropWhile_ne_append_cons first]
    by_cases comment : (number ++ 124 :: text).head? = some 35
    · simp [comment]
    · by_cases negative : categoryId (number ++ 124 :: text.rdropWhile isBlank) < 0
      · have below := Int32.not_le.mpr negative
        simp [negative, below]
      · have above := Int32.not_lt.mp negative
        simp [negative, above]
  · have missing : (part.rdropWhile isBlank).dropWhile (· != 124) = [] :=
      List.dropWhile_ne_eq_nil fun inside => bar (List.mem_of_mem_rdropWhile inside)
    have notEntered : ¬ Entered part := fun entered => bar entered.2.1
    rw [if_neg notEntered]
    simp only [categoryEntry, whole, missing]
    split <;> rfl

theorem foldl_loadPart (parts : List Bytes) (category : ExtTreeMap Int32 Bytes) :
    parts.foldl loadPart category =
      (parts.filterMap categoryEntry).foldl (fun category entry => category.insert entry.1 entry.2) category := by
  rw [List.foldl_filterMap]
  refine List.foldl_ext _ _ _ fun category part _ => ?_
  rw [loadPart]
  cases categoryEntry part <;> rfl

/-- What a file enters into the table, in order. -/
def entries (content : Bytes) : List (Int32 × Bytes) := (Lines.parts 1021 content).filterMap categoryEntry

/-- The table after the entries of a file. -/
def entered (category : ExtTreeMap Int32 Bytes) (content : Bytes) : ExtTreeMap Int32 Bytes :=
  (entries content).foldl (fun category entry => category.insert entry.1 entry.2) category

theorem getElem?_entered (category : ExtTreeMap Int32 Bytes) (content : Bytes) (id : Int32) :
    (entered category content)[id]? = ((entries content).reverse.lookup id).or category[id]? :=
  ExtTreeMap.getElem?_foldl_insert _ _ _

/-- A line that fits the buffer with its newline is one part. -/
theorem entries_short {line : Bytes} (plain : 10 ∉ line) (fits : line.length < 1021) :
    entries (line ++ [10]) = [line].filterMap categoryEntry := by
  rw [entries, Lines.parts_short plain fits, Lines.parts_nil]
  simp only [List.filterMap_cons, categoryEntry_ending]

theorem entries_eq_flatMap (content : Bytes) : entries content = (content.splitOn 10).flatMap entries :=
  Lines.filterMap_parts (by decide) categoryEntry_ending rfl content

section Load
variable {υ ι ν : Type}

theorem Model.foldl_category (parts : List Bytes) (model : Model υ ι ν) :
    parts.foldl (fun (model : Model υ ι ν) part => { model with category := loadPart model.category part }) model =
      { model with category := parts.foldl loadPart model.category } := by
  induction parts generalizing model with
  | nil => rfl
  | cons part parts ih => rw [List.foldl_cons, List.foldl_cons, ih]

/-- With no failing step, `loadCategory` enters the entries of the file. -/
theorem Model.loadCategory_completes (model : Model υ ι ν) {name : String} {disk : Files} {file : File Bytes}
    (present : disk (.plain name) = some file) :
    Completes (loadCategory model name) disk
      (.ok (), { model with category := entered model.category file.content.flatten }) disk := by
  have loop := Completes.readLoop (fun _ => false)
    (fun (model : Model υ ι ν) (part : Bytes) (disk : Files) => Completes.pure (ε := Failure)
      (Except.ok () (ε := Failure), { model with category := loadPart model.category part }) disk)
    (Lines.parts 1021 file.content.flatten) model disk
  have all : (Lines.parts 1021 file.content.flatten).takeWhile (fun _ => !false) =
      Lines.parts 1021 file.content.flatten := List.takeWhile_eq_self_iff.mpr fun _ _ => rfl
  rw [all, foldl_category, foldl_loadPart, List.foldl_fixed] at loop
  exact .bind (.openReader present) loop

end Load

/-- The line `<number>|<text>`, its number decimal and below `2 ^ 31`: what it is to enter into the table. -/
def lineEntry (line : Bytes) : Option (Int32 × Bytes) :=
  let number := line.takeWhile (· != 124)
  if 124 ∈ line ∧ number ≠ [] ∧ (∀ byte ∈ number, Decimal.isDigit byte = true) ∧ Decimal.number number < 2 ^ 31 then
    some (Int32.ofNat (Decimal.number number), textAfter line)
  else none

theorem categoryId_line {number : Bytes} (nonempty : number ≠ []) (digits : ∀ byte ∈ number, Decimal.isDigit byte = true)
    (small : Decimal.number number < 2 ^ 31) (text : Bytes) :
    categoryId (number ++ 124 :: text) = Int32.ofNat (Decimal.number number) := by
  have clamped : max (-2 ^ 63) (min (Decimal.number number : Int) (2 ^ 63 - 1)) = Decimal.number number := by omega
  rw [categoryId, Decimal.atoi, Decimal.integer_append number rfl rfl (by decide) (by decide),
    Decimal.integer_of_digits nonempty digits,
    clamped, Int32.ofInt_eq_ofNat]

theorem lineEntry_line {number : Bytes} (first : 124 ∉ number) (nonempty : number ≠ [])
    (digits : ∀ byte ∈ number, Decimal.isDigit byte = true) (small : Decimal.number number < 2 ^ 31) (text : Bytes) :
    lineEntry (number ++ 124 :: text) = some (Int32.ofNat (Decimal.number number), text.rdropWhile isBlank) := by
  have before := List.takeWhile_ne_append_cons first text
  simp only [lineEntry, before]
  rw [if_pos ⟨List.mem_append_right _ List.mem_cons_self, nonempty, digits, small⟩, textAfter_line first]

theorem ofNat_nonneg {n : Nat} (small : n < 2 ^ 31) : 0 ≤ Int32.ofNat n := by
  rw [Int32.le_iff_toInt_le, Int32.toInt_ofNat_of_lt small]
  exact Int.natCast_nonneg n

/-- A line of the grammar is taken for the entry that it stands for. -/
theorem entered_of_lineEntry {line text : Bytes} {id : Int32} (formed : lineEntry line = some (id, text)) :
    Entered line ∧ categoryId (line.rdropWhile isBlank) = id ∧ textAfter line = text := by
  simp only [lineEntry] at formed
  split at formed
  case isFalse => cases formed
  case isTrue shape =>
    obtain ⟨bar, nonempty, digits, small⟩ := shape
    obtain ⟨number, rest, rfl, first⟩ := List.eq_append_cons_of_mem bar
    rw [List.takeWhile_ne_append_cons first] at nonempty digits small formed
    obtain ⟨rfl, rfl⟩ := Prod.mk.inj (Option.some.inj formed)
    have value := categoryId_line nonempty digits small (rest.rdropWhile isBlank)
    refine ⟨⟨?_, bar, ?_⟩, ?_, rfl⟩
    · obtain ⟨byte, more, rfl⟩ := List.exists_cons_of_ne_nil nonempty
      rintro comment
      have hash : byte = 35 := Option.some.inj comment
      have digit := digits byte List.mem_cons_self
      rw [hash] at digit
      cases digit
    · rw [rdropWhile_line, value]
      exact ofNat_nonneg small
    · rw [rdropWhile_line, value]

/-- When `loadCategory` does with a line what the grammar says: it takes no part of another line for an entry, and of a
line of the grammar that does not fit the buffer only parts with its number, of which the last has its text. -/
structure ReadAsMeant (line : Bytes) : Prop where
  other : lineEntry line = none → ∀ part ∈ Lines.parts 1021 line, ¬ Entered part
  long : ∀ id text, lineEntry line = some (id, text) → 1021 < line.length →
    (∀ part ∈ Lines.parts 1021 line, Entered part → categoryId (part.rdropWhile isBlank) = id) ∧
      ((Lines.parts 1021 line).filter Entered).getLast?.map textAfter = some text

theorem filterMap_categoryEntry {parts : List Bytes} (nonul : ∀ part ∈ parts, 0 ∉ part) :
    parts.filterMap categoryEntry =
      (parts.filter Entered).map fun part => (categoryId (part.rdropWhile isBlank), textAfter part) := by
  induction parts with
  | nil => rfl
  | cons part parts ih =>
    have tail := ih fun part member => nonul part (List.mem_cons_of_mem _ member)
    have head := categoryEntry_eq (nonul part List.mem_cons_self)
    by_cases taken : Entered part
    · rw [if_pos taken] at head
      rw [List.filterMap_cons_some head, List.filter_cons_of_pos (by simpa using taken), List.map_cons, tail]
    · rw [if_neg taken] at head
      rw [List.filterMap_cons_none head, List.filter_cons_of_neg (by simpa using taken), tail]

theorem entries_eq_map {content : Bytes} (nonul : 0 ∉ content) :
    entries content = ((Lines.parts 1021 content).filter Entered).map fun part =>
      (categoryId (part.rdropWhile isBlank), textAfter part) :=
  filterMap_categoryEntry fun _ member inside => nonul (Lines.mem_of_mem_parts (by decide) member inside)

theorem entries_eq_nil_iff {content : Bytes} (nonul : 0 ∉ content) :
    entries content = [] ↔ ∀ part ∈ Lines.parts 1021 content, ¬ Entered part := by
  rw [entries_eq_map nonul, List.map_eq_nil_iff, List.filter_eq_nil_iff]
  simp only [decide_eq_true_eq]

/-- A line does to every table what the grammar says exactly when it is read as meant. -/
theorem readAsMeant_iff {line : Bytes} (plain : 10 ∉ line) (nonul : 0 ∉ line) :
    (∀ category, entered category line = match lineEntry line with
      | some (id, text) => category.insert id text
      | none => category) ↔ ReadAsMeant line := by
  cases formed : lineEntry line with
  | none =>
    refine (ExtTreeMap.forall_foldl_insert_eq_self_iff (entries line)).trans ((entries_eq_nil_iff nonul).trans ?_)
    exact ⟨fun other => ⟨fun _ => other, fun id text some_ => by cases formed.symm.trans some_⟩,
      fun meant => meant.other formed⟩
  | some entry =>
    obtain ⟨id, text⟩ := entry
    obtain ⟨taken, number, named⟩ := entered_of_lineEntry formed
    refine (ExtTreeMap.forall_foldl_insert_eq_insert_iff (entries line) id text).trans ?_
    rw [entries_eq_map nonul, List.getLast?_map, Option.map_map]
    simp only [List.forall_mem_map, List.mem_filter, decide_eq_true_eq, and_imp]
    constructor
    · intro meant
      refine ⟨fun none_ => (by cases formed.symm.trans none_), fun id' text' some_ _ => ?_⟩
      obtain ⟨rfl, rfl⟩ := Prod.mk.inj (Option.some.inj (formed.symm.trans some_))
      exact meant
    · intro meant
      by_cases fits : line.length ≤ 1021
      · have nonempty : line ≠ [] := List.ne_nil_of_mem taken.2.1
        rw [Lines.parts_last plain nonempty fits, List.filter_cons_of_pos (by simpa using taken)]
        refine ⟨fun part member _ => ?_, congrArg some named⟩
        obtain rfl := List.mem_singleton.mp member
        exact number
      · exact meant.long id text formed (by omega)

section Grammar
variable {υ ι ν : Type}

/-- What the grammar says of a file: read into an empty table, it gives each id the text of the last line with that
number, and read by itself into any table, a line enters what it stands for, and nothing when it stands for nothing. -/
structure Model.ReadByGrammar (model : Model υ ι ν) (name : String) (disk : Files) (content : Bytes) : Prop where
  table : ∃ after, Completes (loadCategory { model with category := ∅ } name) disk (.ok (), after) disk ∧
    ∀ id, after.category[id]? = ((content.splitOn 10).filterMap lineEntry).reverse.lookup id
  lines : ∀ line ∈ content.splitOn 10, ∀ (category : ExtTreeMap Int32 Bytes) (disk' : Files),
    disk' (.plain name) = some (.synced [line]) →
      Completes (loadCategory { model with category } name) disk'
        (.ok (), { model with category := match lineEntry line with
          | some (id, text) => category.insert id text
          | none => category }) disk'

theorem foldl_entered (lines : List Bytes) (category : ExtTreeMap Int32 Bytes) :
    (lines.flatMap entries).foldl (fun category entry => category.insert entry.1 entry.2) category =
      lines.foldl entered category := by
  induction lines generalizing category with
  | nil => rfl
  | cons line lines ih => rw [List.flatMap_cons, List.foldl_append, ih, List.foldl_cons, entered]

theorem entered_eq_foldl (category : ExtTreeMap Int32 Bytes) (content : Bytes) :
    entered category content = (content.splitOn 10).foldl entered category := by
  rw [entered, entries_eq_flatMap, foldl_entered]

/-- The file is read by the grammar exactly when each of its lines is read as meant. -/
theorem Model.loadCategory_grammar_iff (model : Model υ ι ν) {name : String} {disk : Files} {file : File Bytes}
    (present : disk (.plain name) = some file) (nonul : 0 ∉ file.content.flatten) :
    model.ReadByGrammar name disk file.content.flatten ↔ ∀ line ∈ file.content.flatten.splitOn 10, ReadAsMeant line := by
  have clean : ∀ line ∈ file.content.flatten.splitOn 10, 10 ∉ line ∧ 0 ∉ line := fun line member =>
    ⟨Lines.plain_of_mem_splitOn member, fun inside => nonul (Lines.mem_of_mem_splitOn member inside)⟩
  constructor
  · intro held line member
    refine (readAsMeant_iff (clean line member).1 (clean line member).2).mp fun category => ?_
    let alone : Files := fun _ => some (.synced [line])
    have onDisk : alone (.plain name) = some (.synced [line]) := rfl
    have loaded := loadCategory_completes { model with category } onDisk
    have same := (loaded.unique (held.lines line member category alone onDisk)).1
    have tables := congrArg Model.category (Prod.mk.inj same).2
    rwa [File.content_synced, List.flatten_singleton] at tables
  · intro meant
    have each (line : Bytes) (member : line ∈ file.content.flatten.splitOn 10) :=
      (readAsMeant_iff (clean line member).1 (clean line member).2).mpr (meant line member)
    refine ⟨⟨_, loadCategory_completes _ present, fun id => ?_⟩, fun line member category disk' single => ?_⟩
    · have stepwise : entered ∅ file.content.flatten =
          ((file.content.flatten.splitOn 10).filterMap lineEntry).foldl
            (fun category entry => category.insert entry.1 entry.2) ∅ := by
        rw [entered_eq_foldl, List.foldl_filterMap]
        refine List.foldl_ext _ _ _ fun category line member => ?_
        rw [each line member category]
        cases lineEntry line <;> rfl
      rw [stepwise, ExtTreeMap.getElem?_foldl_insert, ExtTreeMap.getElem?_empty, Option.or_none]
    · rw [← each line member category]
      have loaded := loadCategory_completes { model with category } single
      rwa [File.content_synced, List.flatten_singleton] at loaded

/-- A model without anything in it. -/
def emptyModel : Model Unit Unit Unit where
  categoryTableName := "category.dat"
  category := ∅
  isCategoryModified := false
  userDb := ()
  itemDb := ()
  newsTrends := DistTable.new "." "news-trends" "news-trends.dat" 48 ()
  userInterests := UserInterests.new { workPath := "." } 0

/-- The files of a directory with a category table of this content. -/
def categoryFile (content : Bytes) : Files := fun name =>
  if name = .plain "category.dat" then some (.synced [content]) else none

/-- The table `5|x`. -/
theorem Model.loadCategory_grammar_one :
    emptyModel.ReadByGrammar "category.dat" (categoryFile [53, 124, 120, 10]) [53, 124, 120, 10] := by
  have present : categoryFile [53, 124, 120, 10] (.plain "category.dat") = some (.synced [[53, 124, 120, 10]]) := rfl
  refine (loadCategory_grammar_iff emptyModel present (by decide)).mpr fun line member => ?_
  have lines : ([53, 124, 120, 10] : Bytes).splitOn 10 = [[53, 124, 120], []] := by decide
  change line ∈ ([53, 124, 120, 10] : Bytes).splitOn 10 at member
  rw [lines] at member
  rcases List.mem_cons.mp member with rfl | member
  · exact ⟨fun none_ => absurd none_ (by decide +kernel), fun _ _ _ long => absurd long (by simp)⟩
  · obtain rfl := List.mem_singleton.mp member
    exact ⟨fun _ part inside => (by simp at inside), fun _ _ _ long => absurd long (by simp)⟩

/-- The line `abc|x` is read as a category with the number 0. -/
theorem Model.letters_are_category_zero :
    (([97, 98, 99, 124, 120, 10].splitOn 10).filterMap lineEntry).reverse.lookup 0 = none ∧
    ∃ after, Completes (loadCategory { emptyModel with category := ∅ } "category.dat")
        (categoryFile [97, 98, 99, 124, 120, 10]) (.ok (), after) (categoryFile [97, 98, 99, 124, 120, 10]) ∧
      after.category[(0 : Int32)]? = some [120] := by
  have present : categoryFile [97, 98, 99, 124, 120, 10] (.plain "category.dat") =
      some (.synced [[97, 98, 99, 124, 120, 10]]) := rfl
  have plain : (10 : UInt8) ∉ ([97, 98, 99, 124, 120] : Bytes) := by decide
  have taken : entries [97, 98, 99, 124, 120, 10] = [(0, [120])] :=
    (entries_short plain (by decide)).trans (by decide)
  refine ⟨by decide, _, loadCategory_completes _ present, ?_⟩
  have found := getElem?_entered ∅ [97, 98, 99, 124, 120, 10] 0
  rw [taken] at found
  exact found

end Grammar

end ContentBased
