import ContentBased.Library.Wire

namespace ContentBased
open Wire

structure CategoryClick where
  userId : UInt64
  categoryId : Int32
  publishTime : Int32
deriving DecidableEq, Repr

structure CategoryItem where
  itemId : UInt64
  categoryId : Int32
  publishTime : Int32
deriving DecidableEq, Repr

/-- The fields 1, 2 and 3 that a `CategoryClick` and a `CategoryItem` both consist of. -/
structure MessageFields where
  id : UInt64
  categoryId : Int32
  publishTime : Int32
deriving DecidableEq, Repr

namespace MessageFields

/-- `SerializeWithCachedSizes`: a field that is zero is left out. -/
def serialize (fields : MessageFields) : Bytes :=
  (if fields.id = 0 then [] else 8 :: writeVarint fields.id) ++
    ((if fields.categoryId = 0 then [] else 16 :: writeInt32 fields.categoryId) ++
      (if fields.publishTime = 0 then [] else 24 :: writeInt32 fields.publishTime))

/-- `MergePartialFromCodedStream` on all of the bytes. -/
def merge : Nat → MessageFields → Bytes → Option MessageFields
  | _, fields, [] => some fields
  | 0, _, _ :: _ => none
  | turns + 1, fields, byte :: bytes =>
    match readTag (byte :: bytes) with
    | none => none
    | some (tag, rest) =>
      if tag = 8 then
        match readVarint rest with
        | some (id, rest) => merge turns { fields with id } rest
        | none => none
      else if tag = 16 then
        match readInt32 rest with
        | some (categoryId, rest) => merge turns { fields with categoryId } rest
        | none => none
      else if tag = 24 then
        match readInt32 rest with
        | some (publishTime, rest) => merge turns { fields with publishTime } rest
        | none => none
      else if tag % 8 = 4 then none
      else
        match skipField tag rest with
        | some rest => merge turns fields rest
        | none => none

def parse (bytes : Bytes) : Option MessageFields := merge bytes.length ⟨0, 0, 0⟩ bytes

/-- The bytes turn the first fields into the second. -/
def Merges (fields : MessageFields) (bytes : Bytes) (result : MessageFields) : Prop :=
  ∀ turns, bytes.length ≤ turns → merge turns fields bytes = some result

theorem Merges.done (fields : MessageFields) : Merges fields [] fields := by
  intro turns _
  cases turns <;> rfl

theorem Merges.step {fields next result : MessageFields} {byte : UInt8} {value rest : Bytes}
    (read : ∀ turns, merge (turns + 1) fields (byte :: (value ++ rest)) = merge turns next rest)
    (later : Merges next rest result) : Merges fields (byte :: (value ++ rest)) result := by
  intro turns enough
  rw [List.length_cons, List.length_append] at enough
  obtain ⟨turns, rfl⟩ : ∃ k, turns = k + 1 := ⟨turns - 1, by omega⟩
  rw [read]
  exact later turns (by omega)

/-- A field may be left out when it already has the value zero. -/
theorem Merges.optional {fields next result : MessageFields} {zero : Prop} [Decidable zero] {byte : UInt8}
    {value rest : Bytes} (skip : zero → next = fields)
    (read : ∀ turns, merge (turns + 1) fields (byte :: (value ++ rest)) = merge turns next rest)
    (later : Merges next rest result) :
    Merges fields ((if zero then [] else byte :: value) ++ rest) result := by
  by_cases absent : zero
  · rw [if_pos absent, List.nil_append, ← skip absent]
    exact later
  · rw [if_neg absent, List.cons_append]
    exact .step read later

theorem merge_id (turns : Nat) (fields : MessageFields) (id : UInt64) (rest : Bytes) :
    merge (turns + 1) fields (8 :: (writeVarint id ++ rest)) = merge turns { fields with id } rest := by
  simp [merge, readTag_cons, readVarint_writeVarint]

theorem merge_categoryId (turns : Nat) (fields : MessageFields) (categoryId : Int32) (rest : Bytes) :
    merge (turns + 1) fields (16 :: (writeInt32 categoryId ++ rest)) = merge turns { fields with categoryId } rest := by
  simp [merge, readTag_cons, readInt32_writeInt32]

theorem merge_publishTime (turns : Nat) (fields : MessageFields) (publishTime : Int32) (rest : Bytes) :
    merge (turns + 1) fields (24 :: (writeInt32 publishTime ++ rest)) = merge turns { fields with publishTime } rest := by
  simp [merge, readTag_cons, readInt32_writeInt32]

/-- Parsing undoes serializing. -/
theorem parse_serialize (fields : MessageFields) : parse fields.serialize = some fields := by
  obtain ⟨id, categoryId, publishTime⟩ := fields
  have last : Merges ⟨id, categoryId, 0⟩
      ((if publishTime = 0 then [] else 24 :: writeInt32 publishTime) ++ []) ⟨id, categoryId, publishTime⟩ :=
    .optional (fun zero => by rw [zero]) (fun turns => merge_publishTime turns _ _ _) (.done _)
  rw [List.append_nil] at last
  have middle : Merges ⟨id, 0, 0⟩ ((if categoryId = 0 then [] else 16 :: writeInt32 categoryId) ++
      (if publishTime = 0 then [] else 24 :: writeInt32 publishTime)) ⟨id, categoryId, publishTime⟩ :=
    .optional (fun zero => by rw [zero]) (fun turns => merge_categoryId turns _ _ _) last
  have first : Merges ⟨0, 0, 0⟩ (serialize ⟨id, categoryId, publishTime⟩) ⟨id, categoryId, publishTime⟩ :=
    .optional (fun zero => by rw [zero]) (fun turns => merge_id turns _ _ _) middle
  exact first _ le_rfl

end MessageFields

namespace CategoryClick

def appendToString (click : CategoryClick) (output : Bytes) : Option Bytes :=
  some (output ++ MessageFields.serialize ⟨click.userId, click.categoryId, click.publishTime⟩)

def parseFromArray (bytes : Bytes) : Option CategoryClick :=
  (MessageFields.parse bytes).map fun fields => ⟨fields.id, fields.categoryId, fields.publishTime⟩

end CategoryClick

namespace CategoryItem

def appendToString (item : CategoryItem) (output : Bytes) : Option Bytes :=
  some (output ++ MessageFields.serialize ⟨item.itemId, item.categoryId, item.publishTime⟩)

def parseFromArray (bytes : Bytes) : Option CategoryItem :=
  (MessageFields.parse bytes).map fun fields => ⟨fields.id, fields.categoryId, fields.publishTime⟩

end CategoryItem

theorem CategoryClick.parse_append (click : CategoryClick) (output : Bytes) :
    ∃ body, click.appendToString output = some (output ++ body) ∧ parseFromArray body = some click :=
  ⟨_, rfl, by simp only [parseFromArray, MessageFields.parse_serialize, Option.map_some]⟩

theorem CategoryItem.parse_append (item : CategoryItem) (output : Bytes) :
    ∃ body, item.appendToString output = some (output ++ body) ∧ parseFromArray body = some item :=
  ⟨_, rfl, by simp only [parseFromArray, MessageFields.parse_serialize, Option.map_some]⟩

structure ItemTag where
  tagId : Int32
  tagPower : ℚ
deriving DecidableEq, Repr

/-- How the message `ItemTag` of another file is written and read. -/
structure ItemTagFormat where
  serialize : ItemTag → Bytes
  parse : Bytes → Option ItemTag

/-- Reading undoes writing the tag, and the message is of a length that an `int` holds. -/
structure ItemTagFormat.Exact (format : ItemTagFormat) (tag : ItemTag) : Prop where
  parse_serialize : format.parse (format.serialize tag) = some tag
  length : (format.serialize tag).length < 2 ^ 31

structure CategoryDistribution where
  userId : UInt64
  distribution : List ItemTag
deriving DecidableEq, Repr

namespace CategoryDistribution
variable (format : ItemTagFormat)

def writeTag (tag : ItemTag) : Bytes :=
  18 :: (writeVarint (UInt64.ofNat (format.serialize tag).length) ++ format.serialize tag)

def serializeAsString (dist : CategoryDistribution) : Bytes :=
  (if dist.userId = 0 then [] else 8 :: writeVarint dist.userId) ++ dist.distribution.flatMap (writeTag format)

/-- `MergePartialFromCodedStream` on all of the bytes; a length is read by its low 32 bits. -/
def merge : Nat → CategoryDistribution → Bytes → Option CategoryDistribution
  | _, dist, [] => some dist
  | 0, _, _ :: _ => none
  | turns + 1, dist, byte :: bytes =>
    match readTag (byte :: bytes) with
    | none => none
    | some (tag, rest) =>
      if tag = 8 then
        match readVarint rest with
        | some (userId, rest) => merge turns { dist with userId } rest
        | none => none
      else if tag = 18 then
        match readVarint rest with
        | some (length, rest) =>
          if rest.length < length.toNat % 2 ^ 32 then none
          else
            match format.parse (rest.take (length.toNat % 2 ^ 32)) with
            | some tag =>
              merge turns { dist with distribution := dist.distribution ++ [tag] } (rest.drop (length.toNat % 2 ^ 32))
            | none => none
        | none => none
      else if tag % 8 = 4 then none
      else
        match skipField tag rest with
        | some rest => merge turns dist rest
        | none => none

def parseFromString (bytes : Bytes) : Option CategoryDistribution := merge format bytes.length ⟨0, []⟩ bytes

variable {format}

theorem merge_userId (turns : Nat) (dist : CategoryDistribution) (userId : UInt64) (rest : Bytes) :
    merge format (turns + 1) dist (8 :: (writeVarint userId ++ rest)) = merge format turns { dist with userId } rest := by
  simp [merge, readTag_cons, readVarint_writeVarint]

theorem merge_tag {tag : ItemTag} (exact : format.Exact tag) (turns : Nat) (dist : CategoryDistribution) (rest : Bytes) :
    merge format (turns + 1) dist (writeTag format tag ++ rest) =
      merge format turns { dist with distribution := dist.distribution ++ [tag] } rest := by
  have short := exact.length
  have length : (format.serialize tag).length % 4294967296 = (format.serialize tag).length :=
    Nat.mod_eq_of_lt (by omega)
  rw [writeTag, List.cons_append, List.append_assoc, merge, readTag_cons (by decide) (by decide)]
  simp [readVarint_writeVarint, length, exact.parse_serialize]

/-- Reading takes up the tags one after another. -/
theorem merge_tags {tags : List ItemTag} (exact : ∀ tag ∈ tags, format.Exact tag) (dist : CategoryDistribution) (turns : Nat)
    (enough : (tags.flatMap (writeTag format)).length ≤ turns) :
    merge format turns dist (tags.flatMap (writeTag format)) =
      some { dist with distribution := dist.distribution ++ tags } := by
  induction tags generalizing dist turns with
  | nil =>
    rw [List.append_nil]
    cases turns <;> rfl
  | cons tag tags ih =>
    rw [List.flatMap_cons, List.length_append, writeTag, List.length_cons] at enough
    obtain ⟨turns, rfl⟩ : ∃ k, turns = k + 1 := ⟨turns - 1, by omega⟩
    rw [List.flatMap_cons, merge_tag (exact tag List.mem_cons_self),
      ih (fun tag member => exact tag (List.mem_cons_of_mem _ member)) _ _ (by omega), List.append_assoc,
      List.singleton_append]

theorem parse_serialize {dist : CategoryDistribution} (exact : ∀ tag ∈ dist.distribution, format.Exact tag) :
    parseFromString format (dist.serializeAsString format) = some dist := by
  obtain ⟨userId, tags⟩ := dist
  by_cases zero : userId = 0
  · subst zero
    rw [parseFromString, serializeAsString, if_pos rfl, List.nil_append]
    exact merge_tags exact ⟨0, []⟩ _ le_rfl
  · rw [parseFromString, serializeAsString, if_neg zero, List.cons_append, List.length_cons, merge_userId]
    refine merge_tags exact ⟨userId, []⟩ _ ?_
    rw [List.length_append]
    exact Nat.le_add_left _ _

/-- Only the empty message is written as nothing. -/
theorem serializeAsString_eq_nil {dist : CategoryDistribution} :
    dist.serializeAsString format = [] ↔ dist = ⟨0, []⟩ := by
  obtain ⟨userId, tags⟩ := dist
  rw [serializeAsString, List.append_eq_nil_iff]
  cases tags with
  | nil => by_cases zero : userId = 0 <;> simp [zero]
  | cons tag tags => simp [writeTag]

end CategoryDistribution

end ContentBased
