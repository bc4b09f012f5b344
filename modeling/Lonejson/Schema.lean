import Lonejson.Bytes

/-!
# Maps, fields and parse options

The tables a caller writes down to describe a destination record. Maps refer to
one another by pointer and may be recursive through object arrays, so a map is
named by a `MapId` and the pointers are resolved in a table of maps.
-/

namespace Lonejson

/-- `SIZE_MAX`. -/
def sizeMax : ℕ := 2 ^ 64 - 1

/-- `lonejson_field_kind`. -/
inductive FieldKind where
  | string
  | stringStream
  | base64Stream
  | stringSource
  | base64Source
  | jsonValue
  | i64
  | u64
  | f64
  | bool
  | object
  | stringArray
  | i64Array
  | u64Array
  | f64Array
  | boolArray
  | objectArray
  | stringArrayStream
  | mappedArrayStream
  deriving DecidableEq, Repr

/-- `lonejson_storage_kind`. -/
inductive StorageKind where
  | dynamic
  | fixed
  deriving DecidableEq, Repr

/-- `lonejson_overflow_policy`. -/
inductive OverflowPolicy where
  | fail
  | truncate
  | truncateSilent
  deriving DecidableEq, Repr

/-- A pointer to a map. -/
abbrev MapId := ℕ

/-- The bits of `lonejson_field.flags`. -/
structure FieldFlags where
  required : Bool := false
  omitNull : Bool := false
  omitEmpty : Bool := false
  hasPresence : Bool := false
  acceptNull : Bool := false
  jsonValueDefaultCapture : Bool := false
  deriving DecidableEq, Repr

/-- `lonejson__spool_options`. -/
structure SpoolOptions where
  memoryLimit : ℕ
  maxBytes : ℕ
  tempDir : Option Bytes := none
  deriving DecidableEq, Repr

/-- `lonejson_field`. The offsets into the C struct are replaced by the position
of the field in its map, and the spool policy (`reserved_policy` or the class of
the runtime) by the options it resolves to. -/
structure Field where
  jsonKey : Bytes
  kind : FieldKind
  storage : StorageKind := .dynamic
  overflowPolicy : OverflowPolicy := .fail
  flags : FieldFlags := {}
  fixedCapacity : ℕ := 0
  elemSize : ℕ := 0
  submap : Option MapId := none
  spoolOptions : SpoolOptions := ⟨0, 0, none⟩
  deriving DecidableEq, Repr

/-- `lonejson_map`. -/
structure MapDef where
  fields : List Field
  deriving DecidableEq, Repr

def MapDef.fieldCount (map : MapDef) : ℕ := map.fields.length

/-- `lonejson__field_is_streamed`. -/
def fieldIsStreamed (field : Field) : Bool :=
  field.kind == .stringStream || field.kind == .base64Stream ||
    field.kind == .stringArrayStream

/-- The two kinds that only accept an array. -/
def fieldIsArrayStream (field : Field) : Bool :=
  field.kind == .stringArrayStream || field.kind == .mappedArrayStream

/-- `lonejson__parse_options`; the caller's staging buffer for fixed strings is
represented by its size. -/
structure ParseOptions where
  clearDestination : Bool := true
  rejectDuplicateKeys : Bool := true
  maxDepth : ℕ := 64
  maxDynamicStringBytes : ℕ := 0
  maxAllocBytes : ℕ := 0
  fixedStringScratchSize : Option ℕ := none
  deriving DecidableEq, Repr

/-- `lonejson__value_limits`. -/
structure ValueLimits where
  maxDepth : ℕ
  maxStringBytes : ℕ
  maxNumberBytes : ℕ
  maxKeyBytes : ℕ
  maxTotalBytes : ℕ
  deriving DecidableEq, Repr

/-- A pointer to a field: the map it belongs to and its index there. -/
structure FieldRef where
  map : MapId
  idx : ℕ
  deriving DecidableEq, Repr

/-- The table of maps that the pointers of a schema resolve in. -/
abbrev MapTable := MapId → MapDef

/-- The field a pointer designates. -/
def MapTable.field? (maps : MapTable) (ref : FieldRef) : Option Field :=
  (maps ref.map).fields[ref.idx]?

/-! ## Required fields -/

/-- `lonejson__popcount_u64`. -/
def popcountU64 (value : UInt64) : UInt64 :=
  let allBits : UInt64 := ~~~0
  let ones := allBits / 3
  let twos := allBits / 5
  let fours := allBits / 17
  let bytes := allBits / 255
  let value := value - ((value >>> 1) &&& ones)
  let value := (value &&& twos) + ((value >>> 2) &&& twos)
  let value := (value + (value >>> 4)) &&& fours
  (value * bytes) >>> 56

/-- `lonejson__required_count_for_large_map`. -/
def requiredCountForLargeMap (map : MapDef) : ℕ :=
  map.fields.countP (·.flags.required)

/-- The loop of `lonejson__required_mask_for_map` from field `i` on. The cache of
the parser returns the mask of the same map, so it is left out. -/
def requiredMaskFrom : ℕ → List Field → UInt64 → UInt64
  | _, [], mask => mask
  | i, field :: rest, mask =>
    requiredMaskFrom (i + 1) rest
      (if field.flags.required then mask ||| ((1 : UInt64) <<< i.toUInt64) else mask)

/-- `lonejson__required_mask_for_map`. -/
def requiredMaskForMap (map : MapDef) : UInt64 :=
  if map.fieldCount > 64 then 0 else requiredMaskFrom 0 map.fields 0

/-- `lonejson__required_count_for_map`. -/
def requiredCountForMap (maps : MapTable) : Option MapId → ℕ
  | none => 0
  | some id =>
    let map := maps id
    if map.fieldCount ≤ 64 then (popcountU64 (requiredMaskForMap map)).toNat
    else requiredCountForLargeMap map

/-! ## Key lookup -/

/-- `lonejson__field_key_matches`: length, first and last byte, then the bytes
between them. -/
def fieldKeyMatches (field : Field) (key : Bytes) : Bool :=
  if field.jsonKey.length ≠ key.length then false
  else if key.length = 0 then true
  else if field.jsonKey.head? ≠ key.head? ∨ field.jsonKey.getLast? ≠ key.getLast? then false
  else if key.length ≤ 2 then true
  else (field.jsonKey.drop 1).take (key.length - 2) == (key.drop 1).take (key.length - 2)

/-- The linear search of `lonejson__find_field` from index `i` on. -/
def findFieldFrom (key : Bytes) : ℕ → List Field → Option ℕ
  | _, [] => none
  | i, field :: rest =>
    if fieldKeyMatches field key then some i else findFieldFrom key (i + 1) rest

/-- `lonejson__find_field`: the index found and the next hint of the frame. -/
def findField (map : MapDef) (hint : ℕ) (key : Bytes) : Option (ℕ × ℕ) :=
  match (if key.length ≠ 0 then map.fields[hint]? else none) with
  | some field =>
    if fieldKeyMatches field key then some (hint, hint + 1)
    else (findFieldFrom key 0 map.fields).map fun i => (i, i + 1)
  | none => (findFieldFrom key 0 map.fields).map fun i => (i, i + 1)

/-- Texts of one length that agree at both ends and in between are equal. -/
theorem eq_of_ends {text key : Bytes} (hlen : text.length = key.length)
    (hhead : text.head? = key.head?) (hlast : text.getLast? = key.getLast?)
    (hmid : (text.drop 1).take (key.length - 2) = (key.drop 1).take (key.length - 2)) :
    text = key := by
  refine List.ext_getElem? fun i => ?_
  by_cases hfirst : i = 0
  · simpa [hfirst, List.head?_eq_getElem?] using hhead
  by_cases hend : i = key.length - 1
  · rw [List.getLast?_eq_getElem?, List.getLast?_eq_getElem?, hlen, ← hend] at hlast
    exact hlast
  by_cases hout : key.length ≤ i
  · rw [List.getElem?_eq_none (by omega), List.getElem?_eq_none (by omega)]
  have h := congrArg (fun l : Bytes => l[i - 1]?) hmid
  have hshift : i - 1 + 1 = i := by omega
  simpa [List.getElem?_take, List.getElem?_drop, hshift, show i - 1 < key.length - 2 by omega]
    using h

/-- The quick comparison compares the keys. -/
theorem fieldKeyMatches_iff (field : Field) (key : Bytes) :
    fieldKeyMatches field key = true ↔ field.jsonKey = key := by
  unfold fieldKeyMatches
  constructor
  · intro h
    split_ifs at h with hlen hzero hends hshort
    · rw [List.eq_nil_of_length_eq_zero hzero] at hlen ⊢
      exact List.eq_nil_of_length_eq_zero (by simpa using hlen)
    · obtain ⟨hhead, hlast⟩ : field.jsonKey.head? = key.head? ∧
          field.jsonKey.getLast? = key.getLast? := by
        simpa [not_or] using hends
      refine eq_of_ends (by simpa using hlen) hhead hlast ?_
      rw [show key.length - 2 = 0 by omega, List.take_zero, List.take_zero]
    · obtain ⟨hhead, hlast⟩ : field.jsonKey.head? = key.head? ∧
          field.jsonKey.getLast? = key.getLast? := by
        simpa [not_or] using hends
      exact eq_of_ends (by simpa using hlen) hhead hlast (by simpa using h)
  · rintro rfl
    split_ifs <;> simp_all

/-- A key that no field carries is not found. -/
theorem findField_eq_none {map : MapDef} {key : Bytes}
    (h : ∀ field ∈ map.fields, field.jsonKey ≠ key) (hint : ℕ) : findField map hint key = none := by
  have hno (field : Field) (hfield : field ∈ map.fields) : fieldKeyMatches field key = false := by
    rw [← Bool.not_eq_true, fieldKeyMatches_iff]
    exact h field hfield
  have hfrom (i : ℕ) (fields : List Field) (hsub : ∀ field ∈ fields, field ∈ map.fields) :
      findFieldFrom key i fields = none := by
    induction fields generalizing i with
    | nil => rfl
    | cons field rest ih =>
        rw [findFieldFrom, if_neg (by simp [hno field (hsub field (by simp))])]
        exact ih (i + 1) fun g hg => hsub g (by simp [hg])
  unfold findField
  split
  · next field hfield =>
    have hmem : field ∈ map.fields := by
      split at hfield
      · exact List.mem_of_getElem? hfield
      · cases hfield
    simp [hno field hmem, hfrom 0 map.fields fun _ hg => hg]
  · simp [hfrom 0 map.fields fun _ hg => hg]

end Lonejson
