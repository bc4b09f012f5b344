import Lonejson.Schema

/-!
# Destination records

The structs a parse writes into. A record is the list of its mapped members, each
with its presence flag; a member owns its heap blocks, and every block carries the
header the allocator puts in front of it, so the blocks of a record are found by
walking the record. The pointers into a record that the parser keeps are paths.
-/

namespace Lonejson

/-- `lonejson__alloc_header`: the size of the block, and the parser whose budget it
is charged to with the bytes charged. -/
structure AllocHeader where
  size : ℕ
  budgetTag : Option ℕ := none
  budgetBytes : ℕ := 0
  deriving DecidableEq, Repr

/-- A block owned through `lonejson__owned_malloc`, with the bytes written to it. -/
structure Owned where
  header : AllocHeader
  data : Bytes
  deriving DecidableEq, Repr

/-- The members that all array handles share. `block` is the header of `items`
when they are on the heap; a fixed array has the caller's storage there. -/
structure ArrayInfo where
  capacity : ℕ := 0
  elemSize : ℕ := 0
  ownsItems : Bool := false
  fixedCapacity : Bool := false
  block : Option AllocHeader := none
  deriving DecidableEq, Repr

/-- `lonejson_spooled`. The temporary file is the list `spill`. -/
structure Spooled where
  initialized : Bool := false
  memory : Option Owned := none
  spill : Bytes := []
  size : ℕ := 0
  memoryLimit : ℕ := 0
  maxBytes : ℕ := 0
  readOffset : ℕ := 0
  spilled : Bool := false
  ownedTempDir : Option Owned := none
  deriving DecidableEq, Repr

/-- `lonejson_source_kind`. -/
inductive SourceKind where
  | none
  | file
  | fd
  | path
  deriving DecidableEq, Repr

/-- `lonejson_source`, as far as a parse touches it. -/
structure Source where
  kind : SourceKind := .none
  path : Option Owned := none
  deriving DecidableEq, Repr

/-- `lonejson_json_value_kind`. -/
inductive JsonValueKind where
  | null
  | buffer
  | reader
  | file
  | fd
  | path
  deriving DecidableEq, Repr

/-- The parse mode of a `lonejson_json_value`. The two visitor modes record
whether a visitor is installed. -/
inductive JsonParseMode where
  | none
  | capture
  | sink
  | visitor (installed : Bool)
  | pathVisitor (installed : Bool)
  deriving DecidableEq, Repr

/-- `lonejson_json_value`. -/
structure JsonValue where
  initialized : Bool := false
  kind : JsonValueKind := .null
  json : Option Owned := none
  path : Option Owned := none
  parseMode : JsonParseMode := .none
  limits : ValueLimits := ⟨0, 0, 0, 0, 0⟩
  runtimeLimits : ValueLimits := ⟨0, 0, 0, 0, 0⟩
  limitsFollowRuntime : Bool := false
  deriving DecidableEq, Repr

/-- `lonejson_string_array_stream`. -/
structure StringArrayStream where
  initialized : Bool := false
  hasChunk : Bool := false
  active : Bool := false
  deriving DecidableEq, Repr

/-- `lonejson_mapped_array_stream`; `itemMap` is the handler's map. -/
structure MappedArrayStream where
  initialized : Bool := false
  itemMap : Option MapId := none
  hasItem : Bool := false
  active : Bool := false
  deriving DecidableEq, Repr

/-- What a mapped member holds. A `double` is kept as its bits and a fixed string
as its whole buffer. -/
inductive Value where
  | string (ptr : Option Owned)
  | fixedString (buffer : Bytes)
  | spooled (value : Spooled)
  | source (value : Source)
  | jsonValue (value : JsonValue)
  | i64 (value : ℤ)
  | u64 (value : ℕ)
  | f64 (bits : UInt64)
  | bool (value : Bool)
  | object (members : List (Value × Bool))
  | stringArray (items : List (Option Owned)) (info : ArrayInfo)
  | i64Array (items : List ℤ) (info : ArrayInfo)
  | u64Array (items : List ℕ) (info : ArrayInfo)
  | f64Array (items : List UInt64) (info : ArrayInfo)
  | boolArray (items : List Bool) (info : ArrayInfo)
  | objectArray (items : List (List (Value × Bool))) (info : ArrayInfo)
  | stringArrayStream (value : StringArrayStream)
  | mappedArrayStream (value : MappedArrayStream) (itemDst : Option (List (Value × Bool)))

/-- A mapped struct: every member with its presence flag. -/
abbrev Record := List (Value × Bool)

/-! ## Paths -/

/-- The record inside a member: the struct itself, an array slot, or the item
destination of a mapped array stream. -/
inductive Inner where
  | embedded
  | elem (k : ℕ)
  | item
  deriving DecidableEq, Repr

/-- An `object_ptr`: from the root, the member and the record inside it. -/
abbrev ObjPath := List (ℕ × Inner)

/-- A pointer to a member, `lonejson__field_ptr(object_ptr, field)`. -/
structure SlotPtr where
  obj : ObjPath
  idx : ℕ
  deriving DecidableEq, Repr

def Value.child? : Value → Inner → Option Record
  | .object r, .embedded => some r
  | .objectArray items _, .elem k => items[k]?
  | .mappedArrayStream _ (some r), .item => some r
  | _, _ => none

def Value.setChild : Value → Inner → Record → Value
  | .object _, .embedded, r => .object r
  | .objectArray items info, .elem k, r => .objectArray (items.set k r) info
  | .mappedArrayStream s _, .item, r => .mappedArrayStream s (some r)
  | v, _, _ => v

def Record.at? : Record → ObjPath → Option Record
  | r, [] => some r
  | r, (i, inner) :: path =>
    match r[i]? with
    | none => none
    | some (v, _) =>
      match v.child? inner with
      | none => none
      | some r' => Record.at? r' path

def Record.modifyAt (f : Record → Record) : ObjPath → Record → Record
  | [], r => f r
  | (i, inner) :: path, r =>
    match r[i]? with
    | none => r
    | some (v, present) =>
      match v.child? inner with
      | none => r
      | some r' => r.set i (v.setChild inner (Record.modifyAt f path r'), present)

def Record.value? (r : Record) (ptr : SlotPtr) : Option Value :=
  (r.at? ptr.obj).bind fun o => o[ptr.idx]?.map Prod.fst

/-- Change one member in place, leaving its presence flag. -/
def Record.modifyValue (r : Record) (ptr : SlotPtr) (f : Value → Value) : Record :=
  r.modifyAt (fun o => o.modify ptr.idx fun m => (f m.1, m.2)) ptr.obj

def Record.setPresence (r : Record) (ptr : SlotPtr) (present : Bool) : Record :=
  r.modifyAt (fun o => o.modify ptr.idx fun m => (m.1, present)) ptr.obj

theorem Value.child?_setChild {v : Value} {inner : Inner} {r : Record}
    (h : v.child? inner = some r) (r' : Record) : (v.setChild inner r').child? inner = some r' := by
  unfold Value.child? at h
  split at h
  · rfl
  · obtain ⟨hk, -⟩ := List.getElem?_eq_some_iff.mp h
    exact List.getElem?_set_self hk
  · rfl
  · cases h

theorem Record.at?_modifyAt (f : Record → Record) (path : ObjPath) (r : Record) :
    (Record.modifyAt f path r).at? path = (r.at? path).map f := by
  induction path generalizing r with
  | nil => rfl
  | cons step path ih =>
      obtain ⟨i, inner⟩ := step
      cases hmember : r[i]? with
      | none => simp [Record.modifyAt, Record.at?, hmember]
      | some m =>
          obtain ⟨v, present⟩ := m
          cases hchild : v.child? inner with
          | none => simp [Record.modifyAt, Record.at?, hmember, hchild]
          | some r' =>
              have hi : i < r.length := (List.getElem?_eq_some_iff.mp hmember).1
              simp only [Record.modifyAt, Record.at?, hmember, hchild]
              rw [List.getElem?_set_self hi]
              simp only [Value.child?_setChild hchild, ih]

/-- A member that is changed in place. -/
theorem Record.value?_modifyValue (r : Record) (ptr : SlotPtr) (f : Value → Value) :
    (r.modifyValue ptr f).value? ptr = (r.value? ptr).map f := by
  rw [Record.value?, Record.modifyValue, Record.at?_modifyAt, Record.value?]
  cases r.at? ptr.obj with
  | none => rfl
  | some o =>
      simp only [Option.map_some, Option.bind_some, List.getElem?_modify_eq, Option.map_map]
      cases o[ptr.idx]? <;> rfl

/-! ## Owned blocks -/

def ownedHeaders (p : Option Owned) : List AllocHeader := (p.map Owned.header).toList

/-- The header of `items`, when the handle owns them. -/
def ArrayInfo.headers (info : ArrayInfo) : List AllocHeader :=
  if info.ownsItems then info.block.toList else []

mutual

/-- The blocks a member owns, in the order the cleanup routines free them. -/
def Value.headers : Value → List AllocHeader
  | .string ptr => ownedHeaders ptr
  | .spooled s => ownedHeaders s.memory ++ ownedHeaders s.ownedTempDir
  | .source s => ownedHeaders s.path
  | .jsonValue v => ownedHeaders v.json ++ ownedHeaders v.path
  | .object r => membersHeaders r
  | .stringArray items info => items.flatMap ownedHeaders ++ info.headers
  | .i64Array _ info => info.headers
  | .u64Array _ info => info.headers
  | .f64Array _ info => info.headers
  | .boolArray _ info => info.headers
  | .objectArray items info => itemsHeaders items ++ info.headers
  | .mappedArrayStream _ (some r) => membersHeaders r
  | _ => []

def membersHeaders : List (Value × Bool) → List AllocHeader
  | [] => []
  | (v, _) :: rest => v.headers ++ membersHeaders rest

def itemsHeaders : List (List (Value × Bool)) → List AllocHeader
  | [] => []
  | r :: rest => membersHeaders r ++ itemsHeaders rest

end

abbrev Record.headers (r : Record) : List AllocHeader := membersHeaders r

end Lonejson
