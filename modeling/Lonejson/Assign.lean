import Lonejson.Reset

/-!
# Assigning scalars and growing arrays

The conversion of number tokens and the operations that store one decoded value
into a member of the destination.
-/

namespace Lonejson

variable {σ : Type}

/-! ## Integer tokens -/

/-- The digit loop of the two integer parsers: `acc` never exceeds `limit`. -/
def parseDigits (limit : ℕ) : ℕ → Bytes → Option ℕ
  | acc, [] => some acc
  | acc, ch :: rest =>
    if ch < 0x30 ∨ 0x39 < ch then none
    else
      let digit := ch.toNat - 0x30
      if acc > (limit - digit) / 10 then none else parseDigits limit (acc * 10 + digit) rest

/-- The bytes of a C string. -/
def cString (value : Bytes) : Bytes := value.takeWhile (· != 0)

/-- `lonejson__parse_i64_token`, on the text before the first NUL. -/
def parseI64Token (value : Bytes) : Option ℤ :=
  match cString value with
  | [] => none
  | ch :: rest =>
    let negative := ch == 0x2d
    let digits := if negative then rest else ch :: rest
    match digits with
    | [] => none
    | d :: ds =>
      if d = 0x30 ∧ ds ≠ [] then none
      else
        let limit := if negative then 2 ^ 63 else 2 ^ 63 - 1
        (parseDigits limit 0 (d :: ds)).map fun (acc : ℕ) =>
          if negative then -(acc : ℤ) else (acc : ℤ)

/-- `lonejson__parse_u64_token`, on the text before the first NUL. -/
def parseU64Token (value : Bytes) : Option ℕ :=
  match cString value with
  | [] => none
  | ch :: rest =>
    if ch = 0x2d then none
    else if ch = 0x30 ∧ rest ≠ [] then none
    else parseDigits (2 ^ 64 - 1) 0 (ch :: rest)

/-- `lonejson__assign_i64`, `_u64` and `_f64` differ in the parser, the member
written and the noun of the message. -/
def assignNumber {α : Type} (c : Core σ) (field : Field) (parsed : Option α)
    (message : String) (store : α → Core σ → Core σ) : Core σ × Status :=
  match parsed with
  | none => c.setError .typeMismatch message field.jsonKey
  | some v => (store v c, .ok)

/-- `lonejson__assign_i64`. -/
def assignI64 (c : Core σ) (field : Field) (value : Bytes) (store : ℤ → Core σ → Core σ) :
    Core σ × Status :=
  assignNumber c field (parseI64Token value) "expected integer for '%s'" store

/-- `lonejson__assign_u64`. -/
def assignU64 (c : Core σ) (field : Field) (value : Bytes) (store : ℕ → Core σ → Core σ) :
    Core σ × Status :=
  assignNumber c field (parseU64Token value) "expected unsigned integer for '%s'" store

/-- `lonejson__assign_f64`. -/
def assignF64 (env : Env σ) (c : Core σ) (field : Field) (value : Bytes)
    (store : UInt64 → Core σ → Core σ) : Core σ × Status :=
  assignNumber c field (env.parseF64 value) "expected number for '%s'" store

/-! ## Strings from the token -/

/-- A C string stored in a fixed buffer, with its NUL. -/
def storeFixed (buffer data : Bytes) : Bytes := data ++ 0 :: buffer.drop (data.length + 1)

/-- `lonejson__assign_string`. -/
def assignString (env : Env σ) (c : Core σ) (field : Field) (ptr : SlotPtr) (value : Bytes) :
    Core σ × Status :=
  let storeText (c : Core σ) (text : Bytes) : Core σ :=
    { c with dst := c.dst.modifyValue ptr fun
        | .fixedString b => .fixedString (storeFixed b text)
        | v => v }
  if value.contains 0 then
    c.setError .typeMismatch "field '%s' contains embedded NUL unsupported by C strings"
      field.jsonKey
  else if field.storage = .dynamic then
    if env.options.maxDynamicStringBytes ≠ 0 ∧
        value.length > env.options.maxDynamicStringBytes then
      c.setError .overflow "string field '%s' exceeds configured max dynamic string bytes"
        field.jsonKey
    else if allocCanGrow env c.allocLive 0 (value.length + 1) then
      match ownedMallocParse env c (value.length + 1), c.value? ptr with
      | (some header, c), some (.string old) =>
        ((ownedFreeParse env c (old.map Owned.header)).setValue ptr
          (.string (some { header, data := value })), .ok)
      | (some _, c), _ => (c, .ok)
      | (none, c), _ => c.setError .allocationFailed "failed to allocate string"
    else c.setError .overflow "parse allocations exceed configured max bytes"
  else if field.fixedCapacity = 0 then
    c.setError .invalidArgument "fixed string field has zero capacity"
  else if value.length + 1 > field.fixedCapacity then
    if field.overflowPolicy = .fail then
      c.setError .overflow "string field '%s' exceeds fixed capacity" field.jsonKey
    else
      let c := storeText c (value.take (field.fixedCapacity - 1))
      ({ c with error := { c.error with truncated := true } },
        if field.overflowPolicy = .truncate then .truncated else .ok)
  else (storeText c value, .ok)

/-! ## Arrays -/

/-- `lonejson__array_ensure_result`. -/
inductive EnsureResult where
  | ok
  | truncated
  | error
  deriving DecidableEq, Repr

/-- The doubling loop of `lonejson__array_ensure_bytes`; `none` is "array too large".
A capacity doubles at most 64 times before it passes `SIZE_MAX / 2`. -/
def growCapacity (want : ℕ) : ℕ → ℕ → Option ℕ
  | 0, _ => none
  | fuel + 1, cap =>
    if cap < want then
      if cap > sizeMax / 2 then none else growCapacity want fuel (cap * 2)
    else some cap

/-- A product of two `size_t`. -/
def sizeMul (a b : ℕ) : ℕ := (a * b) % (sizeMax + 1)

/-- `lonejson__array_ensure_bytes`. -/
def arrayEnsureBytes (env : Env σ) (c : Core σ) (info : ArrayInfo) (elemSize want : ℕ)
    (policy : OverflowPolicy) : Core σ × ArrayInfo × EnsureResult :=
  if info.capacity ≥ want then (c, info, .ok)
  else if info.fixedCapacity then
    if policy = .fail then ((c.setError .overflow "array capacity exceeded").1, info, .error)
    else ({ c with error := { c.error with truncated := true } }, info, .truncated)
  else
    match growCapacity want 65 (if info.capacity ≠ 0 then info.capacity else 4) with
    | none => ((c.setError .overflow "array too large").1, info, .error)
    | some cap =>
      let size := sizeMul cap elemSize
      if allocCanGrow env c.allocLive (allocCountedBytes env info.block) size then
        match ownedReallocParse env c info.block size with
        | (none, c) => ((c.setError .allocationFailed "failed to grow array").1, info, .error)
        | (some block, c) =>
          (c, { info with capacity := cap, block := some block, ownsItems := true }, .ok)
      else
        ((c.setError .overflow "parse allocations exceed configured max bytes").1, info, .error)

/-- What the append routines return when an array may not grow. -/
def truncatedStatus (policy : OverflowPolicy) : Status :=
  if policy = .truncate then .truncated else .ok

/-- `LONEJSON__DEFINE_ARRAY_APPEND`. -/
def arrayAppend {α : Type} (env : Env σ) (c : Core σ) (field : Field) (elemSize : ℕ)
    (items : List α) (info : ArrayInfo) (value : α) :
    Core σ × (List α × ArrayInfo) × Status :=
  match arrayEnsureBytes env c info elemSize (items.length + 1) field.overflowPolicy with
  | (c, info, .error) => (c, (items, info), c.error.code)
  | (c, info, .truncated) => (c, (items, info), truncatedStatus field.overflowPolicy)
  | (c, info, .ok) =>
    if items.length ≥ info.capacity then
      ({ c with error := { c.error with truncated := true } }, (items, info),
        truncatedStatus field.overflowPolicy)
    else (c, (items ++ [value], info), .ok)

/-- `lonejson__array_append_i64`. -/
def arrayAppendI64 (env : Env σ) (c : Core σ) (field : Field) (ptr : SlotPtr) (value : ℤ) :
    Core σ × Status :=
  match c.value? ptr with
  | some (.i64Array items info) =>
    let r := arrayAppend env c field 8 items info value
    (r.1.setValue ptr (.i64Array r.2.1.1 r.2.1.2), r.2.2)
  | _ => (c, .ok)

/-- `lonejson__array_append_u64`. -/
def arrayAppendU64 (env : Env σ) (c : Core σ) (field : Field) (ptr : SlotPtr) (value : ℕ) :
    Core σ × Status :=
  match c.value? ptr with
  | some (.u64Array items info) =>
    let r := arrayAppend env c field 8 items info value
    (r.1.setValue ptr (.u64Array r.2.1.1 r.2.1.2), r.2.2)
  | _ => (c, .ok)

/-- `lonejson__array_append_f64`. -/
def arrayAppendF64 (env : Env σ) (c : Core σ) (field : Field) (ptr : SlotPtr) (value : UInt64) :
    Core σ × Status :=
  match c.value? ptr with
  | some (.f64Array items info) =>
    let r := arrayAppend env c field 8 items info value
    (r.1.setValue ptr (.f64Array r.2.1.1 r.2.1.2), r.2.2)
  | _ => (c, .ok)

/-- `lonejson__array_append_bool`. -/
def arrayAppendBool (env : Env σ) (c : Core σ) (field : Field) (ptr : SlotPtr) (value : Bool) :
    Core σ × Status :=
  match c.value? ptr with
  | some (.boolArray items info) =>
    let r := arrayAppend env c field 1 items info value
    (r.1.setValue ptr (.boolArray r.2.1.1 r.2.1.2), r.2.2)
  | _ => (c, .ok)

/-- `lonejson__array_append_string`. -/
def arrayAppendString (env : Env σ) (c : Core σ) (field : Field) (ptr : SlotPtr) (value : Bytes) :
    Core σ × Status :=
  match c.value? ptr with
  | some (.stringArray items info) =>
    if value.contains 0 then
      c.setError .typeMismatch "array '%s' contains embedded NUL unsupported by C strings"
        field.jsonKey
    else
      match arrayEnsureBytes env c info env.pointerSize (items.length + 1)
          field.overflowPolicy with
      | (c, _, .error) => (c, c.error.code)
      | (c, _, .truncated) => (c, truncatedStatus field.overflowPolicy)
      | (c, info, .ok) =>
        let c := c.setValue ptr (.stringArray items info)
        if items.length ≥ info.capacity then
          ({ c with error := { c.error with truncated := true } },
            truncatedStatus field.overflowPolicy)
        else if env.options.maxDynamicStringBytes ≠ 0 ∧
            value.length > env.options.maxDynamicStringBytes then
          c.setError .overflow
            "array '%s' contains a string exceeding configured max dynamic string bytes"
            field.jsonKey
        else if allocCanGrow env c.allocLive 0 (value.length + 1) then
          match ownedMallocParse env c (value.length + 1) with
          | (none, c) => c.setError .allocationFailed "failed to allocate array string"
          | (some header, c) =>
            (c.setValue ptr (.stringArray (items ++ [some { header, data := value }]) info), .ok)
        else c.setError .overflow "parse allocations exceed configured max bytes"
  | _ => (c, .ok)

/-- `lonejson__object_array_append_slot`: the path of the new slot, or `none`. -/
def objectArrayAppendSlot (env : Env σ) (c : Core σ) (field : Field) (ptr : SlotPtr) :
    Core σ × Option ObjPath :=
  match c.value? ptr with
  | some (.objectArray items info) =>
    let info := if info.elemSize = 0 then { info with elemSize := field.elemSize } else info
    match arrayEnsureBytes env c info info.elemSize (items.length + 1) field.overflowPolicy with
    | (c, info, .error) => (c.setValue ptr (.objectArray items info), none)
    | (c, info, .truncated) =>
      ({ c with error := { c.error with truncated := true } }.setValue ptr
        (.objectArray items info), none)
    | (c, info, .ok) =>
      if items.length ≥ info.capacity then
        ({ c with error := { c.error with truncated := true } }.setValue ptr
          (.objectArray items info), none)
      else
        let slot := match field.submap with
          | none => []
          | some m => initMap env env.structDepth m
        (c.setValue ptr (.objectArray (items ++ [slot]) info),
          some (ptr.obj ++ [(ptr.idx, .elem items.length)]))
  | _ => (c, none)

/-! ## `null` -/

/-- `lonejson__assign_null`. -/
def assignNull (env : Env σ) (c : Core σ) (field : Field) (ptr : SlotPtr) : Core σ × Status :=
  let store (v : Value) : Core σ × Status := (c.setValue ptr v, .ok)
  let cleanup : Core σ × Status :=
    match c.value? ptr with
    | none => (c, .ok)
    | some v => let r := cleanupValueParse env c v; (r.1.setValue ptr r.2, .ok)
  let rejectNull : Core σ × Status :=
    c.setError .typeMismatch "null is not allowed for '%s'" field.jsonKey
  let accepts := field.flags.acceptNull && field.flags.hasPresence
  match field.kind with
  | .i64 => if accepts then store (.i64 0) else rejectNull
  | .u64 => if accepts then store (.u64 0) else rejectNull
  | .f64 => if accepts then store (.f64 0) else rejectNull
  | .bool => if accepts then store (.bool false) else rejectNull
  | .string =>
    if field.storage = .fixed ∧ field.fixedCapacity ≠ 0 then
      ({ c with dst := c.dst.modifyValue ptr fun
          | .fixedString b => .fixedString (b.set 0 0)
          | v => v }, .ok)
    else cleanup
  | .stringStream | .base64Stream | .stringSource | .base64Source => cleanup
  | .jsonValue =>
    match c.value? ptr with
    | some (.jsonValue v) =>
      let r := jsonValueClearRuntimeParse env c v
      (r.1.setValue ptr (.jsonValue { r.2 with parseMode := .none }), .ok)
    | _ => (c, .ok)
  | .object => if field.submap.isSome then cleanup else (c, .ok)
  | .stringArray | .i64Array | .u64Array | .f64Array | .boolArray | .objectArray => cleanup
  | .stringArrayStream | .mappedArrayStream => rejectNull

end Lonejson
