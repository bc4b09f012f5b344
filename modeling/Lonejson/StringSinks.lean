import Lonejson.Assign

/-!
# Where decoded string bytes go

The capture modes of a JSON string other than the token buffer and the discarding
one: a string member written directly, a streamed member, and an embedded JSON value
that is captured, sent to a sink or visited.
-/

namespace Lonejson

variable {σ : Type}

/-! ## String members -/

/-- Bytes written to the stage; an in-place stage is the member's own buffer. -/
def directWrite (c : Core σ) (data : Bytes) : Core σ :=
  let d := c.direct
  let c := { c with direct := { d with bytes := d.bytes ++ data } }
  if d.stage = .inPlace then
    { c with dst := c.dst.modifyValue d.ptr fun
        | .fixedString b =>
          .fixedString (b.take d.bytes.length ++ data ++ b.drop (d.bytes.length + data.length))
        | v => v }
  else c

/-- The doubling of the buffer of a dynamic string, before the string limit. -/
def growDouble (required : ℕ) : ℕ → ℕ → ℕ
  | 0, cap => cap
  | fuel + 1, cap =>
    if cap < required then
      if cap * 2 ≤ cap then required else growDouble required fuel (cap * 2)
    else cap

/-- `lonejson__direct_string_append_bytes` for a dynamic string. -/
def directAppendDynamic (env : Env σ) (c : Core σ) (data : Bytes) : Core σ × Status :=
  let d := c.direct
  let required := d.bytes.length + data.length + 1
  let limit := env.options.maxDynamicStringBytes
  match d.active, d.stage with
  | true, .heap header =>
    if d.capacity = 0 then c.setError .internalError "direct string field is not active"
    else if limit ≠ 0 ∧ d.bytes.length + data.length > limit then
      c.setError .overflow "string field '%s' exceeds configured max dynamic string bytes" d.key
    else if required > d.capacity then
      let doubled := growDouble required required d.capacity
      let next := if limit ≠ 0 ∧ limit ≠ sizeMax ∧ doubled > limit + 1 then limit + 1 else doubled
      if allocCanGrow env c.allocLive (allocCountedBytes env (some header)) next then
        match ownedReallocParse env c (some header) next with
        | (none, c) => c.setError .allocationFailed "failed to allocate string"
        | (some header, c) =>
          (directWrite { c with direct := { d with stage := .heap header, capacity := next } } data,
            .ok)
      else c.setError .overflow "parse allocations exceed configured max bytes"
    else (directWrite c data, .ok)
  | _, _ => c.setError .internalError "direct string field is not active"

/-- `lonejson__direct_string_append_bytes` for a fixed string, and the copying part of
`lonejson__direct_string_append_codepoint`. -/
def directAppendFixed (c : Core σ) (data : Bytes) : Core σ × Status :=
  let d := c.direct
  if d.active = false ∨ d.stage = .none ∨ d.capacity = 0 then
    c.setError .internalError "direct string field is not active"
  else
    let limit := d.capacity - 1
    let remaining := if d.bytes.length < limit then limit - d.bytes.length else 0
    let copyLen := if data.length < remaining then data.length else remaining
    let c := directWrite c (data.take copyLen)
    if copyLen = data.length then (c, .ok)
    else if d.overflowPolicy = .fail then
      c.setError .overflow "string field '%s' exceeds fixed capacity" d.key
    else
      ({ c with direct := { c.direct with truncated := true },
                error := { c.error with truncated := true } }, .ok)

/-- `lonejson__direct_string_append_bytes`. -/
def directStringAppendBytes (env : Env σ) (c : Core σ) (data : Bytes) : Core σ × Status :=
  if c.direct.dynamic then directAppendDynamic env c data else directAppendFixed c data

/-- `lonejson__direct_string_reject_nul`. -/
def directStringRejectNul (c : Core σ) : Core σ × Status :=
  c.setError .typeMismatch "field '%s' contains embedded NUL unsupported by C strings" c.direct.key

/-- `lonejson__direct_string_append_codepoint`, which a fixed string uses. -/
def directStringAppendCodepoint (c : Core σ) (cp : ℕ) : Core σ × Status :=
  if c.direct.active = false ∨ c.direct.stage = .none ∨ c.direct.capacity = 0 then
    c.setError .internalError "direct string field is not active"
  else if cp = 0 then directStringRejectNul c
  else
    match utf8Encode cp with
    | none => c.setError .invalidJson "invalid unicode codepoint"
    | some utf8 => directAppendFixed c utf8

/-- `lonejson__direct_string_clear`. -/
def directStringClear (env : Env σ) (c : Core σ) : Core σ :=
  if c.direct.active then
    let c := match c.direct.stage with
      | .heap header => ownedFreeParse env c (some header)
      | _ => c
    { c with direct := {} }
  else c

/-- `lonejson__direct_string_finish`, up to the completion of the parent. -/
def directStringFinish (env : Env σ) (c : Core σ) : Core σ × Status :=
  let d := c.direct
  if d.active = false ∨ d.stage = .none ∨ d.capacity = 0 then
    c.setError .internalError "direct string field is not active"
  else
    let status := if d.truncated ∧ d.overflowPolicy = .truncate then Status.truncated else .ok
    let commit (c : Core σ) : Core σ :=
      { c with dst := c.dst.modifyValue d.ptr fun
          | .fixedString b => .fixedString (storeFixed b d.bytes)
          | v => v }
    let c := match d.stage with
      | .heap header =>
        if d.dynamic then
          match c.value? d.ptr with
          | some (.string old) =>
            ownedFreeParse env (c.setValue d.ptr (.string (some { header, data := d.bytes })))
              (old.map Owned.header)
          | _ => c
        else if d.commits then ownedFreeParse env (commit c) (some header)
        else c
      | .inPlace => commit c
      | _ => if d.commits then commit c else c
    ({ c with direct := {} }, status)

/-! ## Streamed members -/

/-- `lonejson__spooled_append_parse`; the temporary file takes every byte. -/
def spooledAppendParse (env : Env σ) (c : Core σ) (s : Spooled) (data : Bytes) :
    Core σ × Spooled × Status :=
  if data = [] then (c, s, .ok)
  else if s.maxBytes ≠ 0 ∧ s.size + data.length > s.maxBytes then
    let r := c.setErrorAtZero .overflow "spooled field exceeds configured max bytes"
    (r.1, s, r.2)
  else
    let memoryLen := (s.memory.map (·.data.length)).getD 0
    let room := if s.memoryLimit > memoryLen then s.memoryLimit - memoryLen else 0
    let copy := if data.length < room then data.length else room
    let spill (c : Core σ) (s : Spooled) : Core σ × Spooled × Status :=
      if copy < data.length then
        (c, { s with spill := s.spill ++ data.drop copy, spilled := true,
                     size := s.size + data.length }, .ok)
      else (c, { s with size := s.size + data.length }, .ok)
    if copy = 0 then spill c s
    else
      let need := memoryLen + copy
      let header := s.memory.map Owned.header
      if allocCanGrow env c.allocLive (allocCountedBytes env header) need then
        match ownedReallocParse env c header need with
        | (none, c) =>
          let r := c.setErrorAtZero .allocationFailed "failed to expand spooled in-memory prefix"
          (r.1, s, r.2)
        | (some header, c) =>
          let prefixBytes := (s.memory.map Owned.data).getD [] ++ data.take copy
          spill c { s with memory := some { header, data := prefixBytes } }
      else
        let r := c.setErrorAtZero .overflow "parse allocations exceed configured max bytes"
        (r.1, s, r.2)

/-- `lonejson__stream_value_append_decoded`. -/
def streamValueAppendDecoded (env : Env σ) (c : Core σ) (data : Bytes) : Core σ × Status :=
  if c.stream.active then
    match c.value? c.stream.ptr with
    | some (.spooled s) =>
      let r := spooledAppendParse env c s data
      (r.1.setValue c.stream.ptr (.spooled r.2.1), r.2.2)
    | _ => (c, .ok)
  else c.setError .internalError "streamed field is not active"

/-- The value of a character of the standard base64 alphabet. -/
def base64Value (ch : Byte) : Option ℕ :=
  if 0x41 ≤ ch ∧ ch ≤ 0x5a then some (ch.toNat - 0x41)
  else if 0x61 ≤ ch ∧ ch ≤ 0x7a then some (26 + (ch.toNat - 0x61))
  else if 0x30 ≤ ch ∧ ch ≤ 0x39 then some (52 + (ch.toNat - 0x30))
  else if ch = 0x2b then some 62
  else if ch = 0x2f then some 63
  else none

/-- `lonejson_base64_decode` on one quartet of the standard variant: padding only at
the end; the bits under the padding are not looked at. -/
def base64DecodeQuad : Bytes → Option Bytes
  | [a, b, c, d] => do
    let va ← base64Value a
    let vb ← base64Value b
    if c = 0x3d then
      if d = 0x3d then return [((va <<< 2) ||| (vb >>> 4)).toUInt8] else none
    else
      let vc ← base64Value c
      if d = 0x3d then
        return [((va <<< 2) ||| (vb >>> 4)).toUInt8, ((vb <<< 4) ||| (vc >>> 2)).toUInt8]
      else
        let vd ← base64Value d
        return [((va <<< 2) ||| (vb >>> 4)).toUInt8, ((vb <<< 4) ||| (vc >>> 2)).toUInt8,
          ((vc <<< 6) ||| vd).toUInt8]
  | _ => none

/-- `lonejson__stream_value_append_base64_char`. -/
def streamValueAppendBase64Char (env : Env σ) (c : Core σ) (ch : Byte) : Core σ × Status :=
  if ch ≠ 0x3d ∧ base64Value ch = none then
    c.setError .invalidJson "invalid base64 character in streamed field"
  else if c.stream.sawPadding ∧ ch ≠ 0x3d then
    c.setError .invalidJson "non-padding base64 data after padding"
  else
    let quad := c.stream.quad ++ [ch]
    let sawPadding := c.stream.sawPadding || ch == 0x3d
    let c := { c with stream := { c.stream with quad, sawPadding } }
    if quad.length = 4 then
      match base64DecodeQuad quad with
      | none => c.setError .invalidJson "invalid base64 quartet in streamed field"
      | some out =>
        let r := streamValueAppendDecoded env c out
        ({ r.1 with stream := { r.1.stream with quad := [] } }, r.2)
    else (c, .ok)

/-- The loop over the characters of a base64 chunk. -/
def streamValueAppendBase64 (env : Env σ) (c : Core σ) : Bytes → Core σ × Status
  | [] => (c, .ok)
  | ch :: rest =>
    andThenOk (streamValueAppendBase64Char env c ch) fun c => streamValueAppendBase64 env c rest

/-- `lonejson__stream_value_append`. -/
def streamValueAppend (env : Env σ) (c : Core σ) (data : Bytes) : Core σ × Status :=
  match c.stream.field.map Field.kind with
  | some .stringArrayStream =>
    match c.value? c.stream.ptr with
    | some (.stringArrayStream s) =>
      if s.hasChunk then c.call env (.stringArrayChunk c.stream.ptr data)
      else c.setError .invalidArgument "string array stream field '%s' has no chunk handler"
        ((c.stream.field.map Field.jsonKey).getD [])
    | _ => (c, .ok)
  | some .stringStream => streamValueAppendDecoded env c data
  | _ => streamValueAppendBase64 env c data

/-- `lonejson__stream_value_begin`. -/
def streamValueBegin (env : Env σ) (c : Core σ) (field : Field) (ptr : SlotPtr) :
    Core σ × Status :=
  let start (c : Core σ) : Core σ × Status :=
    ({ c with stream := { active := true, field := some field, ptr } }, .ok)
  match c.value? ptr with
  | some (.stringArrayStream s) =>
    if !s.initialized || !s.hasChunk then
      c.setError .invalidArgument "string array stream field '%s' has no chunk handler"
        field.jsonKey
    else if s.active then
      c.setError .internalError "string array stream field '%s' is already active" field.jsonKey
    else
      andThenOk (c.call env (.stringArrayBegin ptr)) fun c =>
        start (c.setValue ptr (.stringArrayStream { s with active := true }))
  | some (.spooled s) =>
    let r := spooledResetParse env c s
    start (r.1.setValue ptr (.spooled r.2))
  | _ => start c

/-- `lonejson__stream_value_finish`. -/
def streamValueFinish (env : Env σ) (c : Core σ) : Core σ × Status :=
  let r : Core σ × Status :=
    if c.stream.active then
      match c.stream.field.map Field.kind with
      | some .base64Stream =>
        if c.stream.quad ≠ [] then
          c.setError .invalidJson "incomplete base64 quartet in streamed field"
        else (c, .ok)
      | some .stringArrayStream =>
        let r := c.call env (.stringArrayEnd c.stream.ptr)
        match r.1.value? c.stream.ptr with
        | some (.stringArrayStream s) =>
          (r.1.setValue c.stream.ptr (.stringArrayStream { s with active := false }), r.2)
        | _ => r
      | _ => (c, .ok)
    else (c, .ok)
  ({ r.1 with stream := {} }, r.2)

end Lonejson
