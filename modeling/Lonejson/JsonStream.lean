import Lonejson.StringSinks

/-!
# Embedded JSON values

What the parser does with the parts of a JSON value it reads into a JSON value
member: it captures the text, sends the text to a sink, or calls a visitor. The
operations are those of the `json_stream_*` members of the parser.
-/

namespace Lonejson

variable {σ : Type}

/-! ## Escaping -/

/-- A hexadecimal digit as the writers print it. -/
def hexDigit (n : ℕ) : Byte := if n < 10 then (0x30 + n).toUInt8 else (0x57 + n).toUInt8

/-- What `lonejson__emit_escaped_fragment` writes for a byte that is not plain. -/
def escapeByte (ch : Byte) : Bytes :=
  if ch = 0x22 then [0x5c, 0x22]
  else if ch = 0x5c then [0x5c, 0x5c]
  else if ch = 0x08 then [0x5c, 0x62]
  else if ch = 0x0c then [0x5c, 0x66]
  else if ch = 0x0a then [0x5c, 0x6e]
  else if ch = 0x0d then [0x5c, 0x72]
  else if ch = 0x09 then [0x5c, 0x74]
  else [0x5c, 0x75, 0x30, 0x30, hexDigit (ch.toNat / 16), hexDigit (ch.toNat % 16)]

/-- A run of plain bytes, left out when it is empty. -/
def plainRun (run : Bytes) : List Bytes := if run = [] then [] else [run]

/-- The pieces in which `lonejson__emit_escaped_fragment` hands a text to its sink;
`run` is the text between `start` and `i`. -/
def escapedPieces : Bytes → Bytes → List Bytes
  | run, [] => plainRun run
  | run, ch :: rest =>
    if isPlain ch then escapedPieces (run ++ [ch]) rest
    else plainRun run ++ escapeByte ch :: escapedPieces [] rest

/-- Hand pieces to a sink until it fails. -/
def emitPieces {α : Type} (emit : α → Bytes → α × Status) : α → List Bytes → α × Status
  | c, [] => (c, .ok)
  | c, piece :: rest => andThenSoft (emit c piece) fun c => emitPieces emit c rest

/-- `lonejson__emit_escaped_fragment`. -/
def emitEscapedFragment {α : Type} (emit : α → Bytes → α × Status) (c : α) (text : Bytes) :
    α × Status :=
  emitPieces emit c (escapedPieces [] text)

/-! ## The streamed value -/

/-- `json_stream_value`. -/
def Core.streamedValue? (c : Core σ) : Option (SlotPtr × JsonValue) :=
  match c.json.value with
  | none => none
  | some ptr =>
    match c.value? ptr with
    | some (.jsonValue v) => some (ptr, v)
    | _ => none

/-- `parse_visitor_limits` of the streamed value. -/
def Core.valueLimits (c : Core σ) : ValueLimits :=
  match c.streamedValue? with
  | some (_, v) => v.limits
  | none => ⟨0, 0, 0, 0, 0⟩

/-- The blocks of the path state, in the order of its cleanup. -/
def JsonPathState.headers (p : JsonPathState) : List AllocHeader :=
  p.frames.flatMap (fun f => f.keyHeap.toList) ++ p.blocks

/-- `lonejson__parser_cleanup_json_stream_path`. -/
def cleanupJsonStreamPath (env : Env σ) (c : Core σ) : Core σ :=
  match c.json.path with
  | none => c
  | some p =>
    let c := c.releaseAll env p.headers
    { c with json := { c.json with path := none } }

/-- The flags that `lonejson__parser_set_json_stream_value` derives from the mode of
the value. -/
def JsonStream.start (j : JsonStream) (ptr : SlotPtr) (mode : JsonParseMode) : JsonStream :=
  let visitActive := mode == .visitor true
  let pathVisitActive := mode == .pathVisitor true
  { j with
    value := some ptr, active := true, visitActive, pathVisitActive,
    parseVisitorActive := visitActive || pathVisitActive, sinkActive := mode == .sink }

/-- `lonejson__parser_set_json_stream_value`. -/
def setJsonStreamValue (env : Env σ) (c : Core σ) (ptr : SlotPtr) (mode : JsonParseMode) :
    Core σ :=
  let c := cleanupJsonStreamPath env c
  { c with json := c.json.start ptr mode }

/-- `lonejson__parser_clear_json_stream_value`. -/
def clearJsonStreamValue (env : Env σ) (c : Core σ) : Core σ :=
  let c := cleanupJsonStreamPath env c
  { c with json := { depth := c.json.depth, totalBytes := c.json.totalBytes,
                     textBytes := c.json.textBytes, textIsKey := c.json.textIsKey } }

/-- `parser->json_stream_depth = n`. -/
def Core.setJsonDepth (c : Core σ) (n : ℕ) : Core σ :=
  { c with json := { c.json with depth := n } }

/-- The counters of the stream before a new value, at depth `n`. -/
def Core.resetJsonCounters (c : Core σ) (n : ℕ) : Core σ :=
  { c with json := { c.json with depth := n, totalBytes := 0, textBytes := 0,
                                 textIsKey := false } }

/-- `lonejson__json_value_prepare_parse`. -/
def jsonValuePrepareParse (env : Env σ) (c : Core σ) (ptr : SlotPtr) : Core σ × Status :=
  match c.value? ptr with
  | some (.jsonValue v) =>
    if v.parseMode = .none then
      c.setErrorAtZero .invalidArgument
        "JSON value parse requires a configured parse sink, parse visitor, or parse capture"
    else
      let r := jsonValueClearRuntimeParse env c v
      (r.1.setValue ptr (.jsonValue r.2), .ok)
  | _ => c.setErrorAtZero .invalidArgument "JSON value handle is required"

/-- `prepare_parse` followed by the start of the stream at depth `n`. -/
def beginJsonStream (env : Env σ) (c : Core σ) (ptr : SlotPtr) (n : ℕ) : Core σ × Status :=
  andThenOk (jsonValuePrepareParse env c ptr) fun c =>
    match c.value? ptr with
    | some (.jsonValue v) => ((setJsonStreamValue env c ptr v.parseMode).resetJsonCounters n, .ok)
    | _ => (c, .ok)

/-! ## Captured text -/

/-- The doubling of the capture buffer under the bytes the budget leaves. -/
def growCapture (available required : ℕ) : ℕ → ℕ → ℕ
  | 0, cap => cap
  | fuel + 1, cap =>
    if cap < required then
      if cap * 2 ≤ cap then required
      else if available ≠ sizeMax ∧ cap * 2 > available then available
      else growCapture available required fuel (cap * 2)
    else cap

/-- The next capacity of the capture buffer. -/
def captureCapacity (available required capacity : ℕ) : ℕ :=
  let cap := if capacity ≠ 0 then capacity else required
  let cap :=
    if capacity = 0 ∧ (available = sizeMax ∨ available ≥ 256) ∧ cap < 256 then 256 else cap
  let cap := if available ≠ sizeMax ∧ cap > available then available else cap
  growCapture available required required cap

/-- The capture of `lonejson__json_value_emit`, which
`lonejson__json_buffer_sink_parse` repeats. -/
def captureAppend (env : Env σ) (c : Core σ) (ptr : SlotPtr) (v : JsonValue) (data : Bytes) :
    Core σ × Status :=
  let old := (v.json.map Owned.data).getD []
  let store (c : Core σ) (header : AllocHeader) : Core σ × Status :=
    (c.setValue ptr (.jsonValue
      { v with kind := .buffer, json := some { header, data := old ++ data } }), .ok)
  let required := old.length + data.length + 1
  let header := v.json.map Owned.header
  let capacity := (header.map AllocHeader.size).getD 0
  let counted := allocCountedBytes env header
  let available := allocAvailable env c.allocLive counted
  let overflow : Core σ × Status :=
    c.setError .overflow "parse allocations exceed configured max bytes"
  if capacity < required then
    if available ≠ sizeMax ∧ available < required then overflow
    else
      let next := captureCapacity available required capacity
      if allocCanGrow env c.allocLive counted next then
        match ownedReallocParse env c header next with
        | (none, c) => c.setError .allocationFailed "failed to grow captured JSON value"
        | (some header, c) => store c header
      else overflow
  else
    match header with
    | some header => store c header
    | none => (c, .ok)

/-- `lonejson__json_value_emit`. -/
def jsonValueEmit (env : Env σ) (c : Core σ) (data : Bytes) : Core σ × Status :=
  match c.streamedValue? with
  | none => c.setError .internalError "JSON value stream has no destination"
  | some (ptr, v) =>
    if v.limits.maxTotalBytes ≠ 0 ∧
        c.json.totalBytes + data.length > v.limits.maxTotalBytes then
      c.setError .overflow "JSON value exceeds maximum total byte limit"
    else
      let totalBytes := c.json.totalBytes + data.length
      let c := { c with json := { c.json with totalBytes } }
      match v.parseMode with
      | .capture => captureAppend env c ptr v data
      | .sink => c.call env (.sink ptr data)
      | _ =>
        c.setError .invalidArgument
          "JSON value field has no configured parse sink or capture mode"

/-- The sink of the escaped text of strings: the caller's sink, or
`lonejson__json_buffer_sink_parse`. Neither counts the bytes. -/
def jsonTextSink (env : Env σ) (c : Core σ) (data : Bytes) : Core σ × Status :=
  match c.streamedValue? with
  | none => (c, .invalidArgument)
  | some (ptr, v) =>
    if c.json.sinkActive then c.call env (.sink ptr data)
    else if data = [] then (c, .ok)
    else captureAppend env c ptr v data

/-- `lonejson__json_value_emit_string`. -/
def jsonValueEmitString (env : Env σ) (c : Core σ) (value : Bytes) : Core σ × Status :=
  if c.valueLimits.maxStringBytes ≠ 0 ∧ value.length > c.valueLimits.maxStringBytes then
    c.setError .overflow "JSON string exceeds maximum decoded byte limit"
  else
    andThenOk (jsonValueEmit env c [0x22]) fun c =>
      andThenSoft (emitEscapedFragment (jsonTextSink env) c value) fun c =>
        jsonValueEmit env c [0x22]

/-! ## The path of a path visitor -/

/-- The decimal digits of a `size_t`, as `lonejson__format_size_decimal` writes
them. -/
def formatSizeDecimal (n : ℕ) : Bytes := (Nat.toDigits 10 n).map fun d => d.toNat.toUInt8

def Core.setPath (c : Core σ) (p : JsonPathState) : Core σ :=
  { c with json := { c.json with path := some p } }

/-- The capacity that `lonejson__json_value_path_ensure` wants, before it adds one. -/
def pathCapacity (env : Env σ) (c : Core σ) : ℕ :=
  if c.valueLimits.maxDepth ≠ 0 then c.valueLimits.maxDepth
  else if env.options.maxDepth ≠ 0 then env.options.maxDepth
  else env.workspaceSize / env.frameSize

/-- The two arrays of the path state. -/
def pathAllocate (env : Env σ) (c : Core σ) (p : JsonPathState) (capacity : ℕ) :
    Core σ × Status :=
  let segments := ownedMallocParse env c (sizeMul capacity env.pathSizes.2.1)
  let frames := ownedMallocParse env segments.2 (sizeMul capacity env.pathSizes.2.2)
  let p := { p with blocks := segments.1.toList ++ frames.1.toList ++ p.blocks }
  if segments.1.isNone ∨ frames.1.isNone then
    (cleanupJsonStreamPath env (frames.2.setPath p)).setError .allocationFailed
      "failed to allocate JSON path visitor state"
  else (frames.2.setPath { p with frames := List.replicate capacity {} }, .ok)

/-- `lonejson__json_value_path_ensure`. -/
def pathEnsure (env : Env σ) (c : Core σ) : Core σ × Status :=
  if !c.json.pathVisitActive then (c, .ok)
  else
    let allocate (c : Core σ) (p : JsonPathState) : Core σ × Status :=
      if p.frames ≠ [] then (c, .ok)
      else if pathCapacity env c > sizeMax - 1 then
        c.setError .overflow "JSON path visitor depth exceeds size limit"
      else pathAllocate env c p (pathCapacity env c + 1)
    match c.json.path with
    | some p => allocate c p
    | none =>
      match ownedMallocParse env c env.pathSizes.1 with
      | (none, c) =>
        c.setError .allocationFailed "failed to allocate JSON path visitor state"
      | (some block, c) => allocate (c.setPath { blocks := [block] }) { blocks := [block] }

/-- The error of a path that is too deep for its state. -/
def pathStackError (c : Core σ) : Core σ × Status :=
  c.setError .internalError "invalid JSON path stack state"

/-- Run `k` on the path state once `path_ensure` has succeeded. -/
def withPath (env : Env σ) (c : Core σ) (k : Core σ → JsonPathState → Core σ × Status) :
    Core σ × Status :=
  if !c.json.pathVisitActive then (c, .ok)
  else
    andThenOk (pathEnsure env c) fun c =>
      match c.json.path with
      | none => (c, .ok)
      | some p => k c p

/-- `lonejson__json_value_path_begin_value`. -/
def pathBeginValue (env : Env σ) (c : Core σ) : Core σ × Status :=
  withPath env c fun c p =>
    match p.frames[p.depth]? with
    | none => pathStackError c
    | some frame =>
      if frame.containerKind ≠ some .array then (c, .ok)
      else if p.depth + 1 ≥ p.capacity then pathStackError c
      else
        (c.setPath { p with segments := p.segments ++ [formatSizeDecimal frame.nextIndex] }, .ok)

/-- `lonejson__json_value_path_complete_value`. -/
def pathCompleteValue (c : Core σ) : Core σ :=
  match c.json.pathVisitActive, c.json.path with
  | true, some p =>
    let p := { p with segments := p.segments.dropLast }
    c.setPath { p with frames := p.frames.modify p.depth fun frame =>
      if frame.containerKind = some .array then { frame with nextIndex := frame.nextIndex + 1 }
      else frame }
  | _, _ => c

/-- `lonejson__json_value_path_push_object_key`. -/
def pathPushObjectKey (env : Env σ) (c : Core σ) : Core σ × Status :=
  withPath env c fun c p =>
    if p.depth + 1 ≥ p.capacity then pathStackError c
    else
      match p.frames[p.depth]? with
      | none => pathStackError c
      | some frame => (c.setPath { p with segments := p.segments ++ [frame.key] }, .ok)

/-- `lonejson__json_value_path_prepare_key`; the inline buffer holds 64 bytes. -/
def pathPrepareKey (env : Env σ) (c : Core σ) : Core σ × Status :=
  withPath env c fun c p =>
    if p.depth ≥ p.capacity then pathStackError c
    else
      (c.setPath { p with frames := p.frames.modify p.depth fun frame =>
        if frame.keyCap = 0 then { frame with key := [], keyCap := 64, keyHeap := none }
        else { frame with key := [] } }, .ok)

/-- `lonejson__json_value_path_key_append`. -/
def pathKeyAppend (env : Env σ) (c : Core σ) (data : Bytes) : Core σ × Status :=
  match c.json.pathVisitActive, c.json.path with
  | true, some p =>
    if data = [] then (c, .ok)
    else
      match p.frames[p.depth]? with
      | none => pathStackError c
      | some frame =>
        let cap := if frame.keyCap = 0 then 64 else frame.keyCap
        let newLen := frame.key.length + data.length
        if newLen + 1 > cap then
          let newCap := growDouble (newLen + 1) (newLen + 1) cap
          match ownedMallocParse env c newCap with
          | (none, c) => c.setError .allocationFailed "failed to allocate JSON path key buffer"
          | (some header, c) =>
            let c := ownedFreeParse env c frame.keyHeap
            let frame := { frame with
              key := frame.key ++ data, keyCap := newCap, keyHeap := some header }
            (c.setPath { p with frames := p.frames.set p.depth frame }, .ok)
        else
          let frame := { frame with key := frame.key ++ data, keyCap := cap }
          (c.setPath { p with frames := p.frames.set p.depth frame }, .ok)
  | _, _ => (c, .ok)

/-- The container kind that the begin and end of a container record in the path. -/
def pathSetContainer (c : Core σ) (kind : Option ContainerKind) : Core σ :=
  match c.json.pathVisitActive, c.json.path with
  | true, some p =>
    c.setPath { p with frames := p.frames.modify p.depth fun frame =>
      { frame with
        containerKind := kind
        nextIndex := if kind = some .array then 0 else frame.nextIndex } }
  | _, _ => c

/-! ## Visitor events -/

/-- `lonejson__json_value_visit_event`. -/
def visitEvent (env : Env σ) (c : Core σ) (event : VisitEvent) : Core σ × Status :=
  match c.json.visitActive, c.json.value with
  | true, some ptr => c.call env (.visit ptr event)
  | _, _ => (c, .ok)

/-- `lonejson__json_value_path_event`, on the current path. -/
def pathEvent (env : Env σ) (c : Core σ) (event : VisitEvent) : Core σ × Status :=
  match c.json.pathVisitActive, c.json.value with
  | true, some ptr =>
    c.call env (.pathVisit ptr ((c.json.path.map JsonPathState.segments).getD []) event)
  | _, _ => (c, .ok)

/-- `lonejson__json_value_visit_any_event`. -/
def visitAnyEvent (env : Env σ) (c : Core σ) (event : VisitEvent) : Core σ × Status :=
  andThenSoft (visitEvent env c event) fun c => pathEvent env c event

/-- The event goes to both visitors only when there is a path visitor. -/
def visitOrPathEvent (env : Env σ) (c : Core σ) (event : VisitEvent) : Core σ × Status :=
  if c.json.pathVisitActive then visitAnyEvent env c event else visitEvent env c event

/-- The limits of `lonejson__json_value_visit_chunk` and `_visit_any_chunk`. -/
def visitChunkCount (c : Core σ) (data : Bytes) (tokenBytes tokenLimit : ℕ) (message : String) :
    Core σ × Status :=
  if tokenLimit ≠ 0 ∧ tokenBytes + data.length > tokenLimit then c.setError .overflow message
  else if c.valueLimits.maxTotalBytes ≠ 0 ∧
      c.json.totalBytes + data.length > c.valueLimits.maxTotalBytes then
    c.setError .overflow "JSON value exceeds maximum total byte limit"
  else
    let totalBytes := c.json.totalBytes + data.length
    ({ c with json := { c.json with totalBytes } }, .ok)

/-- `lonejson__json_value_visit_chunk` without a path and `_visit_any_chunk` with one;
`isText` says that the bytes are counted in `json_stream_text_bytes`. -/
def visitChunk (env : Env σ) (c : Core σ) (event : VisitEvent) (data : Bytes) (isText : Bool)
    (tokenLimit : ℕ) (message : String) : Core σ × Status :=
  if !c.json.parseVisitorActive || data == [] then (c, .ok)
  else
    let tokenBytes := if isText then c.json.textBytes else 0
    andThenOk (visitChunkCount c data tokenBytes tokenLimit message) fun c =>
      let c := if isText then
          { c with json := { c.json with textBytes := tokenBytes + data.length } }
        else c
      if c.json.pathVisitActive then
        andThenSoft (if c.json.textIsKey then pathKeyAppend env c data else (c, .ok)) fun c =>
          andThenSoft (visitEvent env c event) fun c => pathEvent env c event
      else visitEvent env c event

/-- The events of a value that is complete with its last event: the path gets the
index of an array item before and moves on after. -/
def visitWhole (env : Env σ) (c : Core σ) (events : Core σ → Core σ × Status) :
    Core σ × Status :=
  if !c.json.pathVisitActive then events c
  else
    andThenSoft (pathBeginValue env c) fun c =>
      let r := events c
      if r.2.soft then (pathCompleteValue r.1, r.2) else r

/-- `lonejson__json_value_visit_bool`. -/
def jsonValueVisitBool (env : Env σ) (c : Core σ) (value : Bool) : Core σ × Status :=
  if !c.json.parseVisitorActive then (c, .ok)
  else visitWhole env c fun c => visitOrPathEvent env c (.bool value)

/-- `lonejson__json_value_null`. -/
def jsonValueNull (env : Env σ) (c : Core σ) : Core σ × Status :=
  visitWhole env c fun c => visitOrPathEvent env c .null

/-- `lonejson__json_value_number`. -/
def jsonValueNumber (env : Env σ) (c : Core σ) (text : Bytes) : Core σ × Status :=
  if !c.json.parseVisitorActive then (c, .ok)
  else
    visitWhole env c fun c =>
      andThenSoft (visitOrPathEvent env c .numberBegin) fun c =>
        andThenSoft (visitChunk env c (.numberChunk text) text false
          c.valueLimits.maxNumberBytes "JSON number exceeds maximum byte limit") fun c =>
            visitOrPathEvent env c .numberEnd

/-- The begin of a container: the path learns its kind once the visitor agrees. -/
def jsonValueContainerBegin (env : Env σ) (c : Core σ) (kind : ContainerKind)
    (event : VisitEvent) : Core σ × Status :=
  if !c.json.pathVisitActive then visitEvent env c event
  else
    andThenSoft (pathBeginValue env c) fun c =>
      let r := visitAnyEvent env c event
      if r.2.soft then (pathSetContainer r.1 (some kind), r.2) else r

/-- The end of a container, which is also the end of a value. -/
def jsonValueContainerEnd (env : Env σ) (c : Core σ) (event : VisitEvent) : Core σ × Status :=
  if !c.json.pathVisitActive then visitEvent env c event
  else
    let r := visitAnyEvent env c event
    if r.2.soft ∧ r.1.json.path.any (fun p => p.depth < p.capacity) then
      (pathCompleteValue (pathSetContainer r.1 none), r.2)
    else r

/-- `lonejson__json_value_object_begin`. -/
def jsonValueObjectBegin (env : Env σ) (c : Core σ) : Core σ × Status :=
  jsonValueContainerBegin env c .object .objectBegin

/-- `lonejson__json_value_object_end`. -/
def jsonValueObjectEnd (env : Env σ) (c : Core σ) : Core σ × Status :=
  jsonValueContainerEnd env c .objectEnd

/-- `lonejson__json_value_array_begin`. -/
def jsonValueArrayBegin (env : Env σ) (c : Core σ) : Core σ × Status :=
  jsonValueContainerBegin env c .array .arrayBegin

/-- `lonejson__json_value_array_end`. -/
def jsonValueArrayEnd (env : Env σ) (c : Core σ) : Core σ × Status :=
  jsonValueContainerEnd env c .arrayEnd

/-! ## Strings and keys -/

/-- `lonejson__json_value_string_begin_visitor`. -/
def jsonValueStringBeginVisitor (env : Env σ) (c : Core σ) (isKey : Bool) : Core σ × Status :=
  let event := if isKey then VisitEvent.keyBegin else .stringBegin
  if !c.json.pathVisitActive then visitEvent env c event
  else
    andThenSoft (if isKey then pathPrepareKey env c else pathBeginValue env c) fun c =>
      visitAnyEvent env c event

/-- `lonejson__json_value_string_end_visitor`. -/
def jsonValueStringEndVisitor (env : Env σ) (c : Core σ) (isKey : Bool) : Core σ × Status :=
  let event := if isKey then VisitEvent.keyEnd else .stringEnd
  if !c.json.pathVisitActive then visitEvent env c event
  else
    let r := visitAnyEvent env c event
    if r.2.soft then
      if isKey then pathPushObjectKey env r.1 else (pathCompleteValue r.1, r.2)
    else r

/-- `lonejson__json_value_string_begin`. -/
def jsonValueStringBegin (env : Env σ) (c : Core σ) (isKey : Bool) : Core σ × Status :=
  if c.json.value.isNone then c.setError .internalError "JSON value stream has no destination"
  else
    let c := { c with json := { c.json with textBytes := 0, textIsKey := isKey } }
    if !c.json.parseVisitorActive then jsonValueEmit env c [0x22]
    else jsonValueStringBeginVisitor env c isKey

/-- `lonejson__json_value_string_chunk`. -/
def jsonValueStringChunk (env : Env σ) (c : Core σ) (data : Bytes) : Core σ × Status :=
  let isKey := c.json.textIsKey
  let limit := if isKey then c.valueLimits.maxKeyBytes else c.valueLimits.maxStringBytes
  let message := if isKey then "JSON object key exceeds maximum decoded byte limit"
    else "JSON string exceeds maximum decoded byte limit"
  if !c.json.parseVisitorActive then
    if limit ≠ 0 ∧ c.json.textBytes + data.length > limit then c.setError .overflow message
    else
      let textBytes := c.json.textBytes + data.length
      let c := { c with json := { c.json with textBytes } }
      emitEscapedFragment (jsonTextSink env) c data
  else
    visitChunk env c (if isKey then .keyChunk data else .stringChunk data) data true limit message

/-- `lonejson__json_value_string_end`. -/
def jsonValueStringEnd (env : Env σ) (c : Core σ) : Core σ × Status :=
  let isKey := c.json.textIsKey
  let c := { c with json := { c.json with textBytes := 0, textIsKey := false } }
  if !c.json.parseVisitorActive then jsonValueEmit env c [0x22]
  else jsonValueStringEndVisitor env c isKey

/-! ## Whole scalars -/

/-- The two visitor modes, with or without a visitor. -/
def JsonParseMode.isVisitor : JsonParseMode → Bool
  | .visitor _ | .pathVisitor _ => true
  | _ => false

/-- `lonejson_lex_mode`. -/
inductive LexMode where
  | none
  | string
  | number
  | true
  | false
  | null
  deriving DecidableEq, Repr

/-- The events of a scalar other than a string, in the order the parser asks for
them. -/
def jsonVisitScalar (env : Env σ) (c : Core σ) (text : Bytes) : LexMode → Core σ × Status
  | .number => jsonValueNumber env c text
  | .true => jsonValueVisitBool env c true
  | .false => jsonValueVisitBool env c false
  | .null => jsonValueNull env c
  | _ => (c, .ok)

def trueText : Bytes := [0x74, 0x72, 0x75, 0x65]

def falseText : Bytes := [0x66, 0x61, 0x6c, 0x73, 0x65]

def nullText : Bytes := [0x6e, 0x75, 0x6c, 0x6c]

/-- The text that is emitted for a scalar other than a string. -/
def scalarText (text : Bytes) : LexMode → Bytes
  | .true => trueText
  | .false => falseText
  | .null => nullText
  | _ => text

/-- `lonejson__assign_json_scalar`. -/
def assignJsonScalar (env : Env σ) (c : Core σ) (ptr : SlotPtr) (text : Bytes)
    (mode : LexMode) : Core σ × Status :=
  andThenOk (beginJsonStream env c ptr 0) fun c =>
    let unexpected : Core σ × Status := c.setError .internalError "unexpected JSON scalar mode"
    if c.streamedValue?.any fun v => v.2.parseMode.isVisitor then
      let r := andThenOk (pathEnsure env c) fun c =>
        match mode with
        | .none => c.setError .internalError "unexpected JSON scalar mode"
        | .string =>
          andThenOk (jsonValueStringBegin env c false) fun c =>
            andThenOk (jsonValueStringChunk env c text) fun c => jsonValueStringEnd env c
        | mode => jsonVisitScalar env c text mode
      ((clearJsonStreamValue env r.1).setJsonDepth 0, r.2)
    else
      let r := match mode with
        | .none => unexpected
        | .string => jsonValueEmitString env c text
        | .null => jsonValueEmit env c nullText
        | _ => jsonValueEmit env c text
      (clearJsonStreamValue env r.1, r.2)

end Lonejson
