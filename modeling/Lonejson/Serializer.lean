import Lonejson.Base64Fields
import Lonejson.Integers

/-!
# The serializer

The text of a mapped record. The serializer of `lonejson_serialize_sink`, which indents or does
not, and the copy of it that stores into a buffer are one definition, given what each of them
emits with; the shape of a member follows the kind of its field.
-/

namespace Lonejson

open Json (nullText)

/-! ## Members that are left out -/

/-- The first switch of `lonejson__field_is_empty_for_omit`. -/
def Value.isNull : Value → Bool
  | .string ptr => ptr.isNone
  | .source s => s.kind == .none
  | .jsonValue v => v.kind == .null
  | _ => false

/-- `lonejson__field_is_empty_for_omit`, given what its two switches find. -/
def Field.isEmptyForOmit (field : Field) (present null empty : Bool) : Bool :=
  if field.flags.hasPresence && !present then true
  else if !field.flags.omitNull && !field.flags.omitEmpty then false
  else null || (field.flags.omitEmpty && empty)

mutual

/-- The second switch of `lonejson__field_is_empty_for_omit`. -/
def Value.isEmpty (maps : MapTable) : Value → Field → Bool
  | .string none, _ => true
  | .string (some text), _ => (cString text.data).isEmpty
  | .fixedString buffer, field => field.fixedCapacity == 0 || (cString buffer).isEmpty
  | .spooled s, _ => s.size == 0
  | .object members, field =>
    match field.submap with
    | none => true
    | some map => !mapHasSerializedFields maps members (maps map).fields
  | .stringArray items _, _ => items.isEmpty
  | .i64Array items _, _ => items.isEmpty
  | .u64Array items _, _ => items.isEmpty
  | .f64Array items _, _ => items.isEmpty
  | .boolArray items _, _ => items.isEmpty
  | .objectArray items _, _ => items.isEmpty
  | _, _ => false

/-- `lonejson__map_has_serialized_fields`. -/
def mapHasSerializedFields (maps : MapTable) : List (Value × Bool) → List Field → Bool
  | (v, present) :: members, field :: fields =>
    if !field.isEmptyForOmit present v.isNull (v.isEmpty maps field) then true
    else mapHasSerializedFields maps members fields
  | _, _ => false

end

/-- `lonejson__field_should_omit`. -/
def fieldShouldOmit (maps : MapTable) (field : Field) (v : Value) (present : Bool) : Bool :=
  if field.flags.required then false
  else field.isEmptyForOmit present v.isNull (v.isEmpty maps field)

/-! ## Pieces -/

variable {τ : Type}

/-- `lonejson__emit`, and a return unless the status is one to go on with. -/
def JsonIo.emitBytes (sink : Sink τ) (io : JsonIo τ) (data : Bytes) :
    Except (JsonIo τ) (JsonIo τ) :=
  if data = [] then .ok io.done else io.emit sink data

/-- `lonejson__emit_escaped_bytes`. -/
def JsonIo.emitEscapedBytes (sink : Sink τ) (io : JsonIo τ) (text : Bytes) :
    Except (JsonIo τ) (JsonIo τ) :=
  (io.emitBytes sink [0x22]).bind fun io =>
    (if text.all isPlain then io.emitBytes sink text
      else io.emitAll sink (escapedPieces [] text)).bind fun io => io.emitBytes sink [0x22]

/-- `lonejson__set_error` with the position that the record has. -/
def JsonIo.failHere (io : JsonIo τ) (code : Status) (message : String) (messageArg : Bytes) :
    JsonIo τ :=
  { io with error := { io.error with code, message, messageArg }, status := code }

/-- What a serializer emits with: the sink of the functions that it shares with the others, and
its own functions for a piece, for a text in quotes and for the digits of a number. -/
structure EmitOps (τ : Type) where
  sink : Sink τ
  emit : JsonIo τ → Bytes → Except (JsonIo τ) (JsonIo τ)
  escaped : JsonIo τ → Bytes → Except (JsonIo τ) (JsonIo τ)
  u64 : UInt64 → Option (List Bytes)
  i64 : Int64 → Option (List Bytes)

/-- The functions that emit into a sink. -/
def sinkOps (sink : Sink τ) : EmitOps τ where
  sink
  emit io data := io.emitBytes sink data
  escaped io text := io.emitEscapedBytes sink text
  u64 := emitU64Value
  i64 := emitI64Value

/-! ## Texts that are read in chunks -/

/-- The loop of `lonejson__serialize_spooled_text` and of `lonejson__serialize_source_text`. -/
def serializeTextChunks (sink : Sink τ) (message : String) :
    List ReadResult → JsonIo τ → Except (JsonIo τ) (JsonIo τ)
  | [], io => .ok io
  | chunk :: reads, io =>
    if chunk.errorCode ≠ 0 then .error (io.fail .ioError message)
    else
      (if chunk.bytes ≠ [] then io.emitAll sink (escapedPieces [] chunk.bytes)
        else .ok io).bind fun io =>
          if chunk.eof then .ok io else serializeTextChunks sink message reads io

/-- `lonejson__serialize_spooled_text`; the cursor is the rewound value. -/
def serializeSpooledText (sink : Sink τ) (cursor : Cursor) (io : JsonIo τ) :
    Except (JsonIo τ) (JsonIo τ) :=
  (io.emit sink [0x22]).bind fun io =>
    match cursor with
    | .error message => .error (io.fail .ioError message)
    | .ok reads =>
      (serializeTextChunks sink "failed to read spooled text" reads io).bind fun io =>
        io.emit sink [0x22]

/-- `lonejson__serialize_source_text`; `none` is a source of kind NONE. -/
def serializeSourceText (sink : Sink τ) (source : Option Cursor) (io : JsonIo τ) :
    Except (JsonIo τ) (JsonIo τ) :=
  match source with
  | none => io.emit sink nullText
  | some (.error message) => .error (io.fail .ioError message)
  | some (.ok reads) =>
    (io.emit sink [0x22]).bind fun io =>
      (serializeTextChunks sink "failed to read source text" reads io).bind fun io =>
        io.emit sink [0x22]

/-! ## Values -/

/-- What a serialization reads besides the record: the maps and whether their layouts are
valid, the reads of spooled values, of sources and of JSON values that are not in memory, and
the texts of the doubles, where `none` is a failure of `snprintf`. -/
structure SerializeEnv where
  maps : MapTable
  layoutIsValid : MapId → Bool
  spooled : Spooled → Cursor
  source : Source → Cursor
  json : JsonValue → Bytes × Ahead
  formatF64 : UInt64 → Option Bytes

/-- `lonejson__is_finite_f64`, of the bits of a double: not every bit of the exponent is set. -/
def isFiniteF64 (bits : UInt64) : Bool := (bits >>> 52) &&& 0x7ff != 0x7ff

/-- `lonejson__source_cursor_open`, where the source has a content. -/
def SerializeEnv.cursor (env : SerializeEnv) (source : Source) : Option Cursor :=
  if source.kind = .none then none else some (env.source source)

section

variable (env : SerializeEnv) (ops : EmitOps τ) (pretty : Bool)

def serializeEach (io : JsonIo τ) : List Bytes → Except (JsonIo τ) (JsonIo τ)
  | [] => .ok io
  | piece :: pieces => (ops.emit io piece).bind fun io => serializeEach io pieces

/-- A number. No digit is stored in front of the buffer that the digits are collected in, which
`none` would stand for. -/
def serializeDigits (pieces : Option (List Bytes)) (io : JsonIo τ) : Except (JsonIo τ) (JsonIo τ) :=
  match pieces with
  | none => .error (io.failHere .internalError "" [])
  | some pieces => serializeEach ops io pieces

/-- A double, and the message of one that is not finite. -/
def serializeF64 (message : String) (bits : UInt64) (io : JsonIo τ) :
    Except (JsonIo τ) (JsonIo τ) :=
  if !isFiniteF64 bits then .error (io.failHere .typeMismatch message [])
  else
    match env.formatF64 bits with
    | none => .error (io.failHere .internalError "failed to format number" [])
    | some text => ops.emit io text

def serializeBool (value : Bool) (io : JsonIo τ) : Except (JsonIo τ) (JsonIo τ) :=
  ops.emit io (if value then Json.trueText else Json.falseText)

/-- A line break, in the serializer that indents. -/
def serializeIndent (depth : ℕ) (io : JsonIo τ) : Except (JsonIo τ) (JsonIo τ) :=
  if pretty then io.emitIndent ops.sink depth else .ok io

/-- What stands in front of an element of an array, or in front of a key. -/
def serializeSeparator (first : Bool) (depth : ℕ) (io : JsonIo τ) :
    Except (JsonIo τ) (JsonIo τ) :=
  (if first then .ok io else ops.emit io [0x2c]).bind fun io =>
    serializeIndent ops pretty (depth + 1) io

/-- An array; the serializer that indents returns early for an empty one. -/
def serializeBrackets (depth : ℕ) (empty : Bool)
    (elements : JsonIo τ → Except (JsonIo τ) (JsonIo τ)) (io : JsonIo τ) :
    Except (JsonIo τ) (JsonIo τ) :=
  (ops.emit io [0x5b]).bind fun io =>
    if pretty && empty then ops.emit io [0x5d]
    else
      (elements io).bind fun io =>
        (serializeIndent ops pretty depth io).bind fun io => ops.emit io [0x5d]

/-- The loop over the elements of an array. -/
def serializeElements {α : Type} (write : α → JsonIo τ → Except (JsonIo τ) (JsonIo τ))
    (depth : ℕ) : Bool → List α → JsonIo τ → Except (JsonIo τ) (JsonIo τ)
  | _, [], io => .ok io
  | first, item :: items, io =>
    (serializeSeparator ops pretty first depth io).bind fun io =>
      (write item io).bind fun io => serializeElements write depth false items io

def serializeArray {α : Type} (write : α → JsonIo τ → Except (JsonIo τ) (JsonIo τ)) (depth : ℕ)
    (items : List α) (io : JsonIo τ) : Except (JsonIo τ) (JsonIo τ) :=
  serializeBrackets ops pretty depth items.isEmpty
    (serializeElements ops pretty write depth true items) io

/-- The key of a member, and the colon. -/
def serializeKey (first : Bool) (depth : ℕ) (key : Bytes) (io : JsonIo τ) :
    Except (JsonIo τ) (JsonIo τ) :=
  (serializeSeparator ops pretty first depth io).bind fun io =>
    (ops.escaped io key).bind fun io => ops.emit io (if pretty then [0x3a, 0x20] else [0x3a])

/-- An object around its members; these report whether they have written one. -/
def serializeBraces (depth : ℕ) (members : JsonIo τ → Except (JsonIo τ) (Bool × JsonIo τ))
    (io : JsonIo τ) : Except (JsonIo τ) (JsonIo τ) :=
  (ops.emit io [0x7b]).bind fun io =>
    (members io).bind fun x =>
      (if x.1 then serializeIndent ops pretty depth x.2 else .ok x.2).bind fun io =>
        ops.emit io [0x7d]

mutual

/-- `lonejson__serialize_value_pretty`, `lonejson__serialize_value_compact` and
`lonejson__serialize_value_compact_buffer_exact`. -/
def serializeValue (field : Field) (depth : ℕ) :
    Value → JsonIo τ → Except (JsonIo τ) (JsonIo τ)
  | .string none, io => ops.emit io nullText
  | .string (some text), io => ops.escaped io (cString text.data)
  | .fixedString buffer, io => ops.escaped io (cString buffer)
  | .spooled s, io =>
    if field.kind = .base64Stream then serializeSpooledBase64 ops.sink (env.spooled s) io
    else serializeSpooledText ops.sink (env.spooled s) io
  | .source s, io =>
    if field.kind = .base64Source then serializeSourceBase64 ops.sink (env.cursor s) io
    else serializeSourceText ops.sink (env.cursor s) io
  | .jsonValue v, io =>
    (jsonTranscode ops.sink v (env.json v).1 (env.json v).2 pretty
      (if pretty then depth + 1 else 0) io).checked
  | .i64 value, io => serializeDigits ops (ops.i64 (Int64.ofInt value)) io
  | .u64 value, io => serializeDigits ops (ops.u64 (UInt64.ofNat value)) io
  | .f64 bits, io => serializeF64 env ops "non-finite double cannot be serialized" bits io
  | .bool value, io => serializeBool ops value io
  | .object members, io =>
    match field.submap with
    -- a layout with such a field is not valid
    | none => .error (io.failHere .internalError "unsupported field kind" [])
    | some map =>
      serializeBraces ops pretty depth
        (fun io => serializeMembers depth (env.maps map).fields members true io) io
  | .stringArray items _, io =>
    serializeArray ops pretty
      (fun item io => ops.escaped io (item.elim [] fun text => cString text.data)) depth items io
  | .i64Array items _, io =>
    serializeArray ops pretty (fun item => serializeDigits ops (ops.i64 (Int64.ofInt item)))
      depth items io
  | .u64Array items _, io =>
    serializeArray ops pretty (fun item => serializeDigits ops (ops.u64 (UInt64.ofNat item)))
      depth items io
  | .f64Array items _, io =>
    serializeArray ops pretty
      (serializeF64 env ops "non-finite double array element cannot be serialized") depth items io
  | .boolArray items _, io => serializeArray ops pretty (serializeBool ops) depth items io
  | .objectArray items _, io =>
    match field.submap with
    | none => .error (io.failHere .internalError "unsupported field kind" [])
    | some map =>
      serializeBrackets ops pretty depth items.isEmpty
        (fun io => serializeRecords depth (env.maps map).fields items true io) io
  | .stringArrayStream _, io =>
    .error (io.failHere .typeMismatch "field '%s' is parse-only and cannot be serialized"
      field.jsonKey)
  | .mappedArrayStream _ _, io =>
    .error (io.failHere .typeMismatch "field '%s' is parse-only and cannot be serialized"
      field.jsonKey)

/-- The loop over the fields of a map; `first` is that none has been written. -/
def serializeMembers (depth : ℕ) :
    List Field → List (Value × Bool) → Bool → JsonIo τ → Except (JsonIo τ) (Bool × JsonIo τ)
  | field :: fields, (v, present) :: members, first, io =>
    if fieldShouldOmit env.maps field v present then
      serializeMembers depth fields members first io
    else
      (serializeKey ops pretty first depth field.jsonKey io).bind fun io =>
        (serializeValue field (depth + 1) v io).bind fun io =>
          serializeMembers depth fields members false io
  | _, _, first, io => .ok (!first, io)

/-- The loop over the elements of an array of objects. -/
def serializeRecords (depth : ℕ) (fields : List Field) :
    List (List (Value × Bool)) → Bool → JsonIo τ → Except (JsonIo τ) (JsonIo τ)
  | [], _, io => .ok io
  | record :: records, first, io =>
    (serializeSeparator ops pretty first depth io).bind fun io =>
      (serializeBraces ops pretty (depth + 1)
        (fun io => serializeMembers (depth + 1) fields record true io) io).bind fun io =>
          serializeRecords depth fields records false io

end

def serializeMap (map : MapId) (src : Record) (depth : ℕ) (io : JsonIo τ) :
    Except (JsonIo τ) (JsonIo τ) :=
  serializeBraces ops pretty depth
    (fun io => serializeMembers env ops pretty depth (env.maps map).fields src true io) io

end

/-- `lonejson__serialize_map_pretty`. -/
def serializeMapPretty (env : SerializeEnv) (sink : Sink τ) (map : MapId) (src : Record)
    (depth : ℕ) (io : JsonIo τ) : Except (JsonIo τ) (JsonIo τ) :=
  serializeMap env (sinkOps sink) true map src depth io

/-- `lonejson__serialize_map_compact`. -/
def serializeMapCompact (env : SerializeEnv) (sink : Sink τ) (map : MapId) (src : Record)
    (io : JsonIo τ) : Except (JsonIo τ) (JsonIo τ) :=
  serializeMap env (sinkOps sink) false map src 0 io

/-! ## The fixed buffer -/

/-- `lonejson_buffer_sink` over the caller's buffer of `capacity` bytes. -/
structure BufferSink where
  buffer : Bytes
  length : ℕ := 0
  needed : ℕ := 0
  policy : OverflowPolicy
  truncated : Bool := false
  deriving DecidableEq, Repr

def BufferSink.capacity (s : BufferSink) : ℕ := s.buffer.length

def BufferSink.available (s : BufferSink) : ℕ :=
  if s.capacity > s.length then s.capacity - s.length else 0

def BufferSink.writable (s : BufferSink) : ℕ := if s.available > 0 then s.available - 1 else 0

/-- The `memcpy` behind the bytes that are stored. -/
def BufferSink.store (s : BufferSink) (data : Bytes) : BufferSink :=
  { s with
    buffer := s.buffer.take s.length ++ data ++ s.buffer.drop (s.length + data.length)
    length := s.length + data.length }

/-- The error of a buffer that is too small. -/
def bufferTooSmall (error : ErrorInfo) : ErrorInfo :=
  { error with code := .overflow, message := "output buffer too small", messageArg := [] }

/-- `lonejson__sink_buffer`. -/
def sinkBuffer : Sink BufferSink := fun sink data error =>
  let available := sink.available
  let writable := sink.writable
  let sink : BufferSink := { sink with needed := sizeAdd sink.needed data.length }
  let sink :=
    if available > 0 then
      let copied := data.take writable
      if copied.length > 0 then sink.store copied else sink
    else sink
  if data.length > writable then
    let sink : BufferSink := { sink with truncated := true }
    if sink.policy = .fail then (sink, bufferTooSmall error, .overflow)
    else (sink, error, if sink.policy = .truncate then .truncated else .ok)
  else (sink, error, .ok)

/-- `lonejson__sink_buffer_exact`. -/
def sinkBufferExact : Sink BufferSink := fun sink data error =>
  let writable := sink.writable
  let sink : BufferSink := { sink with needed := sizeAdd sink.needed data.length }
  if data.length > writable then
    ({ sink with truncated := true }, bufferTooSmall error, .overflow)
  else if data.length ≠ 0 then (sink.store data, error, .ok)
  else (sink, error, .ok)

/-- `lonejson__buffer_emit_exact`, which repeats the sink, and a return unless the status
is OK. -/
def JsonIo.bufferEmitExact (io : JsonIo BufferSink) (data : Bytes) :
    Except (JsonIo BufferSink) (JsonIo BufferSink) :=
  let io := io.call sinkBufferExact data
  if io.status = .ok then .ok io else .error io

def JsonIo.bufferEmitAllExact :
    JsonIo BufferSink → List Bytes → Except (JsonIo BufferSink) (JsonIo BufferSink)
  | io, [] => .ok io
  | io, piece :: pieces => (io.bufferEmitExact piece).bind fun io => io.bufferEmitAllExact pieces

/-- `lonejson__buffer_emit_escaped_bytes_exact`. -/
def JsonIo.bufferEmitEscapedBytesExact (io : JsonIo BufferSink) (text : Bytes) :
    Except (JsonIo BufferSink) (JsonIo BufferSink) :=
  (io.bufferEmitExact [0x22]).bind fun io =>
    (io.bufferEmitAllExact (escapedPieces [] text)).bind fun io => io.bufferEmitExact [0x22]

/-- The functions that store into a buffer. -/
def exactOps : EmitOps BufferSink where
  sink := sinkBufferExact
  emit := JsonIo.bufferEmitExact
  escaped := JsonIo.bufferEmitEscapedBytesExact
  u64 := bufferEmitU64ValueExact
  i64 := bufferEmitI64ValueExact

/-- `lonejson__serialize_map_compact_buffer_exact`. -/
def serializeMapCompactBufferExact (env : SerializeEnv) (map : MapId) (src : Record)
    (io : JsonIo BufferSink) : Except (JsonIo BufferSink) (JsonIo BufferSink) :=
  serializeMap env exactOps false map src 0 io

/-! ## The calls -/

/-- `lonejson__write_options`, as far as these calls read it. -/
structure WriteOptions where
  overflowPolicy : OverflowPolicy := .fail
  pretty : Bool := false
  deriving DecidableEq, Repr

/-- Where the functions return from. -/
def JsonIo.returned : Except (JsonIo τ) (JsonIo τ) → JsonIo τ
  | .ok io => io
  | .error io => io

/-- `lonejson__serialize_sink_with_options`; `none` is NULL. -/
def serializeSinkWithOptions (env : SerializeEnv) (map : Option MapId) (src : Option Record)
    (sink : Sink τ) (options : WriteOptions) (io : JsonIo τ) : JsonIo τ :=
  match map, src with
  | some map, some src =>
    if !env.layoutIsValid map then io.fail .invalidArgument "invalid map layout"
    else
      let io := { io with error := {} }
      if options.pretty then JsonIo.returned (serializeMapPretty env sink map src 0 io)
      else JsonIo.returned (serializeMapCompact env sink map src io)
  | _, _ => io.fail .invalidArgument "map, source, and sink are required"

/-- What a call leaves: the buffer, `needed` where it is set, the error record and the status. -/
structure BufferResult where
  buffer : Bytes
  needed : Option ℕ
  error : ErrorInfo
  status : Status
  deriving DecidableEq, Repr

/-- The compact serializer of `lonejson__serialize_buffer_with_options` for the policy FAIL. -/
def serializeBufferExact (env : SerializeEnv) (map : Option MapId) (src : Option Record)
    (io : JsonIo BufferSink) : JsonIo BufferSink :=
  match map, src with
  | some map, some src =>
    if !env.layoutIsValid map then io.fail .invalidArgument "invalid map layout"
    else
      let io := { io with error := {} }
      JsonIo.returned (serializeMapCompactBufferExact env map src io)
  | _, _ => io.fail .invalidArgument "map, source, and sink are required"

/-- `lonejson__serialize_buffer_with_options`; the buffer is empty where it is NULL or its
capacity is zero. -/
def serializeBufferWithOptions (env : SerializeEnv) (map : Option MapId) (src : Option Record)
    (buffer : Bytes) (options : WriteOptions) (error : ErrorInfo) : BufferResult :=
  if buffer = [] then
    { buffer, needed := none
      error := error.set .invalidArgument "output buffer and capacity are required"
      status := .invalidArgument }
  else
    let sink : BufferSink := { buffer := buffer.set 0 0, policy := options.overflowPolicy }
    let io : JsonIo BufferSink := { out := sink, error }
    let io :=
      if options.overflowPolicy = .fail ∧ !options.pretty then serializeBufferExact env map src io
      else
        serializeSinkWithOptions env map src
          (if options.overflowPolicy = .fail then sinkBufferExact else sinkBuffer) options io
    let sink := io.out
    let last := if sink.length < sink.capacity then sink.length else sink.capacity - 1
    { buffer := sink.buffer.set last 0
      needed := some sink.needed
      error := io.error
      status :=
        if io.status = .ok ∧ sink.truncated ∧ options.overflowPolicy = .truncate then .truncated
        else io.status }

end Lonejson
