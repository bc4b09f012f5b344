import Lonejson.Framing
import Lonejson.Transcoder
import Lonejson.Trees

/-!
# The JSON writer

The calls of a writer: the checks it makes before anything is written, the frames that
place the commas, and the event that lets a call be interrupted and issued again. Whether
the output is blocked, and how a nested value is generated, is given by the environment, so
that the same calls serve a writer into a sink and a writer inside a generator.
-/

namespace Lonejson

/-- Where the bytes of an event lie: with the caller, or in one of the two buffers of the
writer. -/
inductive Address where
  | caller (n : ℕ)
  | eventBuffer
  | number
  deriving DecidableEq, Repr

/-- A pointer and a length, with the bytes there. -/
structure Slice where
  address : Address := .caller 0
  bytes : Bytes
  deriving DecidableEq, Repr

/-- `lonejson_read_result`. -/
structure ReadResult where
  bytes : Bytes := []
  eof : Bool := false
  wouldBlock : Bool := false
  errorCode : ℕ := 0
  deriving DecidableEq, Repr

/-- The root frame of a nested generator. A value that is read from a file, a descriptor,
a path or a spool comes with the bytes that it delivers. -/
inductive GeneratorRoot where
  | map (map : MapId) (src : Record)
  | jsonValue (value : JsonValue) (source : Bytes)
  | spooledText (value : Spooled)
  | spooledBase64 (value : Spooled)
  | sourceText (value : Source) (source : Bytes)
  | sourceBase64 (value : Source) (source : Bytes)

/-- What a read of a generator returns. -/
structure GeneratorRead (γ : Type) where
  generator : γ
  bytes : Bytes
  eof : Bool
  status : Status
  error : ErrorInfo

/-- What the calls of a writer are given. The world `σ` holds the sink and everything that
the caller's code reads and writes. -/
structure WriterEnv (σ γ : Type) where
  sink : Sink σ
  /-- `lonejson__writer_output_blocked`. -/
  blocked : σ → Bool
  /-- `lonejson__writer_generator_output_available`; `none` for a writer into a sink. -/
  available : σ → Option ℕ
  /-- Whether the frame stack can grow beyond this many frames. -/
  canGrow : σ → ℕ → Bool
  /-- `lonejson__writer_child_init`. -/
  childInit : σ → GeneratorRoot → ErrorInfo → Except ErrorInfo γ
  /-- `lonejson_generator_read`. -/
  childRead : γ → ℕ → GeneratorRead γ
  /-- A bound for the reads that a generator takes. -/
  childFuel : γ → ℕ

/-- `lonejson__writer_frame`. -/
structure WriterFrame where
  kind : ContainerKind
  count : ℕ := 0
  afterKey : Bool := false
  deriving DecidableEq, Repr

/-- `lonejson__writer_event_kind`. -/
inductive WriterEventKind where
  | none
  | string
  | stringChunk
  | key
  | bytes
  | child
  | scalarBytes
  deriving DecidableEq, Repr

/-- The `event_*` members. `data2` is the second pointer of a nested value. -/
structure WriterEvent (γ : Type) where
  kind : WriterEventKind := .none
  address : Address := .caller 0
  data2 : ℕ := 0
  len : ℕ := 0
  off : ℕ := 0
  phase : ℕ := 0
  buffer : Bytes := []
  child : Option γ := none

/-- The `string_reader_*` members; `buffer` are the bytes that were read and not yet
written. -/
structure WriterStringReader where
  active : Bool := false
  reader : ℕ := 0
  buffer : Bytes := []
  eof : Bool := false
  deriving DecidableEq, Repr

/-- `lonejson__writer_state`, with the world and the error record that the calls are given.
The frames are listed from the top of the stack. -/
structure Writer (σ γ : Type) where
  out : σ
  error : ErrorInfo := {}
  frames : List WriterFrame := []
  rootWritten : Bool := false
  finished : Bool := false
  stringOpen : Bool := false
  numberOpen : Bool := false
  event : WriterEvent γ := {}
  failed : Bool := false
  valueStreamActive : Bool := false
  stringReader : WriterStringReader := {}
  number : Bytes := []
  maxNumberBytes : ℕ := 256

variable {σ γ : Type}

/-- `lonejson__writer_set_error`. -/
def Writer.setError (w : Writer σ γ) (code : Status) (message : String) : Writer σ γ × Status :=
  ({ w with error := w.error.set code message }, code)

/-- `lonejson__writer_fail`. -/
def Writer.fail (w : Writer σ γ) (code : Status) (message : String) : Writer σ γ × Status :=
  Writer.setError { w with failed := true } code message

/-- A check that is made before a call does anything. -/
def Writer.check (w : Writer σ γ) (bad : Bool) (message : String) (code : Status := .invalidJson) :
    Writer σ γ × Status :=
  if bad then w.setError code message else (w, .ok)

def Writer.checkFailed (w : Writer σ γ) : Writer σ γ × Status :=
  w.check w.failed "writer is in a failed state"

def Writer.checkStream (w : Writer σ γ) : Writer σ γ × Status :=
  w.check w.valueStreamActive "writer value stream is still open"

def Writer.checkString (w : Writer σ γ) : Writer σ γ × Status :=
  w.check w.stringOpen "writer string is still open"

def Writer.checkNumber (w : Writer σ γ) : Writer σ γ × Status :=
  w.check w.numberOpen "writer number is still open"

/-- `lonejson__writer_require_available`. -/
def Writer.requireAvailable (w : Writer σ γ) : Writer σ γ × Status :=
  andThenOk w.checkFailed fun w => andThenOk w.checkStream fun w => w.checkNumber

/-- `lonejson__writer_emit`. -/
def Writer.emit (env : WriterEnv σ γ) (w : Writer σ γ) (data : Bytes) : Writer σ γ × Status :=
  if data = [] then (w, .ok)
  else
    let r := env.sink w.out data w.error
    let w := { w with out := r.1, error := r.2.1 }
    if r.2.2.soft then (w, r.2.2) else ({ w with failed := true }, r.2.2)

/-- `if (lonejson__writer_output_blocked(writer)) return TRUNCATED;` -/
def Writer.unblocked (env : WriterEnv σ γ) (w : Writer σ γ) : Writer σ γ × Status :=
  if env.blocked w.out then (w, .truncated) else (w, .ok)

/-- `lonejson__writer_clear_event`; the event buffer is not cleared. -/
def Writer.clearEvent (w : Writer σ γ) : Writer σ γ :=
  { w with event := { buffer := w.event.buffer } }

/-- `lonejson__writer_begin_event`. -/
def Writer.beginEvent (w : Writer σ γ) (kind : WriterEventKind) (address : Address) (len : ℕ) :
    Writer σ γ × Status :=
  andThenOk w.requireAvailable fun w =>
    if w.event.kind ≠ .none then
      w.check (w.event.kind ≠ kind || w.event.address ≠ address || w.event.len ≠ len)
        "active writer event must be resumed with the same arguments" .invalidArgument
    else ({ w with event := { kind, address, len, buffer := w.event.buffer,
                              child := w.event.child } }, .ok)

def Writer.setPhase (w : Writer σ γ) (phase : ℕ) : Writer σ γ :=
  { w with event := { w.event with phase } }

/-! ## Bytes and escapes -/

/-- `lonejson__writer_string_reader_emit_byte`, what it emits. -/
def writtenByte (b : Byte) : Bytes := if isPlain b then [b] else escapeByte b

/-- The content of a string as it is written. -/
def escapeText (content : Bytes) : Bytes := content.flatMap writtenByte

/-- `lonejson__writer_emit_escaped_event` and `lonejson__writer_emit_bytes_event`, on the bytes
from `event_off` on. -/
def Writer.emitEach (env : WriterEnv σ γ) (piece : Byte → Bytes) :
    Bytes → Writer σ γ → Writer σ γ × Status
  | [], w => (w, .ok)
  | b :: rest, w =>
    andThenOk (w.unblocked env) fun w =>
      andThenOk (w.emit env (piece b)) fun w =>
        Writer.emitEach env piece rest { w with event := { w.event with off := w.event.off + 1 } }

def Writer.emitEscapedEvent (env : WriterEnv σ γ) (data : Bytes) (w : Writer σ γ) :
    Writer σ γ × Status :=
  Writer.emitEach env writtenByte (data.drop w.event.off) w

def Writer.emitBytesEvent (env : WriterEnv σ γ) (data : Bytes) (w : Writer σ γ) :
    Writer σ γ × Status :=
  Writer.emitEach env (fun b => [b]) (data.drop w.event.off) w

/-! ## Frames -/

/-- `lonejson__writer_push_frame`. -/
def Writer.pushFrame (env : WriterEnv σ γ) (w : Writer σ γ) (kind : ContainerKind) :
    Writer σ γ × Status :=
  if env.canGrow w.out w.frames.length then ({ w with frames := { kind } :: w.frames }, .ok)
  else w.setError .allocationFailed "failed to grow writer stack"

/-- The end of `lonejson__writer_before_value`: the comma, and the count of the top frame. -/
def Writer.placeValue (env : WriterEnv σ γ) (w : Writer σ γ) : Writer σ γ × Status :=
  match w.frames with
  | [] =>
    if w.rootWritten then w.setError .invalidJson "writer already has a root value"
    else ({ w with rootWritten := true }, .ok)
  | frame :: rest =>
    match frame.kind with
    | .array =>
      andThenOk (if frame.count ≠ 0 then w.emit env [0x2c] else (w, .ok)) fun w =>
        ({ w with frames := { frame with count := frame.count + 1 } :: rest }, .ok)
    | .object =>
      if !frame.afterKey then
        w.setError .invalidJson "object values must be preceded by a writer key"
      else
        ({ w with frames := { frame with count := frame.count + 1, afterKey := false } :: rest },
          .ok)

/-- `lonejson__writer_before_value`. -/
def Writer.beforeValue (env : WriterEnv σ γ) (w : Writer σ γ) : Writer σ γ × Status :=
  andThenOk w.checkFailed fun w => andThenOk w.checkStream fun w =>
  andThenOk w.checkString fun w => andThenOk w.checkNumber fun w =>
  andThenOk (w.check w.finished "writer is already finished" .invalidArgument) fun w =>
  andThenOk (w.unblocked env) fun w => w.placeValue env

/-- `lonejson__writer_emit_value_bytes`. -/
def Writer.emitValueBytes (env : WriterEnv σ γ) (w : Writer σ γ) (data : Bytes) :
    Writer σ γ × Status :=
  andThenOk (w.beforeValue env) fun w => w.emit env data

/-- The two calls that open a container. -/
def Writer.beginContainer (env : WriterEnv σ γ) (kind : ContainerKind) (mark : Byte)
    (w : Writer σ γ) : Writer σ γ × Status :=
  andThenOk (w.beforeValue env) fun w =>
    andThenOk (w.emit env [mark]) fun w => w.pushFrame env kind

/-- `lonejson_writer_begin_object`. -/
def Writer.beginObject (env : WriterEnv σ γ) : Writer σ γ → Writer σ γ × Status :=
  Writer.beginContainer env .object 0x7b

/-- `lonejson_writer_begin_array`. -/
def Writer.beginArray (env : WriterEnv σ γ) : Writer σ γ → Writer σ γ × Status :=
  Writer.beginContainer env .array 0x5b

/-- The checks before a container is closed. -/
def Writer.checkClosing (w : Writer σ γ) : Writer σ γ × Status :=
  andThenOk w.checkFailed fun w => andThenOk w.checkStream fun w =>
    andThenOk w.checkString fun w => w.checkNumber

/-- `lonejson_writer_end_object`. -/
def Writer.endObject (env : WriterEnv σ γ) (w : Writer σ γ) : Writer σ γ × Status :=
  andThenOk w.checkClosing fun w =>
    match w.frames with
    | ⟨.object, _, afterKey⟩ :: rest =>
      if afterKey then w.setError .invalidJson "object key is missing a value"
      else andThenOk (w.emit env [0x7d]) fun w => ({ w with frames := rest }, .ok)
    | _ => w.setError .invalidJson "writer is not inside an object"

/-- `lonejson_writer_end_array`. -/
def Writer.endArray (env : WriterEnv σ γ) (w : Writer σ γ) : Writer σ γ × Status :=
  andThenOk w.checkClosing fun w =>
    match w.frames with
    | ⟨.array, _, _⟩ :: rest =>
      andThenOk (w.emit env [0x5d]) fun w => ({ w with frames := rest }, .ok)
    | _ => w.setError .invalidJson "writer is not inside an array"

/-! ## Keys and strings -/

/-- The first phase of `lonejson_writer_key`. -/
def Writer.keyStart (env : WriterEnv σ γ) (w : Writer σ γ) : Writer σ γ × Status :=
  andThenOk w.checkString fun w => andThenOk w.checkNumber fun w =>
  andThenOk (w.unblocked env) fun w =>
    match w.frames with
    | ⟨.object, count, afterKey⟩ :: _ =>
      if afterKey then w.setError .invalidJson "previous object key is missing a value"
      else
        andThenOk (if count ≠ 0 then w.emit env [0x2c] else (w, .ok)) fun w => (w.setPhase 1, .ok)
    | _ => w.setError .invalidJson "writer key requires an object"

/-- One phase of an event, which is skipped when the event is beyond it. -/
def Writer.inPhase (w : Writer σ γ) (phase : ℕ) (step : Writer σ γ → Writer σ γ × Status) :
    Writer σ γ × Status :=
  if w.event.phase = phase then step w else (w, .ok)

/-- A phase that emits a text, unless the output is blocked. -/
def Writer.emitPhase (env : WriterEnv σ γ) (text : Bytes) (next : ℕ) (w : Writer σ γ) :
    Writer σ γ × Status :=
  andThenOk (w.unblocked env) fun w => andThenOk (w.emit env text) fun w => (w.setPhase next, .ok)

/-- `frame->after_key = 1` on the top frame. -/
def afterKey : List WriterFrame → List WriterFrame
  | [] => []
  | frame :: rest => { frame with afterKey := true } :: rest

/-- `lonejson_writer_key`. -/
def Writer.key (env : WriterEnv σ γ) (w : Writer σ γ) (key : Slice) : Writer σ γ × Status :=
  andThenOk w.checkFailed fun w => andThenOk w.checkStream fun w =>
  andThenOk (w.beginEvent .key key.address key.bytes.length) fun w =>
  andThenOk (w.inPhase 0 (Writer.keyStart env)) fun w =>
  andThenOk (w.inPhase 1 (Writer.emitPhase env [0x22] 2)) fun w =>
  andThenOk (w.inPhase 2 fun w =>
    andThenOk (w.emitEscapedEvent env key.bytes) fun w => (w.setPhase 3, .ok)) fun w =>
  andThenOk (w.inPhase 3 (Writer.emitPhase env [0x22, 0x3a] 3)) fun w =>
    (Writer.clearEvent { w with frames := afterKey w.frames }, .ok)

/-- `lonejson_writer_string`. -/
def Writer.string (env : WriterEnv σ γ) (w : Writer σ γ) (data : Slice) : Writer σ γ × Status :=
  andThenOk (w.beginEvent .string data.address data.bytes.length) fun w =>
  andThenOk (w.inPhase 0 fun w =>
    andThenOk (w.beforeValue env) fun w => (w.setPhase 1, .ok)) fun w =>
  andThenOk (w.inPhase 1 (Writer.emitPhase env [0x22] 2)) fun w =>
  andThenOk (w.inPhase 2 fun w =>
    andThenOk (w.emitEscapedEvent env data.bytes) fun w => (w.setPhase 3, .ok)) fun w =>
  andThenOk (w.emitPhase env [0x22] 3) fun w => (w.clearEvent, .ok)

/-- `lonejson_writer_string_begin`. -/
def Writer.stringBegin (env : WriterEnv σ γ) (w : Writer σ γ) : Writer σ γ × Status :=
  andThenOk (w.beforeValue env) fun w =>
    andThenOk (w.emit env [0x22]) fun w => ({ w with stringOpen := true }, .ok)

/-- `lonejson_writer_string_chunk`. -/
def Writer.stringChunk (env : WriterEnv σ γ) (w : Writer σ γ) (data : Slice) :
    Writer σ γ × Status :=
  andThenOk w.checkFailed fun w => andThenOk w.checkStream fun w =>
  andThenOk (w.check (!w.stringOpen) "writer string is not open") fun w =>
  andThenOk (w.beginEvent .stringChunk data.address data.bytes.length) fun w =>
  andThenOk (w.emitEscapedEvent env data.bytes) fun w => (w.clearEvent, .ok)

/-- `lonejson_writer_string_end`. -/
def Writer.stringEnd (env : WriterEnv σ γ) (w : Writer σ γ) : Writer σ γ × Status :=
  andThenOk (w.check (!w.stringOpen) "writer string is not open") fun w =>
    andThenOk (w.emit env [0x22]) fun w => ({ w with stringOpen := false }, .ok)

/-- The bytes in the buffer of a string reader. -/
def Writer.drainReader (env : WriterEnv σ γ) : Bytes → Writer σ γ → Writer σ γ × Status
  | [], w => (w, .ok)
  | b :: rest, w =>
    andThenOk (w.unblocked env) fun w =>
      andThenOk (w.emit env (writtenByte b)) fun w =>
        Writer.drainReader env rest { w with stringReader := { w.stringReader with buffer := rest } }

/-- The loop of `lonejson_writer_string_reader`. -/
def Writer.readString (env : WriterEnv σ γ) (reader : σ → ℕ → σ × ReadResult) :
    ℕ → Writer σ γ → Writer σ γ × Status
  | 0, w => (w, .internalError)
  | n + 1, w =>
    andThenOk (Writer.drainReader env w.stringReader.buffer w) fun w =>
      if w.stringReader.eof then
        andThenOk (w.unblocked env) fun w =>
          andThenOk (w.stringEnd env) fun w => ({ w with stringReader := {} }, .ok)
      else
        andThenOk (w.unblocked env) fun w =>
          let r := reader w.out 4096
          let w := { w with out := r.1 }
          if r.2.errorCode ≠ 0 then w.setError .ioError "failed to read JSON string source"
          else if r.2.wouldBlock then w.setError .callbackFailed "string reader would block"
          else
            Writer.readString env reader n
              { w with stringReader := { w.stringReader with buffer := r.2.bytes, eof := r.2.eof } }

/-- `lonejson_writer_string_reader`; `id` stands for the callback and its user pointer, and
`fuel` bounds the reads that the callback needs. -/
def Writer.stringFromReader (env : WriterEnv σ γ) (w : Writer σ γ) (id fuel : ℕ)
    (reader : σ → ℕ → σ × ReadResult) : Writer σ γ × Status :=
  andThenOk
    (if w.stringReader.active then
      w.check (w.stringReader.reader ≠ id)
        "active string reader must be resumed with the same reader" .invalidArgument
    else
      andThenOk (w.stringBegin env) fun w =>
        ({ w with stringReader := { active := true, reader := id } }, .ok))
    fun w => Writer.readString env reader fuel w

/-! ## Numbers and scalars -/

/-- `lonejson_writer_number_text`. -/
def Writer.numberText (env : WriterEnv σ γ) (w : Writer σ γ) (data : Slice) :
    Writer σ γ × Status :=
  andThenOk (w.check data.bytes.isEmpty "number text is required" .invalidArgument) fun w =>
  andThenOk (w.check (!isValidJsonNumber data.bytes) "number text must be a JSON number") fun w =>
  andThenOk (w.beginEvent .bytes data.address data.bytes.length) fun w =>
  andThenOk (w.inPhase 0 fun w =>
    andThenOk (w.beforeValue env) fun w => (w.setPhase 1, .ok)) fun w =>
  andThenOk (w.emitBytesEvent env data.bytes) fun w => (w.clearEvent, .ok)

/-- `lonejson_writer_number_begin`. -/
def Writer.numberBegin (env : WriterEnv σ γ) (w : Writer σ γ) : Writer σ γ × Status :=
  andThenOk (w.beforeValue env) fun w => ({ w with number := [], numberOpen := true }, .ok)

/-- `lonejson_writer_number_chunk`. -/
def Writer.numberChunk (w : Writer σ γ) (data : Bytes) : Writer σ γ × Status :=
  andThenOk w.checkFailed fun w => andThenOk w.checkStream fun w =>
  andThenOk (w.check (!w.numberOpen) "writer number is not open") fun w =>
    match byteAppend w.number data w.maxNumberBytes with
    | .ok number => ({ w with number }, .ok)
    | .error message => w.fail .overflow message

/-- `lonejson_writer_number_end`. -/
def Writer.numberEnd (env : WriterEnv σ γ) (w : Writer σ γ) : Writer σ γ × Status :=
  andThenOk w.checkFailed fun w =>
  andThenOk (w.check (!w.numberOpen) "writer number is not open") fun w =>
    if !isValidJsonNumber w.number then
      w.fail .invalidJson "number text must be a JSON number"
    else
      andThenOk
        (if w.event.kind = .none then
          ({ w with event := { w.event with
              kind := .bytes, address := .number, len := w.number.length, off := 0, phase := 1 } },
            .ok)
        else
          w.check
            (w.event.kind ≠ .bytes || w.event.address ≠ .number || w.event.len ≠ w.number.length)
            "active writer event must be resumed with the same arguments" .invalidArgument)
        fun w =>
      andThenOk (w.emitBytesEvent env w.number) fun w =>
        (Writer.clearEvent { w with number := [], numberOpen := false }, .ok)

/-- `lonejson__writer_emit_scalar_bytes`; the texts are never longer than the buffer. -/
def Writer.emitScalarBytes (env : WriterEnv σ γ) (w : Writer σ γ) (data : Bytes) :
    Writer σ γ × Status :=
  andThenOk
    (if w.event.kind = .scalarBytes then
      w.check (w.event.len ≠ data.length || w.event.buffer ≠ data)
        "active writer event must be resumed with the same arguments" .invalidArgument
    else if w.event.kind = .none then
      Writer.beginEvent { w with event := { w.event with buffer := data } } .scalarBytes
        .eventBuffer data.length
    else w.beginEvent .scalarBytes .eventBuffer data.length)
    fun w =>
  andThenOk (w.inPhase 0 fun w =>
    andThenOk (w.beforeValue env) fun w => (w.setPhase 1, .ok)) fun w =>
  andThenOk (w.emitBytesEvent env data) fun w => (w.clearEvent, .ok)

/-- The digits of a number, the last one first read. -/
def decimalFrom : ℕ → ℕ → Bytes → Bytes
  | 0, _, digits => digits
  | n + 1, value, digits =>
    let digits := (0x30 + value % 10).toUInt8 :: digits
    if value / 10 = 0 then digits else decimalFrom n (value / 10) digits

/-- The decimal text of a 64-bit value, which has at most 20 digits. -/
def decimalText (value : ℕ) : Bytes := decimalFrom 20 value []

/-- `lonejson_writer_u64`. -/
def Writer.u64 (env : WriterEnv σ γ) (w : Writer σ γ) (value : UInt64) : Writer σ γ × Status :=
  w.emitScalarBytes env (decimalText value.toNat)

/-- `lonejson__writer_format_i64`. -/
def formatI64 (value : ℤ) : Bytes :=
  if 0 ≤ value then decimalText value.toNat else 0x2d :: decimalText value.natAbs

/-- `lonejson_writer_i64`. -/
def Writer.i64 (env : WriterEnv σ γ) (w : Writer σ γ) (value : Int64) : Writer σ γ × Status :=
  w.emitScalarBytes env (formatI64 value.toInt)

/-- `lonejson_writer_bool`. -/
def Writer.bool (env : WriterEnv σ γ) (w : Writer σ γ) (value : Bool) : Writer σ γ × Status :=
  w.emitScalarBytes env (Json.boolText value)

/-- `lonejson_writer_null`. -/
def Writer.null (env : WriterEnv σ γ) (w : Writer σ γ) : Writer σ γ × Status :=
  w.emitScalarBytes env Json.nullText

/-! ## Nested values -/

/-- The bytes asked of a nested generator, in `lonejson__writer_child_event`. -/
def WriterEnv.readCapacity (env : WriterEnv σ γ) (out : σ) : ℕ :=
  match env.available out with
  | none => 512
  | some n => min 512 n

/-- The loop of `lonejson__writer_child_event`. -/
def Writer.childLoop (env : WriterEnv σ γ) : ℕ → γ → Writer σ γ → Writer σ γ × Status
  | 0, _, w => (w, .internalError)
  | n + 1, child, w =>
    andThenOk (w.unblocked env) fun w =>
      if env.available w.out = some 0 then (w, .truncated)
      else
        let r := env.childRead child (env.readCapacity w.out)
        let w := { w with event := { w.event with child := some r.generator } }
        if r.status ≠ .ok then ({ w with error := r.error }, r.status)
        else
          andThenOk
            (if r.bytes = [] then (w, .ok)
            else andThenOk (w.emit env r.bytes) fun w => w.unblocked env)
            fun w =>
          if r.eof then (w.clearEvent, .ok)
          else if r.bytes = [] then (w, .truncated)
          else Writer.childLoop env n r.generator w

/-- `lonejson__writer_child_event`; `arg0` and `arg1` are the two pointers, `tag` the length
that tells the calls apart. -/
def Writer.childEvent (env : WriterEnv σ γ) (w : Writer σ γ) (arg0 : Address) (arg1 tag : ℕ)
    (root : GeneratorRoot) : Writer σ γ × Status :=
  andThenOk (w.beginEvent .child arg0 tag) fun w =>
  andThenOk
    (if w.event.phase = 0 then
      andThenOk (w.beforeValue env) fun w =>
        let w := { w with event := { w.event with data2 := arg1 } }
        match env.childInit w.out root w.error with
        | .error error => (Writer.clearEvent { w with error }, error.code)
        | .ok child => (Writer.setPhase { w with event := { w.event with child := some child } } 1, .ok)
    else
      w.check (w.event.data2 ≠ arg1)
        "active writer event must be resumed with the same arguments" .invalidArgument)
    fun w =>
  match w.event.child with
  | none => (w, .internalError)
  | some child => Writer.childLoop env (env.childFuel child) child w

/-- `lonejson_writer_json_value`; `pointer` is the address of the value. -/
def Writer.jsonValue (env : WriterEnv σ γ) (w : Writer σ γ) (pointer : ℕ) (value : JsonValue)
    (source : Bytes) : Writer σ γ × Status :=
  w.childEvent env (.caller pointer) 0 5 (.jsonValue value source)

/-- `lonejson_writer_mapped`. -/
def Writer.mapped (env : WriterEnv σ γ) (w : Writer σ γ) (pointer srcPointer : ℕ) (map : MapId)
    (src : Record) : Writer σ γ × Status :=
  w.childEvent env (.caller pointer) srcPointer 6 (.map map src)

/-- `lonejson_writer_finish`. -/
def Writer.finish (w : Writer σ γ) : Writer σ γ × Status :=
  andThenOk w.checkClosing fun w =>
  andThenOk (w.check (!w.rootWritten) "writer emitted no JSON value") fun w =>
  andThenOk (w.check (w.frames ≠ []) "writer has unclosed containers") fun w =>
    ({ w with finished := true }, .ok)

end Lonejson
