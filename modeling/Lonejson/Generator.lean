import Lonejson.JsonPull
import Lonejson.Serializer

/-!
# The generator of a record

The frames of a generator beside those of base64 members: maps, arrays, strings, texts that are
read in chunks, and JSON values. A step of `lonejson_generator_read` is one of the frame on top; it
goes from one phase of the source to the next, pushes a frame or pops its own, and leaves what
is pending.
-/

namespace Lonejson

open Pull (Outcome Producer)

/-! ## Frames -/

/-- A frame of `LONEJSON__GEN_FRAME_MAP`. -/
structure MapFrame where
  map : MapId
  src : Record
  depth : ℕ
  phase : ℕ := 0
  index : ℕ := 0
  aux : ℕ := 0
  emitted : ℕ := 0

/-- What the arrays of the six kinds hold. -/
inductive GeneratorArray where
  | string (items : List (Option Owned))
  | i64 (items : List ℤ)
  | u64 (items : List ℕ)
  | f64 (items : List UInt64)
  | bool (items : List Bool)
  | object (submap : MapId) (items : List Record)

/-- `count`. -/
def GeneratorArray.count : GeneratorArray → ℕ
  | .string items => items.length
  | .i64 items => items.length
  | .u64 items => items.length
  | .f64 items => items.length
  | .bool items => items.length
  | .object _ items => items.length

/-- A frame of `LONEJSON__GEN_FRAME_STRING_ARRAY` up to `_OBJECT_ARRAY`. -/
structure ArrayFrame where
  arr : GeneratorArray
  depth : ℕ
  phase : ℕ := 0
  index : ℕ := 0
  aux : ℕ := 0

/-- A frame of `LONEJSON__GEN_FRAME_STRING`; `text` is what is left of the string. -/
structure StringFrame where
  text : Bytes
  phase : ℕ := 0

/-- A frame of `LONEJSON__GEN_FRAME_JSON_VALUE`, with the reader that it owns. -/
structure JsonFrame where
  value : JsonValue
  depth : ℕ
  pull : Option JsonPull := none

/-- The frames that are none of base64 members. Of those the members read in chunks share theirs. -/
inductive RecordFrame where
  | map (frame : MapFrame)
  | array (frame : ArrayFrame)
  | string (frame : StringFrame)
  | text (frame : Base64Frame)
  | json (frame : JsonFrame)

abbrev RecordGenerator := Generator RecordFrame

namespace Generator

/-- `lonejson__generator_push_frame`. -/
def push (g : RecordGenerator) (frame : GeneratorFrame RecordFrame) : RecordGenerator :=
  { g with frames := frame :: g.frames }

/-- The frame on top is written back. -/
def putTop (g : RecordGenerator) (frame : RecordFrame) : RecordGenerator :=
  { g with frames := .other frame :: g.frames.tail }

/-- `lonejson__generator_set_pending_bytes`, `_repeat` and `_scratch`. -/
def setPending (g : RecordGenerator) (bytes : Bytes) : Step RecordFrame :=
  .next { g with pending := bytes }

/-- `lonejson__set_error` in a step. -/
def fail (g : RecordGenerator) (code : Status) (message : String) : Step RecordFrame :=
  .fail g (.error code message)

/-- `lonejson__generator_push_string`, for the string that a NUL ends. -/
def pushString (g : RecordGenerator) (text : Bytes) : Step RecordFrame :=
  .next (g.push (.other (.string { text := cString text })))

/-! ## Numbers -/

/-- `lonejson__generator_format_u64` and `_i64`; no digit is stored in front of the scratch. -/
def setDigits (g : RecordGenerator) (digits : Option Bytes) : Step RecordFrame :=
  match digits with
  | none => g.fail .internalError ""
  | some text => g.setPending text

/-- `lonejson__generator_format_f64`. -/
def formatF64 (env : SerializeEnv) (g : RecordGenerator) (bits : UInt64) : Step RecordFrame :=
  if !isFiniteF64 bits then g.fail .typeMismatch "non-finite double cannot be serialized"
  else
    match env.formatF64 bits with
    | none => g.fail .internalError "failed to format number"
    | some text => g.setPending text

def setBool (g : RecordGenerator) (value : Bool) : Step RecordFrame :=
  g.setPending (if value then Json.trueText else Json.falseText)

/-! ## Values -/

/-- `lonejson__generator_push_value_from_field`. -/
def pushValueFromField (env : SerializeEnv) (field : Field) (depth : ℕ) (g : RecordGenerator) :
    Value → Step RecordFrame
  | .string none => g.setPending Json.nullText
  | .string (some text) => g.pushString text.data
  | .fixedString buffer => g.pushString buffer
  | .spooled s =>
    let frame : Base64Frame := { isSource := false, cursor := env.spooled s }
    .next (g.push (if field.kind = .base64Stream then .base64 frame else .other (.text frame)))
  | .source s =>
    if s.kind = .none then g.setPending Json.nullText
    else
      let frame : Base64Frame := { isSource := true, cursor := env.source s }
      .next (g.push (if field.kind = .base64Source then .base64 frame else .other (.text frame)))
  | .jsonValue value => .next (g.push (.other (.json { value, depth })))
  | .i64 value => g.setDigits (generatorFormatI64 (Int64.ofInt value))
  | .u64 value => g.setDigits (generatorFormatU64 (UInt64.ofNat value))
  | .f64 bits => formatF64 env g bits
  | .bool value => g.setBool value
  | .object members =>
    match field.submap with
    -- a layout with such a field is not valid
    | none => g.fail .internalError "unsupported field kind"
    | some map => .next (g.push (.other (.map { map, src := members, depth })))
  | .stringArray items _ => .next (g.push (.other (.array { arr := .string items, depth })))
  | .i64Array items _ => .next (g.push (.other (.array { arr := .i64 items, depth })))
  | .u64Array items _ => .next (g.push (.other (.array { arr := .u64 items, depth })))
  | .f64Array items _ => .next (g.push (.other (.array { arr := .f64 items, depth })))
  | .boolArray items _ => .next (g.push (.other (.array { arr := .bool items, depth })))
  | .objectArray items _ =>
    match field.submap with
    | none => g.fail .internalError "unsupported field kind"
    | some map => .next (g.push (.other (.array { arr := .object map items, depth })))
  | .stringArrayStream _ =>
    g.fail .typeMismatch "field '%s' is parse-only and cannot be serialized"
  | .mappedArrayStream _ _ =>
    g.fail .typeMismatch "field '%s' is parse-only and cannot be serialized"

/-! ## Steps -/

/-- `lonejson__generator_step_string`. -/
def stepString (frame : StringFrame) (g : RecordGenerator) : Step RecordFrame :=
  if frame.phase = 0 then (g.putTop (.string { frame with phase := 1 })).setPending [0x22]
  else if frame.phase = 2 then setPending (g.popFrame g.frames.tail) [0x22]
  else
    let run := frame.text.takeWhile isPlain
    if run ≠ [] then
      (g.putTop (.string { frame with text := frame.text.drop run.length })).setPending run
    else
      match frame.text with
      | [] => .next (g.putTop (.string { frame with phase := 2 }))
      | ch :: rest => (g.putTop (.string { frame with text := rest })).setPending (escapeByte ch)

/-- The unread bytes of the io buffer, in `lonejson__generator_step_stream_text`. -/
def textRun (g : RecordGenerator) : Step RecordFrame :=
  let run := g.ioBuffer.takeWhile isPlain
  if run ≠ [] then setPending { g with ioBuffer := g.ioBuffer.drop run.length } run
  else
    match g.ioBuffer with
    | [] => .next g
    | ch :: rest => setPending { g with ioBuffer := rest } (escapeByte ch)

/-- `lonejson__generator_step_stream_text`. -/
def stepStreamText (frame : Base64Frame) (g : RecordGenerator) : Step RecordFrame :=
  let g := g.prepareStreamOwner g.frames.tail.length
  if frame.phase = 0 then (g.putTop (.text { frame with phase := 1 })).setPending [0x22]
  else if frame.phase = 2 then setPending (g.popFrame g.frames.tail) [0x22]
  else if g.ioBuffer = [] then
    if g.ioEof then .next (g.putTop (.text { frame with phase := 2 }))
    else
      match refill g frame with
      | .error fault => .fail g fault
      | .ok (g, frame) =>
        if g.ioBuffer = [] ∧ g.ioEof then .next (g.putTop (.text { frame with phase := 2 }))
        else textRun (g.putTop (.text frame))
  else textRun g

/-- The blanks of a line: what is left of them, and the phase behind them. -/
def indentPhase (phase next aux : ℕ) : ℕ × ℕ × Bytes :=
  if aux = 0 then (next, aux, [])
  else if aux > 64 then (phase, aux - 64, List.replicate 64 0x20)
  else (next, aux, List.replicate aux 0x20)

/-- Twice the depth, as a `size_t`. -/
def indentAux (depth : ℕ) : ℕ := depth * 2 % (sizeMax + 1)

/-- The members of a record beside the fields of its map. -/
def MapFrame.rows (env : SerializeEnv) (frame : MapFrame) : List (Field × Value × Bool) :=
  (env.maps frame.map).fields.zip frame.src

/-- The loop over the members that are left out. -/
def skipOmitted (env : SerializeEnv) (rows : List (Field × Value × Bool)) (index : ℕ) : ℕ :=
  index + ((rows.drop index).takeWhile fun row =>
    fieldShouldOmit env.maps row.1 row.2.1 row.2.2).length

/-- `lonejson__generator_step_map`. -/
def stepMap (env : SerializeEnv) (pretty : Bool) (frame : MapFrame) (g : RecordGenerator) :
    Step RecordFrame :=
  let rows := MapFrame.rows env frame
  match frame.phase with
  | 0 => (g.putTop (.map { frame with phase := 1 })).setPending [0x7b]
  | 1 =>
    let index := skipOmitted env rows frame.index
    let phase :=
      if index ≥ rows.length then if pretty && frame.emitted ≠ 0 then 9 else 11
      else if frame.emitted ≠ 0 then 2
      else if pretty then 3 else 5
    .next (g.putTop (.map { frame with index, phase }))
  | 2 => (g.putTop (.map { frame with phase := if pretty then 3 else 5 })).setPending [0x2c]
  | 3 =>
    (g.putTop (.map { frame with aux := indentAux (frame.depth + 1), phase := 4 })).setPending [0x0a]
  | 4 =>
    let (phase, aux, blanks) := indentPhase 4 5 frame.aux
    (g.putTop (.map { frame with phase, aux })).setPending blanks
  | 5 =>
    match rows[frame.index]? with
    -- the index has been compared with the number of the fields
    | none => g.fail .internalError ""
    | some (field, _) => (g.putTop (.map { frame with phase := 6 })).pushString field.jsonKey
  | 6 =>
    (g.putTop (.map { frame with phase := 7 })).setPending (if pretty then [0x3a, 0x20] else [0x3a])
  | 7 =>
    match rows[frame.index]? with
    | none => g.fail .internalError ""
    | some (field, v, _) =>
      (g.putTop (.map { frame with phase := 8 })).pushValueFromField env field (frame.depth + 1) v
  | 8 =>
    .next (g.putTop (.map { frame with
      index := frame.index + 1, emitted := frame.emitted + 1, phase := 1 }))
  | 9 => (g.putTop (.map { frame with aux := indentAux frame.depth, phase := 10 })).setPending [0x0a]
  | 10 =>
    let (phase, aux, blanks) := indentPhase 10 11 frame.aux
    (g.putTop (.map { frame with phase, aux })).setPending blanks
  | 11 => setPending (g.popFrame g.frames.tail) [0x7d]
  | _ => g.fail .internalError "invalid generator map phase"

/-- The phases of an array, `LONEJSON__GEN_ARRAY_STEP_BEGIN`, around the one that writes an
element. -/
def stepArrayPhase (pretty : Bool) (element : RecordGenerator → Step RecordFrame) (message : String)
    (frame : ArrayFrame) (g : RecordGenerator) : Step RecordFrame :=
  let count := frame.arr.count
  match frame.phase with
  | 0 => (g.putTop (.array { frame with phase := 1 })).setPending [0x5b]
  | 1 =>
    let phase :=
      if frame.index ≥ count then if pretty && count ≠ 0 then 7 else 9
      else if frame.index ≠ 0 then 2
      else if pretty then 3 else 5
    .next (g.putTop (.array { frame with phase }))
  | 2 => (g.putTop (.array { frame with phase := if pretty then 3 else 5 })).setPending [0x2c]
  | 3 =>
    (g.putTop (.array { frame with
      aux := indentAux (frame.depth + 1), phase := 4 })).setPending [0x0a]
  | 4 =>
    let (phase, aux, blanks) := indentPhase 4 5 frame.aux
    (g.putTop (.array { frame with phase, aux })).setPending blanks
  | 5 => element (g.putTop (.array { frame with phase := 6 }))
  | 6 => .next (g.putTop (.array { frame with index := frame.index + 1, phase := 1 }))
  | 7 => (g.putTop (.array { frame with aux := indentAux frame.depth, phase := 8 })).setPending [0x0a]
  | 8 =>
    let (phase, aux, blanks) := indentPhase 8 9 frame.aux
    (g.putTop (.array { frame with phase, aux })).setPending blanks
  | 9 => setPending (g.popFrame g.frames.tail) [0x5d]
  | _ => g.fail .internalError message

/-- The element that an index is at; the index has been compared with the count. -/
def element {α : Type} (items : List α) (index : ℕ)
    (write : RecordGenerator → α → Step RecordFrame) (g : RecordGenerator) : Step RecordFrame :=
  match items[index]? with
  | none => g.fail .internalError ""
  | some item => write g item

/-- `lonejson__generator_step_string_array`. -/
def stepStringArray (pretty : Bool) (items : List (Option Owned)) (frame : ArrayFrame) :
    RecordGenerator → Step RecordFrame :=
  stepArrayPhase pretty
    (element items frame.index fun g item => g.pushString (item.elim [] Owned.data))
    "invalid generator array phase" frame

/-- `lonejson__generator_step_i64_array`. -/
def stepI64Array (pretty : Bool) (items : List ℤ) (frame : ArrayFrame) :
    RecordGenerator → Step RecordFrame :=
  stepArrayPhase pretty
    (element items frame.index fun g item => g.setDigits (generatorFormatI64 (Int64.ofInt item)))
    "invalid generator array phase" frame

/-- `lonejson__generator_step_u64_array`. -/
def stepU64Array (pretty : Bool) (items : List ℕ) (frame : ArrayFrame) :
    RecordGenerator → Step RecordFrame :=
  stepArrayPhase pretty
    (element items frame.index fun g item => g.setDigits (generatorFormatU64 (UInt64.ofNat item)))
    "invalid generator array phase" frame

/-- `lonejson__generator_step_f64_array`. -/
def stepF64Array (env : SerializeEnv) (pretty : Bool) (items : List UInt64) (frame : ArrayFrame) :
    RecordGenerator → Step RecordFrame :=
  stepArrayPhase pretty (element items frame.index (formatF64 env))
    "invalid generator array phase" frame

/-- `lonejson__generator_step_bool_array`. -/
def stepBoolArray (pretty : Bool) (items : List Bool) (frame : ArrayFrame) :
    RecordGenerator → Step RecordFrame :=
  stepArrayPhase pretty (element items frame.index setBool) "invalid generator array phase" frame

/-- `lonejson__generator_step_object_array`. -/
def stepObjectArray (pretty : Bool) (map : MapId) (items : List Record) (frame : ArrayFrame) :
    RecordGenerator → Step RecordFrame :=
  stepArrayPhase pretty
    (element items frame.index fun g item =>
      .next (g.push (.other (.map { map, src := item, depth := frame.depth + 1 }))))
    "invalid generator object-array phase" frame

/-- The step of an array frame, in the switch of `lonejson__generator_step_frame`. -/
def stepArray (env : SerializeEnv) (pretty : Bool) (frame : ArrayFrame) :
    RecordGenerator → Step RecordFrame :=
  match frame.arr with
  | .string items => stepStringArray pretty items frame
  | .i64 items => stepI64Array pretty items frame
  | .u64 items => stepU64Array pretty items frame
  | .f64 items => stepF64Array env pretty items frame
  | .bool items => stepBoolArray pretty items frame
  | .object map items => stepObjectArray pretty map items frame

/-- `sizeof(state->io_buffer)`. -/
def ioBufferSize : ℕ := 4096

/-- `lonejson__generator_prepare_json_owner`. -/
def prepareJsonOwner (env : SerializeEnv) (pretty : Bool) (frame : JsonFrame) (ownerIndex : ℕ) :
    JsonPull :=
  frame.pull.getD (JsonPull.init frame.value (env.json frame.value).1 pretty
    (if ownerIndex = 0 then 0 else frame.depth))

/-- `lonejson__generator_step_json_value`. The loop of the reader makes at most `fuel` turns; where
these do not do, the step is made again. -/
def stepJsonValue (fuel : ℕ) (env : SerializeEnv) (pretty : Bool) (frame : JsonFrame)
    (g : RecordGenerator) : Step RecordFrame :=
  match JsonPull.producer.read fuel ioBufferSize
    (prepareJsonOwner env pretty frame g.frames.tail.length) with
  | none => .next g
  | some r =>
    let g := g.putTop (.json { frame with pull := some r.state })
    match r.error with
    | some code => g.fail code r.state.error.message
    | none =>
      if r.bytes ≠ [] then g.setPending r.bytes
      else if JsonPull.producer.eof r.state then .next (g.popFrame g.frames.tail)
      else .next g

/-- The frames of `lonejson__generator_step_frame` that are none of base64 members. -/
def stepRecordFrame (fuel : ℕ) (env : SerializeEnv) (pretty : Bool) :
    RecordFrame → RecordGenerator → Step RecordFrame
  | .map frame => stepMap env pretty frame
  | .array frame => stepArray env pretty frame
  | .string frame => stepString frame
  | .text frame => stepStreamText frame
  | .json frame => stepJsonValue fuel env pretty frame

/-- `lonejson_generator_read` makes these steps. -/
def recordProducer (fuel : ℕ) (env : SerializeEnv) (pretty : Bool) :
    Producer RecordGenerator GeneratorFault :=
  producer (stepRecordFrame fuel env pretty)

/-- The state that `lonejson__generator_init_with_options` leaves. -/
def start (map : MapId) (src : Record) : RecordGenerator :=
  { frames := [.other (.map { map, src, depth := 0 })] }

end Generator

/-- `lonejson__generator_init_with_options`; `none` is NULL. -/
def generatorInit (env : SerializeEnv) (map : Option MapId) (src : Option Record) :
    Except ErrorInfo RecordGenerator :=
  match map, src with
  | some map, some src =>
    if env.layoutIsValid map then .ok (Generator.start map src)
    else .error (ErrorInfo.set {} .invalidArgument "invalid map layout")
  | _, _ =>
    .error (ErrorInfo.set {} .invalidArgument "map and source are required for generator init")

end Lonejson
