import Lonejson.Framing
import Lonejson.Validator
import Lonejson.Writer

/-!
# The array stream

The cursor that delivers the elements of one array of a document, a call at a time. The source is
what its reads return, one after the other. The parser of an element is given by its operations, so
that the cursor is the same for mapped, raw and skipped elements.
-/

namespace Lonejson

/-! ## The source -/

/-- `lonejson_array_stream_source_kind`: what the reads of a reader return, up to its end, or a
stream that is pushed into. -/
inductive ArraySource where
  | reader (script : List ReadResult)
  | push (eof : Bool)
  deriving DecidableEq, Repr

/-- How a loop ends that reads until there is something to say. -/
inductive Refill where
  | failed (errno : ℕ)
  | blocked
  | ended
  | bytes (chunk : Bytes)
  deriving DecidableEq, Repr

/-- The reads of one refill loop: an error and `would_block` are looked at before the bytes. -/
def readScript : List ReadResult → Refill × List ReadResult
  | [] => (.ended, [])
  | r :: script =>
    if r.errorCode ≠ 0 then (.failed r.errorCode, script)
    else if r.wouldBlock then (.blocked, script)
    else if r.bytes ≠ [] then (.bytes r.bytes, script)
    else if r.eof then (.ended, script)
    else readScript script

/-- `lonejson__array_stream_read`, in a loop. -/
def ArraySource.refill : ArraySource → Refill × ArraySource
  | .reader script => ((readScript script).1, .reader (readScript script).2)
  | .push true => (.ended, .push true)
  | .push false => (.blocked, .push false)

/-! ## The state -/

/-- `lonejson_array_stream_phase`. -/
inductive ArrayPhase where
  | start
  | rootObjectKeyOrEnd
  | rootObjectColon
  | rootObjectValue
  | rootObjectCommaOrEnd
  | arrayValueOrEnd
  | arrayCommaOrEnd
  | itemAfterValue
  | finishDocument
  deriving DecidableEq, Repr

/-- `lonejson_array_stream_key_phase`. -/
inductive KeyPhase where
  | idle
  | body
  | escape
  | unicode
  | surrogateSlash
  | surrogateU
  | surrogateLow
  deriving DecidableEq, Repr

/-- `lonejson_array_stream_value_mode`. -/
inductive ItemMode where
  | skip
  | mapped
  | raw
  | sink
  | string
  deriving DecidableEq, Repr

/-- What a call asks for: the mode, and the addresses of the map, the destination and the sink. -/
structure ItemTarget where
  mode : ItemMode
  map : Option ℕ := none
  dst : Option ℕ := none
  sink : ℕ := 0
  deriving DecidableEq, Repr

/-- The same destination, for a call that resumes. -/
def ItemTarget.same (t t' : ItemTarget) : Bool :=
  t.mode = t'.mode && t.map = t'.map && t.dst = t'.dst

/-- The members of `lonejson_error` that the stream sets. -/
structure StreamError where
  code : Status := .ok
  message : String := ""
  pos : Pos := { offset := 0, line := 0, column := 0 }
  errno : ℕ := 0
  truncated : Bool := false
  deriving DecidableEq, Repr

/-- `lonejson_array_stream_state`; the rest of it is in the phase. -/
inductive ArrayStatus where
  | running
  | done
  | error
  deriving DecidableEq, Repr

/-- `lonejson_array_stream_result`. -/
inductive ArrayResult where
  | item
  | eof
  | wouldBlock
  | error
  deriving DecidableEq, Repr

/-- The parser of an element, and the sinks that a call may name, over the world `ω` of the
caller. -/
structure ItemParser (π ω : Type) where
  /-- `lonejson__array_stream_start_value`, on what is left of the parser before. -/
  start : Option π → ItemTarget → π × Status
  /-- `lonejson__parser_feed_bytes`, which stops at the root; the number is `*consumed`. -/
  feed : π → Bytes → (π × Status) × ℕ
  /-- `lonejson_parser_finish`. -/
  finish : π → π × Status
  /-- `lonejson__parser_root_complete`. -/
  rootComplete : π → Bool
  failed : π → Bool
  /-- `frame_count == 0`. -/
  outside : π → Bool
  lexMode : π → LexMode
  error : π → StreamError
  sink : ℕ → ω → Bytes → ω × Status

/-- `lonejson__array_stream_state`. `taken` is not in the source: the bytes that have been taken from
the buffer so far, which nothing reads. -/
structure ArrayStream (π ω : Type) where
  source : ArraySource
  user : ω
  path : Bytes := []
  rejectDuplicateKeys : Bool := false
  status : ArrayStatus := .running
  phase : ArrayPhase := .start
  buffered : Bytes := []
  pushback : Option Byte := none
  pos : Pos := {}
  wouldBlock : Bool := false
  firstItem : Bool := false
  selectedSeen : Bool := false
  rootObjectAfterComma : Bool := false
  rootArraySelected : Bool := false
  currentKeyMatched : Bool := false
  keyPhase : KeyPhase := .idle
  keyCodepoint : ℕ := 0
  keyHighSurrogate : ℕ := 0
  keyDigitsNeeded : ℕ := 0
  key : Bytes := []
  rootKeys : Bytes := []
  parser : Option π := none
  active : Option ItemTarget := none
  pending : Option ItemTarget := none
  item : Bytes := []
  error : StreamError := {}
  taken : Bytes := []

variable {π ω : Type}

/-- `lonejson__array_stream_set_error`. -/
def ArrayStream.setError (s : ArrayStream π ω) (code : Status) (message : String) :
    ArrayStream π ω :=
  { s with
    error := { s.error with
      code, message, pos := s.pos, truncated := s.error.truncated || code == .truncated }
    status := .error }

/-- `lonejson__array_stream_set_error`, and `ERROR` from `next`. -/
def ArrayStream.fails (s : ArrayStream π ω) (code : Status) (message : String) :
    ArrayStream π ω × Option ArrayResult :=
  (s.setError code message, some .error)

/-! ## Bytes -/

/-- `lonejson__array_stream_advance`. -/
def ArrayStream.advance (s : ArrayStream π ω) (bytes : Bytes) : ArrayStream π ω :=
  { s with pos := bytes.foldl Pos.step s.pos }

/-- Bytes of the buffer have been taken. -/
def ArrayStream.take (s : ArrayStream π ω) (n : ℕ) : ArrayStream π ω :=
  { s with buffered := s.buffered.drop n, taken := s.taken ++ s.buffered.take n }

/-- The reads of a refill, when the buffer is empty. -/
def ArrayStream.refill (s : ArrayStream π ω) : ArrayStream π ω × Refill :=
  match s.buffered with
  | [] =>
    match s.source.refill with
    | (.bytes chunk, source) => ({ s with source, buffered := chunk }, .bytes chunk)
    | (.failed errno, source) =>
      (ArrayStream.setError { s with source, error := { s.error with errno } } .ioError
        "array stream read failed", .failed errno)
    | (.blocked, source) => ({ s with source, wouldBlock := true }, .blocked)
    | (.ended, source) => ({ s with source }, .ended)
  | _ :: _ => (s, .bytes s.buffered)

/-- What `lonejson__array_stream_getc` returns: a byte, `EOF`, or `-2`. -/
inductive Got where
  | byte (ch : Byte)
  | eof
  | stop
  deriving DecidableEq, Repr

/-- `lonejson__array_stream_getc`. -/
def ArrayStream.getc (s : ArrayStream π ω) : ArrayStream π ω × Got :=
  match s.pushback with
  | some ch => ({ s with pushback := none }, .byte ch)
  | none =>
    match s.refill with
    | (s, .bytes _) =>
      match s.buffered with
      | ch :: _ => ((s.take 1).advance [ch], .byte ch)
      | [] => (s, .eof)
    | (s, .ended) => (s, .eof)
    | (s, _) => (s, .stop)

/-- `lonejson__array_stream_ungetc`. -/
def ArrayStream.ungetc (s : ArrayStream π ω) (ch : Byte) : ArrayStream π ω :=
  { s with
    pushback := some ch
    pos := { s.pos with offset := s.pos.offset - 1, column := s.pos.column - 1 } }

/-- A call that could not get a byte ends: `lonejson__array_stream_result_from_status`. -/
def ArrayStream.stopped (s : ArrayStream π ω) : ArrayStream π ω × Option ArrayResult :=
  (s, some (if s.wouldBlock then .wouldBlock else .error))

/-- One turn of the loop of `lonejson__array_stream_nonspace`, and what comes behind the loop; `none`
is `EOF`. -/
def ArrayStream.nonspace (s : ArrayStream π ω)
    (k : ArrayStream π ω → Option Byte → ArrayStream π ω × Option ArrayResult) :
    ArrayStream π ω × Option ArrayResult :=
  match s.getc with
  | (s, .stop) => s.stopped
  | (s, .eof) => k s none
  | (s, .byte ch) => if isJsonSpace ch then (s, none) else k s (some ch)

/-! ## Keys of the root object -/

/-- How a byte of a key ends: the key goes on, it is complete, or an error has been set. -/
inductive KeyTurn where
  | more
  | complete
  | error
  deriving DecidableEq, Repr

/-- `lonejson__byte_append` on the key; an error is not set with the position of the stream. -/
def ArrayStream.keyAppend (s : ArrayStream π ω) (data : Bytes) : ArrayStream π ω × KeyTurn :=
  match byteAppend s.key data (sizeMax - 1) with
  | .ok key => ({ s with key }, .more)
  | .error message =>
    ({ s with error := { s.error with code := .overflow, message,
                                      pos := { offset := 0, line := 0, column := 0 } }
              status := .error }, .error)

def ArrayStream.keyError (s : ArrayStream π ω) (message : String) : ArrayStream π ω × KeyTurn :=
  (s.setError .invalidJson message, .error)

/-- The end of an escape of a key. -/
def ArrayStream.keyCodepointEnd (s : ArrayStream π ω) (cp : ℕ) : ArrayStream π ω × KeyTurn :=
  match utf8Encode cp with
  | none => s.keyError "invalid unicode codepoint"
  | some utf8 =>
    match s.keyAppend utf8 with
    | (s, .more) => ({ s with keyPhase := .body, keyCodepoint := 0 }, .more)
    | r => r

/-- The last of four hexadecimal digits. -/
def ArrayStream.keyQuad (s : ArrayStream π ω) (cp : ℕ) : ArrayStream π ω × KeyTurn :=
  if s.keyPhase = .unicode ∧ isHighSurrogate cp then
    ({ s with keyHighSurrogate := cp, keyCodepoint := 0, keyPhase := .surrogateSlash }, .more)
  else if s.keyPhase = .unicode ∧ isLowSurrogate cp then s.keyError "unexpected low surrogate"
  else if s.keyPhase = .surrogateLow then
    if !isLowSurrogate cp then s.keyError "invalid unicode surrogate pair"
    else
      ArrayStream.keyCodepointEnd { s with keyHighSurrogate := 0 }
        (combineSurrogates s.keyHighSurrogate cp)
  else s.keyCodepointEnd cp

/-- One byte in the loop of `lonejson__array_stream_read_key`. -/
def ArrayStream.keyByte (s : ArrayStream π ω) (ch : Byte) : ArrayStream π ω × KeyTurn :=
  match s.keyPhase with
  | .idle => (s.setError .internalError "invalid array stream key decoder state", .error)
  | .body =>
    if ch = 0x22 then ({ s with keyPhase := .idle }, .complete)
    else if ch < 0x20 then s.keyError "control character in JSON string"
    else if ch = 0x5c then ({ s with keyPhase := .escape }, .more)
    else s.keyAppend [ch]
  | .escape =>
    let s := { s with keyPhase := .body }
    if ch = 0x75 then
      ({ s with keyPhase := .unicode, keyCodepoint := 0, keyDigitsNeeded := 4 }, .more)
    else
      match simpleEscape ch with
      | some decoded => s.keyAppend [decoded]
      | none => s.keyError "invalid JSON string escape"
  | .unicode | .surrogateLow =>
    match hexValue ch with
    | none => s.keyError "invalid unicode escape in JSON string"
    | some hv =>
      let cp := pushHex s.keyCodepoint hv
      let s := { s with keyCodepoint := cp, keyDigitsNeeded := s.keyDigitsNeeded - 1 }
      if s.keyDigitsNeeded ≠ 0 then (s, .more) else s.keyQuad cp
  | .surrogateSlash =>
    if ch ≠ 0x5c then s.keyError "invalid unicode surrogate pair"
    else ({ s with keyPhase := .surrogateU }, .more)
  | .surrogateU =>
    if ch ≠ 0x75 then s.keyError "invalid unicode surrogate pair"
    else ({ s with keyPhase := .surrogateLow, keyCodepoint := 0, keyDigitsNeeded := 4 }, .more)

/-- The bytes of a `size_t`, the lowest first. -/
def sizeBytes (n : ℕ) : Bytes := (List.range 8).map fun i => (n / 256 ^ i).toUInt8

/-- The `size_t` in some bytes. -/
def sizeOfBytes (bytes : Bytes) : ℕ := bytes.foldr (fun b n => b.toNat + 256 * n) 0

/-- What a search of a set of keys says. -/
inductive KeySearch where
  | found
  | absent
  | corrupt
  deriving DecidableEq, Repr

/-- The loop over the records of a set of keys, each a length and the bytes. -/
def searchKeys (key : Bytes) : ℕ → Bytes → KeySearch
  | 0, _ => .corrupt
  | n + 1, records =>
    if 8 ≤ records.length then
      let len := sizeOfBytes (records.take 8)
      let rest := records.drop 8
      if rest.length < len then .corrupt
      else if len = key.length ∧ rest.take len = key then .found
      else searchKeys key n (rest.drop len)
    else if records = [] then .absent else .corrupt

/-- A record of a set of keys. -/
def keyRecord (key : Bytes) : Bytes := sizeBytes key.length ++ key

/-- `lonejson__array_stream_note_root_key`; `false` is an error. -/
def ArrayStream.noteRootKey (s : ArrayStream π ω) : ArrayStream π ω × Bool :=
  if !s.rejectDuplicateKeys then (s, true)
  else
    match searchKeys s.key (s.rootKeys.length + 1) s.rootKeys with
    | .found => (s.setError .duplicateField "duplicate root object field", false)
    | .corrupt => (s.setError .internalError "corrupt array stream root key set", false)
    | .absent => ({ s with rootKeys := s.rootKeys ++ keyRecord s.key }, true)

/-- What comes behind a key. -/
def ArrayStream.keyDone (s : ArrayStream π ω) : ArrayStream π ω × Option ArrayResult :=
  match s.noteRootKey with
  | (s, false) => (s, some .error)
  | (s, true) =>
    let matched := s.key == s.path
    ({ s with
        rootObjectAfterComma := false
        currentKeyMatched := matched
        selectedSeen := s.selectedSeen || matched
        phase := .rootObjectColon }, none)

/-- One turn of the loop of `lonejson__array_stream_read_key`. -/
def ArrayStream.keyTurn (s : ArrayStream π ω) : ArrayStream π ω × Option ArrayResult :=
  match s.getc with
  | (s, .stop) => s.stopped
  | (s, .eof) => s.fails .invalidJson "unterminated JSON string"
  | (s, .byte ch) =>
    match s.keyByte ch with
    | (s, .more) => (s, none)
    | (s, .error) => (s, some .error)
    | (s, .complete) => s.keyDone

/-! ## Values -/

/-- `lonejson__array_stream_clear_value`: the parser of a mapped element is kept. -/
def ArrayStream.clearValue (items : ItemParser π ω) (s : ArrayStream π ω) : ArrayStream π ω :=
  let kept := s.parser.filter fun p =>
    (s.active.any fun t => t.mode = ItemMode.mapped) && !items.failed p && items.rootComplete p
  { s with parser := if s.active.isSome then kept else s.parser, active := none }

/-- A hard error of the parser of an element. -/
def ArrayStream.parserError (items : ItemParser π ω) (s : ArrayStream π ω) (p : π)
    (status : Status) : ArrayStream π ω :=
  if (items.error p).code ≠ .ok then { s with error := items.error p, status := .error }
  else if s.error.code ≠ status then s.setError status "array stream value parser failed"
  else { s with status := .error }

/-- `lonejson__array_stream_finish_value`. -/
def ArrayStream.finishValue (items : ItemParser π ω) (s : ArrayStream π ω) (p : π) :
    ArrayStream π ω × Status :=
  let r := items.finish p
  let s := { s with parser := some r.1 }
  if r.2.soft then (ArrayStream.clearValue items { s with error := items.error r.1 }, r.2)
  else ((s.parserError items r.1 r.2).clearValue items, r.2)

/-- `lonejson__array_stream_start_value`; a status is an error. -/
def ArrayStream.startValue (items : ItemParser π ω) (target : ItemTarget) (s : ArrayStream π ω) :
    ArrayStream π ω × Option Status :=
  match s.active with
  | some t =>
    if t.same target then (s, none)
    else
      (s.setError .invalidArgument "resume array stream item with the same destination",
        some .invalidArgument)
  | none =>
    let r := items.start s.parser target
    let s := { s with parser := some r.1, item := if target.mode = ItemMode.raw then [] else s.item }
    if r.2 = .ok then ({ s with active := some target }, none)
    else ({ s with error := items.error r.1, status := .error }, some r.2)

/-- What the element's bytes are handed to, when some have been consumed: the buffer of a raw element,
or a sink. A status is an error. -/
def ArrayStream.deliver (items : ItemParser π ω) (target : ItemTarget) (s : ArrayStream π ω)
    (bytes : Bytes) : ArrayStream π ω × Option Status :=
  match target.mode with
  | .raw =>
    match byteAppend s.item bytes (sizeMax - 1) with
    | .ok item => ({ s with item }, none)
    | .error message =>
      (ArrayStream.clearValue items { s with
        error := { s.error with code := .overflow, message,
                                pos := { offset := 0, line := 0, column := 0 } }
        status := .error }, some .overflow)
  | .sink =>
    let r := items.sink target.sink s.user bytes
    let s := { s with user := r.1 }
    if r.2 = .ok then (s, none)
    else (ArrayStream.clearValue items { s with status := .error }, some r.2)
  | _ => (s, none)

/-- What comes behind a call of `lonejson__parser_feed_bytes` and the position. The status of a sink
has taken the place of the parser's. -/
def ArrayStream.afterFeed (items : ItemParser π ω) (s : ArrayStream π ω) (p : π) (status : Status)
    (consumed : ℕ) : ArrayStream π ω × Option Status :=
  if !status.soft then ((s.parserError items p status).clearValue items, some status)
  else if items.rootComplete p then ((s.finishValue items p).1, some (s.finishValue items p).2)
  else if consumed = 0 then
    (s.setError .internalError "array stream value parser made no progress", some .internalError)
  else (s, none)

/-- The status that the loop goes on with: in sink mode, that of the sink. -/
def ItemTarget.status (target : ItemTarget) (status : Status) (consumed : ℕ) : Status :=
  if target.mode = .sink ∧ consumed ≠ 0 then .ok else status

/-- `lonejson__array_stream_value_feed_len`. -/
def feedLen (items : ItemParser π ω) (p : π) (buffered : Bytes) : ℕ :=
  if buffered.length ≤ 1 then buffered.length
  else if !items.outside p || items.lexMode p = .string then buffered.length
  else
    match items.lexMode p with
    | .number => max 1 (buffered.takeWhile isNumberByte).length
    | .none => 1
    | _ => buffered.length

/-- A number at the root ends before this byte. -/
def endsNumber (items : ItemParser π ω) (p : π) (ch : Byte) : Bool :=
  items.outside p && items.lexMode p = .number && !isNumberByte ch

/-- The byte that is pushed back is fed to the parser of an element. -/
def ArrayStream.feedPushback (items : ItemParser π ω) (target : ItemTarget) (s : ArrayStream π ω)
    (p : π) (ch : Byte) : ArrayStream π ω × Option Status :=
  let r := items.feed p [ch]
  let s := { s with pushback := none, parser := some r.1.1 }
  if r.2 ≠ 0 then
    match s.deliver items target [ch] with
    | (s, some status) => (s, some status)
    | (s, none) => (s.advance [ch]).afterFeed items r.1.1 (target.status r.1.2 r.2) r.2
  else ArrayStream.afterFeed items { s with pushback := some ch } r.1.1 r.1.2 r.2

/-- Bytes of the buffer are fed to the parser of an element. -/
def ArrayStream.feedBuffered (items : ItemParser π ω) (target : ItemTarget) (s : ArrayStream π ω)
    (p : π) : ArrayStream π ω × Option Status :=
  let r := items.feed p (s.buffered.take (feedLen items p s.buffered))
  let s := { s with parser := some r.1.1 }
  if r.2 ≠ 0 then
    match s.deliver items target (s.buffered.take r.2) with
    | (s, some status) => (s, some status)
    | (s, none) =>
      ((s.advance (s.buffered.take r.2)).take r.2).afterFeed items r.1.1
        (target.status r.1.2 r.2) r.2
  else s.afterFeed items r.1.1 r.1.2 r.2

/-- One turn of the loop of `lonejson__array_stream_step_value`. -/
def ArrayStream.valueLoop (items : ItemParser π ω) (target : ItemTarget) (s : ArrayStream π ω)
    (p : π) : ArrayStream π ω × Option Status :=
  let finished (s : ArrayStream π ω) : ArrayStream π ω × Option Status :=
    ((s.finishValue items p).1, some (s.finishValue items p).2)
  if items.rootComplete p then finished s
  else
    match s.pushback with
    | some ch => if endsNumber items p ch then finished s else s.feedPushback items target p ch
    | none =>
      match s.refill with
      | (s, .failed _) => (s, some .ioError)
      | (s, .blocked) => (s, some .truncated)
      | (s, .ended) =>
        if items.lexMode p = .number then finished s
        else (s.setError .invalidJson "unterminated JSON value", some .invalidJson)
      | (s, .bytes _) =>
        if s.buffered.head?.any (endsNumber items p) then finished s
        else s.feedBuffered items target p

/-- `lonejson__array_stream_step_value`, up to the end of a turn of its loop. -/
def ArrayStream.stepValue (items : ItemParser π ω) (target : ItemTarget) (s : ArrayStream π ω) :
    ArrayStream π ω × Option Status :=
  match s.startValue items target with
  | (s, some status) => (s, some status)
  | (s, none) =>
    match s.parser with
    | none => (s, some .internalError)
    | some p => s.valueLoop items ((s.active.getD target)) p

/-- What comes behind `lonejson__array_stream_step_value`: an error, a source that would block, or
the next phase. -/
def ArrayStream.afterValue (r : ArrayStream π ω × Option Status)
    (k : ArrayStream π ω → ArrayStream π ω) : ArrayStream π ω × Option ArrayResult :=
  match r with
  | (s, none) => (s, none)
  | (s, some status) =>
    if !status.soft then (s, some .error)
    else if s.wouldBlock then (s, some .wouldBlock)
    else (k s, none)

/-! ## The phases -/

/-- The phase behind the selected array. -/
def ArrayStream.arrayEnd (s : ArrayStream π ω) : ArrayStream π ω × Option ArrayResult :=
  ({ s with phase := if s.rootArraySelected then .finishDocument else .rootObjectCommaOrEnd }, none)

/-- The end of the root object. -/
def ArrayStream.objectEnd (s : ArrayStream π ω) : ArrayStream π ω × Option ArrayResult :=
  if !s.selectedSeen then
    s.fails .missingRequiredField "selected array field was not found"
  else ({ s with phase := .finishDocument }, none)

/-- One turn of the loop of `lonejson__array_stream_next_raw`. -/
def ArrayStream.turn (items : ItemParser π ω) (target : ItemTarget) (s : ArrayStream π ω) :
    ArrayStream π ω × Option ArrayResult :=
  match s.phase with
  | .start =>
    s.nonspace fun s ch =>
      if s.path = [] then
        if ch ≠ some 0x5b then s.fails .typeMismatch "selected JSON value is not an array"
        else ({ s with rootArraySelected := true, firstItem := true, phase := .arrayValueOrEnd },
          none)
      else if ch ≠ some 0x7b then s.fails .typeMismatch "array path requires a root object"
      else ({ s with phase := .rootObjectKeyOrEnd }, none)
  | .rootObjectKeyOrEnd =>
    if s.keyPhase = .idle then
      s.nonspace fun s ch =>
        if ch = some 0x7d then
          if s.rootObjectAfterComma then s.fails .invalidJson "expected object key"
          else s.objectEnd
        else if ch ≠ some 0x22 then s.fails .invalidJson "expected object key"
        else
          ({ s with key := [], keyPhase := .body, keyCodepoint := 0, keyHighSurrogate := 0,
                    keyDigitsNeeded := 0 }, none)
    else s.keyTurn
  | .rootObjectColon =>
    s.nonspace fun s ch =>
      if ch ≠ some 0x3a then s.fails .invalidJson "expected ':' after object key"
      else ({ s with phase := .rootObjectValue }, none)
  | .rootObjectValue =>
    if s.currentKeyMatched then
      s.nonspace fun s ch =>
        if ch ≠ some 0x5b then s.fails .typeMismatch "selected JSON value is not an array"
        else ({ s with firstItem := true, phase := .arrayValueOrEnd }, none)
    else
      ArrayStream.afterValue (s.stepValue items { mode := .skip }) fun s =>
        { s with phase := .rootObjectCommaOrEnd }
  | .rootObjectCommaOrEnd =>
    s.nonspace fun s ch =>
      if ch = some 0x7d then s.objectEnd
      else if ch ≠ some 0x2c then s.fails .invalidJson "expected ',' or '\x7d' in object"
      else ({ s with rootObjectAfterComma := true, phase := .rootObjectKeyOrEnd }, none)
  | .arrayValueOrEnd =>
    if s.active.isSome then
      ArrayStream.afterValue (s.stepValue items target) fun s =>
        { s with pending := some target, phase := .itemAfterValue }
    else
      s.nonspace fun s ch =>
        match ch with
        | none => s.fails .invalidJson "unterminated selected array"
        | some ch =>
          if ch = 0x5d then
            if !s.firstItem then
              s.fails .invalidJson "expected JSON value in selected array"
            else s.arrayEnd
          else
            ArrayStream.afterValue ((s.ungetc ch).startValue items target) fun s =>
              { s with pending := some target, phase := .itemAfterValue }
  | .arrayCommaOrEnd =>
    s.nonspace fun s ch =>
      if ch = some 0x5d then s.arrayEnd
      else if ch ≠ some 0x2c then s.fails .invalidJson "expected ',' or ']' in selected array"
      else ({ s with firstItem := false, phase := .arrayValueOrEnd }, none)
  | .itemAfterValue =>
    if s.pending.any fun t => !t.same target then
      s.fails .invalidArgument "resume array stream item with the same destination"
    else
      s.nonspace fun s ch =>
        match ch with
        | none => s.fails .invalidJson "unterminated selected array"
        | some ch =>
          if ch ≠ 0x2c ∧ ch ≠ 0x5d then
            s.fails .invalidJson "expected ',' or ']' in selected array"
          else
            ({ s.ungetc ch with firstItem := false, phase := .arrayCommaOrEnd, pending := none },
              some .item)
  | .finishDocument =>
    s.nonspace fun s ch =>
      if ch ≠ none then
        s.fails .invalidJson
          (if s.rootArraySelected then "unexpected data after root array"
          else "unexpected data after root object")
      else ({ s with status := .done }, some .eof)

/-- `lonejson__array_stream_next_raw` begins: what it returns at once, or the state that its loop
starts from. -/
def ArrayStream.begin (s : ArrayStream π ω) : Except ArrayResult (ArrayStream π ω) :=
  match s.status with
  | .error => .error .error
  | .done => .error .eof
  | .running => .ok { s with wouldBlock := false }

/-- The loop of `lonejson__array_stream_next_raw`, for some turns. -/
def ArrayStream.loop (items : ItemParser π ω) (target : ItemTarget) :
    ℕ → ArrayStream π ω → ArrayStream π ω × Option ArrayResult
  | 0, s => (s, none)
  | n + 1, s =>
    match s.turn items target with
    | (s, none) => ArrayStream.loop items target n s
    | (s, some result) => (s, some result)

/-- `lonejson__array_stream_next_raw`; `none` is a loop that is not over after these turns. -/
def ArrayStream.next (items : ItemParser π ω) (target : ItemTarget) (n : ℕ) (s : ArrayStream π ω) :
    ArrayStream π ω × Option ArrayResult :=
  match s.begin with
  | .error result => (s, some result)
  | .ok s => s.loop items target n

/-! ## Runs -/

/-- What happens to a stream: a call begins, the call that is running makes a turn of its loop, a
chunk is put into the buffer of a push stream, or its end is noted. -/
inductive ArrayAct where
  | call (target : ItemTarget)
  | turn
  | push (chunk : Bytes)
  | finish
  deriving DecidableEq, Repr

/-- A stream, and the call that is running. -/
structure ArrayRun (π ω : Type) where
  stream : ArrayStream π ω
  calling : Option ItemTarget := none

/-- An act, where it is possible. -/
def ArrayRun.act (items : ItemParser π ω) (r : ArrayRun π ω) : ArrayAct → ArrayRun π ω
  | .call target =>
    match r.calling, r.stream.begin with
    | none, .ok s => ⟨s, some target⟩
    | _, _ => r
  | .turn =>
    match r.calling with
    | none => r
    | some target =>
      let t := r.stream.turn items target
      ⟨t.1, if t.2.isSome then none else some target⟩
  | .push chunk =>
    match r.calling, r.stream.source with
    | none, .push _ => ⟨{ r.stream with source := .push false, buffered := chunk }, none⟩
    | _, _ => r
  | .finish =>
    match r.calling, r.stream.source with
    | none, .push _ => ⟨{ r.stream with source := .push true }, none⟩
    | _, _ => r

def ArrayRun.run (items : ItemParser π ω) (acts : List ArrayAct) (r : ArrayRun π ω) :
    ArrayRun π ω :=
  acts.foldl (ArrayRun.act items) r

/-- A stream that has been opened. -/
def ArrayStream.opened (source : ArraySource) (user : ω) (path : Bytes) (rejectDuplicateKeys : Bool) :
    ArrayStream π ω :=
  { source, user, path, rejectDuplicateKeys }

/-! ## Elements that are only read -/

/-- The parser of raw elements, and of skipped ones when duplicate keys are not looked for: it has no
map, and validates. -/
def validatorItems {σ : Type} (env : Env σ) (world : σ) (sink : ℕ → ω → Bytes → ω × Status) :
    ItemParser (Parser σ) ω where
  start _ _ := (parserInit env.validating [] world, .ok)
  feed p bytes := feedBytes env.validating true p bytes
  finish p := parserFinish env.validating p
  rootComplete := rootComplete
  failed p := p.core.failed
  outside p := p.frames.isEmpty
  lexMode p := p.lexMode
  error p :=
    { code := p.core.error.code, message := p.core.error.message, pos := p.pos,
      truncated := p.core.error.truncated }
  sink := sink

end Lonejson
