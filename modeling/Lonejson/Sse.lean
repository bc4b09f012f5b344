import Lonejson.Framing
import Lonejson.Integers

/-!
# The reader of Server-Sent Events

The incremental parser that cuts a byte stream into lines, gathers the fields of an event and
hands its data on line by line. The buffers of the line and of the event name are the bytes in
them; that of the id is also told from one that was never allocated, which shows in the events.
-/

namespace Lonejson

/-- `lonejson_sse_options`, its defaults filled in. -/
structure SseOptions where
  maxLineBytes : ℕ := 64 * 1024
  maxEventDataBytes : ℕ := 1024 * 1024
  maxBufferedBytes : ℕ := 1024 * 1024
  deriving DecidableEq, Repr

/-- `lonejson_sse_event`. The strings are C strings; no `id` is `NULL`. -/
structure SseEvent where
  event : Bytes
  id : Option Bytes
  dataLen : ℕ
  retryMs : UInt64
  hasRetry : Bool
  deriving DecidableEq, Repr

/-- The calls of a `lonejson_sse_handler`. -/
inductive SseCall where
  | beginEvent (event : SseEvent)
  | dataChunk (bytes : Bytes)
  | endEvent (event : SseEvent)
  deriving DecidableEq, Repr

/-- A `lonejson_sse_handler` over the state of its user. A callback that the caller left `NULL`
is one that does nothing and returns `ok`. -/
abbrev SseHandler (σ : Type) := σ → SseCall → ErrorInfo → σ × ErrorInfo × Status

/-- The members of `lonejson_sse` that a push writes. -/
structure Sse where
  line : Bytes := []
  event : Bytes := []
  id : Option Bytes := none
  eventDataLen : ℕ := 0
  retryMs : UInt64 := 0
  hasRetry : Bool := false
  sawCr : Bool := false
  closed : Bool := false
  eventPending : Bool := false
  eventStarted : Bool := false
  dataSeen : Bool := false
  deriving DecidableEq, Repr

/-- The parser, the state of the user and the error record. -/
structure SseRun (σ : Type) where
  sse : Sse := {}
  user : σ
  error : ErrorInfo := {}

/-- What a function of the reader leaves: a run that goes on, or one with a status. -/
abbrev SseResult (σ : Type) := Except (SseRun σ × Status) (SseRun σ)

variable {σ : Type}

/-- `lonejson__set_error` without a position, and a return. -/
def SseRun.fail (r : SseRun σ) (code : Status) (message : String) : SseResult σ :=
  .error ({ r with error := r.error.set code message }, code)

/-- A callback, with `lonejson__sse_callback_error` behind it. -/
def SseRun.call (h : SseHandler σ) (message : String) (c : SseCall) (r : SseRun σ) :
    SseResult σ :=
  let x := h r.user c r.error
  let r : SseRun σ := { r with user := x.1, error := x.2.1 }
  if x.2.2 = .ok then .ok r
  else if r.error.code ≠ .ok then .error (r, r.error.code)
  else r.fail .callbackFailed message

/-- `lonejson__sse_event_view`. -/
def Sse.eventView (s : Sse) : SseEvent :=
  { event := cstr s.event
    id := s.id.map cstr
    dataLen := s.eventDataLen
    retryMs := s.retryMs
    hasRetry := s.hasRetry }

/-- `lonejson__sse_reset_event`. -/
def Sse.resetEvent (s : Sse) : Sse :=
  { s with
    event := [], id := s.id.map fun _ => [], eventDataLen := 0, retryMs := 0, hasRetry := false
    eventPending := false, eventStarted := false, dataSeen := false }

/-- `lonejson__sse_begin_if_needed`. -/
def sseBeginIfNeeded (h : SseHandler σ) (r : SseRun σ) : SseResult σ :=
  if r.sse.eventStarted then .ok r
  else
    let r : SseRun σ := { r with sse := { r.sse with eventStarted := true } }
    r.call h "SSE begin_event callback failed" (.beginEvent r.sse.eventView)

/-- The newline between two data lines, in `lonejson__sse_emit_data`. -/
def sseEmitNewline (h : SseHandler σ) (r : SseRun σ) : SseResult σ :=
  if r.sse.dataSeen then
    (r.call h "SSE data_chunk callback failed" (.dataChunk [LF])).map fun r =>
      { r with sse := { r.sse with eventDataLen := r.sse.eventDataLen + 1 } }
  else .ok r

/-- `lonejson__sse_emit_data`. A line is shorter than `SIZE_MAX`, so that `add_len` is the sum. -/
def sseEmitData (options : SseOptions) (h : SseHandler σ) (data : Bytes) (r : SseRun σ) :
    SseResult σ :=
  let addLen := data.length + if r.sse.dataSeen then 1 else 0
  if addLen > options.maxEventDataBytes ∨
      r.sse.eventDataLen > options.maxEventDataBytes - addLen then
    r.fail .overflow "SSE event data exceeds configured limit"
  else
    let r : SseRun σ := { r with sse := { r.sse with eventPending := true } }
    (sseBeginIfNeeded h r).bind fun r =>
      (sseEmitNewline h r).bind fun r =>
        (if data = [] then .ok r
          else r.call h "SSE data_chunk callback failed" (.dataChunk data)).map fun r =>
            { r with sse := { r.sse with
              eventDataLen := r.sse.eventDataLen + data.length, dataSeen := true } }

/-- `lonejson__sse_emit`. -/
def sseEmit (h : SseHandler σ) (r : SseRun σ) : SseResult σ :=
  if !r.sse.eventPending then .ok r
  else
    (sseBeginIfNeeded h r).bind fun r =>
      (r.call h "SSE end_event callback failed" (.endEvent r.sse.eventView)).map fun r =>
        { r with sse := r.sse.resetEvent }

/-- `lonejson__parse_sse_retry`. -/
def parseSseRetry (value : Bytes) : Option UInt64 :=
  if value = [] then none else wordDigits maxU64 0 value

/-- The field name of a line, up to its first colon. -/
def sseName (line : Bytes) : Bytes := line.takeWhile (· != 0x3a)

/-- The field value: what is behind the colon and one space. -/
def sseValue (line : Bytes) : Bytes :=
  match line.drop (sseName line).length with
  | [] => []
  | _ :: 0x20 :: value => value
  | _ :: value => value

/-- The field `event`. -/
def sseSetEvent (options : SseOptions) (value : Bytes) (r : SseRun σ) : SseResult σ :=
  let r : SseRun σ := { r with sse := { r.sse with event := [], eventPending := true } }
  match byteAppend r.sse.event value options.maxBufferedBytes with
  | .error message => r.fail .overflow message
  | .ok event => .ok { r with sse := { r.sse with event } }

/-- The field `id`. An empty value allocates no buffer. -/
def sseSetId (options : SseOptions) (value : Bytes) (r : SseRun σ) : SseResult σ :=
  let r : SseRun σ :=
    { r with sse := { r.sse with id := r.sse.id.map fun _ => [], eventPending := true } }
  match byteAppend (r.sse.id.getD []) value options.maxBufferedBytes with
  | .error message => r.fail .overflow message
  | .ok id => .ok { r with sse := { r.sse with id := if value = [] then r.sse.id else some id } }

/-- The field `retry`. -/
def sseSetRetry (value : Bytes) (r : SseRun σ) : SseRun σ :=
  match parseSseRetry value with
  | none => r
  | some retry =>
    { r with sse := { r.sse with retryMs := retry, hasRetry := true, eventPending := true } }

/-- `lonejson__sse_process_line`. -/
def sseProcessLine (options : SseOptions) (h : SseHandler σ) (r : SseRun σ) : SseResult σ :=
  let line := r.sse.line
  if line = [] then sseEmit h r
  else if line.head? = some 0x3a then .ok r
  else
    let name := sseName line
    let value := sseValue line
    if name = ascii "data" then sseEmitData options h value r
    else if name = ascii "event" then sseSetEvent options value r
    else if name = ascii "id" ∧ 0 ∉ value then sseSetId options value r
    else if name = ascii "retry" then .ok (sseSetRetry value r)
    else .ok r

/-- The end of a line: the buffer is emptied whether or not the line was taken. -/
def sseEndLine (options : SseOptions) (h : SseHandler σ) (r : SseRun σ) : SseResult σ :=
  match sseProcessLine options h r with
  | .error (r, status) => .error ({ r with sse := { r.sse with line := [] } }, status)
  | .ok r => .ok { r with sse := { r.sse with line := [] } }

/-- A byte that is not the line feed behind a carriage return. -/
def sseTakeChar (options : SseOptions) (h : SseHandler σ) (ch : Byte) (r : SseRun σ) :
    SseResult σ :=
  if ch = CR then .ok { r with sse := { r.sse with sawCr := true } }
  else if ch = LF then sseEndLine options h r
  else
    match byteAppendChar r.sse.line ch options.maxLineBytes with
    | .error message => r.fail .overflow message
    | .ok line => .ok { r with sse := { r.sse with line } }

/-- `lonejson__sse_feed_char`. -/
def sseFeedChar (options : SseOptions) (h : SseHandler σ) (r : SseRun σ) (ch : Byte) :
    SseResult σ :=
  if r.sse.sawCr then
    (sseEndLine options h { r with sse := { r.sse with sawCr := false } }).bind fun r =>
      if ch = LF then .ok r else sseTakeChar options h ch r
  else sseTakeChar options h ch r

/-- The loop of `lonejson_sse_push`. -/
def sseFeed (options : SseOptions) (h : SseHandler σ) : Bytes → SseRun σ → SseResult σ
  | [], r => .ok r
  | ch :: bytes, r => (sseFeedChar options h r ch).bind (sseFeed options h bytes)

/-- `lonejson_sse_push`. -/
def ssePush (options : SseOptions) (h : SseHandler σ) (bytes : Bytes) (r : SseRun σ) :
    SseResult σ :=
  if r.sse.closed then r.fail .invalidArgument "SSE parser is already finished"
  else sseFeed options h bytes { r with error := {} }

/-- The line that the end of the stream ends. -/
def sseLastLine (options : SseOptions) (h : SseHandler σ) (r : SseRun σ) : SseResult σ :=
  if r.sse.sawCr ∨ r.sse.line ≠ [] then
    sseEndLine options h { r with sse := { r.sse with sawCr := false } }
  else .ok r

/-- `lonejson_sse_finish`. -/
def sseFinish (options : SseOptions) (h : SseHandler σ) (r : SseRun σ) : SseResult σ :=
  if r.sse.closed then .ok r
  else
    (sseLastLine options h r).bind fun r =>
      (sseEmit h r).map fun r => { r with sse := { r.sse with closed := true } }

/-- A stream in pieces: one push after the other, as long as they succeed. -/
def ssePushes (options : SseOptions) (h : SseHandler σ) : List Bytes → SseRun σ → SseResult σ
  | [], r => .ok r
  | bytes :: pieces, r => (ssePush options h bytes r).bind (ssePushes options h pieces)

/-- A whole stream, from `lonejson_sse_open` on. -/
def sseStream (options : SseOptions) (h : SseHandler σ) (pieces : List Bytes) (user : σ) :
    SseResult σ :=
  (ssePushes options h pieces { user }).bind (sseFinish options h)

end Lonejson
