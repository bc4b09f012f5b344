import Lonejson.Pull
import Lonejson.Writer

/-!
# Pulling a JSON value

The reader that copies a `lonejson_json_value` without its blanks, or with blanks of its
own, a byte or a token at a time. The cursor is the text that is left, with a byte that has
been pushed back in front; counted are the bytes that have been fetched.
-/

namespace Lonejson

open Pull (Outcome Producer)

/-- `lonejson__json_pull_frame_phase`. The phases of objects and of arrays that do the same
have one name; `first` is `KEY_OR_END` or `VALUE_OR_END`. -/
inductive JsonPullPhase where
  | first
  | preChildNl
  | preChildIndent
  | key
  | colon
  | value
  | commaOrEnd
  | preCloseNl
  | preCloseIndent
  | close
  deriving DecidableEq, Repr

/-- `lonejson__json_pull_frame`. -/
structure JsonPullFrame where
  kind : ContainerKind
  phase : JsonPullPhase := .first
  depth : ℕ
  count : ℕ := 0
  deriving DecidableEq, Repr

/-- `lonejson_lex_mode`, as far as it is used; the literals differ in their text only. -/
inductive JsonPullLex where
  | none
  | string
  | number
  | literal
  deriving DecidableEq, Repr

/-- `lonejson__json_pull_state`; `left` is what is left of the literal that is read. -/
structure JsonPull where
  text : Bytes
  hasPushback : Bool := false
  totalBytes : ℕ := 0
  maxTotalBytes : ℕ
  pretty : Bool
  baseDepth : ℕ
  pending : Bytes := []
  frames : List JsonPullFrame := []
  lex : JsonPullLex := .none
  isKey : Bool := false
  escape : Bool := false
  accum : ℕ := 0
  digitsNeeded : ℕ := 0
  expectLowSlash : Bool := false
  expectLowU : Bool := false
  parsingLow : Bool := false
  number : Bytes := []
  literal : Bytes := []
  left : Bytes := []
  rootStarted : Bool := false
  rootFinished : Bool := false
  syntheticNull : Bool := false
  finished : Bool := false
  error : ErrorInfo := {}

namespace JsonPull

abbrev Step := Outcome JsonPull Status

/-- `lonejson__set_error` on the error record of the state. -/
def fail (s : JsonPull) (code : Status) (message : String) : Step :=
  .fail { s with error := s.error.set code message } code

def setPending (s : JsonPull) (bytes : Bytes) : Step := .next { s with pending := bytes }

/-- The limit on the bytes that are fetched. -/
def overTotal (s : JsonPull) : Bool := s.maxTotalBytes ≠ 0 && s.totalBytes > s.maxTotalBytes

/-- `lonejson__json_pull_getc`. -/
def getc (s : JsonPull) (k : JsonPull → Option Byte → Step) : Step :=
  match s.text with
  | [] => k s none
  | b :: i =>
    let s := { s with
      text := i
      hasPushback := false
      totalBytes := if s.hasPushback then s.totalBytes else s.totalBytes + 1 }
    if s.overTotal then s.fail .overflow "JSON value exceeds maximum total byte limit"
    else k s (some b)

/-- `lonejson__json_pull_ungetc`. -/
def ungetc (s : JsonPull) (b : Byte) : JsonPull := { s with text := b :: s.text, hasPushback := true }

/-- The loop of `lonejson__json_pull_peek_nonspace` over the text that is left. -/
def skipSpaces (k : JsonPull → Option Byte → Step) : Bytes → JsonPull → Step
  | [], s => k { s with text := [] } none
  | b :: i, s =>
    getc { s with text := b :: i } fun s ch =>
      if isJsonSpace b then skipSpaces k i s else k (s.ungetc b) ch

/-- `lonejson__json_pull_peek_nonspace`. -/
def peek (s : JsonPull) (k : JsonPull → Option Byte → Step) : Step := skipSpaces k s.text s

/-- `lonejson__json_pull_schedule_indent`. -/
def scheduleIndent (s : JsonPull) (depth : ℕ) : Step :=
  s.setPending (List.replicate ((s.baseDepth + depth) * 2 % (sizeMax + 1)) 0x20)

/-- `lonejson__json_pull_value_complete`. -/
def valueComplete (s : JsonPull) : JsonPull :=
  match s.frames with
  | [] => { s with rootFinished := true }
  | frame :: rest =>
    if frame.phase = .value then
      { s with frames := { frame with phase := .commaOrEnd, count := frame.count + 1 } :: rest }
    else s

/-- `lonejson__json_pull_begin_string`. -/
def beginString (s : JsonPull) (isKey : Bool) : Step :=
  setPending { s with
    lex := .string, isKey, escape := false, accum := 0, digitsNeeded := 0
    expectLowSlash := false, expectLowU := false, parsingLow := false } [0x22]

/-- `lonejson__json_pull_begin_number`. -/
def beginNumber (s : JsonPull) (b : Byte) : Step := .next { s with lex := .number, number := [b] }

/-- `lonejson__json_pull_begin_literal`. -/
def beginLiteral (s : JsonPull) (b : Byte) (rest : Bytes) : Step :=
  .next { s with lex := .literal, literal := [b], left := rest }

/-- `lonejson__json_pull_push_frame`. -/
def pushFrame (s : JsonPull) (kind : ContainerKind) (depth : ℕ) : JsonPull :=
  { s with frames := { kind, depth } :: s.frames }

/-- The switch of `lonejson__json_pull_start_value`. -/
def startByte (s : JsonPull) (depth : ℕ) (b : Byte) : Step :=
  if b = 0x22 then s.beginString false
  else if b = 0x7b then (s.pushFrame .object depth).setPending [0x7b]
  else if b = 0x5b then (s.pushFrame .array depth).setPending [0x5b]
  else if b = 0x74 then s.beginLiteral b [0x72, 0x75, 0x65]
  else if b = 0x66 then s.beginLiteral b [0x61, 0x6c, 0x73, 0x65]
  else if b = 0x6e then s.beginLiteral b [0x75, 0x6c, 0x6c]
  else if isNumberStart b then s.beginNumber b
  else s.fail .invalidJson "expected JSON value"

/-- `lonejson__json_pull_start_value`. -/
def startValue (s : JsonPull) (depth : ℕ) : Step :=
  peek { s with rootStarted := true } fun s ch =>
    match ch with
    | none => s.fail .invalidJson "expected JSON value"
    | some _ =>
      s.getc fun s ch =>
        match ch with
        | none => s.fail .invalidJson "expected JSON value"
        | some b => s.startByte depth b

/-- The end of a number, in `lonejson__json_pull_step_number`. -/
def endNumber (s : JsonPull) : Step :=
  if isValidJsonNumber s.number then
    setPending (valueComplete { s with lex := .none }) s.number
  else s.fail .invalidJson "invalid JSON number"

/-- The loop of `lonejson__json_pull_step_number` over the text that is left. -/
def stepNumber : Bytes → JsonPull → Step
  | i, s =>
    if s.number.length < 256 then
      match i with
      | [] => getc { s with text := [] } fun s _ => s.endNumber
      | b :: i =>
        getc { s with text := b :: i } fun s _ =>
          if isNumberByte b then stepNumber i { s with number := s.number ++ [b] }
          else (s.ungetc b).endNumber
    else s.fail .overflow "JSON number exceeds maximum byte limit"

/-- The loop of `lonejson__json_pull_step_literal`. -/
def stepLiteral : Bytes → JsonPull → Step
  | [], s => setPending (valueComplete { s with lex := .none }) s.literal
  | c :: rest, s =>
    s.getc fun s ch =>
      if ch = some c then
        stepLiteral rest { s with literal := s.literal ++ [c], left := rest }
      else s.fail .invalidJson "invalid JSON literal"

/-- The quote at the end of a string. -/
def endString (s : JsonPull) : Step :=
  let s := { s with lex := .none }
  if s.isKey then
    match s.frames with
    | ⟨.object, _, depth, count⟩ :: rest =>
      setPending { s with frames := ⟨.object, .colon, depth, count⟩ :: rest } [0x22]
    | _ => s.fail .internalError "object key outside object frame"
  else s.valueComplete.setPending [0x22]

/-- The last digit of a `\u` escape. -/
def endUnit (s : JsonPull) (b : Byte) : Step :=
  if s.parsingLow then
    if isLowSurrogate s.accum then setPending { s with parsingLow := false } [b]
    else s.fail .invalidJson "invalid unicode surrogate pair"
  else if isHighSurrogate s.accum then setPending { s with expectLowSlash := true } [b]
  else if isLowSurrogate s.accum then s.fail .invalidJson "unexpected low surrogate"
  else s.setPending [b]

/-- The body of `lonejson__json_pull_step_string` for the byte that is fetched, which is always
pending behind it. -/
def stringByte (s : JsonPull) (ch : Option Byte) : Step :=
  if s.expectLowSlash then
    if ch = some 0x5c then setPending { s with expectLowSlash := false, expectLowU := true } [0x5c]
    else s.fail .invalidJson "invalid unicode surrogate pair"
  else if s.expectLowU then
    if ch = some 0x75 then
      setPending { s with expectLowU := false, digitsNeeded := 4, accum := 0, parsingLow := true }
        [0x75]
    else s.fail .invalidJson "invalid unicode surrogate pair"
  else if s.digitsNeeded ≠ 0 then
    match ch with
    | none => s.fail .invalidJson "invalid unicode escape"
    | some b =>
      match hexValue b with
      | none => s.fail .invalidJson "invalid unicode escape"
      | some hv =>
        let s := { s with accum := pushHex s.accum hv, digitsNeeded := s.digitsNeeded - 1 }
        if s.digitsNeeded = 0 then s.endUnit b else s.setPending [b]
  else if s.escape then
    match ch with
    | none => s.fail .invalidJson "unterminated escape sequence"
    | some b =>
      if (simpleEscape b).isSome then setPending { s with escape := false } [b]
      else if b = 0x75 then
        setPending { s with escape := false, digitsNeeded := 4, accum := 0, parsingLow := false }
          [0x75]
      else s.fail .invalidJson "invalid string escape"
  else
    match ch with
    | none => s.fail .invalidJson "unterminated JSON string"
    | some b =>
      if b = 0x22 then s.endString
      else if b < 0x20 then s.fail .invalidJson "control character in string"
      else setPending { s with escape := b = 0x5c } [b]

/-- `lonejson__json_pull_step_string`. -/
def stepString (s : JsonPull) : Step := s.getc stringByte

/-! ## Frames -/

def withPhase (s : JsonPull) (phase : JsonPullPhase) : JsonPull :=
  match s.frames with
  | [] => s
  | frame :: rest => { s with frames := { frame with phase } :: rest }

/-- The phase in front of a child. -/
def JsonPullFrame.child (pretty : Bool) (frame : JsonPullFrame) : JsonPullPhase :=
  if pretty then .preChildNl
  else match frame.kind with
    | .object => .key
    | .array => .value

def opener : ContainerKind → Byte
  | .object => 0x7b
  | .array => 0x5b

def closer : ContainerKind → Byte
  | .object => 0x7d
  | .array => 0x5d

def unterminated : ContainerKind → String
  | .object => "unterminated JSON object"
  | .array => "unterminated JSON array"

def expectedComma : ContainerKind → String
  | .object => "expected ',' or '\x7d' in object"
  | .array => "expected ',' or ']' in array"

/-- `lonejson__json_pull_step_frame`, in a frame. -/
def stepTop (s : JsonPull) (frame : JsonPullFrame) : Step :=
  match frame.phase with
  | .first =>
    s.peek fun s ch =>
      match ch with
      | none => s.fail .invalidJson (unterminated frame.kind)
      | some b =>
        if b = closer frame.kind then
          s.getc fun s _ =>
            .next (s.withPhase (if s.pretty && frame.count ≠ 0 then .preCloseNl else .close))
        else .next (s.withPhase (JsonPullFrame.child s.pretty frame))
  | .preChildNl => (s.withPhase .preChildIndent).setPending [0x0a]
  | .preChildIndent =>
    (s.withPhase (JsonPullFrame.child false frame)).scheduleIndent (frame.depth + 1)
  | .key =>
    s.peek fun s ch =>
      if ch = some 0x22 then s.getc fun s _ => s.beginString true
      else s.fail .invalidJson "expected object key"
  | .colon =>
    s.peek fun s ch =>
      if ch = some 0x3a then
        s.getc fun s _ => (s.withPhase .value).setPending (if s.pretty then [0x3a, 0x20] else [0x3a])
      else s.fail .invalidJson "expected ':' after object key"
  | .value => s.startValue (frame.depth + 1)
  | .commaOrEnd =>
    s.peek fun s ch =>
      if ch = some 0x2c then
        s.getc fun s _ => (s.withPhase (JsonPullFrame.child s.pretty frame)).setPending [0x2c]
      else if ch = some (closer frame.kind) then
        s.getc fun s _ => .next (s.withPhase (if s.pretty then .preCloseNl else .close))
      else s.fail .invalidJson (expectedComma frame.kind)
  | .preCloseNl => (s.withPhase .preCloseIndent).setPending [0x0a]
  | .preCloseIndent => (s.withPhase .close).scheduleIndent frame.depth
  | .close => (valueComplete { s with frames := s.frames.tail }).setPending [closer frame.kind]

/-- `lonejson__json_pull_step_frame`. -/
def stepFrame (s : JsonPull) : Step :=
  match s.frames with
  | [] => if !s.rootStarted then s.startValue 0 else .next { s with rootFinished := true }
  | frame :: _ => s.stepTop frame

/-- The end of the text, in `lonejson__json_pull_read`. -/
def stepEnd (s : JsonPull) : Step :=
  if s.syntheticNull then .finish { s with finished := true }
  else
    s.peek fun s ch =>
      match ch with
      | none => .finish { s with finished := true }
      | some _ => s.fail .invalidJson "JSON value must contain exactly one value"

/-- A step of the loop of `lonejson__json_pull_read`. -/
def step (s : JsonPull) : Step :=
  match s.lex with
  | .string => s.stepString
  | .number => stepNumber s.text s
  | .literal => stepLiteral s.left s
  | .none =>
    if s.rootFinished && s.frames.isEmpty then s.stepEnd else s.stepFrame

/-- `lonejson__json_pull_read` makes these steps. -/
def producer : Producer JsonPull Status where
  pending := pending
  flush s bytes := { s with pending := bytes }
  step := step
  ended := finished

/-- `lonejson__json_pull_init`, for a value whose bytes can be read. -/
def init (value : JsonValue) (source : Bytes) (pretty : Bool) (baseDepth : ℕ) : JsonPull :=
  let limits := if value.limits.maxDepth ≠ 0 then value.limits else defaultValueLimits
  if value.kind = .null then
    { text := [], maxTotalBytes := limits.maxTotalBytes, pretty, baseDepth
      rootStarted := true, rootFinished := true, syntheticNull := true, pending := Json.nullText }
  else { text := source, maxTotalBytes := limits.maxTotalBytes, pretty, baseDepth }

end JsonPull

end Lonejson
