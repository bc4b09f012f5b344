import Lonejson.JsonStream

/-!
# The parser state

The frame stack, the lexer registers and the workspace. Frames grow from the bottom
of the workspace, the token lies above them, and the marks of the fields seen in
large maps are carved from the top. Frames are kept as records; the token text and
the marks are kept as bytes at their offsets, because a mark can be written over the
text of a token.
-/

namespace Lonejson

variable {σ : Type}

/-- `lonejson_frame_state`. -/
inductive FrameState where
  | objectKeyOrEnd
  | objectColon
  | objectValue
  | objectCommaOrEnd
  | arrayValueOrEnd
  | arrayCommaOrEnd
  deriving DecidableEq, Repr

/-- `seen_fields` and `seen_bytes`: one mark a field, at an offset of the workspace. -/
structure SeenFields where
  offset : ℕ
  marks : Bytes
  bytes : ℕ
  deriving DecidableEq, Repr

/-- `lonejson_frame`. -/
structure Frame where
  kind : ContainerKind
  state : FrameState
  map : Option MapId := none
  objectPtr : Option ObjPath := none
  field : Option FieldRef := none
  pendingField : Option FieldRef := none
  seenMask : UInt64 := 0
  seenFields : Option SeenFields := none
  nextFieldHint : ℕ := 0
  requiredRemaining : ℕ := 0
  afterComma : Bool := false
  deriving DecidableEq, Repr

/-- `lonejson_scratch`. `data` is an offset of the workspace, or `NULL`; `terminator`
is the byte after the text. -/
structure Token where
  data : Option ℕ := none
  bytes : Bytes := []
  terminator : Byte := 0
  cap : ℕ := 0
  deriving DecidableEq, Repr

/-- `lonejson__string_capture_mode`. -/
inductive CaptureMode where
  | token
  | direct
  | jsonVisitor
  | stream
  | discard
  deriving DecidableEq, Repr

/-- The position members of `lonejson_error`. -/
structure Pos where
  offset : ℕ := 0
  line : ℕ := 1
  column : ℕ := 0
  deriving DecidableEq, Repr

/-- `lonejson_parser`; the innermost frame is the head of `frames`. -/
structure Parser (σ : Type) where
  core : Core σ
  pos : Pos := {}
  frames : List Frame := []
  workspaceTop : ℕ
  rootStarted : Bool := false
  rootFinished : Bool := false
  lexMode : LexMode := .none
  captureMode : CaptureMode := .token
  lexIsKey : Bool := false
  lexEscape : Bool := false
  unicodePendingHigh : ℕ := 0
  unicodeDigitsNeeded : ℕ := 0
  unicodeAccum : ℕ := 0
  token : Token := {}

/-! ## Small steps -/

/-- The result of an operation on the core, put back into the parser. -/
def Parser.onCore (p : Parser σ) (r : Core σ × Status) : Parser σ × Status :=
  ({ p with core := r.1 }, r.2)

/-- `lonejson__set_error` at the current position. -/
def Parser.setError (p : Parser σ) (code : Status) (message : String) (arg : Bytes := []) :
    Parser σ × Status :=
  p.onCore (p.core.setError code message arg)

/-- `parser->failed = 1`. -/
def Parser.fail (p : Parser σ) : Parser σ := { p with core := { p.core with failed := true } }

/-- `lonejson__set_error` and `parser->failed = 1`. -/
def Parser.failError (p : Parser σ) (code : Status) (message : String) (arg : Bytes := []) :
    Parser σ × Status :=
  ((p.setError code message arg).1.fail, code)

/-- `parser->error.offset += n; parser->error.column += n`. -/
def Parser.advance (p : Parser σ) (n : ℕ) : Parser σ :=
  { p with pos := { p.pos with offset := p.pos.offset + n, column := p.pos.column + n } }

/-- The position after one byte read by `lonejson__parser_consume_char`. -/
def Pos.step (pos : Pos) (ch : Byte) : Pos :=
  if ch = 0x0a then { offset := pos.offset + 1, line := pos.line + 1, column := 0 }
  else { pos with offset := pos.offset + 1, column := pos.column + 1 }

/-- A change of the innermost frame. -/
def Parser.modifyTop (p : Parser σ) (f : Frame → Frame) : Parser σ :=
  { p with frames := p.frames.modify 0 f }

/-- `pending_field`. -/
def Frame.pending? (env : Env σ) (frame : Frame) : Option Field :=
  frame.pendingField.bind env.maps.field?

/-- The field of an array frame. -/
def Frame.field? (env : Env σ) (frame : Frame) : Option Field :=
  frame.field.bind env.maps.field?

/-- `lonejson__field_ptr(frame->object_ptr, field)`. -/
def Frame.slot (frame : Frame) (ref : FieldRef) : SlotPtr :=
  { obj := frame.objectPtr.getD [], idx := ref.idx }

/-! ## The workspace -/

/-- `lonejson__frame_bytes`. -/
def frameBytes (env : Env σ) (count : ℕ) : ℕ := count * env.frameSize

/-- `lonejson__workspace_align`; the pointer size is a power of two. -/
def workspaceAlign (env : Env σ) (size : ℕ) : ℕ :=
  (size + (env.pointerSize - 1)) / env.pointerSize * env.pointerSize

/-- `lonejson__token_base`. -/
def tokenBase (env : Env σ) (p : Parser σ) : ℕ := frameBytes env p.frames.length

/-- `lonejson__token_limit`. -/
def tokenLimit (env : Env σ) (p : Parser σ) : ℕ :=
  if p.workspaceTop ≤ frameBytes env p.frames.length then 0
  else p.workspaceTop - frameBytes env p.frames.length - 1

/-- A byte stored at an offset of the workspace, as the token text sees it. -/
def Token.store (t : Token) (offset : ℕ) (value : Byte) : Token :=
  match t.data with
  | none => t
  | some base =>
    if offset = base + t.bytes.length then { t with terminator := value }
    else if base ≤ offset then { t with bytes := t.bytes.set (offset - base) value }
    else t

/-- The same for the marks of a frame. -/
def Frame.store (frame : Frame) (offset : ℕ) (value : Byte) : Frame :=
  match frame.seenFields with
  | none => frame
  | some seen =>
    if seen.offset ≤ offset then
      let marks := seen.marks.set (offset - seen.offset) value
      { frame with seenFields := some { seen with marks } }
    else frame

/-- `memset(workspace + offset, 0, len)`, as the token text sees it. -/
def Token.zero (t : Token) (offset len : ℕ) : Token :=
  match t.data with
  | none => t
  | some base =>
    { t with bytes := t.bytes.mapIdx fun i b =>
        if offset ≤ base + i ∧ base + i < offset + len then 0 else b }

/-- The text of the token as a C string reads it. -/
def Token.cText (t : Token) : Bytes :=
  if t.terminator = 0 then t.bytes else t.bytes ++ [t.terminator]

/-- `lonejson__scratch_cstr`: the terminating NUL is written at `data[len]`. -/
def Parser.scratchCstr (p : Parser σ) : Parser σ :=
  match p.token.data with
  | none => p
  | some base =>
    { p with
      token := { p.token with terminator := 0 }
      frames := p.frames.map fun frame => frame.store (base + p.token.bytes.length) 0 }

/-- The token after `token.data = NULL; token.cap = 0; token.len = 0`. -/
def Parser.noToken (p : Parser σ) : Parser σ := { p with token := {} }

/-- `lonejson__prepare_token`, with the error of its callers. -/
def prepareToken (env : Env σ) (p : Parser σ) : Parser σ × Status :=
  let p := { p with token := { data := some (tokenBase env p), cap := tokenLimit env p } }
  if p.token.cap = 0 then p.setError .overflow "parser workspace exhausted by token"
  else (p, .ok)

/-- `lonejson__scratch_append`; `none` is a full token. -/
def Parser.scratchAppend (p : Parser σ) (ch : Byte) : Option (Parser σ) :=
  if p.token.bytes.length + 2 + 1 ≤ p.token.cap then
    some { p with token := { p.token with bytes := p.token.bytes ++ [ch] } }
  else none

/-- `lonejson__scratch_append_bytes`, and the copying part of
`lonejson__utf8_append`. -/
def Parser.scratchAppendBytes (p : Parser σ) (src : Bytes) : Option (Parser σ) :=
  if p.token.bytes.length + src.length + 1 + 1 ≤ p.token.cap then
    some { p with token := { p.token with bytes := p.token.bytes ++ src } }
  else none

/-- An append that reports a full token. -/
def Parser.orFull (p : Parser σ) (r : Option (Parser σ)) (message : String) :
    Parser σ × Status :=
  match r with
  | some p => (p, .ok)
  | none => p.setError .allocationFailed message

/-- `lonejson__workspace_alloc_top`: the offset of the block. -/
def workspaceAllocTop (env : Env σ) (p : Parser σ) (size : ℕ) : Option (ℕ × Parser σ) :=
  let aligned := workspaceAlign env size
  if aligned > p.workspaceTop ∨ p.workspaceTop - aligned < frameBytes env p.frames.length then none
  else some (p.workspaceTop - aligned, { p with workspaceTop := p.workspaceTop - aligned })

/-- `lonejson__push_frame`. -/
def pushFrame (env : Env σ) (p : Parser σ) (frame : Frame) : Parser σ × Status :=
  if env.options.maxDepth ≠ 0 ∧ p.frames.length ≥ env.options.maxDepth then
    p.failError .overflow "maximum nesting depth exceeded"
  else if frameBytes env (p.frames.length + 1) > p.workspaceTop then
    p.failError .overflow "parser workspace exhausted by nesting depth"
  else ({ p with frames := frame :: p.frames }, .ok)

/-- The frame that `lonejson__push_frame` sets up. -/
def newFrame (kind : ContainerKind) : Frame :=
  { kind, state := match kind with
      | .object => .objectKeyOrEnd
      | .array => .arrayValueOrEnd }

/-- `lonejson__pop_frame`. -/
def popFrame (p : Parser σ) : Parser σ :=
  match p.frames with
  | [] => p
  | frame :: rest =>
    { p with
      frames := rest
      workspaceTop := p.workspaceTop + ((frame.seenFields.map SeenFields.bytes).getD 0) }

/-! ## Marking fields -/

/-- The counter of required fields after a field is seen for the first time. -/
def Frame.countRequired (frame : Frame) (field : Field) (first : Bool) : Frame :=
  if first ∧ field.flags.required ∧ frame.requiredRemaining ≠ 0 then
    { frame with requiredRemaining := frame.requiredRemaining - 1 }
  else frame

/-- `lonejson__mark_field_seen` for a map of at most 64 fields. -/
def markSeenMask (env : Env σ) (p : Parser σ) (frame : Frame) (idx : ℕ) (field : Field) :
    Parser σ × Status :=
  let bit : UInt64 := (1 : UInt64) <<< idx.toUInt64
  let first := frame.seenMask &&& bit == 0
  if env.options.rejectDuplicateKeys ∧ ¬ first then
    p.failError .duplicateField "duplicate field '%s'" field.jsonKey
  else
    (p.modifyTop fun frame =>
      { frame.countRequired field first with seenMask := frame.seenMask ||| bit }, .ok)

/-- The marks of the innermost frame, carved from the top of the workspace when they
are first needed. -/
def ensureSeenFields (env : Env σ) (p : Parser σ) (frame : Frame) (count : ℕ) :
    Option (SeenFields × Parser σ) :=
  match frame.seenFields with
  | some seen => some (seen, p)
  | none =>
    match workspaceAllocTop env p count with
    | none => none
    | some (offset, p) =>
      some ({ offset, marks := List.replicate count 0, bytes := workspaceAlign env count },
        { p with token := p.token.zero offset count })

/-- `lonejson__mark_field_seen` for a map of more than 64 fields. -/
def markSeenFields (env : Env σ) (p : Parser σ) (frame : Frame) (count idx : ℕ)
    (field : Field) : Parser σ × Status :=
  match ensureSeenFields env p frame count with
  | none => p.failError .overflow "parser workspace exhausted by object bookkeeping"
  | some (seen, p) =>
    let first := seen.marks[idx]? == some 0
    let p := p.modifyTop fun frame => { frame with seenFields := some seen }
    if env.options.rejectDuplicateKeys ∧ ¬ first then
      p.failError .duplicateField "duplicate field '%s'" field.jsonKey
    else
      let p := p.modifyTop fun frame =>
        { frame.countRequired field first with
          seenFields := some { seen with marks := seen.marks.set idx 1 } }
      ({ p with token := p.token.store (seen.offset + idx) 1 }, .ok)

/-- `lonejson__mark_field_seen`, which is always called on the innermost frame. -/
def markFieldSeen (env : Env σ) (p : Parser σ) (ref : FieldRef) : Parser σ × Status :=
  match p.frames with
  | [] => (p, .ok)
  | frame :: _ =>
    match frame.map, env.maps.field? ref with
    | some id, some field =>
      if ref.map ≠ id then (p, .ok)
      else if (env.maps id).fieldCount ≤ 64 then markSeenMask env p frame ref.idx field
      else markSeenFields env p frame (env.maps id).fieldCount ref.idx field
    | _, _ => (p, .ok)

end Lonejson
