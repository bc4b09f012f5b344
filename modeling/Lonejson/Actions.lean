import Lonejson.Parser

/-!
# Parser actions

What the parser does at the token boundaries: it starts a string, number or literal,
opens and closes containers, and delivers keys and scalars to the destination.
-/

namespace Lonejson

variable {σ : Type}

/-! ## Starting a token -/

/-- The registers that every string starts with. -/
def Parser.startString (p : Parser σ) (isKey : Bool) : Parser σ :=
  { p with lexMode := .string, lexIsKey := isKey, captureMode := .token, lexEscape := false,
           unicodePendingHigh := 0, unicodeDigitsNeeded := 0 }

/-- A string whose bytes do not go to the token. -/
def Parser.capture (p : Parser σ) (mode : CaptureMode) : Parser σ :=
  { p with captureMode := mode }.noToken

/-- `lonejson__begin_string_lex`. -/
def beginStringLex (env : Env σ) (p : Parser σ) (isKey : Bool) : Parser σ × Status :=
  let p := p.startString isKey
  if !p.core.json.active then
    if env.validateOnly then (p.capture .discard, .ok) else prepareToken env p
  else
    let r := p.onCore (jsonValueStringBegin env p.core isKey)
    if r.2 = .ok then (r.1.capture .jsonVisitor, .ok)
    else
      let json := { r.1.core.json with textBytes := 0, textIsKey := false }
      ({ r.1 with core := { r.1.core with json } }, r.2)

/-- The start of a fixed string: it is read in place, unless the destination must keep
its old text until the new one is complete. -/
def beginFixedString (env : Env σ) (p : Parser σ) (field : Field) (ptr : SlotPtr) :
    Parser σ × Status :=
  let start (p : Parser σ) (stage : DirectStage) (commits : Bool) : Parser σ × Status :=
    let direct : DirectString :=
      { active := true, stage, ptr, commits, capacity := field.fixedCapacity,
        overflowPolicy := field.overflowPolicy, key := field.jsonKey }
    ({ p with captureMode := .direct, core := { p.core with direct } }, .ok)
  let nonempty := match p.core.value? ptr with
    | some (.fixedString (ch :: _)) => ch != 0
    | _ => false
  if !env.options.clearDestination && nonempty then
    if env.options.fixedStringScratchSize.any (· ≥ field.fixedCapacity) then
      start p .scratch true
    else if field.fixedCapacity ≤ tokenLimit env p then
      start p (.tokenBase (tokenBase env p)) true
    else if allocCanGrow env p.core.allocLive 0 field.fixedCapacity then
      match ownedMallocParse env p.core field.fixedCapacity with
      | (none, core) =>
        { p with core }.setError .allocationFailed "failed to allocate fixed string staging buffer"
      | (some header, core) => start { p with core } (.heap header) true
    else p.setError .overflow "parse allocations exceed configured max bytes"
  else start p .inPlace false

/-- The first buffer of a dynamic string. -/
def initialCapacity (env : Env σ) (available : ℕ) : ℕ :=
  let limit := env.options.maxDynamicStringBytes
  let cap := if limit ≠ 0 ∧ limit ≠ sizeMax ∧ 64 > limit + 1 then limit + 1 else 64
  if available ≠ sizeMax ∧ cap > available then available else cap

/-- The start of a dynamic string. -/
def beginDynamicString (env : Env σ) (p : Parser σ) (field : Field) (ptr : SlotPtr) :
    Parser σ × Status :=
  let cap := initialCapacity env (allocAvailable env p.core.allocLive 0)
  if cap = 0 then p.setError .overflow "parse allocations exceed configured max bytes"
  else if allocCanGrow env p.core.allocLive 0 cap then
    match ownedMallocParse env p.core cap with
    | (none, core) => { p with core }.setError .allocationFailed "failed to allocate string"
    | (some header, core) =>
      let direct : DirectString :=
        { active := true, stage := .heap header, ptr, dynamic := true, capacity := cap,
          key := field.jsonKey }
      ({ p with captureMode := .direct, core := { core with direct } }, .ok)
  else p.setError .overflow "parse allocations exceed configured max bytes"

/-- A string member is read directly when the innermost object waits for it. -/
def beginDirectString (env : Env σ) (p : Parser σ) (ref : FieldRef)
    (k : Parser σ → Parser σ × Status) : Parser σ × Status :=
  match p.frames with
  | frame :: _ =>
    if frame.kind ≠ .object ∨ frame.pendingField ≠ some ref then
      p.setError .internalError "direct string outside object context"
    else andThenOk (markFieldSeen env p ref) k
  | [] => p.setError .internalError "direct string outside object context"

/-- `lonejson__begin_string_value_lex`. -/
def beginStringValueLex (env : Env σ) (p : Parser σ) (ref : Option FieldRef) (ptr : SlotPtr) :
    Parser σ × Status :=
  let field := ref.bind env.maps.field?
  let isJson := field.any (·.kind == .jsonValue)
  andThenOk (if isJson then p.onCore (beginJsonStream env p.core ptr 0) else (p, .ok)) fun p =>
    let p := p.startString false
    if (field.isNone || isJson) && p.core.json.active then
      let r := p.onCore (jsonValueStringBegin env p.core false)
      if r.2 = .ok then (r.1.capture .jsonVisitor, .ok)
      else if isJson then ({ r.1 with core := clearJsonStreamValue env r.1.core }, r.2)
      else r
    else if env.validateOnly then (p.capture .discard, .ok)
    else
      match ref, field with
      | some ref, some field =>
        if fieldIsStreamed field then
          andThenOk (p.onCore (streamValueBegin env p.core field ptr)) fun p =>
            (p.capture .stream, .ok)
        else if field.kind = .string ∧ field.storage = .fixed ∧ field.fixedCapacity ≠ 0 then
          beginDirectString env p ref fun p => beginFixedString env p field ptr
        else if field.kind = .string ∧ field.storage = .dynamic then
          beginDirectString env p ref fun p => beginDynamicString env p field ptr
        else prepareToken env p
      | _, _ => prepareToken env p

/-- `lonejson__begin_number_lex`. -/
def beginNumberLex (env : Env σ) (p : Parser σ) (ch : Byte) : Parser σ × Status :=
  andThenOk (prepareToken env { p with lexMode := .number, lexIsKey := false }) fun p =>
    p.orFull (p.scratchAppend ch) "failed to append number"

/-- The literal a byte starts. -/
def literalMode (ch : Byte) : LexMode :=
  if ch = 0x74 then .true else if ch = 0x66 then .false else .null

/-- `lonejson__begin_literal_lex`. -/
def beginLiteralLex (env : Env σ) (p : Parser σ) (mode : LexMode) (ch : Byte) :
    Parser σ × Status :=
  andThenOk (prepareToken env { p with lexMode := mode, lexIsKey := false }) fun p =>
    p.orFull (p.scratchAppend ch) "failed to append literal"

/-! ## Completing a value -/

/-- `lonejson__complete_parent_after_value`. -/
def completeParentAfterValue (p : Parser σ) : Parser σ × Status :=
  match p.frames with
  | [] => ({ p with rootFinished := true }, .ok)
  | parent :: _ =>
    match parent.kind with
    | .object =>
      (p.modifyTop fun f => { f with state := .objectCommaOrEnd, pendingField := none }, .ok)
    | .array => (p.modifyTop fun f => { f with state := .arrayCommaOrEnd }, .ok)

/-- `lonejson__direct_string_finish`. -/
def finishDirectString (env : Env σ) (p : Parser σ) : Parser σ × Status :=
  let r := p.onCore (directStringFinish env p.core)
  if r.2.soft then ((completeParentAfterValue { r.1 with captureMode := .token }).1, r.2) else r

/-- `lonejson__stream_value_finish`. -/
def finishStreamValue (env : Env σ) (p : Parser σ) : Parser σ × Status :=
  { p with captureMode := .token }.onCore (streamValueFinish env p.core)

/-- Clear the JSON stream and set its depth to zero. -/
def Parser.endJsonStream (env : Env σ) (p : Parser σ) : Parser σ :=
  { p with core := (clearJsonStreamValue env p.core).setJsonDepth 0 }

/-- `lonejson__complete_streamed_string_token`. -/
def completeStreamedStringToken (env : Env σ) (p : Parser σ) : Parser σ × Status :=
  match p.lexIsKey, p.frames with
  | true, [] => p.setError .invalidJson "object key outside object context"
  | true, frame :: _ =>
    if frame.kind ≠ .object ∨ frame.state ≠ .objectKeyOrEnd then
      p.setError .invalidJson "object key outside object context"
    else
      let p := p.modifyTop fun f => { f with pendingField := none }
      andThenOk (if p.core.json.active && !p.core.json.parseVisitorActive then
          p.onCore (jsonValueEmit env p.core [0x3a]) else (p, .ok)) fun p =>
        (p.modifyTop fun f => { f with state := .objectColon }, .ok)
  | false, [] =>
    if env.validateOnly && p.core.json.active then
      ({ p.endJsonStream env with rootStarted := true, rootFinished := true }, .ok)
    else p.setError .invalidJson "unexpected scalar at document root"
  | false, frame :: _ =>
    let invalid := p.setError .internalError "invalid streamed string context"
    match frame.kind with
    | .object =>
      match frame.pendingField with
      | none => completeParentAfterValue p
      | some ref =>
        if (env.maps.field? ref).any (·.kind == .jsonValue) then
          andThenOk (markFieldSeen env p ref) fun p =>
            completeParentAfterValue (p.endJsonStream env)
        else invalid
    | .array => if frame.field.isNone then completeParentAfterValue p else invalid

/-- `lonejson__streamed_json_value_scalar_field_active`. -/
def streamedJsonValueScalarFieldActive (env : Env σ) (p : Parser σ) : Bool :=
  match p.lexIsKey, p.frames with
  | false, frame :: _ => frame.kind == .object && (frame.pending? env).any (·.kind == .jsonValue)
  | _, _ => false

/-! ## Scalars -/

/-- Store a scalar and set the presence flag once it is stored. -/
def assignPresent (field : Field) (ptr : SlotPtr) (r : Core σ × Status) : Core σ × Status :=
  if r.2 = .ok then (r.1.setPresence field ptr true, .ok) else r

/-- The switch of `lonejson__handle_scalar_for_field`. -/
def assignScalar (env : Env σ) (c : Core σ) (field : Field) (ptr : SlotPtr) (token : Token)
    (mode : LexMode) : Core σ × Status :=
  if mode = .none then c.setError .internalError "unexpected scalar mode"
  else if field.kind = .jsonValue then assignJsonScalar env c ptr token.bytes mode
  else
    match mode with
    | .none => c.setError .internalError "unexpected scalar mode"
    | .string =>
      match field.kind with
      | .stringStream | .base64Stream => (c, .ok)
      | .stringSource | .base64Source =>
        c.setError .typeMismatch "field '%s' is serialize-only and cannot be parsed from JSON"
          field.jsonKey
      | .string => assignString env c field ptr token.bytes
      | _ => c.setError .typeMismatch "expected string field '%s'" field.jsonKey
    | .number =>
      match field.kind with
      | .i64 =>
        assignPresent field ptr (assignI64 c field token.cText fun v c => c.setValue ptr (.i64 v))
      | .u64 =>
        assignPresent field ptr (assignU64 c field token.cText fun v c => c.setValue ptr (.u64 v))
      | .f64 =>
        assignPresent field ptr
          (assignF64 env c field token.cText fun v c => c.setValue ptr (.f64 v))
      | _ => c.setError .typeMismatch "numeric value does not match field '%s'" field.jsonKey
    | .true | .false =>
      if field.kind ≠ .bool then
        c.setError .typeMismatch "boolean value does not match field '%s'" field.jsonKey
      else assignPresent field ptr (c.setValue ptr (.bool (mode == .true)), .ok)
    | .null =>
      let r := assignNull env c field ptr
      if r.2 = .ok ∧ field.flags.acceptNull then (r.1.setPresence field ptr false, .ok) else r

/-- `lonejson__handle_scalar_for_field`; the token is read after the field is marked. -/
def handleScalarForField (env : Env σ) (p : Parser σ) (ref : Option FieldRef) (mode : LexMode) :
    Parser σ × Status :=
  match ref with
  | none => completeParentAfterValue p
  | some ref =>
    andThenOk (markFieldSeen env p ref) fun p =>
      match p.frames, env.maps.field? ref with
      | frame :: _, some field =>
        p.onCore (assignScalar env p.core field (frame.slot ref) p.token mode)
      | _, _ => (p, .ok)

/-- One kind of `lonejson__handle_array_scalar`: the number is parsed and appended. -/
def appendNumber {α : Type} (assign : (α → Core σ → Core σ) → Core σ × Status)
    (parsed : Option α) (append : Core σ → α → Core σ × Status) : Core σ × Status :=
  andThenOk (assign fun _ c => c) fun c =>
    match parsed with
    | some v => append c v
    | none => (c, .ok)

/-- `lonejson__handle_array_scalar`. -/
def handleArrayScalar (env : Env σ) (c : Core σ) (field : Field) (ptr : SlotPtr) (token : Token)
    (mode : LexMode) : Core σ × Status :=
  let expects (message : String) : Core σ × Status :=
    c.setError .typeMismatch message field.jsonKey
  match field.kind with
  | .stringArrayStream =>
    if mode = .string then (c, .ok) else expects "array '%s' expects strings"
  | .mappedArrayStream => expects "array '%s' expects object items"
  | .stringArray =>
    if mode = .null then arrayAppendString env c field ptr []
    else if mode ≠ .string then expects "array '%s' expects strings"
    else arrayAppendString env c field ptr token.bytes
  | .i64Array =>
    if mode ≠ .number then expects "array '%s' expects integers"
    else
      appendNumber (assignI64 c field token.cText) (parseI64Token token.cText) fun c v =>
        arrayAppendI64 env c field ptr v
  | .u64Array =>
    if mode ≠ .number then expects "array '%s' expects unsigned integers"
    else
      appendNumber (assignU64 c field token.cText) (parseU64Token token.cText) fun c v =>
        arrayAppendU64 env c field ptr v
  | .f64Array =>
    if mode ≠ .number then expects "array '%s' expects numbers"
    else
      appendNumber (assignF64 env c field token.cText) (env.parseF64 token.cText) fun c v =>
        arrayAppendF64 env c field ptr v
  | .boolArray =>
    if mode ≠ .true ∧ mode ≠ .false then expects "array '%s' expects booleans"
    else arrayAppendBool env c field ptr (mode == .true)
  | _ => expects "field '%s' does not accept scalar array values"

/-! ## Mapped array streams -/

/-- `lonejson__mapped_array_stream_require_handler`. -/
def mappedArrayStreamRequireHandler (env : Env σ) (c : Core σ) (field : Field) (ptr : SlotPtr) :
    Core σ × Status :=
  let missing : Core σ × Status :=
    c.setError .invalidArgument "mapped array stream field '%s' has no item handler" field.jsonKey
  match c.value? ptr with
  | some (.mappedArrayStream s (some _)) =>
    match s.itemMap with
    | none => missing
    | some m =>
      if !s.initialized || !s.hasItem then missing
      else if !mapLayoutIsValid env m then
        c.setError .invalidArgument "mapped array stream field '%s' has an invalid item map"
          field.jsonKey
      else (c, .ok)
  | _ => missing

/-- `lonejson__reset_map_parse` on the record at a path. -/
def Core.resetAt (env : Env σ) (c : Core σ) (map : Option MapId) (path : ObjPath) : Core σ :=
  match c.dst.at? path with
  | none => c
  | some r =>
    let s := resetMapParse env c map r
    { s.1 with dst := c.dst.modifyAt (fun _ => s.2) path }

/-- The item destination of a mapped array stream. -/
def SlotPtr.item (ptr : SlotPtr) : ObjPath := ptr.obj ++ [(ptr.idx, .item)]

/-- `lonejson__mapped_array_stream_reset_item`. -/
def mappedArrayStreamResetItem (env : Env σ) (c : Core σ) (ptr : SlotPtr) : Core σ :=
  match c.value? ptr with
  | some (.mappedArrayStream s (some _)) =>
    if s.initialized ∧ s.itemMap.isSome then c.resetAt env s.itemMap ptr.item else c
  | _ => c

/-- `stream->active`. -/
def Core.setStreamActive (c : Core σ) (ptr : SlotPtr) (active : Bool) : Core σ :=
  { c with dst := c.dst.modifyValue ptr fun
      | .mappedArrayStream s d => .mappedArrayStream { s with active } d
      | v => v }

/-- `lonejson__mapped_array_stream_finish_item` on the innermost frame. -/
def mappedArrayStreamFinishItem (env : Env σ) (p : Parser σ) : Parser σ × Status :=
  match p.frames with
  | [] => (p, .ok)
  | frame :: outer =>
    match frame.field, frame.field? env with
    | some ref, some field =>
      if field.kind ≠ .mappedArrayStream then (p, .ok)
      else
        match outer with
        | [] => p.setError .internalError "mapped array stream item has no parent array"
        | parent :: _ =>
          if parent.kind ≠ .array ∨ parent.field ≠ frame.field ∨ parent.objectPtr.isNone then
            p.setError .internalError "mapped array stream item parent mismatch"
          else
            let ptr := parent.slot ref
            match p.core.value? ptr with
            | some (.mappedArrayStream s (some item)) =>
              let r := p.core.call env (.mappedArrayItem ptr item)
              let core := r.1.resetAt env s.itemMap ptr.item
              if r.2 ≠ .ok ∧ core.error.code = .ok then
                { p with core }.setError r.2
                  "mapped array stream field '%s' item callback failed" field.jsonKey
              else ({ p with core }, r.2)
            | _ => (p, .ok)
    | _, _ => (p, .ok)

/-- The items whose objects are open are reset, innermost first, by
`lonejson__parser_unwind_active_mapped_array_streams`. -/
def unwindItems (env : Env σ) : Core σ → List Frame → Core σ
  | c, frame :: parent :: rest =>
    let c := match frame.field with
      | some ref =>
        if frame.kind = .object ∧ (frame.field? env).any (·.kind == .mappedArrayStream) ∧
            parent.kind = .array ∧ parent.field = frame.field ∧ parent.objectPtr.isSome then
          mappedArrayStreamResetItem env c (parent.slot ref)
        else c
      | none => c
    unwindItems env c (parent :: rest)
  | c, _ => c

/-- `lonejson__parser_unwind_active_mapped_array_streams`. -/
def unwindActiveMappedArrayStreams (env : Env σ) (p : Parser σ) : Parser σ :=
  let core := unwindItems env p.core p.frames
  let core := p.frames.foldr (fun frame c =>
    match frame.field with
    | some ref =>
      if frame.kind = .array ∧ (frame.field? env).any (·.kind == .mappedArrayStream) ∧
          frame.objectPtr.isSome then
        c.setStreamActive (frame.slot ref) false
      else c
    | none => c) core
  { p with core }

/-! ## Opening containers -/

/-- The emission and the event of an opening bracket. -/
def jsonOpen (env : Env σ) (c : Core σ) : ContainerKind → Core σ × Status
  | .object =>
    if c.json.parseVisitorActive then jsonValueObjectBegin env c else jsonValueEmit env c [0x7b]
  | .array =>
    if c.json.parseVisitorActive then jsonValueArrayBegin env c else jsonValueEmit env c [0x5b]

/-- The emission and the event of a closing bracket. -/
def jsonClose (env : Env σ) (c : Core σ) : ContainerKind → Core σ × Status
  | .object =>
    if c.json.parseVisitorActive then jsonValueObjectEnd env c else jsonValueEmit env c [0x7d]
  | .array =>
    if c.json.parseVisitorActive then jsonValueArrayEnd env c else jsonValueEmit env c [0x5d]

/-- The depth check of the visitors. -/
def jsonTooDeep (c : Core σ) : Bool :=
  c.json.parseVisitorActive && c.valueLimits.maxDepth != 0 &&
    decide (c.json.depth > c.valueLimits.maxDepth)

/-- Either the result a C function returns early, or what it goes on with. -/
abbrev OrReturn (σ α : Type) := Except (Parser σ × Status) (Parser σ × α)

/-- `if (status != OK) return status;` in a function that goes on with a value. -/
def orReturn {α : Type} (r : Parser σ × Status) (k : Parser σ → OrReturn σ α) : OrReturn σ α :=
  if r.2 = .ok then k r.1 else .error r

/-- A container that is the value of a JSON value member. When the opening bracket
cannot be emitted, the code returned is the one in the error record. -/
def beginJsonContainer {α : Type} (env : Env σ) (p : Parser σ) (ptr : SlotPtr)
    (kind : ContainerKind) (target : α) : OrReturn σ α :=
  orReturn (p.onCore (beginJsonStream env p.core ptr 1)) fun p =>
    if jsonTooDeep p.core then
      .error ((p.endJsonStream env).setError .overflow "JSON value nesting exceeds maximum depth")
    else
      let r := p.onCore (jsonOpen env p.core kind)
      if p.core.json.parseVisitorActive then
        if r.2.soft then .ok (r.1, target) else .error (r.1.endJsonStream env, r.2)
      else if r.2 = .ok then .ok (r.1, target)
      else .error (r.1.endJsonStream env, r.1.core.error.code)

/-- The bracket of a container once its frame is pushed: at the root of a streamed
document, or inside a streamed value. -/
def openStreamedContainer (env : Env σ) (p : Parser σ) (kind : ContainerKind)
    (startedRoot nested : Bool) : Parser σ × Status :=
  if startedRoot then
    let core := p.core.setJsonDepth 1
    p.onCore (jsonOpen env core kind)
  else if nested then
    let core := p.core.setJsonDepth (p.core.json.depth + 1)
    if jsonTooDeep core then
      { p with core }.setError .overflow "JSON value nesting exceeds maximum depth"
    else p.onCore (jsonOpen env core kind)
  else (p, .ok)

/-- What the parent decides about an object: its map, its struct, the field its frame
carries, and whether it is a JSON value member. -/
structure ObjectTarget where
  map : Option MapId := none
  objectPtr : Option ObjPath := none
  field : Option FieldRef := none
  startedCapture : Bool := false
  mappedStream : Option SlotPtr := none

/-- The target of an object in an object frame. -/
def objectTargetInObject (env : Env σ) (p : Parser σ) (parent : Frame) :
    OrReturn σ ObjectTarget :=
  match parent.pendingField, parent.pending? env with
  | some ref, some field =>
    orReturn (markFieldSeen env p ref) fun p =>
      if field.kind = .jsonValue then
        beginJsonContainer env p (parent.slot ref) .object
          { field := some ref, startedCapture := true }
      else if field.kind ≠ .object then
        .error (p.setError .typeMismatch "field '%s' expects non-object value" field.jsonKey)
      else
        let path := (parent.slot ref).obj ++ [((parent.slot ref).idx, Inner.embedded)]
        .ok ({ p with core := p.core.resetAt env field.submap path },
          { map := field.submap, objectPtr := some path, field := some ref })
  | _, _ => .ok (p, {})

/-- The target of an object in a mapped array stream: the item destination, reset. -/
def objectTargetInStream (env : Env σ) (p : Parser σ) (ref : FieldRef) (field : Field)
    (ptr : SlotPtr) : OrReturn σ ObjectTarget :=
  orReturn (p.onCore (mappedArrayStreamRequireHandler env p.core field ptr)) fun p =>
    match p.core.value? ptr with
    | some (.mappedArrayStream s _) =>
      .ok ({ p with core := p.core.resetAt env s.itemMap ptr.item },
        { map := s.itemMap, objectPtr := some ptr.item, field := some ref,
          mappedStream := some ptr })
    | _ => .ok (p, {})

/-- The target of an object in an array frame. An array that may not grow leaves the
object without a destination. -/
def objectTargetInArray (env : Env σ) (p : Parser σ) (parent : Frame) :
    OrReturn σ ObjectTarget :=
  match parent.field, parent.field? env with
  | some ref, some field =>
    let ptr := parent.slot ref
    if field.kind = .mappedArrayStream then objectTargetInStream env p ref field ptr
    else if field.kind ≠ .objectArray then
      .error (p.setError .typeMismatch "array '%s' expects scalar elements" field.jsonKey)
    else
      let r := objectArrayAppendSlot env p.core field ptr
      match r.2 with
      | some path => .ok ({ p with core := r.1 }, { map := field.submap, objectPtr := some path })
      | none =>
        if r.1.error.code ≠ .ok then .error ({ p with core := r.1 }, r.1.error.code)
        else
          let error := { r.1.error with truncated := true }
          .ok ({ p with core := { r.1 with error } }, {})
  | _, _ => .ok (p, {})

/-- The target of an object anywhere. -/
def objectTarget (env : Env σ) (p : Parser σ) : OrReturn σ ObjectTarget :=
  if !p.rootStarted then
    .ok ({ p with rootStarted := true },
      if env.validateOnly then {} else { map := env.rootMap, objectPtr := some [] })
  else
    match p.frames with
    | [] => .ok (p, {})
    | parent :: _ =>
      let p := p.modifyTop fun f => { f with afterComma := false }
      match parent.kind with
      | .object => objectTargetInObject env p parent
      | .array => objectTargetInArray env p parent

/-- `lonejson__begin_object_value`. -/
def beginObjectValue (env : Env σ) (p : Parser σ) : Parser σ × Status :=
  let startedRoot := !p.rootStarted && env.validateOnly && p.core.json.active
  let hasParent := !p.frames.isEmpty
  match objectTarget env p with
  | .error r => r
  | .ok (p, t) =>
    let frame :=
      { newFrame .object with
        map := t.map, objectPtr := t.objectPtr, field := t.field,
        requiredRemaining := requiredCountForMap env.maps t.map }
    let pushed := pushFrame env p frame
    if pushed.2 ≠ .ok then
      match t.mappedStream with
      | some ptr =>
        ({ pushed.1 with core := mappedArrayStreamResetItem env pushed.1.core ptr }, pushed.2)
      | none => pushed
    else
      let nested := !t.startedCapture && pushed.1.core.json.active && t.map.isNone &&
        t.field.isNone && hasParent
      openStreamedContainer env pushed.1 .object startedRoot nested

/-- The array kinds that `lonejson__begin_array_value` accepts. -/
def FieldKind.isArray : FieldKind → Bool
  | .stringArray | .stringArrayStream | .mappedArrayStream | .i64Array | .u64Array | .f64Array
  | .boolArray | .objectArray => true
  | _ => false

/-- What the parent decides about an array. -/
structure ArrayTarget where
  objectPtr : Option ObjPath := none
  field : Option FieldRef := none
  startedCapture : Bool := false

/-- A mapped array stream that is about to be filled. -/
def activateStream (env : Env σ) (p : Parser σ) (field : Field) (ptr : SlotPtr)
    (target : ArrayTarget) : OrReturn σ ArrayTarget :=
  orReturn (p.onCore (mappedArrayStreamRequireHandler env p.core field ptr)) fun p =>
    match p.core.value? ptr with
    | some (.mappedArrayStream s _) =>
      if s.active then
        .error (p.setError .internalError "mapped array stream field '%s' is already active"
          field.jsonKey)
      else .ok ({ p with core := p.core.setStreamActive ptr true }, target)
    | _ => .ok (p, target)

/-- The target of an array in an object frame. The old items of an array member are
freed without telling the parser. -/
def arrayTargetInObject (env : Env σ) (p : Parser σ) (parent : Frame) : OrReturn σ ArrayTarget :=
  match parent.pendingField, parent.pending? env with
  | some ref, some field =>
    let ptr := parent.slot ref
    let target : ArrayTarget := { objectPtr := parent.objectPtr, field := some ref }
    orReturn (markFieldSeen env p ref) fun p =>
      if field.kind = .jsonValue then
        beginJsonContainer env p ptr .array { startedCapture := true }
      else if field.kind.isArray then
        let dst := p.core.dst.modifyValue ptr (resetPresentArrayField env field)
        let p := { p with core := { p.core with dst } }
        if field.kind = .mappedArrayStream then activateStream env p field ptr target
        else .ok (p, target)
      else .error (p.setError .typeMismatch "field '%s' is not an array" field.jsonKey)
  | _, _ => .ok (p, { objectPtr := parent.objectPtr })

/-- The target of an array anywhere. -/
def arrayTarget (env : Env σ) (p : Parser σ) : OrReturn σ ArrayTarget :=
  if !p.rootStarted && !env.validateOnly then
    .error (p.setError .typeMismatch "root value must be an object")
  else
    let p := { p with rootStarted := true }
    match p.frames with
    | [] => .ok (p, {})
    | parent :: _ =>
      let p := p.modifyTop fun f => { f with afterComma := false }
      match parent.kind with
      | .object => arrayTargetInObject env p parent
      | .array =>
        match parent.field? env with
        | some field =>
          .error (p.setError .typeMismatch "field '%s' does not accept nested arrays"
            field.jsonKey)
        | none => .ok (p, {})

/-- `lonejson__begin_array_value`. -/
def beginArrayValue (env : Env σ) (p : Parser σ) : Parser σ × Status :=
  let startedRoot := !p.rootStarted && p.core.json.active
  let hasParent := !p.frames.isEmpty
  match arrayTarget env p with
  | .error r => r
  | .ok (p, t) =>
    let frame := { newFrame .array with objectPtr := t.objectPtr, field := t.field }
    let pushed := pushFrame env p frame
    if pushed.2 ≠ .ok then
      match t.field, t.objectPtr with
      | some ref, some _ =>
        ({ pushed.1 with core := pushed.1.core.setStreamActive (frame.slot ref) false }, pushed.2)
      | _, _ => pushed
    else
      let nested := !t.startedCapture && pushed.1.core.json.active && t.field.isNone &&
        hasParent
      openStreamedContainer env pushed.1 .array startedRoot nested

/-! ## Closing containers -/

/-- The first field from `i` on that is required and not seen. -/
def firstMissing (seen : ℕ → Bool) : ℕ → List Field → Option Field
  | _, [] => none
  | i, field :: rest =>
    if field.flags.required && !seen i then some field else firstMissing seen (i + 1) rest

/-- The check of required fields in `lonejson__finalize_object`. -/
def missingRequired (env : Env σ) (frame : Frame) : Option Field :=
  match frame.map with
  | none => none
  | some id =>
    let map := env.maps id
    if map.fieldCount ≤ 64 then
      let mask := requiredMaskForMap map
      if frame.seenMask &&& mask ≠ mask then
        firstMissing (fun i => frame.seenMask &&& ((1 : UInt64) <<< i.toUInt64) != 0) 0 map.fields
      else none
    else
      match frame.seenFields with
      | some seen => firstMissing (fun i => seen.marks[i]? != some 0) 0 map.fields
      | none => firstMissing (fun _ => false) 0 map.fields

/-- The depth of the streamed value after a container, which ends the value at zero. -/
def leaveStreamedContainer (env : Env σ) (p : Parser σ) : Parser σ :=
  if p.core.json.active && p.core.json.depth != 0 then
    let core := p.core.setJsonDepth (p.core.json.depth - 1)
    if core.json.depth = 0 then { p with core := clearJsonStreamValue env core }
    else { p with core }
  else p

/-- The bracket that closes a container of a streamed value. -/
def closeStreamedContainer (env : Env σ) (p : Parser σ) (kind : ContainerKind) :
    Parser σ × Status :=
  if p.core.json.active then p.onCore (jsonClose env p.core kind) else (p, .ok)

/-- `lonejson__finalize_object`. -/
def finalizeObject (env : Env σ) (p : Parser σ) : Parser σ × Status :=
  match p.frames with
  | [] => (p, .ok)
  | frame :: _ =>
    if frame.map.isSome && frame.requiredRemaining == 0 &&
        !(frame.field? env).any (·.kind == .mappedArrayStream) then
      completeParentAfterValue (popFrame p)
    else
      match missingRequired env frame with
      | some field =>
        p.setError .missingRequiredField "missing required field '%s'" field.jsonKey
      | none =>
        andThenSoft (closeStreamedContainer env p .object) fun p =>
          andThenOk (mappedArrayStreamFinishItem env p) fun p =>
            completeParentAfterValue (leaveStreamedContainer env (popFrame p))

/-- `lonejson__finalize_array`. -/
def finalizeArray (env : Env σ) (p : Parser σ) : Parser σ × Status :=
  match p.frames with
  | [] => (p, .ok)
  | frame :: _ =>
    andThenSoft (closeStreamedContainer env p .array) fun p =>
      let core := match frame.field, frame.objectPtr with
        | some ref, some _ => p.core.setStreamActive (frame.slot ref) false
        | _, _ => p.core
      completeParentAfterValue (leaveStreamedContainer env (popFrame { p with core }))

/-! ## Delivering tokens -/

/-- `lonejson__mapped_numeric_target`. -/
def mappedNumericTarget (env : Env σ) (frame : Frame) : Bool :=
  match frame.kind with
  | .object => (frame.pending? env).any fun f => f.kind == .i64 || f.kind == .u64 || f.kind == .f64
  | .array =>
    (frame.field? env).any fun f =>
      f.kind == .i64Array || f.kind == .u64Array || f.kind == .f64Array

/-- `lonejson__find_field` with the update of the hint. -/
def findPending (env : Env σ) (frame : Frame) (key : Bytes) : Frame :=
  match frame.map with
  | none => { frame with pendingField := none }
  | some id =>
    match findField (env.maps id) frame.nextFieldHint key with
    | some (idx, hint) => { frame with pendingField := some ⟨id, idx⟩, nextFieldHint := hint }
    | none => { frame with pendingField := none }

/-- `lonejson__deliver_key_text`. -/
def deliverKeyText (env : Env σ) (p : Parser σ) (key : Bytes) : Parser σ × Status :=
  let outside := p.setError .invalidJson "object key outside object context"
  let toColon (p : Parser σ) : Parser σ × Status :=
    (p.modifyTop fun f => { f with state := .objectColon }, .ok)
  match p.frames with
  | [] => outside
  | frame :: _ =>
    if frame.kind ≠ .object ∨ frame.state ≠ .objectKeyOrEnd then outside
    else if p.core.json.parseVisitorActive then
      toColon (p.modifyTop fun f => { f with pendingField := none })
    else
      let p := p.modifyTop fun f => findPending env f key
      if p.core.json.active then
        andThenOk (p.onCore (jsonValueEmitString env p.core key)) fun p =>
          andThenOk (p.onCore (jsonValueEmit env p.core [0x3a])) toColon
      else toColon p

/-- A scalar inside a streamed value. -/
def deliverStreamedScalar (env : Env σ) (c : Core σ) (text : Bytes) (mode : LexMode) :
    Core σ × Status :=
  if c.json.parseVisitorActive then jsonVisitScalar env c text mode
  else if mode = .string then jsonValueEmitString env c text
  else jsonValueEmit env c (scalarText text mode)

/-- A scalar that is the whole document, which only a validating parser accepts. -/
def deliverRootScalar (env : Env σ) (p : Parser σ) (mode : LexMode) : Parser σ × Status :=
  if !p.rootStarted && env.validateOnly then
    if mode = .number ∧ ¬ isValidJsonNumber p.token.bytes then
      p.setError .invalidJson "invalid JSON number"
    else
      let r := if !p.core.json.active ∨ mode = .string then (p, .ok)
        else p.onCore (deliverStreamedScalar env p.core p.token.bytes mode)
      if r.2 = .ok ∨ (p.core.json.parseVisitorActive ∧ r.2 = .truncated) then
        let p := if p.core.json.active then r.1.endJsonStream env else r.1
        ({ p with rootStarted := true, rootFinished := true }, .ok)
      else r
  else p.setError .invalidJson "unexpected scalar at document root"

/-- `lonejson__deliver_token`. -/
def deliverToken (env : Env σ) (p : Parser σ) (mode : LexMode) : Parser σ × Status :=
  let p := p.scratchCstr
  if p.lexIsKey then deliverKeyText env p p.token.bytes
  else
    match p.frames with
    | [] => deliverRootScalar env p mode
    | frame :: _ =>
      if mode = .number ∧ (env.validateOnly ∨ ¬ mappedNumericTarget env frame) ∧
          ¬ isValidJsonNumber p.token.bytes then
        p.setError .invalidJson "invalid JSON number"
      else
        match frame.kind with
        | .object =>
          if p.core.json.active ∧ frame.pendingField.isNone then
            andThenOk (p.onCore (deliverStreamedScalar env p.core p.token.bytes mode))
              completeParentAfterValue
          else
            let r := handleScalarForField env p frame.pendingField mode
            if r.2.soft then completeParentAfterValue r.1 else r
        | .array =>
          match frame.field, frame.field? env with
          | some ref, some field =>
            let r := p.onCore
              (handleArrayScalar env p.core field (frame.slot ref) p.token mode)
            if r.2.soft then (r.1.modifyTop fun f => { f with state := .arrayCommaOrEnd }, r.2)
            else r
          | _, _ =>
            andThenOk (if p.core.json.active then
                p.onCore (deliverStreamedScalar env p.core p.token.bytes mode) else (p, .ok))
              fun p =>
                (p.modifyTop fun f =>
                  { f with afterComma := false, state := .arrayCommaOrEnd }, .ok)

end Lonejson
