import Lonejson.Visitor
import Lonejson.Writer

/-!
# Rewriting one value

The visitor that copies a document into a writer and keeps, drops or replaces the values at
a path on the way. The caller's callbacks read and write the world of the writer.
-/

namespace Lonejson

open Json (Text)

variable {σ γ : Type}

/-! ## Options -/

/-- A `lonejson_json_value` to be emitted: its address, the bytes that it delivers, and
whether a file or descriptor can be rewound. -/
structure JsonSource where
  pointer : ℕ
  value : JsonValue
  source : Bytes
  seekable : Bool

/-- `lonejson_json_value_is_rewindable`. -/
def JsonSource.isRewindable (s : JsonSource) : Bool :=
  match s.value.kind with
  | .null | .buffer | .path => true
  | .reader => false
  | .file | .fd => s.seekable

/-- `lonejson_value_rewrite_replacement`. -/
structure Replacement (σ γ : Type) where
  emit : Option (Writer σ γ → Writer σ γ × Status) := none
  json : Option JsonSource := none
  map : Option (ℕ × MapId) := none
  src : Option (ℕ × Record) := none

/-- `lonejson__value_rewrite_source_is_valid`. -/
def Replacement.isValid (source : Replacement σ γ) : Bool :=
  match source.emit, source.json, source.map, source.src with
  | some _, none, none, none => true
  | none, some json, none, none => json.isRewindable
  | none, none, some _, some _ => true
  | _, _, _, _ => false

/-- `lonejson_value_rewrite_action`. -/
inductive RewriteAction where
  | keep
  | drop
  | replace
  | replaceWith
  deriving DecidableEq, Repr

/-- `lonejson_value_type`. -/
inductive OldValueType where
  | absent
  | object
  | array
  | string
  | number
  | bool
  | null
  deriving DecidableEq, Repr

/-- `lonejson_value_rewrite_old_value`. -/
structure OldValue where
  present : Bool := false
  type : OldValueType := .absent
  boolean : Bool := false
  number : Bytes := []
  deriving DecidableEq, Repr

/-- `lonejson_value_rewrite_options`. A target segment is a C string, without its NUL. -/
structure RewriteOptions (σ γ : Type) where
  target : List Bytes
  action : RewriteAction
  replacement : Replacement σ γ := {}
  oldValueVisitor : Option (Visitor σ) := none
  replace : Option (Writer σ γ → OldValue → Writer σ γ × Status) := none

/-- `lonejson__value_rewrite_segment_is_index`. -/
def segmentIsIndex (segment : Bytes) : Bool := !segment.isEmpty && segment.all isDigit

/-- `lonejson__value_rewrite_format_size`; the buffer holds every `size_t`. -/
def formatSize (value : ℕ) : Bytes := decimalFrom (value + 1) value []

/-! ## State -/

/-- `lonejson__value_rewrite_frame`. -/
structure RewriteFrame where
  kind : ContainerKind
  pathLen : ℕ
  count : ℕ := 0
  prefixMatches : Bool
  sawTargetChild : Bool := false
  key : Bytes := []
  deriving DecidableEq, Repr

/-- `lonejson__value_rewrite_state`; the error record is that of the writer, and the frames are
listed from the top of the stack. -/
structure RewriteState (σ γ : Type) where
  writer : Writer σ γ
  oldValue : OldValue := {}
  frames : List RewriteFrame := []
  number : Bytes := []
  found : Bool := false
  currentEmit : Bool := false
  currentReplace : Bool := false
  replacing : Bool := false
  replaceDepth : ℕ := 0
  skipping : Bool := false
  skipDepth : ℕ := 0

/-- What the calls of a rewrite are given. -/
structure RewriteEnv (σ γ : Type) where
  writer : WriterEnv σ γ
  options : RewriteOptions σ γ
  numberLimit : ℕ

/-- A call on the writer. -/
def RewriteState.write (s : RewriteState σ γ) (call : Writer σ γ → Writer σ γ × Status) :
    RewriteState σ γ × Status :=
  let r := call s.writer
  ({ s with writer := r.1 }, r.2)

def RewriteState.setError (s : RewriteState σ γ) (code : Status) (message : String) :
    RewriteState σ γ × Status :=
  s.write fun w => w.setError code message

variable (env : RewriteEnv σ γ)

/-- The call that emits a valid source. -/
def Replacement.call (wenv : WriterEnv σ γ) (source : Replacement σ γ) (w : Writer σ γ) :
    Writer σ γ × Status :=
  match source.emit, source.json, source.map, source.src with
  | some emit, _, _, _ => emit w
  | none, some json, _, _ => w.jsonValue wenv json.pointer json.value json.source
  | none, none, some map, some src => w.mapped wenv map.1 src.1 map.2 src.2
  | _, _, _, _ => (w, .internalError)

/-- `lonejson__value_rewrite_emit_source`. -/
def RewriteState.emitSource (s : RewriteState σ γ) : RewriteState σ γ × Status :=
  if !env.options.replacement.isValid then
    s.setError .invalidArgument "value rewrite replacement source is invalid"
  else s.write (env.options.replacement.call env.writer)

/-- `lonejson__value_rewrite_visit_event`, `lonejson__value_rewrite_visit_chunk` and
`lonejson__value_rewrite_visit_bool`. -/
def RewriteState.visitOld (s : RewriteState σ γ) (event : VisitEvent) : RewriteState σ γ × Status :=
  match env.options.oldValueVisitor with
  | none => (s, .ok)
  | some visitor =>
    s.write fun w =>
      let r := visitor w.out event w.error
      ({ w with out := r.1, error := r.2.1 }, r.2.2)

/-- `lonejson__value_rewrite_replace_with`. -/
def RewriteState.replaceWith (s : RewriteState σ γ) : RewriteState σ γ × Status :=
  match env.options.replace with
  | none => s.setError .invalidArgument "value rewrite replace callback is required"
  | some replace => s.write fun w => replace w s.oldValue

/-- `lonejson__value_rewrite_begin_replace_with`. -/
def RewriteState.beginReplaceWith (s : RewriteState σ γ) (type : OldValueType) : RewriteState σ γ :=
  { s with oldValue := { present := true, type }, replacing := true, replaceDepth := 0 }

/-- `lonejson__value_rewrite_parent_child_matches`. -/
def RewriteFrame.childMatches (target : List Bytes) (parent : RewriteFrame) : Bool :=
  parent.prefixMatches &&
    match target[parent.pathLen]? with
    | none => false
    | some segment =>
      match parent.kind with
      | .object => parent.key == segment
      | .array => formatSize parent.count == segment

/-- `lonejson__value_rewrite_push_frame`. -/
def RewriteState.pushFrame (s : RewriteState σ γ) (kind : ContainerKind) (pathLen : ℕ)
    (prefixMatches : Bool) : RewriteState σ γ × Status :=
  if env.writer.canGrow s.writer.out s.frames.length then
    ({ s with frames := { kind, pathLen, prefixMatches } :: s.frames }, .ok)
  else s.setError .allocationFailed "failed to grow value rewrite stack"

/-- `lonejson__value_rewrite_pop_frame`. -/
def RewriteState.popFrame (s : RewriteState σ γ) : RewriteState σ γ × Status :=
  match s.frames with
  | [] => s.setError .internalError "value rewrite frame underflow"
  | _ :: rest => ({ s with frames := rest }, .ok)

/-! ## Missing values -/

/-- The replacement of a value that is missing. -/
def RewriteState.emitMissing (s : RewriteState σ γ) : RewriteState σ γ × Status :=
  if env.options.action = .replaceWith then
    RewriteState.replaceWith env { s with oldValue := {} }
  else s.emitSource env

/-- The second loop of `lonejson__value_rewrite_emit_missing_chain`, which closes the objects. -/
def RewriteState.closeObjects : ℕ → RewriteState σ γ → RewriteState σ γ × Status
  | 0, s => (s, .ok)
  | n + 1, s =>
    andThenOk (s.write fun w => w.endObject env.writer) (RewriteState.closeObjects n)

/-- The first loop of `lonejson__value_rewrite_emit_missing_chain` over the segments that are
left, with the number of objects that it has opened, and the second loop behind it. -/
def RewriteState.emitChain : List Bytes → ℕ → RewriteState σ γ → RewriteState σ γ × Status
  | [], n, s => s.closeObjects env n
  | segment :: rest, n, s =>
    if segmentIsIndex segment then
      s.setError .typeMismatch "value rewrite cannot synthesize a missing array index"
    else
      andThenOk (s.write fun w => w.key env.writer { bytes := segment }) fun s =>
        if rest = [] then
          andThenOk (s.emitMissing env) (RewriteState.closeObjects env n)
        else
          andThenOk (s.write fun w => w.beginObject env.writer) fun s =>
            RewriteState.emitChain rest (n + 1) s

/-- `lonejson__value_rewrite_emit_missing_chain`. -/
def RewriteState.emitMissingChain (s : RewriteState σ γ) (frame : RewriteFrame) :
    RewriteState σ γ × Status :=
  if s.found || (env.options.action ≠ .replace && env.options.action ≠ .replaceWith) ||
      !frame.prefixMatches || frame.sawTargetChild then (s, .ok)
  else
    match env.options.target.drop frame.pathLen with
    | [] => (s, .ok)
    | segment :: rest =>
      if segmentIsIndex segment then (s, .ok)
      else
        andThenOk (s.write fun w => w.key env.writer { bytes := segment }) fun s =>
          if rest = [] then
            let r := s.emitMissing env
            ({ r.1 with found := r.2 = .ok }, r.2)
          else
            andThenOk (s.write fun w => w.beginObject env.writer) fun s =>
              andThenOk (s.emitChain env rest 1) fun s => ({ s with found := true }, .ok)

/-! ## Values -/

/-- What `lonejson__value_rewrite_before_value` finds out about a value. -/
structure RewritePlace where
  emitOriginal : Bool := false
  prefixMatches : Bool := false
  pathLen : ℕ := 0
  atTarget : Bool := false
  deriving DecidableEq, Repr

/-- The results of `lonejson__value_rewrite_before_value`. -/
def RewriteState.place (s : RewriteState σ γ) : RewritePlace :=
  if s.skipping then {}
  else
    let pathLen := match s.frames with
      | [] => 0
      | parent :: _ => parent.pathLen + 1
    let prefixMatches := match s.frames with
      | [] => true
      | parent :: _ => parent.childMatches env.options.target
    let atTarget := pathLen = env.options.target.length && prefixMatches
    { emitOriginal := !atTarget || env.options.action = .keep, prefixMatches, pathLen, atTarget }

/-- The parent of a value, which has one more child. -/
def RewriteFrame.count1 (target : List Bytes) (parent : RewriteFrame) : RewriteFrame :=
  { parent with
    sawTargetChild := parent.sawTargetChild || parent.childMatches target
    count := if parent.kind = .array then parent.count + 1 else parent.count }

/-- The key of a member, which is written in front of its value. -/
def RewriteState.writeKey (s : RewriteState σ γ) : RewriteState σ γ × Status :=
  match s.frames with
  | ⟨.object, _, _, _, _, key⟩ :: _ => s.write fun w => w.key env.writer { bytes := key }
  | _ => (s, .ok)

/-- `lonejson__value_rewrite_before_value`. -/
def RewriteState.beforeValue (s : RewriteState σ γ) : RewriteState σ γ × Status :=
  if s.skipping then (s, .ok)
  else
    let place := s.place env
    let frames := match s.frames with
      | [] => []
      | parent :: rest => parent.count1 env.options.target :: rest
    let s := { s with frames }
    if place.atTarget then
      let s := { s with found := true }
      match env.options.action with
      | .keep => s.writeKey env
      | .drop => (s, .ok)
      | .replace => andThenOk (s.writeKey env) fun s => s.emitSource env
      | .replaceWith => andThenOk (s.writeKey env) fun s => ({ s with currentReplace := true }, .ok)
    else s.writeKey env

/-- The two callbacks that open a container. -/
def RewriteState.containerBegin (kind : ContainerKind) (type : OldValueType) (event : VisitEvent)
    (begin : Writer σ γ → Writer σ γ × Status) (s : RewriteState σ γ) : RewriteState σ γ × Status :=
  if s.replacing then RewriteState.visitOld env { s with replaceDepth := s.replaceDepth + 1 } event
  else if s.skipping then ({ s with skipDepth := s.skipDepth + 1 }, .ok)
  else
    let place := s.place env
    andThenOk (s.beforeValue env) fun s =>
      if !place.emitOriginal then
        if s.currentReplace then
          RewriteState.visitOld env
            { s.beginReplaceWith type with replaceDepth := 1, currentReplace := false } event
        else ({ s with skipping := true, skipDepth := 1 }, .ok)
      else
        andThenOk (s.write begin) fun s => s.pushFrame env kind place.pathLen place.prefixMatches

/-- `lonejson__value_rewrite_object_begin`. -/
def rewriteObjectBegin : RewriteState σ γ → RewriteState σ γ × Status :=
  RewriteState.containerBegin env .object .object .objectBegin fun w => w.beginObject env.writer

/-- `lonejson__value_rewrite_array_begin`. -/
def rewriteArrayBegin : RewriteState σ γ → RewriteState σ γ × Status :=
  RewriteState.containerBegin env .array .array .arrayBegin fun w => w.beginArray env.writer

/-- The end of a container that is being replaced or skipped. -/
def RewriteState.containerEnd (event : VisitEvent)
    (close : RewriteState σ γ → RewriteState σ γ × Status) (s : RewriteState σ γ) :
    RewriteState σ γ × Status :=
  if s.replacing then
    andThenOk (s.visitOld env event) fun s =>
      let s := { s with replaceDepth := s.replaceDepth - 1 }
      if s.replaceDepth = 0 then RewriteState.replaceWith env { s with replacing := false }
      else (s, .ok)
  else if s.skipping then
    ({ s with skipDepth := s.skipDepth - 1, skipping := s.skipDepth - 1 ≠ 0 }, .ok)
  else close s

/-- `lonejson__value_rewrite_object_end`. -/
def rewriteObjectEnd : RewriteState σ γ → RewriteState σ γ × Status :=
  RewriteState.containerEnd env .objectEnd fun s =>
    match s.frames with
    | ⟨.object, pathLen, count, prefixMatches, saw, key⟩ :: _ =>
      andThenOk (s.emitMissingChain env ⟨.object, pathLen, count, prefixMatches, saw, key⟩) fun s =>
        andThenOk (s.write fun w => w.endObject env.writer) fun s => s.popFrame
    | _ => s.setError .internalError "value rewrite object frame mismatch"

/-- `lonejson__value_rewrite_array_end`. -/
def rewriteArrayEnd : RewriteState σ γ → RewriteState σ γ × Status :=
  RewriteState.containerEnd env .arrayEnd fun s =>
    match s.frames with
    | ⟨.array, _, _, _, _, _⟩ :: _ =>
      andThenOk (s.write fun w => w.endArray env.writer) fun s => s.popFrame
    | _ => s.setError .internalError "value rewrite array frame mismatch"

/-- The key of the top frame. -/
def withKey (f : Bytes → Bytes) : List RewriteFrame → List RewriteFrame
  | [] => []
  | frame :: rest => { frame with key := f frame.key } :: rest

/-- `lonejson__value_rewrite_key_begin`. -/
def rewriteKeyBegin (s : RewriteState σ γ) : RewriteState σ γ × Status :=
  if s.replacing then s.visitOld env .keyBegin
  else if s.skipping then (s, .ok)
  else ({ s with frames := withKey (fun _ => []) s.frames }, .ok)

/-- `lonejson__value_rewrite_key_chunk`. -/
def rewriteKeyChunk (data : Bytes) (s : RewriteState σ γ) : RewriteState σ γ × Status :=
  if s.replacing then s.visitOld env (.keyChunk data)
  else if s.skipping then (s, .ok)
  else ({ s with frames := withKey (· ++ data) s.frames }, .ok)

/-- `lonejson__value_rewrite_key_end`. -/
def rewriteKeyEnd (s : RewriteState σ γ) : RewriteState σ γ × Status :=
  if s.replacing then s.visitOld env .keyEnd else (s, .ok)

/-- `lonejson__value_rewrite_string_begin`. -/
def rewriteStringBegin (s : RewriteState σ γ) : RewriteState σ γ × Status :=
  if s.replacing then s.visitOld env .stringBegin
  else
    let place := s.place env
    andThenOk (RewriteState.beforeValue env { s with currentEmit := place.emitOriginal }) fun s =>
      if s.currentReplace then
        RewriteState.visitOld env { s.beginReplaceWith .string with currentReplace := false }
          .stringBegin
      else if !s.currentEmit then (s, .ok)
      else s.write fun w => w.stringBegin env.writer

/-- `lonejson__value_rewrite_string_chunk`. -/
def rewriteStringChunk (data : Bytes) (s : RewriteState σ γ) : RewriteState σ γ × Status :=
  if s.replacing then s.visitOld env (.stringChunk data)
  else if !s.currentEmit then (s, .ok)
  else s.write fun w => w.stringChunk env.writer { bytes := data }

/-- `lonejson__value_rewrite_string_end`. -/
def rewriteStringEnd (s : RewriteState σ γ) : RewriteState σ γ × Status :=
  if s.replacing then
    andThenOk (s.visitOld env .stringEnd) fun s =>
      if s.replaceDepth ≠ 0 then (s, .ok)
      else RewriteState.replaceWith env { s with replacing := false }
  else if !s.currentEmit then ({ s with currentEmit := false }, .ok)
  else
    let r := s.write fun w => w.stringEnd env.writer
    ({ r.1 with currentEmit := false }, r.2)

/-- `lonejson__value_rewrite_number_begin`. -/
def rewriteNumberBegin (s : RewriteState σ γ) : RewriteState σ γ × Status :=
  let s := { s with number := [] }
  if s.replacing then s.visitOld env .numberBegin
  else
    let place := s.place env
    andThenOk (RewriteState.beforeValue env { s with currentEmit := place.emitOriginal }) fun s =>
      if s.currentReplace then
        RewriteState.visitOld env { s.beginReplaceWith .number with currentReplace := false }
          .numberBegin
      else if s.currentEmit then s.write fun w => w.numberBegin env.writer
      else (s, .ok)

/-- `lonejson__value_rewrite_number_chunk`. -/
def rewriteNumberChunk (data : Bytes) (s : RewriteState σ γ) : RewriteState σ γ × Status :=
  if s.replacing then
    match byteAppend s.number data env.numberLimit with
    | .error message => s.setError .overflow message
    | .ok number => RewriteState.visitOld env { s with number } (.numberChunk data)
  else if !s.currentEmit then (s, .ok)
  else s.write fun w => w.numberChunk data

/-- `lonejson__value_rewrite_number_end`. -/
def rewriteNumberEnd (s : RewriteState σ γ) : RewriteState σ γ × Status :=
  if s.replacing then
    andThenOk (s.visitOld env .numberEnd) fun s =>
      if s.replaceDepth ≠ 0 then ({ s with number := [] }, .ok)
      else
        let r := RewriteState.replaceWith env
          { s with oldValue := { s.oldValue with number := s.number }, replacing := false }
        ({ r.1 with number := [] }, r.2)
  else if !s.currentEmit then ({ s with currentEmit := false }, .ok)
  else
    let r := s.write fun w => w.numberEnd env.writer
    ({ r.1 with currentEmit := false }, r.2)

/-- The two callbacks of the values that one call writes. -/
def RewriteState.literal (event : VisitEvent) (oldValue : OldValue)
    (emit : Writer σ γ → Writer σ γ × Status) (s : RewriteState σ γ) : RewriteState σ γ × Status :=
  if s.replacing then s.visitOld env event
  else
    let place := s.place env
    andThenOk (s.beforeValue env) fun s =>
      if s.currentReplace then
        andThenOk
          (RewriteState.visitOld env
            { s.beginReplaceWith oldValue.type with oldValue, currentReplace := false } event)
          fun s => RewriteState.replaceWith env { s with replacing := false }
      else if !place.emitOriginal then (s, .ok)
      else s.write emit

/-- `lonejson__value_rewrite_boolean`. -/
def rewriteBoolean (value : Bool) : RewriteState σ γ → RewriteState σ γ × Status :=
  RewriteState.literal env (.bool value) { present := true, type := .bool, boolean := value }
    fun w => w.bool env.writer value

/-- `lonejson__value_rewrite_null`. -/
def rewriteNull : RewriteState σ γ → RewriteState σ γ × Status :=
  RewriteState.literal env .null { present := true, type := .null } fun w => w.null env.writer

/-- The callbacks of a rewrite. -/
def rewriteEvent : VisitEvent → RewriteState σ γ → RewriteState σ γ × Status
  | .objectBegin => rewriteObjectBegin env
  | .objectEnd => rewriteObjectEnd env
  | .keyBegin => rewriteKeyBegin env
  | .keyChunk data => rewriteKeyChunk env data
  | .keyEnd => rewriteKeyEnd env
  | .arrayBegin => rewriteArrayBegin env
  | .arrayEnd => rewriteArrayEnd env
  | .stringBegin => rewriteStringBegin env
  | .stringChunk data => rewriteStringChunk env data
  | .stringEnd => rewriteStringEnd env
  | .numberBegin => rewriteNumberBegin env
  | .numberChunk data => rewriteNumberChunk env data
  | .numberEnd => rewriteNumberEnd env
  | .bool value => rewriteBoolean env value
  | .null => rewriteNull env

/-- The visitor of a rewrite: the callbacks share the error record of the writer. -/
def rewriteVisitor : Visitor (RewriteState σ γ) := fun s event error =>
  let r := rewriteEvent env event { s with writer := { s.writer with error } }
  (r.1, r.1.writer.error, r.2)

/-! ## The whole rewrite -/

/-- `lonejson__value_rewrite_validate_options`. -/
def RewriteOptions.check (options : RewriteOptions σ γ) : Option String :=
  if options.action = .replace ∧ !options.replacement.isValid then
    some "value rewrite replacement source is invalid"
  else if options.action = .replaceWith ∧ options.replace.isNone then
    some "value rewrite replace callback is required"
  else if options.action = .drop ∧ options.target = [] then
    some "value rewrite cannot drop the root value"
  else none

/-- `lonejson__value_rewrite_resolve_limits`. -/
def resolveLimits (limits : ValueLimits) (maxDepth : ℕ) : ValueLimits :=
  { limits with maxDepth := if maxDepth ≠ 0 then maxDepth else limits.maxDepth }

/-- `lonejson__value_rewrite_reader_with_options`: the world, the error record and the status
at the end. `limits` and `maxDepth` are those of the runtime, and `window` says how the text
lies in the read buffer. -/
def valueRewriteReader (wenv : WriterEnv σ γ) (options : RewriteOptions σ γ) (limits : ValueLimits)
    (maxDepth : ℕ) (window : ℕ → ℕ) (text : Text) (out : σ) : σ × ErrorInfo × Status :=
  match options.check with
  | some message => (out, ErrorInfo.set {} .invalidArgument message, .invalidArgument)
  | none =>
    let resolved := resolveLimits limits maxDepth
    let env : RewriteEnv σ γ := ⟨wenv, options, resolved.maxNumberBytes⟩
    let writer : Writer σ γ := { out, maxNumberBytes := limits.maxNumberBytes }
    let visited := jsonVisit ⟨resolved.orDefault, text.length, window⟩ (rewriteVisitor env) text
      { out := { writer } }
    let error := if visited.status = .ok then {} else visited.error
    let s := { visited.out with writer := { visited.out.writer with error } }
    let r :=
      if visited.status = .ok ∧ !s.found ∧ options.action ≠ .keep then
        s.setError .typeMismatch "value rewrite target was not found"
      else (s, visited.status)
    let r := andThenOk r fun s => s.write Writer.finish
    (r.1.writer.out, r.1.writer.error, r.2)

/-- How many bytes of a buffer of `len` bytes are left in the read buffer of 4096 bytes when
`left` bytes are left. -/
def bufferWindow (len left : ℕ) : ℕ := min len ((len - left + 4095) / 4096 * 4096) - (len - left)

/-- `lonejson_value_rewrite_buffer`. -/
def valueRewriteBuffer (wenv : WriterEnv σ γ) (options : RewriteOptions σ γ) (limits : ValueLimits)
    (maxDepth : ℕ) (text : Text) (out : σ) : σ × ErrorInfo × Status :=
  valueRewriteReader wenv options limits maxDepth (bufferWindow text.length) text out

end Lonejson
