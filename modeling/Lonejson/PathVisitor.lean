import Lonejson.Visitor
import Lonejson.JsonStream

/-!
# The visitor of JSON values with paths

The second copy of the recursive visitor, which keeps a stack of path segments and hands the
path to each callback. The cursor is the text that is left, as in the first copy. A segment
points into its frame, which nothing writes while the segment is on the stack, so the stack
holds the bytes themselves. The blocks that `lonejson__json_visit_cursor` asks for hold
`path_capacity` entries.
-/

namespace Lonejson

open Json (Text)

variable {υ α : Type}

/-- `lonejson_path_value_visitor`. A callback that is `NULL` does nothing and returns `ok`. -/
abbrev PathVisitor (υ : Type) := υ → List Bytes → VisitEvent → ErrorInfo → υ × ErrorInfo × Status

/-- `lonejson__json_path_frame`. As long as `key` is `NULL`, `keyCap` is zero. -/
structure PathFrame where
  key : Bytes := []
  keyCap : ℕ := 0
  keyHeap : Bool := false
  nextIndex : UInt64 := 0

/-- What a visit with paths is given. The allocator `grants` a block of some size or not. -/
structure PathEnv (υ : Type) extends VisitEnv where
  visitor : Option (Visitor υ)
  pathVisitor : PathVisitor υ
  pathCapacity : ℕ
  grants : ℕ → Bool

/-- `lonejson__json_io` with the path stack, whose depth is the number of segments. -/
structure PathIo (υ : Type) extends JsonIo υ where
  segments : List Bytes := []
  frames : ℕ → PathFrame := fun _ => {}

/-- `path_depth`. -/
def PathIo.pathDepth (io : PathIo υ) : ℕ := io.segments.length

/-- `&io->path_frames[io->path_depth]`. -/
def PathIo.frame (io : PathIo υ) : PathFrame := io.frames io.pathDepth

def PathIo.setFrame (io : PathIo υ) (frame : PathFrame) : PathIo υ :=
  { io with frames := fun d => if d = io.pathDepth then frame else io.frames d }

/-- A call that leaves the path stack alone. -/
def PathIo.lift (io : PathIo υ) (x : Except (JsonIo υ) α) : Except (PathIo υ) α :=
  x.mapError fun j => { io with toJsonIo := j }

def PathIo.fail (io : PathIo υ) (code : Status) (message : String) : PathIo υ :=
  { io with toJsonIo := io.toJsonIo.fail code message }

/-! ## Callbacks -/

/-- A callback with the current path, and a return unless the status is one to go on with. -/
def PathIo.visit (io : PathIo υ) (v : Visitor υ) (event : VisitEvent) :
    Except (PathIo υ) (PathIo υ) :=
  (io.lift (io.toJsonIo.visit v event)).map fun j => { io with toJsonIo := j }

/-- `lonejson__json_visit_event`. -/
def PathIo.visitEvent (env : PathEnv υ) (event : VisitEvent) (io : PathIo υ) :
    Except (PathIo υ) (PathIo υ) :=
  match env.visitor with
  | none => .ok io
  | some v => io.visit v event

/-- `lonejson__json_visit_path_event`. -/
def PathIo.visitPathEvent (env : PathEnv υ) (event : VisitEvent) (io : PathIo υ) :
    Except (PathIo υ) (PathIo υ) :=
  io.visit (fun out => env.pathVisitor out io.segments) event

/-- `lonejson__json_visit_any_event`, and `lonejson__json_visit_bool`. -/
def PathIo.visitAny (env : PathEnv υ) (event : VisitEvent) (io : PathIo υ) :
    Except (PathIo υ) (PathIo υ) :=
  (io.visitEvent env event).bind (PathIo.visitPathEvent env event)

/-- The doubling loop of `lonejson__json_path_key_append`. -/
def growKey (need : ℕ) : ℕ → ℕ → ℕ
  | 0, cap => cap
  | n + 1, cap =>
    if cap < need then
      if cap > sizeMax / 2 then need else growKey need n (cap * 2)
    else cap

/-- `lonejson__json_path_key_append`. -/
def PathIo.keyAppend (env : PathEnv υ) (data : Bytes) (io : PathIo υ) :
    Except (PathIo υ) (PathIo υ) :=
  if data = [] ∨ io.pathDepth ≥ env.pathCapacity then .ok io
  else
    let frame := { io.frame with keyCap := if io.frame.keyCap = 0 then 64 else io.frame.keyCap }
    if data.length > sizeMax - frame.key.length - 1 then
      .error (io.fail .overflow "JSON object key exceeds maximum decoded byte limit")
    else
      let newLen := frame.key.length + data.length
      if newLen + 1 > frame.keyCap then
        let newCap := growKey (newLen + 1) 64 frame.keyCap
        if env.grants newCap then
          .ok (io.setFrame
            { frame with key := frame.key ++ data, keyCap := newCap, keyHeap := true })
        else .error (io.fail .allocationFailed "failed to allocate JSON path key buffer")
      else .ok (io.setFrame { frame with key := frame.key ++ data })

/-- `lonejson__json_visit_any_chunk`. -/
def PathIo.visitAnyChunk (env : PathEnv υ) (isKey : Bool) (data : Bytes) (io : PathIo υ) :
    Except (PathIo υ) (PathIo υ) :=
  (if isKey then io.keyAppend env data else .ok io).bind fun io =>
    if data = [] then .ok io else io.visitAny env (textChunk isKey data)

/-! ## The path stack -/

/-- `lonejson__json_path_push_object_key`. -/
def PathIo.pushObjectKey (env : PathEnv υ) (io : PathIo υ) : Except (PathIo υ) (PathIo υ) :=
  if io.pathDepth ≥ env.pathCapacity then
    .error (io.fail .internalError "invalid JSON path stack state")
  else .ok { io with segments := io.segments ++ [io.frame.key] }

/-- `lonejson__json_path_push_array_index`, with 32 bytes for the text of the index. -/
def PathIo.pushArrayIndex (env : PathEnv υ) (io : PathIo υ) : Except (PathIo υ) (PathIo υ) :=
  if io.pathDepth ≥ env.pathCapacity then
    .error (io.fail .internalError "invalid JSON path stack state")
  else
    let index := formatSizeDecimal io.frame.nextIndex.toNat
    if index.length ≥ 32 then
      .error (io.fail .overflow "JSON array index path segment is too large")
    else .ok { io with segments := io.segments ++ [index] }

/-- `lonejson__json_path_pop`. -/
def PathIo.pop (io : PathIo υ) : PathIo υ := { io with segments := io.segments.dropLast }

/-- A write to the member `next_index` of the current frame. -/
def PathIo.setIndex (env : PathEnv υ) (index : UInt64 → UInt64) (io : PathIo υ) : PathIo υ :=
  if io.pathDepth < env.pathCapacity then
    io.setFrame { io.frame with nextIndex := index io.frame.nextIndex }
  else io

namespace Paths

/-! ## Strings -/

def flushPlain (env : PathEnv υ) (isKey : Bool) (plain : Bytes) (io : PathIo υ) :
    Except (PathIo υ) (PathIo υ) :=
  if plain = [] then .ok io else io.visitAnyChunk env isKey plain

/-- The copying loop of `lonejson__json_visit_plain_chunk`, with a buffer of 256 bytes. -/
def fillPlain (env : PathEnv υ) (isKey : Bool) :
    ℕ → Bytes → Bytes → PathIo υ → Except (PathIo υ) (Bytes × PathIo υ)
  | 0, _, _, io => .error io
  | n + 1, plain, data, io =>
    if data = [] then .ok (plain, io)
    else
      let plain' := plain ++ data.take (256 - plain.length)
      let data := data.drop (256 - plain.length)
      if plain'.length = 256 then
        (io.visitAnyChunk env isKey plain').bind (fillPlain env isKey n [] data)
      else fillPlain env isKey n plain' data io

/-- `lonejson__json_visit_plain_chunk`; `left` bytes are left behind the span. -/
def visitPlainChunk (env : PathEnv υ) (isKey : Bool) (left : ℕ) (span plain : Bytes)
    (decoded : ℕ) (io : PathIo υ) : Except (PathIo υ) (Bytes × PathIo υ) :=
  if span = [] then .ok (plain, io)
  else if env.tooLong left then
    .error (io.fail .overflow "JSON value exceeds maximum total byte limit")
  else if env.overText isKey (decoded + span.length) then
    .error (io.fail .overflow (overTextMessage isKey))
  else if plain = [] then (io.visitAnyChunk env isKey span).map ([], ·)
  else fillPlain env isKey (span.length + 1) plain span io

/-- The digits of a code unit. -/
def visitQuad (env : PathEnv υ) (message : String) :
    ℕ → ℕ → Text → PathIo υ → Except (PathIo υ) (ℕ × Text)
  | 0, cp, i, _ => .ok (cp, i)
  | _ + 1, _, [], io => .error (io.fail .invalidJson message)
  | n + 1, cp, hx :: i, io =>
    if env.tooLong i.length then
      .error (io.fail .overflow "JSON value exceeds maximum total byte limit")
    else
      match hexValue hx with
      | none => .error (io.fail .invalidJson message)
      | some hv => visitQuad env message n (pushHex cp hv) i io

/-- The second half of a surrogate pair. -/
def visitLow (env : PathEnv υ) (high : ℕ) (i : Text) (io : PathIo υ) :
    Except (PathIo υ) (ℕ × Text) :=
  match (env.reads 0x5c i).bind (env.reads 0x75) with
  | none => .error (io.fail .invalidJson "invalid unicode surrogate pair")
  | some i =>
    (visitQuad env "invalid unicode surrogate pair" 4 0 i io).bind fun x =>
      if isLowSurrogate x.1 then .ok (combineSurrogates high x.1, x.2)
      else .error (io.fail .invalidJson "invalid unicode surrogate pair")

/-- The code point of a `\\u` escape behind the letter. -/
def visitUnicode (env : PathEnv υ) (i : Text) (io : PathIo υ) : Except (PathIo υ) (ℕ × Text) :=
  (visitQuad env "invalid unicode escape" 4 0 i io).bind fun x =>
    if isHighSurrogate x.1 then visitLow env x.1 x.2 io
    else if isLowSurrogate x.1 then .error (io.fail .invalidJson "unexpected low surrogate")
    else .ok x

/-- Deliver what an escape stands for. -/
def deliverEscape (env : PathEnv υ) (isKey : Bool) (data : Bytes) (decoded : ℕ) (i : Text)
    (io : PathIo υ) : Except (PathIo υ) (Text × ℕ × PathIo υ) :=
  if env.overText isKey (decoded + data.length) then
    .error (io.fail .overflow "decoded JSON text exceeds limit")
  else (io.visitAnyChunk env isKey data).map (i, decoded + data.length, ·)

/-- An escape behind its backslash. -/
def visitEscape (env : PathEnv υ) (isKey : Bool) (decoded : ℕ) (i : Text) (io : PathIo υ) :
    Except (PathIo υ) (Text × ℕ × PathIo υ) :=
  match i with
  | [] => .error (io.fail .invalidJson "unterminated escape sequence")
  | ch :: i =>
    if env.tooLong i.length then
      .error (io.fail .overflow "JSON value exceeds maximum total byte limit")
    else
      match simpleEscape ch with
      | some out => deliverEscape env isKey [out] decoded i io
      | none =>
        if ch = 0x75 then
          (visitUnicode env i io).bind fun x =>
            match utf8Encode x.1 with
            | none => .error (io.fail .internalError "failed to encode unicode escape")
            | some data => deliverEscape env isKey data decoded x.2 io
        else .error (io.fail .invalidJson "invalid string escape")

/-- The byte behind the plain span, in the loop of `lonejson__json_visit_string_value`. -/
def visitTextByte (env : PathEnv υ) (isKey : Bool)
    (loop : Text → Bytes → ℕ → PathIo υ → Except (PathIo υ) (Text × PathIo υ)) (decoded : ℕ)
    (i : Text) (plain : Bytes) (io : PathIo υ) : Except (PathIo υ) (Text × PathIo υ) :=
  match i with
  | [] => .error (io.fail .invalidJson "unterminated JSON string")
  | ch :: i =>
    if env.tooLong i.length then
      .error (io.fail .overflow "JSON value exceeds maximum total byte limit")
    else if ch = 0x22 then
      (flushPlain env isKey plain io).bind fun io =>
        (io.visitAny env (textEnd isKey)).map (i, ·)
    else if ch < 0x20 then .error (io.fail .invalidJson "control character in string")
    else if ch ≠ 0x5c then
      let plain := plain ++ [ch]
      if env.overText isKey (decoded + 1) then
        .error (io.fail .overflow (overTextMessage isKey))
      else if plain.length = 256 then
        (io.visitAnyChunk env isKey plain).bind (loop i [] (decoded + 1))
      else loop i plain (decoded + 1) io
    else
      (flushPlain env isKey plain io).bind fun io =>
        (visitEscape env isKey decoded i io).bind fun x => loop x.1 [] x.2.1 x.2.2

/-- The loop of `lonejson__json_visit_string_value`. -/
def visitText (env : PathEnv υ) (isKey : Bool) :
    ℕ → Text → Bytes → ℕ → PathIo υ → Except (PathIo υ) (Text × PathIo υ)
  | 0, _, _, _, io => .error io
  | n + 1, i, plain, decoded, io =>
    let span := (i.take (env.window i.length)).takeWhile isPlain
    (visitPlainChunk env isKey (i.length - span.length) span plain decoded io).bind fun x =>
      visitTextByte env isKey (visitText env isKey n) (decoded + span.length)
        (i.drop span.length) x.1 x.2

/-- The frame of a key, emptied. -/
def beginKey (env : PathEnv υ) (isKey : Bool) (io : PathIo υ) : PathIo υ :=
  if isKey ∧ io.pathDepth < env.pathCapacity then
    io.setFrame { io.frame with
      key := []
      keyCap := if io.frame.keyCap = 0 then 64 else io.frame.keyCap
      keyHeap := if io.frame.keyCap = 0 then false else io.frame.keyHeap }
  else io

/-- `lonejson__json_visit_string_value`, behind the quote. -/
def visitString (env : PathEnv υ) (isKey : Bool) (i : Text) (io : PathIo υ) :
    Except (PathIo υ) (Text × PathIo υ) :=
  ((beginKey env isKey io).visitAny env (textBegin isKey)).bind
    (visitText env isKey (i.length + 1) i [] 0)

/-! ## Numbers and literals -/

/-- The loop of `lonejson__json_visit_number`. -/
def visitDigits (env : PathEnv υ) (io : PathIo υ) :
    Bytes → Text → Except (PathIo υ) (Bytes × Text)
  | buffer, [] => .ok (buffer, [])
  | buffer, ch :: i =>
    if isNumberByte ch then
      if env.tooLong i.length then
        .error (io.fail .overflow "JSON value exceeds maximum total byte limit")
      else if buffer.length ≥ env.limits.maxNumberBytes then
        .error (io.fail .overflow "JSON number exceeds maximum byte limit")
      else visitDigits env io (buffer ++ [ch]) i
    else .ok (buffer, ch :: i)

/-- `lonejson__json_visit_number`. -/
def visitNumber (env : PathEnv υ) (first : Byte) (i : Text) (io : PathIo υ) :
    Except (PathIo υ) (Text × PathIo υ) :=
  (io.visitAny env .numberBegin).bind fun io =>
    if 0 ≥ env.limits.maxNumberBytes then
      .error (io.fail .overflow "JSON number exceeds maximum byte limit")
    else
      (visitDigits env io [first] i).bind fun x =>
        if isValidJsonNumber x.1 then
          (io.visitAny env (.numberChunk x.1)).bind fun io =>
            (io.visitAny env .numberEnd).map (x.2, ·)
        else .error (io.fail .invalidJson "invalid JSON number")

/-- `lonejson__json_visit_literal`, with the callback at its end. -/
def visitLiteral (env : PathEnv υ) (event : VisitEvent) :
    Text → Text → PathIo υ → Except (PathIo υ) (Text × PathIo υ)
  | [], i, io => (io.visitAny env event).map (i, ·)
  | _ :: _, [], io => .error (io.fail .invalidJson "invalid JSON literal")
  | c :: rest, ch :: i, io =>
    if env.tooLong i.length then
      .error (io.fail .overflow "JSON value exceeds maximum total byte limit")
    else if ch = c then visitLiteral env event rest i io
    else .error (io.fail .invalidJson "invalid JSON literal")

/-! ## Values -/

/-- The colon behind a key. -/
def visitColon (env : PathEnv υ) (i : Text) (io : PathIo υ) :
    Except (PathIo υ) (Text × PathIo υ) :=
  match visitPeek env.toVisitEnv io.toJsonIo i with
  | .ok (0x3a :: i) => .ok (i, io)
  | _ => .error (io.fail .invalidJson "expected ':' after object key")

/-- The key of a member and its colon. -/
def visitKey (env : PathEnv υ) (i : Text) (io : PathIo υ) : Except (PathIo υ) (Text × PathIo υ) :=
  match visitPeek env.toVisitEnv io.toJsonIo i with
  | .ok (0x22 :: i) => (visitString env true i io).bind fun x => visitColon env x.1 x.2
  | _ => .error (io.fail .invalidJson "expected object key")

mutual

/-- `lonejson__json_visit_value`. -/
def visitValue (env : PathEnv υ) :
    ℕ → ℕ → Text → PathIo υ → Except (PathIo υ) (Text × PathIo υ)
  | 0, _, _, io => .error io
  | n + 1, depth, i, io =>
    (io.lift (visitPeek env.toVisitEnv io.toJsonIo i)).bind fun i =>
      match i with
      | [] => .error (io.fail .invalidJson "expected JSON value")
      | ch :: i =>
        if ch = 0x22 then visitString env false i io
        else if ch = 0x7b then
          if depth ≥ env.limits.maxDepth then
            .error (io.fail .overflow "JSON value nesting exceeds maximum depth")
          else (io.visitAny env .objectBegin).bind (visitMembers env n depth true i)
        else if ch = 0x5b then
          if depth ≥ env.limits.maxDepth then
            .error (io.fail .overflow "JSON value nesting exceeds maximum depth")
          else
            ((io.setIndex env fun _ => 0).visitAny env .arrayBegin).bind
              (visitItems env n depth true i)
        else if ch = 0x74 then visitLiteral env (.bool true) [0x72, 0x75, 0x65] i io
        else if ch = 0x66 then visitLiteral env (.bool false) [0x61, 0x6c, 0x73, 0x65] i io
        else if ch = 0x6e then visitLiteral env .null [0x75, 0x6c, 0x6c] i io
        else if isNumberStart ch then visitNumber env ch i io
        else .error (io.fail .invalidJson "expected JSON value")

/-- The loop of `lonejson__json_visit_object`. -/
def visitMembers (env : PathEnv υ) :
    ℕ → ℕ → Bool → Text → PathIo υ → Except (PathIo υ) (Text × PathIo υ)
  | 0, _, _, _, io => .error io
  | n + 1, depth, first, i, io =>
    (io.lift (visitPeek env.toVisitEnv io.toJsonIo i)).bind fun i =>
      match i with
      | [] => .error (io.fail .invalidJson "unterminated JSON object")
      | ch :: j =>
        if ch = 0x7d then (io.visitAny env .objectEnd).map (j, ·)
        else if !first && ch != 0x2c then
          .error (io.fail .invalidJson "expected ',' in object")
        else
          (visitKey env (if first then i else j) io).bind fun x =>
            (x.2.pushObjectKey env).bind fun io =>
              (visitValue env n (depth + 1) x.1 io).bind fun y =>
                visitMembers env n depth false y.1 y.2.pop

/-- The loop of `lonejson__json_visit_array`. -/
def visitItems (env : PathEnv υ) :
    ℕ → ℕ → Bool → Text → PathIo υ → Except (PathIo υ) (Text × PathIo υ)
  | 0, _, _, _, io => .error io
  | n + 1, depth, first, i, io =>
    (io.lift (visitPeek env.toVisitEnv io.toJsonIo i)).bind fun i =>
      match i with
      | [] => .error (io.fail .invalidJson "unterminated JSON array")
      | ch :: j =>
        if ch = 0x5d then (io.visitAny env .arrayEnd).map (j, ·)
        else if !first && ch != 0x2c then
          .error (io.fail .invalidJson "expected ',' in array")
        else
          (io.pushArrayIndex env).bind fun io =>
            (visitValue env n (depth + 1) (if first then i else j) io).bind fun x =>
              visitItems env n depth false x.1
                (x.2.pop.setIndex env (· + 1))

end

end Paths

/-- `path_capacity`, as `lonejson__json_visit_cursor` computes it. -/
def VisitEnv.pathCapacity (env : VisitEnv) : ℕ := (env.limits.maxDepth + 1) % 2 ^ 64

/-- The setup of `lonejson__json_visit_cursor` for a path visitor. -/
def VisitEnv.withPaths (env : VisitEnv) (pv : PathVisitor υ) (grants : ℕ → Bool) : PathEnv υ :=
  { env with visitor := none, pathVisitor := pv, pathCapacity := env.pathCapacity, grants }

/-- The setup of `lonejson__json_visit_cursor` for a path visitor with the callbacks of `v`. -/
def VisitEnv.onPaths (env : VisitEnv) (v : Visitor υ) (grants : ℕ → Bool) : PathEnv υ :=
  { env with
    visitor := none
    pathVisitor := fun out _ => v out
    pathCapacity := env.pathCapacity
    grants }

/-- `lonejson__json_visit_cursor` with a path visitor; `sizeof` is 16 for a path segment and 144
for a frame. -/
def jsonVisitPaths (env : VisitEnv) (pv : PathVisitor υ) (grants : ℕ → Bool) (text : Text)
    (io : JsonIo υ) : JsonIo υ :=
  if !(grants (env.pathCapacity * 16 % 2 ^ 64) && grants (env.pathCapacity * 144 % 2 ^ 64)) then
    io.fail .allocationFailed "failed to allocate JSON path visitor state"
  else
    match Paths.visitValue (env.withPaths pv grants) (2 * text.length + 2) 0 text
        { toJsonIo := io } with
    | .error p => p.toJsonIo
    | .ok (rest, p) =>
      match visitPeek env p.toJsonIo rest with
      | .ok [] => p.toJsonIo
      | _ => p.toJsonIo.fail .invalidJson "visited JSON must contain exactly one value"

end Lonejson
