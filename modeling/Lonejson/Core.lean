import Lonejson.Value

/-!
# The parse environment and the allocation budget

What a parse reads but never writes (`Env`), the part of the parser that lies behind
the lexer and is written by the operations on fields (`Core`), and the charging of
heap blocks to a parser. The allocator itself never fails here; a parse runs out of
memory only through its budget.
-/

namespace Lonejson

/-- One event of a value visitor. -/
inductive VisitEvent where
  | objectBegin
  | objectEnd
  | keyBegin
  | keyChunk (data : Bytes)
  | keyEnd
  | arrayBegin
  | arrayEnd
  | stringBegin
  | stringChunk (data : Bytes)
  | stringEnd
  | numberBegin
  | numberChunk (data : Bytes)
  | numberEnd
  | bool (value : Bool)
  | null
  deriving DecidableEq, Repr

/-- A call from the parser into the caller's code. The pointer names the handle
whose callback it is; a callback the caller left `NULL` is one that does nothing
and returns `ok`. -/
inductive Callback where
  | sink (value : SlotPtr) (data : Bytes)
  | visit (value : SlotPtr) (event : VisitEvent)
  | pathVisit (value : SlotPtr) (path : List Bytes) (event : VisitEvent)
  | stringArrayBegin (stream : SlotPtr)
  | stringArrayChunk (stream : SlotPtr) (data : Bytes)
  | stringArrayEnd (stream : SlotPtr)
  | mappedArrayItem (stream : SlotPtr) (item : Record)

/-- `lonejson_error` without the position, which the engine keeps. `atZero` records
an error that was raised with the position `0:0:0`. -/
structure ErrorInfo where
  code : Status := .ok
  truncated : Bool := false
  message : String := ""
  messageArg : Bytes := []
  atZero : Bool := false
  deriving DecidableEq, Repr

/-- What a parse is given: the maps, the options, the caller's code and the sizes
the C compiler fixes. `strtod` is a parameter because floating point is not
modelled. -/
structure Env (σ : Type) where
  maps : MapTable
  rootMap : Option MapId := none
  options : ParseOptions := {}
  validateOnly : Bool := false
  /-- The address of the parser, which the blocks charged to it carry. -/
  parserId : ℕ := 0
  /-- `sizeof(lonejson_frame)`. -/
  frameSize : ℕ := 88
  /-- `sizeof(void *)`, a power of two. -/
  pointerSize : ℕ := 8
  /-- `sizeof` of the path state, of a path segment and of a path frame. -/
  pathSizes : ℕ × ℕ × ℕ := (32, 16, 136)
  workspaceSize : ℕ := 4096
  /-- The caller's code, which is handed the error record of the parser. -/
  call : σ → Callback → ErrorInfo → σ × ErrorInfo × Status
  parseF64 : Bytes → Option UInt64
  /-- `runtime->value_limits`, when a runtime is attached. -/
  runtimeLimits : Option ValueLimits := none
  /-- An upper bound for chains of embedded structs, which end because a struct
  cannot contain itself. -/
  structDepth : ℕ := 0

/-- The buffer that `direct_string_ptr` points to. -/
inductive DirectStage where
  | none
  | inPlace
  | scratch
  | tokenBase (offset : ℕ)
  | heap (header : AllocHeader)
  deriving DecidableEq, Repr

/-- The `direct_string_*` members. `bytes` are the first `direct_string_len` bytes of
the stage, `ptr` is the member being read, and the source's `direct_string_dst` and
`direct_string_commit_dst` are that member exactly when `dynamic` and `commits`. -/
structure DirectString where
  active : Bool := false
  stage : DirectStage := .none
  ptr : SlotPtr := ⟨[], 0⟩
  dynamic : Bool := false
  commits : Bool := false
  bytes : Bytes := []
  capacity : ℕ := 0
  truncated : Bool := false
  overflowPolicy : OverflowPolicy := .fail
  key : Bytes := []
  deriving DecidableEq, Repr

/-- The `stream_*` members: the streamed field and the base64 quartet. -/
structure StreamValue where
  active : Bool := false
  field : Option Field := none
  ptr : SlotPtr := ⟨[], 0⟩
  quad : Bytes := []
  sawPadding : Bool := false
  deriving DecidableEq, Repr

/-- `lonejson_container_kind`. -/
inductive ContainerKind where
  | object
  | array
  deriving DecidableEq, Repr

/-- `lonejson__json_path_frame`; a key is inline up to 64 bytes and on the heap from
then on. -/
structure JsonPathFrame where
  key : Bytes := []
  keyCap : ℕ := 0
  keyHeap : Option AllocHeader := none
  nextIndex : ℕ := 0
  containerKind : Option ContainerKind := none
  deriving DecidableEq, Repr

/-- `lonejson__json_stream_path_state`: the first `depth` segments, all frames, and
the headers of the three blocks it lives in. -/
structure JsonPathState where
  segments : List Bytes := []
  frames : List JsonPathFrame := []
  blocks : List AllocHeader := []
  deriving DecidableEq, Repr

def JsonPathState.depth (p : JsonPathState) : ℕ := p.segments.length

def JsonPathState.capacity (p : JsonPathState) : ℕ := p.frames.length

/-- The `json_stream_*` members. -/
structure JsonStream where
  value : Option SlotPtr := none
  active : Bool := false
  parseVisitorActive : Bool := false
  visitActive : Bool := false
  pathVisitActive : Bool := false
  sinkActive : Bool := false
  depth : ℕ := 0
  totalBytes : ℕ := 0
  textBytes : ℕ := 0
  textIsKey : Bool := false
  path : Option JsonPathState := none
  deriving DecidableEq, Repr

/-- The part of the parser that the operations on fields write. -/
structure Core (σ : Type) where
  dst : Record
  world : σ
  allocLive : ℕ := 0
  error : ErrorInfo := {}
  failed : Bool := false
  direct : DirectString := {}
  stream : StreamValue := {}
  json : JsonStream := {}

variable {σ : Type}

/-- `lonejson__set_error` at the current position. -/
def Core.setError (c : Core σ) (code : Status) (message : String) (arg : Bytes := []) :
    Core σ × Status :=
  ({ c with error := { c.error with code, message, messageArg := arg, atZero := false } }, code)

/-- `lonejson__set_error` with the position `0, 0, 0`. -/
def Core.setErrorAtZero (c : Core σ) (code : Status) (message : String) : Core σ × Status :=
  ({ c with error := { c.error with code, message, messageArg := [], atZero := true } }, code)

/-- Call the caller. -/
def Core.call (env : Env σ) (c : Core σ) (cb : Callback) : Core σ × Status :=
  let r := env.call c.world cb c.error
  ({ c with world := r.1, error := r.2.1 }, r.2.2)

/-- `if (status != OK && status != TRUNCATED) return status;` and go on. -/
def andThenSoft {α : Type} (r : α × Status) (k : α → α × Status) : α × Status :=
  if r.2.soft then k r.1 else r

/-- `if (status != OK) return status;` and go on. -/
def andThenOk {α : Type} (r : α × Status) (k : α → α × Status) : α × Status :=
  if r.2 = .ok then k r.1 else r

section

variable {α : Type}

@[simp] theorem andThenOk_ok (a : α) (k : α → α × Status) : andThenOk (a, .ok) k = k a := rfl

@[simp] theorem andThenOk_pure (x : α × Status) : andThenOk x (fun a => (a, .ok)) = x := by
  rw [andThenOk]
  split_ifs with hx
  · exact Prod.ext rfl hx.symm
  · rfl

theorem andThenOk_assoc (x : α × Status) (k k' : α → α × Status) :
    andThenOk (andThenOk x k) k' = andThenOk x fun a => andThenOk (k a) k' := by
  by_cases hx : x.2 = .ok <;> simp [andThenOk, hx]

theorem andThenOk_congr {x : α × Status} {k k' : α → α × Status}
    (h : x.2 = .ok → k x.1 = k' x.1) : andThenOk x k = andThenOk x k' := by
  by_cases hx : x.2 = .ok
  · simp [andThenOk, hx, h hx]
  · simp [andThenOk, hx]

end

/-! ## Charging blocks -/

/-- `lonejson__parser_alloc_can_grow`. -/
def allocCanGrow (env : Env σ) (live current next : ℕ) : Bool :=
  if env.options.maxAllocBytes = 0 then true
  else if next ≤ current then true
  else
    let base := if live ≥ current then live - current else 0
    base ≤ env.options.maxAllocBytes && next ≤ env.options.maxAllocBytes - base

/-- `lonejson__parser_alloc_available`. -/
def allocAvailable (env : Env σ) (live current : ℕ) : ℕ :=
  if env.options.maxAllocBytes = 0 then sizeMax
  else
    let base := if live ≥ current then live - current else 0
    if base ≥ env.options.maxAllocBytes then 0 else env.options.maxAllocBytes - base

/-- The charge of a block to the parser `id`. -/
def AllocHeader.charge (id : ℕ) (h : AllocHeader) : ℕ :=
  if h.budgetTag = some id then h.budgetBytes else 0

/-- `lonejson__parser_alloc_counted_bytes`. -/
def allocCountedBytes (env : Env σ) (h : Option AllocHeader) : ℕ :=
  match h with
  | none => 0
  | some h => h.charge env.parserId

/-- `lonejson__parser_alloc_note_resize`, on the counter and the header. -/
def allocNoteResize (env : Env σ) (live : ℕ) (h : AllocHeader) (next : ℕ) : ℕ × AllocHeader :=
  let current := h.charge env.parserId
  let live := if live ≥ current then live - current else 0
  (live + next, { h with budgetTag := some env.parserId, budgetBytes := next })

/-- `lonejson__parser_alloc_note_release`, on the counter; the block is freed next. -/
def allocNoteRelease (env : Env σ) (live : ℕ) (h : AllocHeader) : ℕ :=
  if h.budgetTag = some env.parserId then
    (if live ≥ h.budgetBytes then live - h.budgetBytes else 0)
  else live

/-- `note_release` followed by `lonejson__owned_free` on each block. -/
def allocReleaseAll (env : Env σ) (live : ℕ) (hs : List AllocHeader) : ℕ :=
  hs.foldl (allocNoteRelease env) live

/-- `lonejson__owned_malloc_parse`. -/
def ownedMallocParse (env : Env σ) (c : Core σ) (size : ℕ) : Option AllocHeader × Core σ :=
  if allocCanGrow env c.allocLive 0 size then
    let r := allocNoteResize env c.allocLive { size } size
    (some r.2, { c with allocLive := r.1 })
  else (none, c)

/-- `lonejson__owned_realloc_parse` and its variant with an allocator. -/
def ownedReallocParse (env : Env σ) (c : Core σ) (h : Option AllocHeader) (size : ℕ) :
    Option AllocHeader × Core σ :=
  if allocCanGrow env c.allocLive (allocCountedBytes env h) size then
    let next : AllocHeader :=
      match h with
      | none => { size }
      | some h => if size = 0 then h else { h with size }
    let r := allocNoteResize env c.allocLive next size
    (some r.2, { c with allocLive := r.1 })
  else (none, c)

/-- Release and free a list of blocks. -/
def Core.releaseAll (env : Env σ) (c : Core σ) (hs : List AllocHeader) : Core σ :=
  { c with allocLive := allocReleaseAll env c.allocLive hs }

/-- `lonejson__owned_free_parse`. -/
def ownedFreeParse (env : Env σ) (c : Core σ) (h : Option AllocHeader) : Core σ :=
  c.releaseAll env h.toList

/-- `lonejson__parser_alloc_try_adopt`; `none` when the budget does not allow it. -/
def allocTryAdopt (env : Env σ) (live : ℕ) (h : AllocHeader) : Option (ℕ × AllocHeader) :=
  if allocCanGrow env live (h.charge env.parserId) h.size then
    some (allocNoteResize env live h h.size)
  else none

/-! ## Members of the destination -/

def Core.value? (c : Core σ) (ptr : SlotPtr) : Option Value := c.dst.value? ptr

def Core.setValue (c : Core σ) (ptr : SlotPtr) (v : Value) : Core σ :=
  { c with dst := c.dst.modifyValue ptr fun _ => v }

/-- `lonejson__field_set_presence`. -/
def Core.setPresence (c : Core σ) (field : Field) (ptr : SlotPtr) (present : Bool) : Core σ :=
  if field.flags.hasPresence then { c with dst := c.dst.setPresence ptr present } else c

end Lonejson
