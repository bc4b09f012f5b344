import Lonejson.SerializerBuffers

/-!
# Serializing into a buffer that grows

The buffer of `lonejson_serialize_owned` doubles up to the limit of the call and keeps room for the
NUL, so that the call succeeds where the text of `lonejson_serialize_sink` is within the limit.
-/

namespace Lonejson

/-! ## The buffer -/

/-- The allocator that the options resolve to; `valid` is that it has all callbacks or none. The
bytes of a block that have not been written are any. -/
structure Allocator where
  valid : Bool := true
  realloc : Bytes → ℕ → Option Bytes

/-- No allocation fails, and a block that grows keeps its bytes. -/
def Allocator.Succeeds (alloc : Allocator) : Prop :=
  alloc.valid = true ∧ ∀ block n, block.length ≤ n →
    ∃ rest, alloc.realloc block n = some (block ++ rest) ∧ (block ++ rest).length = n

/-- `lonejson_buffer_sink` over an allocated buffer; the buffer is empty where it is NULL, and what
`needed` counts is not read. -/
structure GrowSink where
  buffer : Bytes := []
  length : ℕ := 0
  maxBytes : ℕ
  deriving DecidableEq, Repr

/-- `capacity`, which is `alloc_size`. -/
def GrowSink.capacity (s : GrowSink) : ℕ := s.buffer.length

/-- The `memcpy` behind the bytes that are stored. -/
def GrowSink.store (s : GrowSink) (data : Bytes) : GrowSink :=
  { s with
    buffer := s.buffer.take s.length ++ data ++ s.buffer.drop (s.length + data.length)
    length := s.length + data.length }

/-- `lonejson__set_error` with the position that the record has. -/
def ErrorInfo.here (error : ErrorInfo) (code : Status) (message : String) : ErrorInfo :=
  { error with code, message, messageArg := [] }

/-- The allocation of `lonejson__buffer_reserve_grow`. -/
def bufferGrow (alloc : Allocator) (sink : GrowSink) (allocRequired : ℕ) (error : ErrorInfo) :
    GrowSink × ErrorInfo × Status :=
  -- a capacity that cannot be doubled is the one that is required
  let nextCap := (growCapacity allocRequired 65
    (if sink.capacity = 0 then 2048 else sink.capacity)).getD allocRequired
  let maxAlloc := if sink.maxBytes ≠ 0 then sizeAdd sink.maxBytes 1 else 0
  if sink.maxBytes ≠ 0 ∧ maxAlloc = 0 then
    (sink, error.here .overflow "output buffer too large", .overflow)
  else
    let nextCap := if maxAlloc ≠ 0 ∧ nextCap > maxAlloc then maxAlloc else nextCap
    match alloc.realloc sink.buffer nextCap with
    | none => (sink, error.set .allocationFailed "failed to grow output buffer", .allocationFailed)
    | some buffer => ({ sink with buffer }, error, .ok)

/-- `lonejson__buffer_reserve_grow`. -/
def bufferReserveGrow (alloc : Allocator) (sink : GrowSink) (len : ℕ) (error : ErrorInfo) :
    GrowSink × ErrorInfo × Status :=
  if len > sizeMax - sink.length then
    (sink, error.here .overflow "output buffer too large", .overflow)
  else
    let payloadRequired := sink.length + len
    if payloadRequired = sizeMax then
      (sink, error.here .overflow "output buffer too large", .overflow)
    else if sink.maxBytes ≠ 0 ∧ payloadRequired > sink.maxBytes then
      (sink, error.here .overflow "serializer-owned output exceeds max_output_bytes", .overflow)
    else
      let allocRequired := payloadRequired + 1
      if allocRequired > sink.capacity then bufferGrow alloc sink allocRequired error
      else (sink, error, .ok)

/-- `lonejson__sink_grow`. -/
def sinkGrow (alloc : Allocator) : Sink GrowSink := fun sink data error =>
  if data = [] then (sink, error, .ok)
  else
    let r := bufferReserveGrow alloc sink data.length error
    if r.2.2 = .ok then (r.1.store data, r.2) else r

/-- `lonejson__buffer_emit_grow`, which repeats the sink, and a return unless the status is OK. -/
def JsonIo.bufferEmitGrow (alloc : Allocator) (io : JsonIo GrowSink) (data : Bytes) :
    Except (JsonIo GrowSink) (JsonIo GrowSink) :=
  let io := io.call (sinkGrow alloc) data
  if io.status = .ok then .ok io else .error io

/-- The functions that store into a buffer that grows. -/
def growOps (alloc : Allocator) : EmitOps GrowSink where
  sink := sinkGrow alloc
  emit io data := io.bufferEmitGrow alloc data
  escaped io text := io.emitEscapedBytes (sinkGrow alloc) text
  u64 := emitU64Value
  i64 := emitI64Value

/-- `lonejson__serialize_map_compact_buffer_grow`. -/
def serializeMapCompactBufferGrow (env : SerializeEnv) (alloc : Allocator) (map : MapId)
    (src : Record) (io : JsonIo GrowSink) : Except (JsonIo GrowSink) (JsonIo GrowSink) :=
  serializeMap env (growOps alloc) false map src 0 io

/-! ## The call -/

/-- `LONEJSON_WRITE_MAX_OUTPUT_BYTES`, 8 MiB. -/
def writeMaxOutputBytes : UInt64 := 8388608

/-- The members of `lonejson__write_options` that this call reads. -/
structure OwnedOptions extends WriteOptions where
  maxOutputBytes : UInt64 := writeMaxOutputBytes
  deriving DecidableEq, Repr

/-- `lonejson__write_max_output_bytes`; `none` is NULL. -/
def outputLimit (options : Option OwnedOptions) : UInt64 :=
  match options with
  | some options =>
    if options.maxOutputBytes ≠ 0 then options.maxOutputBytes else writeMaxOutputBytes
  | none => writeMaxOutputBytes

/-- The compact serializer of `lonejson__serialize_owned_with_options`. -/
def serializeBufferGrow (env : SerializeEnv) (alloc : Allocator) (map : Option MapId)
    (src : Option Record) (io : JsonIo GrowSink) : JsonIo GrowSink :=
  match map, src with
  | some map, some src =>
    if !env.layoutIsValid map then io.fail .invalidArgument "invalid map layout"
    else
      let io := { io with error := {} }
      JsonIo.returned (serializeMapCompactBufferGrow env alloc map src io)
  | _, _ => io.fail .invalidArgument "map, source, and sink are required"

/-- The serializers of `lonejson__serialize_owned_with_options`. -/
def serializeGrow (env : SerializeEnv) (alloc : Allocator) (map : Option MapId)
    (src : Option Record) (options : Option OwnedOptions) (error : ErrorInfo) : JsonIo GrowSink :=
  let io : JsonIo GrowSink := { out := { maxBytes := (outputLimit options).toNat }, error }
  match options with
  | some options =>
    if options.pretty then
      serializeSinkWithOptions env map src (sinkGrow alloc) options.toWriteOptions io
    else serializeBufferGrow env alloc map src io
  | none => serializeBufferGrow env alloc map src io

/-- `lonejson_owned_buffer`, where `data` is the block that is allocated; the error record and the
status. -/
structure OwnedResult where
  data : Option Bytes := none
  len : ℕ := 0
  error : ErrorInfo
  status : Status
  deriving DecidableEq, Repr

/-- `lonejson__serialize_owned_with_options` with a handle for the buffer. -/
def serializeOwnedWithOptions (env : SerializeEnv) (alloc : Allocator) (map : Option MapId)
    (src : Option Record) (options : Option OwnedOptions) (error : ErrorInfo) : OwnedResult :=
  if options.isSome ∧ !alloc.valid then
    { error := error.set .invalidArgument "allocator must provide either all callbacks or none"
      status := .invalidArgument }
  else
    let io := serializeGrow env alloc map src options error
    if io.status ≠ .ok ∧ io.status ≠ .truncated then { error := io.error, status := io.status }
    else if io.out.buffer = [] then { error := io.error, status := io.status }
    else
      { data := some (io.out.buffer.set io.out.length 0)
        len := io.out.length
        error := io.error
        status := io.status }

/-! ## What the buffer keeps -/

/-- What there is room for in a buffer with a limit; with `SIZE_MAX` the limit on the allocation
wraps, and nothing is allocated. -/
def growRoom (limit : ℕ) : ℕ := if limit = sizeMax then 0 else limit

/-- The buffer holds a text, and from its first byte on has room for the NUL. -/
structure HeldGrow (limit : ℕ) (text : Bytes) (s : GrowSink) : Prop where
  maxBytes : s.maxBytes = limit
  positive : 0 < limit
  bounded : limit ≤ sizeMax
  length : s.length = text.length
  buffer : text <+: s.buffer
  room : text.length ≤ growRoom limit
  start : text = [] → s.buffer = []
  terminator : text ≠ [] → text.length < s.capacity

theorem le_growCapacity (required fuel nextCap : ℕ) :
    required ≤ (growCapacity required fuel nextCap).getD required := by
  induction fuel generalizing nextCap with
  | zero => exact le_rfl
  | succ fuel ih =>
      rw [growCapacity]
      split_ifs with hless hhalf
      · exact le_rfl
      · exact ih (nextCap * 2)
      · exact not_lt.mp hless

section

variable {alloc : Allocator} {limit : ℕ} {text data : Bytes} {s : GrowSink}

theorem heldGrow_start (hpositive : 0 < limit) (hbounded : limit ≤ sizeMax) :
    HeldGrow limit [] { maxBytes := limit } where
  maxBytes := rfl
  positive := hpositive
  bounded := hbounded
  length := rfl
  buffer := List.nil_prefix
  room := Nat.zero_le _
  start _ := rfl
  terminator h := absurd rfl h

/-- The block that is allocated has room for the payload and the NUL. -/
theorem bufferGrow_grows (halloc : alloc.Succeeds) (hmax : s.maxBytes < sizeMax) {required : ℕ}
    (hrequired : s.capacity < required) (hlimit : required ≤ s.maxBytes + 1) (error : ErrorInfo) :
    ∃ rest, bufferGrow alloc s required error =
        ({ s with buffer := s.buffer ++ rest }, error, .ok) ∧
      required ≤ (s.buffer ++ rest).length := by
  have hwrap : sizeAdd s.maxBytes 1 = s.maxBytes + 1 := Nat.mod_eq_of_lt (by omega)
  have hpos : ¬ (s.maxBytes ≠ 0 ∧
      (if s.maxBytes ≠ 0 then sizeAdd s.maxBytes 1 else 0) = 0) := by
    rintro ⟨hne, hzero⟩
    rw [if_pos hne, hwrap] at hzero
    exact Nat.succ_ne_zero _ hzero
  rw [bufferGrow]
  dsimp only
  rw [if_neg hpos]
  have hcap := le_growCapacity required 65 (if s.capacity = 0 then 2048 else s.capacity)
  generalize (growCapacity required 65
    (if s.capacity = 0 then 2048 else s.capacity)).getD required = cap at hcap ⊢
  -- the clamp leaves what the limit allows
  have hclamp : required ≤
      if (if s.maxBytes ≠ 0 then sizeAdd s.maxBytes 1 else 0) ≠ 0 ∧
        cap > (if s.maxBytes ≠ 0 then sizeAdd s.maxBytes 1 else 0)
      then (if s.maxBytes ≠ 0 then sizeAdd s.maxBytes 1 else 0) else cap := by
    rw [hwrap]
    split_ifs <;> omega
  generalize (if (if s.maxBytes ≠ 0 then sizeAdd s.maxBytes 1 else 0) ≠ 0 ∧
    cap > (if s.maxBytes ≠ 0 then sizeAdd s.maxBytes 1 else 0)
    then (if s.maxBytes ≠ 0 then sizeAdd s.maxBytes 1 else 0) else cap) = n at hclamp ⊢
  have hsmall : s.buffer.length ≤ n := by
    rw [GrowSink.capacity] at hrequired
    omega
  obtain ⟨rest, hrealloc, hlength⟩ := halloc.2 s.buffer n hsmall
  rw [hrealloc]
  refine ⟨rest, rfl, ?_⟩
  rw [hlength]
  exact hclamp

/-- A piece that is within the limit has its room, where the buffer grows or where it need not. -/
theorem bufferReserveGrow_reserves (halloc : alloc.Succeeds) (h : HeldGrow limit text s)
    (hroom : (text ++ data).length ≤ growRoom limit) (hdata : data ≠ []) (error : ErrorInfo) :
    ∃ rest, bufferReserveGrow alloc s data.length error =
        ({ s with buffer := s.buffer ++ rest }, error, .ok) ∧
      (text ++ data).length < (s.buffer ++ rest).length := by
  have hpos := List.length_pos_of_ne_nil hdata
  have hbounded := h.bounded
  rw [List.length_append] at hroom ⊢
  obtain ⟨hmax, hlimit⟩ : limit < sizeMax ∧ text.length + data.length ≤ limit := by
    rw [growRoom] at hroom
    split_ifs at hroom with hmax
    · omega
    · exact ⟨lt_of_le_of_ne hbounded hmax, hroom⟩
  have hlength := h.length
  have hmaxBytes := h.maxBytes
  rw [← hlength]
  rw [bufferReserveGrow, if_neg (by omega)]
  dsimp only
  rw [if_neg (by omega), if_neg (by omega)]
  by_cases hgrows : s.length + data.length + 1 > s.capacity
  · rw [if_pos hgrows]
    exact bufferGrow_grows halloc (by omega) hgrows (by omega) error
  · rw [if_neg hgrows]
    refine ⟨[], ?_, ?_⟩
    · rw [List.append_nil]
    · rw [List.append_nil]
      exact Nat.lt_of_succ_le (not_lt.mp hgrows)

theorem bufferReserveGrow_overflows (h : HeldGrow limit text s)
    (hroom : growRoom limit < (text ++ data).length) (error : ErrorInfo) :
    (bufferReserveGrow alloc s data.length error).1 = s ∧
      (bufferReserveGrow alloc s data.length error).2.2 = .overflow := by
  have hbounded := h.bounded
  have hpositive := h.positive
  have htext := h.room
  have hlength := h.length
  have hmaxBytes := h.maxBytes
  rw [List.length_append, ← hlength] at hroom
  rw [← hlength] at htext
  rw [bufferReserveGrow]
  dsimp only
  split_ifs with hlong hpayload hlimit hgrows
  · exact ⟨rfl, rfl⟩
  · exact ⟨rfl, rfl⟩
  · exact ⟨rfl, rfl⟩
  · -- the limit is `SIZE_MAX`
    have hmax : limit = sizeMax := by
      rw [growRoom] at hroom
      split_ifs at hroom with hmax
      · exact hmax
      · omega
    have hwrap : s.maxBytes ≠ 0 ∧ (if s.maxBytes ≠ 0 then sizeAdd s.maxBytes 1 else 0) = 0 := by
      rw [h.maxBytes, hmax]
      decide
    rw [bufferGrow]
    dsimp only
    rw [if_pos hwrap]
    exact ⟨rfl, rfl⟩
  · -- there is no room in a buffer that has not been allocated
    exfalso
    rw [growRoom] at hroom htext
    split_ifs at hroom htext with hmax
    · rw [hlength] at htext
      have hempty := h.start (List.eq_nil_of_length_eq_zero (Nat.le_zero.mp htext))
      rw [GrowSink.capacity, hempty] at hgrows
      exact hgrows (Nat.succ_pos _)
    · omega

/-- A piece that is within the limit is stored, with room for the NUL behind it. -/
theorem sinkGrow_keeps (halloc : alloc.Succeeds) (h : HeldGrow limit text s)
    (hroom : (text ++ data).length ≤ growRoom limit) (error : ErrorInfo) :
    HeldGrow limit (text ++ data) (sinkGrow alloc s data error).1 ∧
      (sinkGrow alloc s data error).2.2 = .ok := by
  rw [sinkGrow]
  by_cases hdata : data = []
  · rw [if_pos hdata, hdata, List.append_nil]
    exact ⟨h, rfl⟩
  rw [if_neg hdata]
  obtain ⟨rest, hreserve, hlength⟩ := bufferReserveGrow_reserves halloc h hroom hdata error
  rw [hreserve]
  dsimp only
  rw [if_pos rfl]
  have htake : (s.buffer ++ rest).take s.length = text := by
    rw [h.length]
    exact (List.prefix_iff_eq_take.mp (h.buffer.trans (List.prefix_append _ _))).symm
  have hne : text ++ data ≠ [] := List.append_ne_nil_of_right_ne_nil text hdata
  refine ⟨⟨h.maxBytes, h.positive, h.bounded, ?_, ?_, hroom, fun hnil => absurd hnil hne, fun _ => ?_⟩, rfl⟩
  · change s.length + data.length = _
    rw [h.length, List.length_append]
  · change _ <+: (s.buffer ++ rest).take s.length ++ data ++ _
    rw [htake]
    exact List.prefix_append _ _
  · change _ < ((s.buffer ++ rest).take s.length ++ data ++
      (s.buffer ++ rest).drop (s.length + data.length)).length
    rw [htake, @List.length_append _ (text ++ data), List.length_drop, h.length]
    rw [List.length_append] at hlength ⊢
    omega

/-- The sink gives up at a piece that is not, and leaves the buffer as it is. -/
theorem sinkGrow_overflow (h : HeldGrow limit text s)
    (hroom : growRoom limit < (text ++ data).length) (error : ErrorInfo) :
    (sinkGrow alloc s data error).1 = s ∧ (sinkGrow alloc s data error).2.2 = .overflow := by
  have hdata : data ≠ [] := by
    rintro rfl
    rw [List.append_nil] at hroom
    exact absurd h.room (not_le.mpr hroom)
  obtain ⟨hsame, hcode⟩ := @bufferReserveGrow_overflows alloc _ _ _ _ h hroom error
  rw [sinkGrow, if_neg hdata]
  dsimp only
  rw [if_neg (by simp [hcode])]
  exact ⟨hsame, hcode⟩

theorem bufferGrow_steady (s : GrowSink) (required : ℕ) (error : ErrorInfo) :
    (bufferGrow alloc s required error).1 = (bufferGrow alloc s required {}).1 ∧
      (bufferGrow alloc s required error).2.2 = (bufferGrow alloc s required {}).2.2 := by
  rw [bufferGrow, bufferGrow]
  dsimp only
  generalize (if s.maxBytes ≠ 0 then sizeAdd s.maxBytes 1 else 0) = maxAlloc
  split
  · exact ⟨rfl, rfl⟩
  · split <;> exact ⟨rfl, rfl⟩

theorem bufferReserveGrow_steady (s : GrowSink) (len : ℕ) (error : ErrorInfo) :
    (bufferReserveGrow alloc s len error).1 = (bufferReserveGrow alloc s len {}).1 ∧
      (bufferReserveGrow alloc s len error).2.2 = (bufferReserveGrow alloc s len {}).2.2 := by
  rw [bufferReserveGrow, bufferReserveGrow]
  dsimp only
  split_ifs
  · exact ⟨rfl, rfl⟩
  · exact ⟨rfl, rfl⟩
  · exact ⟨rfl, rfl⟩
  · exact bufferGrow_steady s _ error
  · exact ⟨rfl, rfl⟩

theorem sinkGrow_steady : (sinkGrow alloc).Steady := by
  intro s data error
  obtain ⟨hsame, hcode⟩ := @bufferReserveGrow_steady alloc s data.length error
  rw [sinkGrow, sinkGrow]
  split
  · exact ⟨rfl, rfl⟩
  · dsimp only
    rw [hcode]
    split
    · exact ⟨congrArg (GrowSink.store · data) hsame, hcode⟩
    · exact ⟨hsame, hcode⟩

/-- The sink stores a piece or gives up, and its status is never TRUNCATED. -/
theorem sinkGrow_soft (s : GrowSink) (data : Bytes) (error : ErrorInfo) :
    (sinkGrow alloc s data error).2.2.soft = true ↔ (sinkGrow alloc s data error).2.2 = .ok := by
  have hgrow (required : ℕ) : (bufferGrow alloc s required error).2.2 ≠ .truncated := by
    rw [bufferGrow]
    dsimp only
    generalize (if s.maxBytes ≠ 0 then sizeAdd s.maxBytes 1 else 0) = maxAlloc
    split
    · exact nofun
    · split <;> exact nofun
  have hreserve : (bufferReserveGrow alloc s data.length error).2.2 ≠ .truncated := by
    rw [bufferReserveGrow]
    dsimp only
    split_ifs
    · exact nofun
    · exact nofun
    · exact nofun
    · exact hgrow _
    · exact nofun
  have hsink : (sinkGrow alloc s data error).2.2 ≠ .truncated := by
    rw [sinkGrow]
    split
    · exact nofun
    · dsimp only
      split <;> exact hreserve
  rw [Status.soft, Bool.or_eq_true, beq_iff_eq, beq_iff_eq]
  exact or_iff_left hsink

theorem bufferEmitGrow_eq (io : JsonIo GrowSink) (data : Bytes) :
    io.bufferEmitGrow alloc data = io.emit (sinkGrow alloc) data := by
  rw [JsonIo.bufferEmitGrow, JsonIo.emit]
  exact if_congr (sinkGrow_soft _ _ _).symm rfl rfl

theorem growOps_emits : (growOps alloc).Emits where
  steady := sinkGrow_steady
  emit io io' data := by
    change Mirrors (sinkGrow alloc) _ _ (io.bufferEmitGrow alloc data)
      (io'.emitBytes collectSink data)
    rw [bufferEmitGrow_eq, emitBytes_collect]
    exact emit_mirrors sinkGrow_steady io io' data
  escaped io io' text := emitEscapedBytes_mirrors sinkGrow_steady io io' text
  u64 := rfl
  i64 := rfl

theorem feed_sinkGrow (halloc : alloc.Succeeds) (pieces : List Bytes) :
    ∀ {text : Bytes} {s : GrowSink}, HeldGrow limit text s →
    if (text ++ pieces.flatten).length ≤ growRoom limit then
      ∃ s', (sinkGrow alloc).feed s pieces = .ok s' ∧ HeldGrow limit (text ++ pieces.flatten) s'
    else ∃ s' text', (sinkGrow alloc).feed s pieces = .error (s', .overflow) ∧
      HeldGrow limit text' s' := by
  induction pieces with
  | nil =>
      intro text s h
      rw [List.flatten_nil, List.append_nil, if_pos h.room]
      exact ⟨s, rfl, h⟩
  | cons piece pieces ih =>
      intro text s h
      rw [List.flatten_cons, ← List.append_assoc, Sink.feed]
      by_cases hpiece : (text ++ piece).length ≤ growRoom limit
      · obtain ⟨hkept, hok⟩ := sinkGrow_keeps halloc h hpiece {}
        have hsoft : (sinkGrow alloc s piece {}).2.2.soft = true := (sinkGrow_soft _ _ _).mpr hok
        rw [if_pos hsoft]
        exact ih hkept
      · obtain ⟨hsame, hcode⟩ := @sinkGrow_overflow alloc _ _ _ _ h (not_le.mp hpiece) {}
        have hlong : ¬ (text ++ piece ++ pieces.flatten).length ≤ growRoom limit := by
          rw [List.length_append]
          omega
        have hhard : ¬ (sinkGrow alloc s piece {}).2.2.soft = true := by
          rw [hcode]
          decide
        rw [if_neg hlong, if_neg hhard, hcode, hsame]
        exact ⟨s, text, rfl, h⟩

end

/-! ## Runs -/

/-- The state of a sink behind some calls, the last of which it may have given up at. -/
def Sink.behind {τ : Type} (sink : Sink τ) (s : τ) (calls : List Bytes) : τ :=
  match sink.feed s calls with
  | .ok s => s
  | .error (s, _) => s

/-- A run into a sink is a run of its calls. -/
theorem Mirrors.calls {τ : Type} {sink : Sink τ} {s : τ} {text : Bytes}
    {x : Except (JsonIo τ) (JsonIo τ)} {y : Except (JsonIo Bytes) (JsonIo Bytes)}
    (h : Mirrors sink s text x y) : ∃ calls, (JsonIo.returned x).out = sink.behind s calls := by
  cases h with
  | @ok pieces b b' _ hfed _ _ =>
      refine ⟨pieces, ?_⟩
      rw [Sink.behind, hfed]
      rfl
  | @fail pieces io io' hfed _ _ =>
      refine ⟨pieces, ?_⟩
      rw [Sink.behind, hfed]
      rfl
  | @stop pieces io y hfed _ =>
      refine ⟨pieces, ?_⟩
      rw [Sink.behind, hfed]
      rfl

section

variable {alloc : Allocator} (halloc : alloc.Succeeds)
include halloc

/-- What there is of the buffer behind any calls of its sink. -/
theorem behind_sinkGrow {limit : ℕ} (hpositive : 0 < limit) (hbounded : limit ≤ sizeMax)
    (calls : List Bytes) :
    ∃ text, HeldGrow limit text ((sinkGrow alloc).behind { maxBytes := limit } calls) := by
  have hfeed := feed_sinkGrow halloc calls (heldGrow_start hpositive hbounded)
  rw [Sink.behind]
  split at hfeed
  · obtain ⟨s', hfed, hheld⟩ := hfeed
    rw [hfed]
    exact ⟨_, hheld⟩
  · obtain ⟨s', text', hfed, hheld⟩ := hfeed
    rw [hfed]
    exact ⟨text', hheld⟩

omit halloc in
theorem HeldGrow.terminated {limit : ℕ} {text : Bytes} {s : GrowSink} (h : HeldGrow limit text s)
    (hlength : s.length ≠ 0) : s.length < s.capacity := by
  have hne : text ≠ [] := by
    rintro rfl
    exact hlength h.length
  rw [h.length]
  exact h.terminator hne

omit halloc in
/-- The NUL goes behind the text. -/
theorem HeldGrow.prefix_set {limit : ℕ} {text : Bytes} {s : GrowSink} (h : HeldGrow limit text s)
    (hne : text ≠ []) : text ++ [0] <+: s.buffer.set s.length 0 := by
  obtain ⟨rest, hbuffer⟩ := h.buffer
  have hroom := h.terminator hne
  rw [GrowSink.capacity, ← hbuffer, List.length_append] at hroom
  cases rest with
  | nil => exact absurd hroom (lt_irrefl _)
  | cons b rest =>
      rw [← hbuffer, h.length, List.set_append_right _ _ le_rfl, Nat.sub_self, List.set_cons_zero]
      exact ⟨rest, by rw [List.append_assoc]; rfl⟩

variable (env : SerializeEnv)

omit halloc in
/-- The text of a record has its closing brace. -/
theorem serializeMap_ne_nil {pretty : Bool} {map : MapId} {src : Record} {io x : JsonIo Bytes}
    (h : serializeMap env (sinkOps collectSink) pretty map src 0 io = .ok x) : x.out ≠ [] := by
  obtain ⟨c, hlast⟩ := serializeMap_last env pretty h
  obtain ⟨rfl, -⟩ := sinkOps_emit_ok hlast
  exact List.append_ne_nil_of_right_ne_nil c.out (List.cons_ne_nil _ _)

/-- What a serializer leaves in the buffer, given the run that collects its text. -/
structure GrowsTo (alloc : Allocator) (limit : ℕ) (run : JsonIo Bytes) (x : JsonIo GrowSink) :
    Prop where
  status : x.status = .ok ↔ run.status = .ok ∧ run.out.length ≤ growRoom limit
  held : x.status = .ok → HeldGrow limit run.out x.out ∧ run.out ≠ []
  whole : x.status ≠ .truncated
  calls : ∃ calls, x.out = (sinkGrow alloc).behind { maxBytes := limit } calls

theorem serializeMap_grows {limit : ℕ} (hpositive : 0 < limit) (hbounded : limit ≤ sizeMax)
    {ops : EmitOps GrowSink} (hops : ops.Emits) (hsink : ops.sink = sinkGrow alloc) (pretty : Bool)
    (map : MapId) (src : Record)
    (hok : ∀ io, serializeMap env ops pretty map src 0 { out := { maxBytes := limit } } = .ok io →
      io.status = .ok) :
    GrowsTo alloc limit
      (JsonIo.returned (serializeMap env (sinkOps collectSink) pretty map src 0 { out := [] }))
      (JsonIo.returned
        (serializeMap env ops pretty map src 0 { out := { maxBytes := limit } })) := by
  have hfeed (pieces : List Bytes) :
      if pieces.flatten.length ≤ growRoom limit then
        ∃ s', ops.sink.feed { maxBytes := limit } pieces = .ok s' ∧
          HeldGrow limit pieces.flatten s'
      else ∃ e, ops.sink.feed { maxBytes := limit } pieces = .error e := by
    have hgrow := feed_sinkGrow halloc pieces (heldGrow_start hpositive hbounded)
    rw [hsink]
    rw [List.nil_append] at hgrow
    split at hgrow
    · next hle =>
      rw [if_pos hle]
      exact hgrow
    · next hlong =>
      rw [if_neg hlong]
      obtain ⟨s', -, hfed, -⟩ := hgrow
      exact ⟨_, hfed⟩
  obtain ⟨hstatus, hheld⟩ := serializeMap_within env hops pretty map src hfeed hok
  have hruns := serializeMap_mirrors env pretty hops map src 0 { out := { maxBytes := limit } }
    { out := [] }
  have hhard := hruns.hard.1
  rw [hsink] at hruns
  refine ⟨hstatus, fun h => ⟨hheld h, ?_⟩, ?_, hruns.calls⟩
  · have hrun := (hstatus.mp h).1
    cases hcollects : serializeMap env (sinkOps collectSink) pretty map src 0 { out := [] } with
    | ok x => exact serializeMap_ne_nil env hcollects
    | error x =>
        have hsoft := hruns.hard.2 x hcollects
        rw [hcollects] at hrun
        rw [show x.status = .ok from hrun] at hsoft
        cases hsoft
  · intro htruncated
    cases hx : serializeMap env ops pretty map src 0 { out := { maxBytes := limit } } with
    | ok x =>
        have hcode := hok x hx
        rw [hx] at htruncated
        rw [show x.status = .truncated from htruncated] at hcode
        cases hcode
    | error x =>
        rw [hx] at htruncated
        have hsoft := hhard x hx
        rw [show x.status = .truncated from htruncated] at hsoft
        cases hsoft

omit halloc in
theorem growsTo_refused {limit : ℕ} {run : JsonIo Bytes} {x : JsonIo GrowSink}
    (hrun : run.status = .invalidArgument) (hx : x.status = .invalidArgument)
    (hout : x.out = { maxBytes := limit }) : GrowsTo alloc limit run x := by
  refine ⟨?_, ?_, ?_, [], hout⟩
  · rw [hx, hrun]
    exact ⟨nofun, fun h => nomatch h.1⟩
  · rw [hx]
    exact nofun
  · rw [hx]
    exact nofun

omit halloc in
theorem outputLimit_pos (options : OwnedOptions) : 0 < (outputLimit (some options)).toNat := by
  rw [outputLimit]
  split_ifs with hzero
  · exact Nat.pos_of_ne_zero fun h => hzero (UInt64.toNat_inj.mp h)
  · decide

omit halloc in
theorem outputLimit_le (options : OwnedOptions) :
    (outputLimit (some options)).toNat ≤ sizeMax :=
  Nat.le_of_lt_succ (outputLimit (some options)).toNat_lt

/-- The two serializers of the call leave in the buffer the text that is collected. -/
theorem serializeGrow_grows (map : Option MapId) (src : Option Record) (options : OwnedOptions)
    (error : ErrorInfo) :
    GrowsTo alloc (outputLimit (some options)).toNat
      (serialized env map src options.toWriteOptions)
      (serializeGrow env alloc map src (some options) error) := by
  have hpositive := outputLimit_pos options
  have hbounded := outputLimit_le options
  generalize hlimit : (outputLimit (some options)).toNat = limit at hpositive hbounded ⊢
  have hcalls : serializeGrow env alloc map src (some options) error =
      if options.pretty then
        serializeSinkWithOptions env map src (sinkGrow alloc) options.toWriteOptions
          { out := { maxBytes := limit }, error }
      else serializeBufferGrow env alloc map src { out := { maxBytes := limit }, error } := by
    rw [serializeGrow, hlimit]
  rw [hcalls]
  match map, src with
  | none, _ =>
      apply growsTo_refused rfl
      · split <;> rfl
      · split <;> rfl
  | some _, none =>
      apply growsTo_refused rfl
      · split <;> rfl
      · split <;> rfl
  | some map, some src =>
      cases hlayout : env.layoutIsValid map with
      | false =>
          have hnot : (!env.layoutIsValid map) = true := by simp [hlayout]
          have hfail {υ : Type} (sink : Sink υ) (io : JsonIo υ) :
              serializeSinkWithOptions env (some map) (some src) sink options.toWriteOptions io =
                io.fail .invalidArgument "invalid map layout" := if_pos hnot
          have hfailGrow (io : JsonIo GrowSink) :
              serializeBufferGrow env alloc (some map) (some src) io =
                io.fail .invalidArgument "invalid map layout" := if_pos hnot
          rw [serialized, hfail, hfail, hfailGrow]
          apply growsTo_refused rfl
          · split <;> rfl
          · split <;> rfl
      | true =>
          rw [serialized, serializeSinkWithOptions_map env _ _ _ _ _ hlayout,
            serializeSinkWithOptions_map env _ _ _ _ _ hlayout]
          split
          · next hpretty =>
            refine serializeMap_grows halloc env hpositive hbounded
              (sinkOps_emits sinkGrow_steady) rfl _ map src fun io h => ?_
            obtain ⟨c, hlast⟩ := serializeMap_last env _ h
            obtain ⟨rfl, hsoft⟩ := sinkOps_emit_ok hlast
            exact (sinkGrow_soft _ _ _).mp hsoft
          · next hcompact =>
            rw [Bool.not_eq_true] at hcompact
            rw [serializeBufferGrow, if_neg (by simp [hlayout]), hcompact]
            refine serializeMap_grows halloc env hpositive hbounded growOps_emits rfl false map src
              fun io h => ?_
            obtain ⟨c, hlast⟩ := serializeMap_last env false h
            change c.bufferEmitGrow alloc [0x7d] = .ok io at hlast
            rw [JsonIo.bufferEmitGrow] at hlast
            split at hlast
            · next hok =>
              cases hlast
              exact hok
            · cases hlast

/-- The status of a call is that of its serializer. -/
theorem serializeOwned_status (map : Option MapId) (src : Option Record) (options : OwnedOptions)
    (error : ErrorInfo) :
    (serializeOwnedWithOptions env alloc map src (some options) error).status = .ok ↔
      (serialized env map src options.toWriteOptions).status = .ok ∧
        (serialized env map src options.toWriteOptions).out.length ≤
          growRoom (outputLimit (some options)).toNat := by
  have hgrows := serializeGrow_grows halloc env map src options error
  have hvalid : ¬ ((some options).isSome = true ∧ (!alloc.valid) = true) := by
    rw [halloc.1]
    exact fun h => nomatch h.2
  rw [serializeOwnedWithOptions, if_neg hvalid]
  dsimp only
  rw [← hgrows.status]
  split_ifs <;> exact Iff.rfl

/-- The call succeeds where the text of `lonejson_serialize_sink` is within the limit, which is
8 MiB where none is given, and leaves the text and a NUL in a block that has room for both; that
the NUL has its room holds behind every call of the sink. With the limit `SIZE_MAX` nothing is said
about success. -/
theorem serializeOwned_grows (map : Option MapId) (src : Option Record) (options : OwnedOptions)
    (error : ErrorInfo) :
    let run := serialized env map src options.toWriteOptions
    let n := run.out.length
    let limit := (outputLimit (some options)).toNat
    let start : GrowSink := { maxBytes := limit }
    let r := serializeOwnedWithOptions env alloc map src (some options) error
    (r.status = .ok → run.status = .ok ∧ n ≤ limit) ∧
    (limit ≠ sizeMax → run.status = .ok → n ≤ limit → r.status = .ok) ∧
    (r.status = .ok → r.len = n ∧
      ∃ block, r.data = some block ∧ run.out ++ [0] <+: block) ∧
    (r.status ≠ .ok → r.data = none) ∧
    (∃ calls, (serializeGrow env alloc map src (some options) error).out =
      (sinkGrow alloc).behind start calls) ∧
    ∀ calls, ((sinkGrow alloc).behind start calls).length ≠ 0 →
      ((sinkGrow alloc).behind start calls).length <
        ((sinkGrow alloc).behind start calls).capacity := by
  dsimp only
  have hgrows := serializeGrow_grows halloc env map src options error
  have hpositive := outputLimit_pos options
  have hbounded := outputLimit_le options
  have hvalid : ¬ ((some options).isSome = true ∧ (!alloc.valid) = true) := by
    rw [halloc.1]
    exact fun h => nomatch h.2
  rw [serializeOwnedWithOptions, if_neg hvalid]
  generalize (outputLimit (some options)).toNat = limit at hgrows hpositive hbounded ⊢
  generalize serialized env map src options.toWriteOptions = run at hgrows ⊢
  generalize serializeGrow env alloc map src (some options) error = x at hgrows ⊢
  obtain ⟨hstatus, hheld, hwhole, hcalls⟩ := hgrows
  have hroom : growRoom limit ≤ limit := by
    rw [growRoom]
    split_ifs <;> omega
  have hsteps := fun calls =>
    (behind_sinkGrow halloc hpositive hbounded calls).elim fun _ h => h.terminated
  dsimp only
  by_cases hok : x.status = .ok
  · obtain ⟨h, hne⟩ := hheld hok
    obtain ⟨hrun, hle⟩ := hstatus.mp hok
    have hbuffer : x.out.buffer ≠ [] := by
      intro hempty
      have hroom := h.terminator hne
      rw [GrowSink.capacity, hempty] at hroom
      exact Nat.not_lt_zero _ hroom
    rw [if_neg (by simp [hok]), if_neg hbuffer]
    refine ⟨fun _ => ⟨hrun, hle.trans hroom⟩, fun _ _ _ => hok, fun _ => ⟨h.length, ?_⟩,
      fun hfail => absurd hok hfail, hcalls, hsteps⟩
    exact ⟨_, rfl, h.prefix_set hne⟩
  · rw [if_pos ⟨hok, hwhole⟩]
    refine ⟨fun h => absurd h hok, fun hmax hrun hle => ?_, fun h => absurd h hok, fun _ => rfl,
      hcalls, hsteps⟩
    refine hstatus.mpr ⟨hrun, ?_⟩
    rw [growRoom, if_neg hmax]
    exact hle

end

/-- An allocator that zeroes what it adds. -/
def zeroingAllocator : Allocator where
  realloc block n := some (block ++ List.replicate (n - block.length) 0)

theorem zeroingAllocator_succeeds : zeroingAllocator.Succeeds := by
  refine ⟨rfl, fun block n hle => ⟨_, rfl, ?_⟩⟩
  rw [List.length_append, List.length_replicate]
  omega

/-- A flag, and a limit that its text reaches. -/
theorem serializeOwned_grows_flag :
    (serializeOwnedWithOptions flagEnv zeroingAllocator (some 0) (some [(.bool true, true)])
      (some { maxOutputBytes := 10 }) {}).status = .ok ∧
    (serializeOwnedWithOptions flagEnv zeroingAllocator (some 0) (some [(.bool true, true)])
      (some { maxOutputBytes := 9 }) {}).data = none := by
  have hlong := serializeOwned_grows zeroingAllocator_succeeds flagEnv (some 0)
    (some [(.bool true, true)]) { maxOutputBytes := 10 } {}
  have hshort := serializeOwned_grows zeroingAllocator_succeeds flagEnv (some 0)
    (some [(.bool true, true)]) { maxOutputBytes := 9 } {}
  refine ⟨hlong.2.1 (by decide) (by decide) (by decide), hshort.2.2.2.1 fun hok => ?_⟩
  exact absurd (hshort.1 hok).2 (by decide)

/-- One map, with a string of its own storage. -/
def nameEnv : SerializeEnv :=
  { flagEnv with maps := fun _ => ⟨[{ jsonKey := [0x6b], kind := .string, storage := .fixed }]⟩ }

theorem serialized_name {text : Bytes} (hstring : cString text = text) (hne : text ≠ [])
    (hplain : text.all isPlain = true) :
    serialized nameEnv (some 0) (some [(.fixedString text, true)]) {} =
      { out := [0x7b, 0x22, 0x6b, 0x22, 0x3a] ++ [0x22] ++ text ++ [0x22] ++ [0x7d] } := by
  have hvalue (out : Bytes) :
      JsonIo.emitEscapedBytes collectSink { out } text =
        .ok { out := out ++ [0x22] ++ text ++ [0x22] } := by
    rw [JsonIo.emitEscapedBytes]
    simp only [hplain, if_true]
    change ((JsonIo.emitBytes collectSink { out := out ++ [0x22] } text).bind _ : Except _ _) = _
    rw [JsonIo.emitBytes, if_neg hne]
    rfl
  have hrecord : serializeMap nameEnv (sinkOps collectSink) false 0 [(.fixedString text, true)] 0
      { out := [] } =
        ((JsonIo.emitEscapedBytes collectSink { out := [0x7b, 0x22, 0x6b, 0x22, 0x3a] }
          (cString text)).bind fun io => .ok (true, io)).bind fun x =>
            (if x.1 then serializeIndent (sinkOps collectSink) false 0 x.2 else .ok x.2).bind
              fun io => io.emitBytes collectSink [0x7d] := rfl
  rw [serialized, serializeSinkWithOptions_map _ _ _ _ _ _ rfl, hrecord, hstring, hvalue]
  rfl

theorem serializeOwned_long {text : Bytes} (hstring : cString text = text)
    (hplain : text.all isPlain = true) (hlong : 8388608 ≤ text.length) :
    (serialized nameEnv (some 0) (some [(.fixedString text, true)]) {}).status = .ok ∧
      (serializeOwnedWithOptions nameEnv zeroingAllocator (some 0)
        (some [(.fixedString text, true)]) (some { maxOutputBytes := 0 }) {}).status ≠ .ok := by
  have hne : text ≠ [] := by
    intro hnil
    rw [hnil, List.length_nil] at hlong
    omega
  have hrun := serialized_name hstring hne hplain
  refine ⟨?_, fun hok => ?_⟩
  · rw [hrun]
  · have hle := ((serializeOwned_status zeroingAllocator_succeeds _ _ _ _ _).mp hok).2
    have hroom : growRoom (outputLimit (some { maxOutputBytes := 0 })).toNat = 8388608 := by decide
    rw [hrun, hroom] at hle
    simp only [List.length_append, List.length_cons, List.length_nil] at hle
    omega

/-- Without a limit of its own, a call does not take a string of 8 MiB, and with the greatest
limit it takes nothing. -/
theorem serializeOwned_unlimited :
    ((serialized nameEnv (some 0) (some [(.fixedString (List.replicate 8388608 0x61), true)])
          {}).status = .ok ∧
        (serializeOwnedWithOptions nameEnv zeroingAllocator (some 0)
          (some [(.fixedString (List.replicate 8388608 0x61), true)])
          (some { maxOutputBytes := 0 }) {}).status ≠ .ok) ∧
      (serialized flagEnv (some 0) (some [(.bool true, true)]) {}).status = .ok ∧
        (serializeOwnedWithOptions flagEnv zeroingAllocator (some 0) (some [(.bool true, true)])
          (some { maxOutputBytes := 0xffffffffffffffff }) {}).status ≠ .ok := by
  have hstring (n : ℕ) : cString (List.replicate n 0x61) = List.replicate n 0x61 := by
    rw [cString, List.takeWhile_replicate, if_pos (by decide)]
  have hplain (n : ℕ) : (List.replicate n (0x61 : Byte)).all isPlain = true := by
    rw [List.all_replicate]
    split
    · rfl
    · decide
  refine ⟨serializeOwned_long (hstring _) (hplain _) List.length_replicate.ge, rfl, fun hok => ?_⟩
  have hle := ((serializeOwned_status zeroingAllocator_succeeds _ _ _ _ _).mp hok).2
  exact absurd hle (by decide)

end Lonejson
