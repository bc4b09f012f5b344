import Lonejson.WriterTrees

/-!
# The calls of a writer

All calls that a writer takes, as data, and runs of them. No call reads the error record, nor the
event buffer where no scalar is pending, so that a run does not show what they held.
-/

namespace Lonejson

variable {σ γ : Type}

/-! ## The calls that are left -/

/-- `lonejson_writer_f64`; `text` is what `snprintf` writes, and `none` its failure. -/
def Writer.f64 (env : WriterEnv σ γ) (w : Writer σ γ) (finite : Bool) (text : Option Bytes) :
    Writer σ γ × Status :=
  if !finite then w.setError .invalidArgument "JSON numbers must be finite"
  else
    match text with
    | none => w.setError .internalError "failed to format number"
    | some text => w.emitScalarBytes env text

/-- `lonejson_writer_source_text` and `lonejson_writer_source_base64` for a source of kind NONE. -/
def Writer.nullSource (env : WriterEnv σ γ) (w : Writer σ γ) : Writer σ γ × Status :=
  w.emitValueBytes env Json.nullText

/-- The pieces that the parser of a value stream emits. -/
def Writer.emitPieces (env : WriterEnv σ γ) : List Bytes → Writer σ γ → Writer σ γ × Status
  | [], w => (w, .ok)
  | piece :: pieces, w => andThenOk (w.emit env piece) fun w => Writer.emitPieces env pieces w

/-- `lonejson_writer_value_stream_open`, on the writer. -/
def Writer.valueStreamOpen (env : WriterEnv σ γ) (w : Writer σ γ) : Writer σ γ × Status :=
  andThenOk (w.check w.valueStreamActive "writer value stream is already open") fun w =>
  andThenOk (w.check (w.event.kind ≠ .none) "writer event is still active") fun w =>
  andThenOk w.checkFailed fun w =>
  andThenOk (w.beforeValue env) fun w => ({ w with valueStreamActive := true }, .ok)

/-- `lonejson_writer_value_stream_push`, on the writer: the parser of the stream emits some pieces
and ends with a status, which are given. A stream has failed where its writer has. -/
def Writer.valueStreamPush (env : WriterEnv σ γ) (w : Writer σ γ) (pieces : List Bytes)
    (status : Status) : Writer σ γ × Status :=
  andThenOk (w.check (!w.valueStreamActive) "open writer value stream and data are required"
    .invalidArgument) fun w =>
  andThenOk (w.check w.failed "writer value stream is not writable") fun w =>
  andThenOk (Writer.emitPieces env pieces w) fun w =>
    if status = .ok then (w, .ok) else ({ w with failed := true }, status)

/-- `lonejson_writer_value_stream_close`, on the writer. -/
def Writer.valueStreamClose (env : WriterEnv σ γ) (w : Writer σ γ) (pieces : List Bytes)
    (status : Status) : Writer σ γ × Status :=
  andThenOk (w.check (!w.valueStreamActive) "open writer value stream is required"
    .invalidArgument) fun w =>
  andThenOk (w.check w.failed "writer value stream is not closable") fun w =>
  andThenOk (Writer.emitPieces env pieces w) fun w =>
    if status = .ok then ({ w with valueStreamActive := false }, .ok)
    else ({ w with failed := true }, status)

/-- `lonejson_writer_value_stream_cleanup`, on the writer. -/
def Writer.valueStreamCleanup (w : Writer σ γ) : Writer σ γ × Status :=
  if w.valueStreamActive then ({ w with failed := true, valueStreamActive := false }, .ok)
  else (w, .ok)

/-- `lonejson__writer_array_items_require`. -/
def Writer.arrayItemsRequire (w : Writer σ γ) : Writer σ γ × Status :=
  andThenOk w.checkFailed fun w => andThenOk w.checkStream fun w =>
  andThenOk w.checkString fun w =>
  andThenOk (w.check (w.event.kind ≠ .none) "writer event is still active") fun w =>
    match w.frames with
    | ⟨.array, _, _⟩ :: _ => (w, .ok)
    | _ => w.setError .invalidJson "writer is not inside an array"

/-- The items of `lonejson__writer_array_items_from_stream`, in the pieces in which they are read;
the separator comes with the first piece of an item. -/
def Writer.spliceItems (env : WriterEnv σ γ) : List (List Bytes) → Writer σ γ → Writer σ γ × Status
  | [], w => (w, .ok)
  | item :: items, w =>
    andThenOk (w.beforeValue env) fun w =>
    andThenOk (Writer.emitPieces env item w) fun w => Writer.spliceItems env items w

/-- `lonejson_writer_array_items_reader`, on the writer: the pieces of the items that the array
stream reads, and the status that it ends with, are given. An error poisons the writer when an item
has been started. -/
def Writer.arrayItems (env : WriterEnv σ γ) (w : Writer σ γ) (items : List (List Bytes))
    (status : Status) : Writer σ γ × Status :=
  andThenOk w.arrayItemsRequire fun w =>
  andThenOk (Writer.spliceItems env items w) fun w =>
    if status = .ok then (w, .ok)
    else if items = [] then (w, status)
    else ({ w with failed := true }, status)

/-! ## Runs of calls -/

/-- A call with its arguments. `child` are the calls that nest a value: the address of the value,
the second pointer and the tag of the call, and what is generated. -/
inductive WriterCall (σ : Type) where
  | beginObject
  | endObject
  | beginArray
  | endArray
  | key (k : Slice)
  | string (data : Slice)
  | stringBegin
  | stringChunk (data : Slice)
  | stringEnd
  | stringReader (id fuel : ℕ) (reader : σ → ℕ → σ × ReadResult)
  | numberText (data : Slice)
  | numberBegin
  | numberChunk (data : Bytes)
  | numberEnd
  | i64 (value : Int64)
  | u64 (value : UInt64)
  | f64 (finite : Bool) (text : Option Bytes)
  | bool (value : Bool)
  | null
  | nullSource
  | child (arg0 arg1 tag : ℕ) (root : GeneratorRoot)
  | valueStreamOpen
  | valueStreamPush (pieces : List Bytes) (status : Status)
  | valueStreamClose (pieces : List Bytes) (status : Status)
  | valueStreamCleanup
  | arrayItems (items : List (List Bytes)) (status : Status)
  | finish

/-- What a call does with a writer. -/
def WriterCall.run (env : WriterEnv σ γ) : WriterCall σ → Writer σ γ → Writer σ γ × Status
  | .beginObject, w => w.beginObject env
  | .endObject, w => w.endObject env
  | .beginArray, w => w.beginArray env
  | .endArray, w => w.endArray env
  | .key k, w => w.key env k
  | .string data, w => w.string env data
  | .stringBegin, w => w.stringBegin env
  | .stringChunk data, w => w.stringChunk env data
  | .stringEnd, w => w.stringEnd env
  | .stringReader id fuel reader, w => w.stringFromReader env id fuel reader
  | .numberText data, w => w.numberText env data
  | .numberBegin, w => w.numberBegin env
  | .numberChunk data, w => w.numberChunk data
  | .numberEnd, w => w.numberEnd env
  | .i64 value, w => w.i64 env value
  | .u64 value, w => w.u64 env value
  | .f64 finite text, w => w.f64 env finite text
  | .bool value, w => w.bool env value
  | .null, w => w.null env
  | .nullSource, w => w.nullSource env
  | .child arg0 arg1 tag root, w => w.childEvent env (.caller arg0) arg1 tag root
  | .valueStreamOpen, w => w.valueStreamOpen env
  | .valueStreamPush pieces status, w => w.valueStreamPush env pieces status
  | .valueStreamClose pieces status, w => w.valueStreamClose env pieces status
  | .valueStreamCleanup, w => w.valueStreamCleanup
  | .arrayItems items status, w => w.arrayItems env items status
  | .finish, w => w.finish

/-- The calls one after the other, with what each of them returns. -/
def Writer.runCalls (env : WriterEnv σ γ) :
    List (WriterCall σ) → Writer σ γ → Writer σ γ × List Status
  | [], w => (w, [])
  | call :: calls, w =>
    let r := call.run env w
    let rest := Writer.runCalls env calls r.1
    (rest.1, r.2 :: rest.2)

/-- The states of a writer that `lonejson_writer_init_sink` has set up. -/
def Writer.Reached (env : WriterEnv σ γ) (w : Writer σ γ) : Prop :=
  ∃ out maxNumberBytes calls, w = (Writer.runCalls env calls { out, maxNumberBytes }).1

/-! ## Checks -/

/-- A writer whose error record has been set. -/
def Writer.withError (w : Writer σ γ) (error : ErrorInfo) : Writer σ γ := { w with error }

/-- The checks of `lonejson__writer_require_available`. -/
def Writer.available (w : Writer σ γ) : Bool :=
  !w.failed && !w.valueStreamActive && !w.numberOpen

theorem check_true (w : Writer σ γ) (message : String) (code : Status) :
    w.check true message code = w.setError code message := rfl

theorem check_false (w : Writer σ γ) (message : String) (code : Status) :
    w.check false message code = (w, .ok) := rfl

theorem requireAvailable_of {w : Writer σ γ} (h : w.available = true) :
    w.requireAvailable = (w, .ok) := by
  rw [Writer.available, Bool.and_eq_true, Bool.and_eq_true, Bool.not_eq_true', Bool.not_eq_true',
    Bool.not_eq_true'] at h
  obtain ⟨⟨hfailed, hstream⟩, hnumber⟩ := h
  rw [Writer.requireAvailable, Writer.checkFailed, hfailed, check_false, andThenOk_ok,
    Writer.checkStream, hstream, check_false, andThenOk_ok, Writer.checkNumber, hnumber, check_false]

theorem requireAvailable_not {w : Writer σ γ} (h : w.available = false) :
    ∃ error, w.requireAvailable = (w.withError error, .invalidJson) := by
  rw [Writer.requireAvailable, Writer.checkFailed]
  cases hfailed : w.failed with
  | true => exact ⟨_, rfl⟩
  | false =>
      rw [check_false, andThenOk_ok, Writer.checkStream]
      cases hstream : w.valueStreamActive with
      | true => exact ⟨_, rfl⟩
      | false =>
          rw [check_false, andThenOk_ok, Writer.checkNumber]
          cases hnumber : w.numberOpen with
          | true => exact ⟨_, rfl⟩
          | false =>
              rw [Writer.available, hfailed, hstream, hnumber] at h
              cases h

/-- An event that is new, where none is pending. -/
def Writer.register (w : Writer σ γ) (kind : WriterEventKind) (address : Address) (len : ℕ) :
    Writer σ γ :=
  { w with event := { kind, address, len, buffer := w.event.buffer, child := w.event.child } }

section

variable {w : Writer σ γ} {kind : WriterEventKind} {address : Address} {len : ℕ}

theorem beginEvent_new (h : w.available = true) (hnone : w.event.kind = .none) :
    w.beginEvent kind address len = (w.register kind address len, .ok) := by
  rw [Writer.beginEvent, requireAvailable_of h, andThenOk_ok, if_neg (not_not.mpr hnone)]
  rfl

theorem beginEvent_pending (h : w.available = true) (hsome : w.event.kind ≠ .none) :
    w.beginEvent kind address len =
      w.check (w.event.kind ≠ kind || w.event.address ≠ address || w.event.len ≠ len)
        "active writer event must be resumed with the same arguments" .invalidArgument := by
  rw [Writer.beginEvent, requireAvailable_of h, andThenOk_ok, if_pos hsome]

theorem beginEvent_not (h : w.available = false) :
    ∃ error, w.beginEvent kind address len = (w.withError error, .invalidJson) := by
  obtain ⟨error, heq⟩ := requireAvailable_not h
  refine ⟨error, ?_⟩
  rw [Writer.beginEvent, heq]
  rfl

/-- A scalar in the event buffer. -/
def Writer.holdScalar (w : Writer σ γ) (data : Bytes) : Writer σ γ :=
  { w with event := { w.event with buffer := data } }

/-- How the event of a scalar begins, in `lonejson__writer_emit_scalar_bytes`. -/
def Writer.beginScalar (w : Writer σ γ) (data : Bytes) : Writer σ γ × Status :=
  if w.event.kind = .scalarBytes then
    w.check (w.event.len ≠ data.length || w.event.buffer ≠ data)
      "active writer event must be resumed with the same arguments" .invalidArgument
  else if w.event.kind = .none then
    (w.holdScalar data).beginEvent .scalarBytes .eventBuffer data.length
  else w.beginEvent .scalarBytes .eventBuffer data.length

theorem emitScalarBytes_eq (env : WriterEnv σ γ) (w : Writer σ γ) (data : Bytes) :
    w.emitScalarBytes env data =
      andThenOk (w.beginScalar data) fun w =>
      andThenOk (w.inPhase 0 fun w =>
        andThenOk (w.beforeValue env) fun w => (w.setPhase 1, .ok)) fun w =>
      andThenOk (w.emitBytesEvent env data) fun w => (w.clearEvent, .ok) := rfl

theorem beginScalar_same {data : Bytes} (h : w.event.kind = .scalarBytes) :
    w.beginScalar data = w.check (w.event.len ≠ data.length || w.event.buffer ≠ data)
      "active writer event must be resumed with the same arguments" .invalidArgument := if_pos h

theorem beginScalar_new {data : Bytes} (h : w.available = true) (hnone : w.event.kind = .none) :
    w.beginScalar data =
      ((w.holdScalar data).register .scalarBytes .eventBuffer data.length, .ok) := by
  have hscalar : w.event.kind ≠ .scalarBytes := by
    rw [hnone]
    decide
  rw [Writer.beginScalar, if_neg hscalar, if_pos hnone]
  exact beginEvent_new h hnone

theorem beginScalar_not (data : Bytes) (h : w.available = false) (hnone : w.event.kind = .none) :
    ∃ error, w.beginScalar data = ((w.holdScalar data).withError error, .invalidJson) := by
  have hscalar : w.event.kind ≠ .scalarBytes := by
    rw [hnone]
    decide
  rw [Writer.beginScalar, if_neg hscalar, if_pos hnone]
  exact beginEvent_not h

theorem beginScalar_other (data : Bytes) (hnone : w.event.kind ≠ .none)
    (hscalar : w.event.kind ≠ .scalarBytes) :
    ∃ error, w.beginScalar data =
      (w.withError error, if w.available then .invalidArgument else .invalidJson) := by
  rw [Writer.beginScalar, if_neg hscalar, if_neg hnone]
  cases h : w.available with
  | true =>
      rw [beginEvent_pending h hnone, decide_eq_true hscalar, Bool.true_or, Bool.true_or]
      exact ⟨_, rfl⟩
  | false => exact beginEvent_not h

end

/-! ## What a call does not read -/

/-- A writer without its error record, and without the event buffer where no scalar is pending. -/
def Writer.shown (w : Writer σ γ) : Writer σ γ :=
  { w with
    error := {}
    event := { w.event with
      buffer := if w.event.kind = .scalarBytes then w.event.buffer else [] } }

/-- Two writers that differ at most in what no call reads. -/
def Writer.Alike (w w' : Writer σ γ) : Prop := w.shown = w'.shown

theorem Writer.Alike.frames {w w' : Writer σ γ} (h : w.Alike w') : w.frames = w'.frames := by
  have hshown : w.shown.frames = w'.shown.frames := congrArg Writer.frames h
  exact hshown

/-- A step returns the same for writers that are alike, and leaves them alike. -/
def Blind (f : Writer σ γ → Writer σ γ × Status) : Prop :=
  ∀ ⦃w w'⦄, w.Alike w' → (f w).1.Alike (f w').1 ∧ (f w).2 = (f w').2

section

variable {f g : Writer σ γ → Writer σ γ × Status}

theorem Blind.andThen (hf : Blind f) (hg : Blind g) : Blind fun w => andThenOk (f w) g := by
  intro w w' h
  obtain ⟨halike, hstatus⟩ := hf h
  dsimp only
  by_cases hok : (f w).2 = .ok
  · have hok' := hstatus.symm.trans hok
    rw [andThenOk, if_pos hok, andThenOk, if_pos hok']
    exact hg halike
  · have hnot : ¬ (f w').2 = .ok := fun hok' => hok (hstatus.trans hok')
    rw [andThenOk, if_neg hok, andThenOk, if_neg hnot]
    exact ⟨halike, hstatus⟩

theorem Blind.comp {u : Writer σ γ → Writer σ γ} (u' : Writer σ γ → Writer σ γ)
    (hu : ∀ w, (u w).shown = u' w.shown) (hf : Blind f) : Blind fun w => f (u w) := by
  intro w w' h
  refine hf ?_
  change (u w).shown = (u w').shown
  rw [hu w, hu w', h]

/-- What is read is the same. -/
theorem Blind.read {β : Type} (r : Writer σ γ → β) (f : β → Writer σ γ → Writer σ γ × Status)
    (hr : ∀ w, r w.shown = r w) (hf : ∀ b, Blind (f b)) : Blind fun w => f (r w) w := by
  intro w w' h
  have hsame : r w = r w' := by rw [← hr w, ← hr w', h]
  dsimp only
  rw [hsame]
  exact hf _ h

/-- An update of what is shown. -/
theorem blind_update {u : Writer σ γ → Writer σ γ} (status : Status)
    (u' : Writer σ γ → Writer σ γ) (hu : ∀ w, (u w).shown = u' w.shown) :
    Blind fun w => (u w, status) := by
  intro w w' h
  refine ⟨?_, rfl⟩
  change (u w).shown = (u w').shown
  rw [hu w, hu w', h]

theorem blind_ok : Blind fun w : Writer σ γ => (w, .ok) := blind_update .ok id fun _ => rfl

theorem blind_setError (code : Status) (message : String) :
    Blind fun w : Writer σ γ => w.setError code message :=
  blind_update code id fun _ => rfl

theorem blind_fail (code : Status) (message : String) :
    Blind fun w : Writer σ γ => w.fail code message :=
  blind_update code (fun w => { w with failed := true }) fun _ => rfl

theorem blind_check {bad : Writer σ γ → Bool} (hbad : ∀ w, bad w.shown = bad w) (message : String)
    (code : Status) : Blind fun w => w.check (bad w) message code := by
  refine Blind.read bad (fun b w => w.check b message code) hbad fun b => ?_
  cases b with
  | true => exact blind_setError code message
  | false => exact blind_ok

theorem blind_setPhase (phase : ℕ) : Blind fun w : Writer σ γ => (w.setPhase phase, .ok) :=
  blind_update .ok (fun w => w.setPhase phase) fun _ => rfl

theorem blind_clearEvent : Blind fun w : Writer σ γ => (w.clearEvent, .ok) :=
  blind_update .ok (fun w => { w with event := {} }) fun _ => rfl

theorem blind_checkFailed : Blind fun w : Writer σ γ => w.checkFailed :=
  blind_check (fun _ => rfl) _ _

theorem blind_checkStream : Blind fun w : Writer σ γ => w.checkStream :=
  blind_check (fun _ => rfl) _ _

theorem blind_checkString : Blind fun w : Writer σ γ => w.checkString :=
  blind_check (fun _ => rfl) _ _

theorem blind_checkNumber : Blind fun w : Writer σ γ => w.checkNumber :=
  blind_check (fun _ => rfl) _ _

theorem blind_requireAvailable : Blind fun w : Writer σ γ => w.requireAvailable :=
  blind_checkFailed.andThen (blind_checkStream.andThen blind_checkNumber)

/-- A phase of an event. -/
theorem Blind.inPhase (hf : Blind f) (phase : ℕ) : Blind fun w => w.inPhase phase f := by
  refine Blind.read (fun w => w.event.phase) (fun b w => if b = phase then f w else (w, .ok))
    (fun _ => rfl) fun b => ?_
  by_cases h : b = phase
  · simpa only [if_pos h] using hf
  · simpa only [if_neg h] using blind_ok

end

/-! ## Calls into a sink -/

/-- A sink that accepts everything, as in `WriterEnv.Sinks`, and nested generators whose setup
does not read the error record. -/
structure WriterEnv.Accepts (env : WriterEnv σ γ) (push : σ → Bytes → σ) (told : σ → Bytes) :
    Prop extends env.Sinks push told where
  child : ∀ out root error, (env.childInit out root error).mapError ErrorInfo.code =
    (env.childInit out root {}).mapError ErrorInfo.code

section

variable {env : WriterEnv σ γ} {push : σ → Bytes → σ} {told : σ → Bytes}
  (hs : env.Accepts push told)
include hs

theorem blind_emit (data : Bytes) : Blind fun w => w.emit env data := by
  by_cases hdata : data = []
  · simpa only [Writer.emit, if_pos hdata] using blind_ok
  · have heq : (fun w => Writer.emit env w data) =
        fun w : Writer σ γ => ({ w with out := push w.out data }, .ok) :=
      funext fun w => emit_eq hs.toSinks w hdata
    rw [heq]
    exact blind_update .ok (fun w => { w with out := push w.out data }) fun _ => rfl

theorem blind_unblocked : Blind fun w => w.unblocked env := by
  have heq : (fun w => Writer.unblocked env w) = fun w : Writer σ γ => (w, .ok) :=
    funext fun w => unblocked_eq hs.toSinks w
  rw [heq]
  exact blind_ok

theorem blind_emitEach (piece : Byte → Bytes) (data : Bytes) :
    Blind fun w => Writer.emitEach env piece data w := by
  induction data with
  | nil => exact blind_ok
  | cons b rest ih =>
      exact (blind_unblocked hs).andThen ((blind_emit hs (piece b)).andThen
        (ih.comp (fun w => { w with event := { w.event with off := w.event.off + 1 } })
          fun _ => rfl))

/-- The bytes of an event, from its offset on. -/
theorem blind_emitFrom (piece : Byte → Bytes) (data : Bytes) :
    Blind fun w => Writer.emitEach env piece (data.drop w.event.off) w :=
  Blind.read (fun w => w.event.off) (fun off w => Writer.emitEach env piece (data.drop off) w)
    (fun _ => rfl) fun off => blind_emitEach hs piece (data.drop off)

theorem blind_emitPhase (text : Bytes) (next : ℕ) :
    Blind fun w => Writer.emitPhase env text next w :=
  (blind_unblocked hs).andThen ((blind_emit hs text).andThen (blind_setPhase next))

omit hs in
/-- A test of what is shown. -/
theorem Blind.ite {f g : Writer σ γ → Writer σ γ × Status} {p : Writer σ γ → Prop}
    [DecidablePred p] (hp : ∀ w, p w.shown ↔ p w) (hf : Blind f) (hg : Blind g) :
    Blind fun w => if p w then f w else g w := by
  have h := Blind.read (fun w => decide (p w)) (fun b w => if b = true then f w else g w)
    (fun w => decide_eq_decide.mpr (hp w)) fun b => ?_
  · simpa only [decide_eq_true_eq] using h
  · cases b with
    | true => exact hf
    | false => exact hg

/-- The comma in front of another element or member. -/
theorem blind_comma (count : ℕ) :
    Blind fun w => if count ≠ 0 then w.emit env [0x2c] else (w, .ok) := by
  by_cases h : count ≠ 0
  · simpa only [if_pos h] using blind_emit hs [0x2c]
  · simpa only [if_neg h] using blind_ok

omit hs in
theorem blind_frames (frames : List WriterFrame) :
    Blind fun w : Writer σ γ => ({ w with frames }, .ok) :=
  blind_update .ok (fun w => { w with frames }) fun _ => rfl

theorem blind_placeValue : Blind fun w => w.placeValue env := by
  intro w w' h
  have hframes : w.frames = w'.frames := h.frames
  dsimp only
  rw [Writer.placeValue, Writer.placeValue, hframes]
  cases w'.frames with
  | nil =>
      have hroot : Blind fun w : Writer σ γ => ({ w with frames := [], rootWritten := true }, .ok) :=
        blind_update .ok (fun w => { w with frames := [], rootWritten := true }) fun _ => rfl
      have hblind := Blind.ite (p := fun w : Writer σ γ => w.rootWritten = true) (fun _ => Iff.rfl)
        (blind_setError .invalidJson "writer already has a root value") hroot
      exact hblind h
  | cons frame rest =>
      dsimp only
      split
      · exact ((blind_comma hs frame.count).andThen
          (blind_frames ({ frame with count := frame.count + 1 } :: rest))) h
      · split
        · exact blind_setError .invalidJson _ h
        · exact blind_frames _ h

theorem blind_beforeValue : Blind fun w => w.beforeValue env :=
  blind_checkFailed.andThen <| blind_checkStream.andThen <| blind_checkString.andThen <|
  blind_checkNumber.andThen <| (blind_check (fun _ => rfl) _ _).andThen <|
  (blind_unblocked hs).andThen (blind_placeValue hs)

theorem blind_emitValueBytes (data : Bytes) : Blind fun w => w.emitValueBytes env data :=
  (blind_beforeValue hs).andThen (blind_emit hs data)

theorem blind_pushFrame (kind : ContainerKind) : Blind fun w => w.pushFrame env kind := by
  have heq : (fun w => Writer.pushFrame env w kind) =
      fun w : Writer σ γ => ({ w with frames := { kind } :: w.frames }, .ok) :=
    funext fun w => if_pos (hs.canGrow _ _)
  rw [heq]
  exact blind_update .ok (fun w => { w with frames := { kind } :: w.frames }) fun _ => rfl

theorem blind_beginContainer (kind : ContainerKind) (mark : Byte) :
    Blind fun w => w.beginContainer env kind mark :=
  (blind_beforeValue hs).andThen ((blind_emit hs [mark]).andThen (blind_pushFrame hs kind))

omit hs in
theorem blind_checkClosing : Blind fun w : Writer σ γ => w.checkClosing :=
  blind_checkFailed.andThen <| blind_checkStream.andThen <| blind_checkString.andThen
    blind_checkNumber

theorem blind_endObject : Blind fun w => w.endObject env := by
  refine blind_checkClosing.andThen ?_
  intro w w' h
  have hframes : w.frames = w'.frames := h.frames
  dsimp only
  rw [hframes]
  split
  · split
    · exact blind_setError .invalidJson _ h
    · exact ((blind_emit hs [0x7d]).andThen (blind_frames _)) h
  · exact blind_setError .invalidJson _ h

theorem blind_endArray : Blind fun w => w.endArray env := by
  refine blind_checkClosing.andThen ?_
  intro w w' h
  have hframes : w.frames = w'.frames := h.frames
  dsimp only
  rw [hframes]
  split
  · exact ((blind_emit hs [0x5d]).andThen (blind_frames _)) h
  · exact blind_setError .invalidJson _ h

omit hs in
/-- A new event has no scalar in its buffer, and one that is resumed is the same. -/
theorem blind_beginEvent {kind : WriterEventKind} (hkind : kind ≠ .scalarBytes)
    (address : Address) (len : ℕ) :
    Blind fun w : Writer σ γ => w.beginEvent kind address len := by
  refine blind_requireAvailable.andThen ?_
  refine Blind.ite (fun _ => Iff.rfl) (blind_check (fun _ => rfl) _ _) ?_
  refine blind_update .ok (fun w => { w with event := { kind, address, len, child := w.event.child } })
    fun w => ?_
  rw [Writer.shown, Writer.shown]
  dsimp only
  rw [if_neg hkind]

theorem blind_keyStart : Blind fun w => w.keyStart env := by
  refine blind_checkString.andThen <| blind_checkNumber.andThen <| (blind_unblocked hs).andThen ?_
  intro w w' h
  have hframes : w.frames = w'.frames := h.frames
  dsimp only
  rw [hframes]
  split
  · next count afterKey _ _ =>
    split
    · exact blind_setError .invalidJson _ h
    · exact ((blind_comma hs count).andThen (blind_setPhase 1)) h
  · exact blind_setError .invalidJson _ h

theorem blind_key (key : Slice) : Blind fun w => w.key env key := by
  refine blind_checkFailed.andThen <| blind_checkStream.andThen <|
    (blind_beginEvent (by decide) _ _).andThen <| ((blind_keyStart hs).inPhase 0).andThen <|
    ((blind_emitPhase hs _ _).inPhase 1).andThen <|
    (((blind_emitFrom hs writtenByte key.bytes).andThen (blind_setPhase 3)).inPhase 2).andThen <|
    ((blind_emitPhase hs _ _).inPhase 3).andThen ?_
  exact blind_update .ok (fun w => { w with frames := afterKey w.frames, event := {} }) fun _ => rfl

/-- The start of a value that is an event. -/
theorem blind_valueStart :
    Blind fun w => andThenOk (w.beforeValue env) fun w => (w.setPhase 1, .ok) :=
  (blind_beforeValue hs).andThen (blind_setPhase 1)

theorem blind_string (data : Slice) : Blind fun w => w.string env data :=
  (blind_beginEvent (by decide) _ _).andThen <| ((blind_valueStart hs).inPhase 0).andThen <|
    ((blind_emitPhase hs _ _).inPhase 1).andThen <|
    (((blind_emitFrom hs writtenByte data.bytes).andThen (blind_setPhase 3)).inPhase 2).andThen <|
    (blind_emitPhase hs _ _).andThen blind_clearEvent

theorem blind_stringBegin : Blind fun w => w.stringBegin env :=
  (blind_beforeValue hs).andThen <| (blind_emit hs [0x22]).andThen <|
    blind_update .ok (fun w => { w with stringOpen := true }) fun _ => rfl

theorem blind_stringChunk (data : Slice) : Blind fun w => w.stringChunk env data :=
  blind_checkFailed.andThen <| blind_checkStream.andThen <|
    (blind_check (fun _ => rfl) _ _).andThen <| (blind_beginEvent (by decide) _ _).andThen <|
    (blind_emitFrom hs writtenByte data.bytes).andThen blind_clearEvent

theorem blind_stringEnd : Blind fun w => w.stringEnd env :=
  (blind_check (fun _ => rfl) _ _).andThen <| (blind_emit hs [0x22]).andThen <|
    blind_update .ok (fun w => { w with stringOpen := false }) fun _ => rfl

/-! ## Strings that are read, numbers and scalars -/

omit hs in
/-- What is left in the buffer of a string reader. -/
theorem blind_keepBuffer {f : Writer σ γ → Writer σ γ × Status} (hf : Blind f) (buffer : Bytes) :
    Blind fun w => f { w with stringReader := { w.stringReader with buffer } } :=
  hf.comp (fun w => { w with stringReader := { w.stringReader with buffer } }) fun _ => rfl

theorem blind_drainReader (buffer : Bytes) : Blind fun w => Writer.drainReader env buffer w := by
  induction buffer with
  | nil => exact blind_ok
  | cons b rest ih =>
      exact (blind_unblocked hs).andThen ((blind_emit hs (writtenByte b)).andThen
        (blind_keepBuffer ih rest))

theorem blind_readString (reader : σ → ℕ → σ × ReadResult) (n : ℕ) :
    Blind fun w => Writer.readString env reader n w := by
  induction n with
  | zero => exact blind_update .internalError id fun _ => rfl
  | succ n ih =>
      have hdrain : Blind fun w => Writer.drainReader env w.stringReader.buffer w :=
        Blind.read (fun w => w.stringReader.buffer) (fun buffer w => Writer.drainReader env buffer w)
          (fun _ => rfl) (blind_drainReader hs)
      have hclose : Blind fun w : Writer σ γ => ({ w with stringReader := {} }, .ok) :=
        blind_update .ok (fun w => { w with stringReader := {} }) fun _ => rfl
      refine hdrain.andThen ?_
      refine Blind.ite (p := fun w : Writer σ γ => w.stringReader.eof = true) (fun _ => Iff.rfl)
        ((blind_unblocked hs).andThen ((blind_stringEnd hs).andThen hclose))
        ((blind_unblocked hs).andThen ?_)
      -- the reader sees the world only
      refine Blind.read (fun w => reader w.out 4096) (fun r w =>
        let w := { w with out := r.1 }
        if r.2.errorCode ≠ 0 then w.setError .ioError "failed to read JSON string source"
        else if r.2.wouldBlock then w.setError .callbackFailed "string reader would block"
        else
          Writer.readString env reader n
            { w with stringReader := { w.stringReader with buffer := r.2.bytes, eof := r.2.eof } })
        (fun _ => rfl) fun r => ?_
      dsimp only
      split
      · exact blind_update .ioError (fun w => { w with out := r.1 }) fun _ => rfl
      · split
        · exact blind_update .callbackFailed (fun w => { w with out := r.1 }) fun _ => rfl
        · exact ih.comp (fun w => { w with
            out := r.1
            stringReader := { w.stringReader with buffer := r.2.bytes, eof := r.2.eof } })
            fun _ => rfl

theorem blind_stringFromReader (id fuel : ℕ) (reader : σ → ℕ → σ × ReadResult) :
    Blind fun w => w.stringFromReader env id fuel reader := by
  have hopen : Blind fun w : Writer σ γ =>
      ({ w with stringReader := { active := true, reader := id } }, .ok) :=
    blind_update .ok (fun w => { w with stringReader := { active := true, reader := id } })
      fun _ => rfl
  refine Blind.andThen ?_ (blind_readString hs reader fuel)
  exact Blind.ite (p := fun w : Writer σ γ => w.stringReader.active = true) (fun _ => Iff.rfl)
    (blind_check (fun _ => rfl) _ _) ((blind_stringBegin hs).andThen hopen)

theorem blind_numberText (data : Slice) : Blind fun w => w.numberText env data :=
  (blind_check (fun _ => rfl) _ _).andThen <| (blind_check (fun _ => rfl) _ _).andThen <|
    (blind_beginEvent (by decide) _ _).andThen <| ((blind_valueStart hs).inPhase 0).andThen <|
    (blind_emitFrom hs _ data.bytes).andThen blind_clearEvent

theorem blind_numberBegin : Blind fun w => w.numberBegin env :=
  (blind_beforeValue hs).andThen <|
    blind_update .ok (fun w => { w with number := [], numberOpen := true }) fun _ => rfl

/-- The end of `lonejson_writer_number_chunk`. -/
def Writer.gathered (r : Except String Bytes) (w : Writer σ γ) : Writer σ γ × Status :=
  match r with
  | .ok number => ({ w with number }, .ok)
  | .error message => w.fail .overflow message

omit hs in
theorem blind_numberChunk (data : Bytes) : Blind fun w : Writer σ γ => w.numberChunk data := by
  refine blind_checkFailed.andThen <| blind_checkStream.andThen <|
    (blind_check (fun _ => rfl) _ _).andThen ?_
  refine Blind.read (fun w => byteAppend w.number data w.maxNumberBytes) Writer.gathered
    (fun _ => rfl) fun r => ?_
  cases r with
  | ok number => exact blind_update .ok (fun w => { w with number }) fun _ => rfl
  | error message => exact blind_fail .overflow message

/-- The event of a number is set up by hand. -/
theorem blind_numberEnd : Blind fun w => w.numberEnd env := by
  refine blind_checkFailed.andThen <| (blind_check (fun _ => rfl) _ _).andThen ?_
  refine Blind.ite (p := fun w : Writer σ γ => (!isValidJsonNumber w.number) = true)
    (fun _ => Iff.rfl) (blind_fail .invalidJson _) ?_
  refine Blind.andThen ?_ (Blind.andThen ?_ ?_)
  · refine Blind.ite (p := fun w : Writer σ γ => w.event.kind = .none) (fun _ => Iff.rfl) ?_
      (blind_check (fun _ => rfl) _ _)
    exact blind_update .ok (fun w => { w with event := { w.event with
      kind := .bytes, address := .number, len := w.number.length, off := 0, phase := 1,
      buffer := [] } }) fun _ => rfl
  · exact Blind.read (fun w => (w.number, w.event.off))
      (fun r w => Writer.emitEach env (fun b => [b]) (r.1.drop r.2) w) (fun _ => rfl)
      fun r => blind_emitEach hs _ _
  · exact blind_update .ok (fun w => { w with number := [], numberOpen := false, event := {} })
      fun _ => rfl

omit hs in
theorem Writer.Alike.available {w w' : Writer σ γ} (h : w.Alike w') :
    w.available = w'.available := by
  have hshown : w.shown.available = w'.shown.available := congrArg Writer.available h
  exact hshown

omit hs in
theorem Writer.Alike.kind {w w' : Writer σ γ} (h : w.Alike w') :
    w.event.kind = w'.event.kind := by
  have hshown : w.shown.event.kind = w'.shown.event.kind :=
    congrArg (fun w => w.event.kind) (show w.shown = w'.shown from h)
  exact hshown

omit hs in
theorem Writer.Alike.scalar {w w' : Writer σ γ} (h : w.Alike w')
    (hkind : w.event.kind = .scalarBytes) :
    w.event.len = w'.event.len ∧ w.event.buffer = w'.event.buffer := by
  have hlen : w.shown.event.len = w'.shown.event.len :=
    congrArg (fun w => w.event.len) (show w.shown = w'.shown from h)
  have hbuffer : w.shown.event.buffer = w'.shown.event.buffer :=
    congrArg (fun w => w.event.buffer) (show w.shown = w'.shown from h)
  rw [Writer.shown, Writer.shown] at hbuffer
  dsimp only at hbuffer
  rw [if_pos hkind, if_pos (h.kind.symm.trans hkind)] at hbuffer
  exact ⟨hlen, hbuffer⟩

omit hs in
/-- The scalar that is pending is the one in the buffer. -/
theorem blind_beginScalar (data : Bytes) : Blind fun w : Writer σ γ => w.beginScalar data := by
  intro w w' h
  dsimp only
  by_cases hscalar : w.event.kind = .scalarBytes
  · obtain ⟨hlen, hbuffer⟩ := h.scalar hscalar
    rw [beginScalar_same hscalar, beginScalar_same (h.kind.symm.trans hscalar), hbuffer, hlen]
    exact @blind_check _ _ (fun _ => _) (fun _ => rfl) _ _ _ _ h
  by_cases hnone : w.event.kind = .none
  · have hnone' := h.kind.symm.trans hnone
    have hheld := (blind_update (u := fun w => w.holdScalar data) .ok
      (fun w => w.holdScalar (if w.event.kind = .scalarBytes then data else [])) (fun _ => rfl) h).1
    cases havailable : w.available with
    | true =>
        rw [beginScalar_new havailable hnone,
          beginScalar_new (h.available.symm.trans havailable) hnone']
        exact blind_update
          (u := fun w => (w.holdScalar data).register .scalarBytes .eventBuffer data.length) .ok
          (fun w => (w.holdScalar data).register .scalarBytes .eventBuffer data.length)
          (fun _ => rfl) h
    | false =>
        obtain ⟨error, heq⟩ := beginScalar_not data havailable hnone
        obtain ⟨error', heq'⟩ :=
          beginScalar_not data (h.available.symm.trans havailable) hnone'
        rw [heq, heq']
        exact ⟨hheld, rfl⟩
  · obtain ⟨error, heq⟩ := beginScalar_other data hnone hscalar
    obtain ⟨error', heq'⟩ := beginScalar_other data
      (fun h' => hnone (h.kind.trans h')) fun h' => hscalar (h.kind.trans h')
    rw [heq, heq', h.available]
    exact ⟨h, rfl⟩

theorem blind_emitScalarBytes (data : Bytes) : Blind fun w => w.emitScalarBytes env data :=
  (blind_beginScalar data).andThen <| ((blind_valueStart hs).inPhase 0).andThen <|
    (blind_emitFrom hs _ data).andThen blind_clearEvent

/-! ## Nested values and value streams -/

omit hs in
/-- A generator that has been read from. -/
def Writer.withChild (w : Writer σ γ) (child : γ) : Writer σ γ :=
  { w with event := { w.event with child := some child } }

/-- What comes behind a read of a generator. -/
def childNext (env : WriterEnv σ γ) (n : ℕ) (r : GeneratorRead γ) (w : Writer σ γ) :
    Writer σ γ × Status :=
  if r.eof then (w.clearEvent, .ok)
  else if r.bytes = [] then (w, .truncated)
  else Writer.childLoop env n r.generator w

theorem childLoop_succ (n : ℕ) (child : γ) (w : Writer σ γ) :
    Writer.childLoop env (n + 1) child w =
      let r := env.childRead child 512
      if r.status ≠ .ok then ((w.withChild r.generator).withError r.error, r.status)
      else andThenOk ((w.withChild r.generator).emit env r.bytes) (childNext env n r) := by
  have hcapacity : env.readCapacity w.out = 512 := by
    rw [WriterEnv.readCapacity, hs.available]
  rw [Writer.childLoop, unblocked_eq hs.toSinks, andThenOk_ok, hs.available, if_neg nofun,
    hcapacity]
  dsimp only
  generalize env.childRead child 512 = r
  by_cases hstatus : r.status ≠ .ok
  · rw [if_pos hstatus, if_pos hstatus]
    rfl
  rw [if_neg hstatus, if_neg hstatus]
  change andThenOk
    (if r.bytes = [] then (w.withChild r.generator, .ok)
    else andThenOk ((w.withChild r.generator).emit env r.bytes) fun w => w.unblocked env)
    (childNext env n r) = _
  congr 1
  have hunblocked : (fun w => Writer.unblocked env w) = fun w : Writer σ γ => (w, .ok) :=
    funext fun w => unblocked_eq hs.toSinks w
  by_cases hempty : r.bytes = []
  · rw [if_pos hempty, hempty]
    rfl
  · rw [if_neg hempty, hunblocked, andThenOk_pure]

theorem blind_childLoop (n : ℕ) : ∀ child, Blind fun w => Writer.childLoop env n child w := by
  induction n with
  | zero => exact fun _ => blind_update .internalError id fun _ => rfl
  | succ n ih =>
      intro child
      have heq : (fun w => Writer.childLoop env (n + 1) child w) = _ :=
        funext fun w => childLoop_succ hs n child w
      rw [heq]
      dsimp only
      generalize env.childRead child 512 = r
      by_cases hstatus : r.status ≠ .ok
      · simp only [if_pos hstatus]
        exact blind_update r.status (fun w => w.withChild r.generator) fun _ => rfl
      · simp only [if_neg hstatus]
        refine Blind.andThen ((blind_emit hs r.bytes).comp (fun w => w.withChild r.generator)
          fun _ => rfl) ?_
        rw [show childNext env n r = fun w => childNext env n r w from rfl]
        simp only [childNext]
        split_ifs
        · exact blind_clearEvent
        · exact blind_update .truncated id fun _ => rfl
        · exact ih r.generator

/-- The part of `lonejson__writer_child_event` that sets up the generator. -/
theorem blind_childInit (arg1 : ℕ) (root : GeneratorRoot) :
    Blind fun w =>
      let w : Writer σ γ := { w with event := { w.event with data2 := arg1 } }
      match env.childInit w.out root w.error with
      | .error error => (Writer.clearEvent { w with error }, error.code)
      | .ok child =>
        (Writer.setPhase { w with event := { w.event with child := some child } } 1, .ok) := by
  intro w w' h
  have hout : w.out = w'.out := by
    have hshown : w.shown.out = w'.shown.out :=
      congrArg Writer.out (show w.shown = w'.shown from h)
    exact hshown
  have hinit : (env.childInit w.out root w.error).mapError ErrorInfo.code =
      (env.childInit w'.out root w'.error).mapError ErrorInfo.code := by
    rw [hs.child w.out root w.error, hs.child w'.out root w'.error, hout]
  have hcleared := (blind_clearEvent h).1
  dsimp only
  cases hx : env.childInit w.out root w.error with
  | error e =>
      cases hy : env.childInit w'.out root w'.error with
      | error e' =>
          rw [hx, hy] at hinit
          injection hinit with hcode
          exact ⟨hcleared, hcode⟩
      | ok child' =>
          rw [hx, hy] at hinit
          cases hinit
  | ok child =>
      cases hy : env.childInit w'.out root w'.error with
      | error e' =>
          rw [hx, hy] at hinit
          cases hinit
      | ok child' =>
          rw [hx, hy] at hinit
          injection hinit with hchild
          subst hchild
          exact blind_update (u := fun w => Writer.setPhase { w with event := { w.event with
              data2 := arg1, child := some child } } 1) .ok
            (fun w => Writer.setPhase { w with event := { w.event with
              data2 := arg1, child := some child } } 1) (fun _ => rfl) h

/-- The loop of a nested value, if there is one. -/
def Writer.childRest (env : WriterEnv σ γ) (child : Option γ) (w : Writer σ γ) :
    Writer σ γ × Status :=
  match child with
  | none => (w, .internalError)
  | some child => Writer.childLoop env (env.childFuel child) child w

theorem blind_childEvent (arg0 : Address) (arg1 tag : ℕ) (root : GeneratorRoot) :
    Blind fun w => w.childEvent env arg0 arg1 tag root := by
  refine (blind_beginEvent (by decide) arg0 tag).andThen (Blind.andThen ?_ ?_)
  · exact Blind.ite (p := fun w : Writer σ γ => w.event.phase = 0) (fun _ => Iff.rfl)
      ((blind_beforeValue hs).andThen (blind_childInit hs arg1 root))
      (blind_check (fun _ => rfl) _ _)
  · refine Blind.read (fun w => w.event.child) (Writer.childRest env) (fun _ => rfl)
      fun child => ?_
    cases child with
    | none => exact blind_update .internalError id fun _ => rfl
    | some child => exact blind_childLoop hs (env.childFuel child) child

theorem blind_emitPieces (pieces : List Bytes) :
    Blind fun w => Writer.emitPieces env pieces w := by
  induction pieces with
  | nil => exact blind_ok
  | cons piece pieces ih => exact (blind_emit hs piece).andThen ih

omit hs in
/-- The end of a value stream, or of a piece of it. -/
theorem blind_ending {f : Writer σ γ → Writer σ γ × Status} (hf : Blind f) (status : Status) :
    Blind fun w => if status = .ok then f w else ({ w with failed := true }, status) := by
  by_cases h : status = .ok
  · simpa only [if_pos h] using hf
  · simpa only [if_neg h] using
      blind_update (u := fun w : Writer σ γ => { w with failed := true }) status
        (fun w => { w with failed := true }) fun _ => rfl

theorem blind_spliceItems (items : List (List Bytes)) :
    Blind fun w => Writer.spliceItems env items w := by
  induction items with
  | nil => exact blind_ok
  | cons item items ih =>
      exact (blind_beforeValue hs).andThen ((blind_emitPieces hs item).andThen ih)

theorem blind_arrayItems (items : List (List Bytes)) (status : Status) :
    Blind fun w => w.arrayItems env items status := by
  have hrequire : Blind fun w : Writer σ γ => w.arrayItemsRequire := by
    refine blind_checkFailed.andThen <| blind_checkStream.andThen <| blind_checkString.andThen <|
      (blind_check (fun _ => rfl) _ _).andThen ?_
    intro w w' h
    dsimp only
    rw [h.frames]
    split
    · exact blind_ok h
    · exact blind_setError .invalidJson _ h
  refine hrequire.andThen ((blind_spliceItems hs items).andThen ?_)
  by_cases hitems : items = []
  · by_cases hstatus : status = .ok
    · simpa only [if_pos hstatus] using blind_ok
    · simpa only [if_neg hstatus, if_pos hitems] using
        blind_update (u := fun w : Writer σ γ => w) status id fun _ => rfl
  · simpa only [if_neg hitems] using blind_ending blind_ok status

/-- No call reads what is hidden. -/
theorem blind_run (call : WriterCall σ) : Blind fun w : Writer σ γ => call.run env w := by
  cases call with
  | beginObject => exact blind_beginContainer hs .object 0x7b
  | endObject => exact blind_endObject hs
  | beginArray => exact blind_beginContainer hs .array 0x5b
  | endArray => exact blind_endArray hs
  | key k => exact blind_key hs k
  | string data => exact blind_string hs data
  | stringBegin => exact blind_stringBegin hs
  | stringChunk data => exact blind_stringChunk hs data
  | stringEnd => exact blind_stringEnd hs
  | stringReader id fuel reader => exact blind_stringFromReader hs id fuel reader
  | numberText data => exact blind_numberText hs data
  | numberBegin => exact blind_numberBegin hs
  | numberChunk data => exact blind_numberChunk data
  | numberEnd => exact blind_numberEnd hs
  | i64 value => exact blind_emitScalarBytes hs _
  | u64 value => exact blind_emitScalarBytes hs _
  | f64 finite text =>
      cases finite with
      | false => exact blind_setError .invalidArgument _
      | true =>
          cases text with
          | none => exact blind_setError .internalError _
          | some text => exact blind_emitScalarBytes hs text
  | bool value => exact blind_emitScalarBytes hs _
  | null => exact blind_emitScalarBytes hs _
  | nullSource => exact blind_emitValueBytes hs _
  | child arg0 arg1 tag root => exact blind_childEvent hs _ arg1 tag root
  | valueStreamOpen =>
      exact (blind_check (fun _ => rfl) _ _).andThen <| (blind_check (fun _ => rfl) _ _).andThen <|
        blind_checkFailed.andThen <| (blind_beforeValue hs).andThen <|
        blind_update .ok (fun w => { w with valueStreamActive := true }) fun _ => rfl
  | valueStreamPush pieces status =>
      exact (blind_check (fun _ => rfl) _ _).andThen <| (blind_check (fun _ => rfl) _ _).andThen <|
        (blind_emitPieces hs pieces).andThen (blind_ending blind_ok status)
  | valueStreamClose pieces status =>
      exact (blind_check (fun _ => rfl) _ _).andThen <| (blind_check (fun _ => rfl) _ _).andThen <|
        (blind_emitPieces hs pieces).andThen <| blind_ending
          (blind_update .ok (fun w => { w with valueStreamActive := false }) fun _ => rfl) status
  | valueStreamCleanup =>
      exact Blind.ite (p := fun w : Writer σ γ => w.valueStreamActive = true) (fun _ => Iff.rfl)
        (blind_update .ok (fun w => { w with failed := true, valueStreamActive := false })
          fun _ => rfl) blind_ok
  | arrayItems items status => exact blind_arrayItems hs items status
  | finish =>
      exact blind_checkClosing.andThen <| (blind_check (fun _ => rfl) _ _).andThen <|
        (blind_check (fun _ => rfl) _ _).andThen <|
        blind_update .ok (fun w => { w with finished := true }) fun _ => rfl

/-- Nor does a run of calls. -/
theorem runCalls_alike (calls : List (WriterCall σ)) : ∀ {w w' : Writer σ γ}, w.Alike w' →
    (Writer.runCalls env calls w).1.Alike (Writer.runCalls env calls w').1 ∧
      (Writer.runCalls env calls w).2 = (Writer.runCalls env calls w').2 := by
  induction calls with
  | nil => exact fun h => ⟨h, rfl⟩
  | cons call calls ih =>
      intro w w' h
      obtain ⟨halike, hstatus⟩ := blind_run hs call h
      obtain ⟨hrest, hstatuses⟩ := ih halike
      refine ⟨hrest, ?_⟩
      rw [Writer.runCalls, Writer.runCalls]
      dsimp only
      rw [show (call.run env w).2 = (call.run env w').2 from hstatus, hstatuses]

end

end Lonejson
