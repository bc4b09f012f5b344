import Lonejson.Generated

/-!
# Uploads that are read again

The callbacks that a transfer makes of an upload: reads of any capacities, and seeks and rewinds in
between, each of which may be refused or may find no memory. Seen from outside, an upload is a text
with a place in it.
-/

namespace Lonejson

open Pull (Producer)

/-! ## The upload -/

/-- The generator of an upload, with what `lonejson__generator_state` keeps for a rewind. -/
structure UploadGenerator where
  map : MapId
  src : Record
  options : WriteOptions
  state : RecordGenerator

/-- `lonejson_curl_upload`; `none` is a generator whose state is NULL. -/
structure CurlUpload where
  live : Bool := false
  generator : Option UploadGenerator := none
  error : ErrorInfo := {}

/-- What `lonejson_curl_seek_callback` returns. -/
inductive SeekAnswer where
  | ok
  | fail
  | cantSeek
  deriving DecidableEq, Repr

/-- `SEEK_SET`. -/
def seekSet : ℤ := 0

namespace CurlUpload

/-- `lonejson_curl_upload_init`, for an allocator that has the memory. -/
def init (env : SerializeEnv) (options : WriteOptions) (map : Option MapId) (src : Option Record) :
    CurlUpload × Status :=
  match generatorInit env map src with
  | .error e => ({ live := true, error := e }, e.code)
  | .ok state =>
    ({ live := true, generator := map.bind fun map => src.map fun src => { map, src, options, state } },
      .ok)

/-- `lonejson_curl_read_callback`; `none` is `CURL_READFUNC_ABORT`. The loop of the generator makes at
most `turns` turns, and that of the reader of a JSON value at most `fuel`. -/
def readCallback (turns fuel : ℕ) (env : SerializeEnv) (size nmemb : ℕ) (ctx : CurlUpload) :
    Option (CurlUpload × Option Bytes) :=
  let capacity := size * nmemb % (sizeMax + 1)
  match ctx.generator with
  | none => some (ctx, none)
  | some g =>
    if capacity = 0 then some (ctx, some [])
    else
      ((Generator.recordProducer fuel env g.options.pretty).read turns capacity g.state).map fun r =>
        ({ ctx with generator := some { g with state := r.state } },
          if r.error.isSome then none else some r.bytes)

/-- `lonejson_curl_upload_is_rewindable`. -/
def isRewindable (env : SerializeEnv) (seeks : Seeks) (ctx : CurlUpload) : Bool :=
  match ctx.generator with
  | none => false
  | some g => ctx.live && mapIsRewindable env.maps seeks g.map g.src

/-- `lonejson_curl_upload_rewind`; `fails` is the message of an allocation that fails. -/
def rewind (env : SerializeEnv) (seeks : Seeks) (fails : Option String) (ctx : CurlUpload) :
    CurlUpload × Status :=
  let refuse (error : ErrorInfo) (code : Status) := ({ ctx with error }, code)
  match ctx.generator with
  | none =>
    refuse (ctx.error.set .invalidArgument "curl upload is inactive or non-rewindable")
      .invalidArgument
  | some g =>
    if !ctx.isRewindable env seeks then
      refuse (ctx.error.set .invalidArgument "curl upload is inactive or non-rewindable")
        .invalidArgument
    else
      match generatorInit env (some g.map) (some g.src), fails with
      | .error e, _ => refuse e e.code
      | .ok _, some message => refuse (ErrorInfo.set {} .allocationFailed message) .allocationFailed
      | .ok state, none => ({ ctx with generator := some { g with state }, error := {} }, .ok)

/-- `lonejson_curl_seek_callback`. -/
def seekCallback (env : SerializeEnv) (seeks : Seeks) (fails : Option String) (offset origin : ℤ)
    (ctx : CurlUpload) : CurlUpload × SeekAnswer :=
  if !ctx.live || ctx.generator.isNone then (ctx, .fail)
  else if origin ≠ seekSet ∨ offset ≠ 0 ∨ !ctx.isRewindable env seeks then (ctx, .cantSeek)
  else
    let r := ctx.rewind env seeks fails
    (r.1, if r.2 = .ok then .ok else .fail)

end CurlUpload

/-! ## Calls -/

/-- What a transfer calls. -/
inductive UploadCall where
  | read (size nmemb : ℕ)
  | check
  | rewind (fails : Option String)
  | seek (offset origin : ℤ) (fails : Option String)

inductive UploadAnswer where
  | bytes (data : Option Bytes)
  | rewindable (value : Bool)
  | status (code : Status)
  | sought (answer : SeekAnswer)
  deriving DecidableEq, Repr

def CurlUpload.call (turns fuel : ℕ) (env : SerializeEnv) (seeks : Seeks) (ctx : CurlUpload) :
    UploadCall → Option (CurlUpload × UploadAnswer)
  | .read size nmemb =>
    (ctx.readCallback turns fuel env size nmemb).map fun x => (x.1, .bytes x.2)
  | .check => some (ctx, .rewindable (ctx.isRewindable env seeks))
  | .rewind fails =>
    let x := ctx.rewind env seeks fails
    some (x.1, .status x.2)
  | .seek offset origin fails =>
    let x := ctx.seekCallback env seeks fails offset origin
    some (x.1, .sought x.2)

/-- Calls one behind another. -/
def CurlUpload.run (turns fuel : ℕ) (env : SerializeEnv) (seeks : Seeks) :
    List UploadCall → CurlUpload → Option (List UploadAnswer)
  | [], _ => some []
  | call :: calls, ctx =>
    (ctx.call turns fuel env seeks call).bind fun x =>
      (CurlUpload.run turns fuel env seeks calls x.1).map (x.2 :: ·)

/-! ## A text with a place in it -/

/-- A text, what is left of it, and whether it can be read again. -/
structure Replay where
  text : Bytes
  left : Bytes
  rewinds : Bool

namespace Replay

/-- The text from its start on, where it can be read again and there is memory for that. -/
def again (r : Replay) (fails : Option String) : Replay :=
  if r.rewinds && fails.isNone then { r with left := r.text } else r

def call (r : Replay) : UploadCall → Replay × UploadAnswer
  | .read size nmemb =>
    let capacity := size * nmemb % (sizeMax + 1)
    ({ r with left := r.left.drop capacity }, .bytes (some (r.left.take capacity)))
  | .check => (r, .rewindable r.rewinds)
  | .rewind fails =>
    (r.again fails, .status
      (if !r.rewinds then .invalidArgument else if fails.isSome then .allocationFailed else .ok))
  | .seek offset origin fails =>
    if origin ≠ seekSet ∨ offset ≠ 0 ∨ !r.rewinds then (r, .sought .cantSeek)
    else (r.again fails, .sought (if fails.isSome then .fail else .ok))

def run : List UploadCall → Replay → List UploadAnswer
  | [], _ => []
  | call :: calls, r => (r.call call).2 :: run calls (r.call call).1

end Replay

/-! ## An upload is such a text -/

section

variable {turns fuel n : ℕ} {env : SerializeEnv} {seeks : Seeks} {map : MapId} {src : Record}
  {options : WriteOptions} {text : Bytes}

/-- The upload of a record that is read up to some place. -/
structure CurlUpload.At (fuel n : ℕ) (env : SerializeEnv) (seeks : Seeks) (map : MapId)
    (src : Record) (options : WriteOptions) (r : Replay) (ctx : CurlUpload) : Prop where
  live : ctx.live = true
  rewinds : r.rewinds = mapIsRewindable env.maps seeks map src
  generator : ∃ state, ctx.generator = some { map, src, options, state } ∧
    (Generator.recordProducer fuel env options.pretty).Prints n state r.left none

/-- From its start the generator of the record prints the text. -/
def CurlUpload.Starts (fuel n : ℕ) (env : SerializeEnv) (map : MapId) (src : Record)
    (options : WriteOptions) (text : Bytes) : Prop :=
  env.layoutIsValid map = true ∧
    (Generator.recordProducer fuel env options.pretty).Prints n (Generator.start map src) text none

open CurlUpload

theorem CurlUpload.At.isRewindable {r : Replay} {ctx : CurlUpload}
    (h : At fuel n env seeks map src options r ctx) : ctx.isRewindable env seeks = r.rewinds := by
  obtain ⟨state, hgenerator, -⟩ := h.generator
  rw [CurlUpload.isRewindable, hgenerator]
  dsimp only
  rw [h.live, h.rewinds, Bool.true_and]

theorem CurlUpload.At.rewind {r : Replay} {ctx : CurlUpload} (fails : Option String)
    (hstart : Starts fuel n env map src options r.text)
    (h : At fuel n env seeks map src options r ctx) :
    At fuel n env seeks map src options (r.again fails) (ctx.rewind env seeks fails).1 ∧
      (ctx.rewind env seeks fails).2 =
        if !r.rewinds then .invalidArgument else if fails.isSome then .allocationFailed else .ok := by
  obtain ⟨state, hgenerator, hprints⟩ := h.generator
  have hinit : generatorInit env (some map) (some src) = .ok (Generator.start map src) :=
    if_pos hstart.1
  rw [CurlUpload.rewind, hgenerator]
  dsimp only
  rw [h.isRewindable, Replay.again]
  cases hrewinds : r.rewinds with
  | false => exact ⟨⟨h.live, h.rewinds, state, rfl, hprints⟩, rfl⟩
  | true =>
      rw [hinit]
      cases fails with
      | some message => exact ⟨⟨h.live, h.rewinds, state, rfl, hprints⟩, rfl⟩
      | none =>
          have hagain := h.rewinds
          rw [hrewinds] at hagain
          exact ⟨⟨h.live, hagain, _, rfl, hstart.2⟩, rfl⟩

/-- A call is answered as from the text. -/
theorem CurlUpload.At.call {r : Replay} {ctx : CurlUpload} (hturns : n < turns)
    (hstart : Starts fuel n env map src options r.text)
    (h : At fuel n env seeks map src options r ctx) (call : UploadCall) : ∃ ctx',
      ctx.call turns fuel env seeks call = some (ctx', (r.call call).2) ∧
        At fuel n env seeks map src options (r.call call).1 ctx' := by
  cases call with
  | read size nmemb =>
      obtain ⟨state, hgenerator, hprints⟩ := h.generator
      rw [CurlUpload.call, readCallback, hgenerator]
      dsimp only
      by_cases hzero : size * nmemb % (sizeMax + 1) = 0
      · rw [if_pos hzero, Replay.call, hzero]
        exact ⟨ctx, rfl, h.live, h.rewinds, state, hgenerator, hprints⟩
      · have hlawful : (Generator.recordProducer fuel env options.pretty).Lawful :=
          Generator.producer_lawful
        obtain ⟨read, hread, hgives⟩ := hprints.read hlawful hturns (Nat.pos_of_ne_zero hzero)
        have hnone : read.error = none := hgives.error.trans (ite_self none)
        rw [if_neg hzero, hread]
        refine ⟨{ ctx with generator := some { map, src, options, state := read.state } }, ?_, h.live,
          h.rewinds, read.state, rfl, hgives.rest hnone⟩
        rw [Option.map_some, Option.map_some, hnone, hgives.bytes]
        rfl
  | check => exact ⟨ctx, by rw [CurlUpload.call, h.isRewindable]; rfl, h⟩
  | rewind fails =>
      obtain ⟨hafter, hstatus⟩ := h.rewind fails hstart
      exact ⟨_, by rw [CurlUpload.call, hstatus]; rfl, hafter⟩
  | seek offset origin fails =>
      obtain ⟨state, hgenerator, -⟩ := h.generator
      obtain ⟨hafter, hstatus⟩ := h.rewind fails hstart
      rw [CurlUpload.call, seekCallback, if_neg (by simp [h.live, hgenerator]), h.isRewindable,
        Replay.call]
      by_cases hrefused : origin ≠ seekSet ∨ offset ≠ 0 ∨ (!r.rewinds) = true
      · rw [if_pos hrefused, if_pos hrefused]
        exact ⟨ctx, rfl, h⟩
      · rw [if_neg hrefused, if_neg hrefused]
        refine ⟨_, ?_, hafter⟩
        dsimp only
        have hrewinds : r.rewinds = true := by
          by_contra hno
          exact hrefused (.inr (.inr (by simpa using hno)))
        rw [hstatus, hrewinds]
        cases fails <;> rfl

theorem CurlUpload.At.run (hturns : n < turns) (calls : List UploadCall) : ∀ {r : Replay}
    {ctx : CurlUpload}, Starts fuel n env map src options r.text →
      At fuel n env seeks map src options r ctx →
      CurlUpload.run turns fuel env seeks calls ctx = some (r.run calls) := by
  induction calls with
  | nil => exact fun _ _ => rfl
  | cons call calls ih =>
      intro r ctx hstart h
      obtain ⟨ctx', hcall, hafter⟩ := h.call hturns hstart call
      have htext : (r.call call).1.text = r.text := by
        cases call with
        | read size nmemb => rfl
        | check => rfl
        | rewind fails =>
            rw [Replay.call, Replay.again]
            split_ifs <;> rfl
        | seek offset origin fails =>
            rw [Replay.call, Replay.again]
            split_ifs <;> rfl
      have hrest := ih (htext ▸ hstart) hafter
      rw [CurlUpload.run, hcall, Option.bind_some, hrest]
      rfl

end

end Lonejson
