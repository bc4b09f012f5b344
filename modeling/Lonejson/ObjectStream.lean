import Lonejson.Polling

/-!
# The object stream

The stream that parses one object after another into mapped destinations, a call at a time. The
parser is given by its operations.
-/

namespace Lonejson

open StateTransition

variable {π : Type}

/-! ## The state -/

/-- `lonejson_stream_source_kind`: what is left of a buffer in memory, or what the reads of a reader,
a file or a descriptor return. -/
inductive ObjectSource where
  | memory (input : Bytes)
  | reader (script : List ReadResult)
  deriving DecidableEq, Repr

/-- `lonejson_stream_result`. -/
inductive ObjectResult where
  | object
  | eof
  | wouldBlock
  | error
  deriving DecidableEq, Repr

/-- The parser of an object stream; a destination is known by its address. -/
structure ObjectParser (π : Type) where
  /-- `lonejson__parser_restart_stream`. -/
  restart : π → ℕ → π
  /-- `options.clear_destination`. -/
  clears : Bool
  /-- `lonejson__reset_map_parse` on the destination. -/
  resetMap : π → ℕ → π
  /-- `lonejson__init_map_parse` on the destination. -/
  initMap : π → ℕ → π
  /-- `lonejson__parser_feed_bytes`, which stops at the root; the number is `*consumed`. -/
  feed : π → Bytes → (π × Status) × ℕ
  /-- `lonejson_parser_finish`. -/
  finish : π → π × Status
  /-- `lonejson__parser_root_complete`. -/
  rootComplete : π → Bool
  rootStarted : π → Bool
  failed : π → Bool
  error : π → StreamError

/-- `lonejson__stream_state`. `taken` is not in the source: the bytes that have been taken from the
input so far, which nothing reads. -/
structure ObjectStream (π : Type) where
  source : ObjectSource
  parser : π
  preparedDst : Option ℕ := none
  currentDst : Option ℕ := none
  objectInProgress : Bool := false
  sawEof : Bool := false
  buffered : Bytes := []
  error : StreamError := {}
  taken : Bytes := []

/-- `lonejson__set_error` with the position `0, 0, 0`. -/
def StreamError.set (error : StreamError) (code : Status) (message : String) : StreamError :=
  { error with
    code, message, pos := { offset := 0, line := 0, column := 0 }
    truncated := error.truncated || code == .truncated }

/-! ## A call -/

section

variable (objects : ObjectParser π)

/-- `lonejson__stream_prepare_parser`. -/
def ObjectStream.prepare (dst : ℕ) (s : ObjectStream π) : ObjectStream π :=
  let parser := objects.restart s.parser dst
  let s := { s with currentDst := some dst, objectInProgress := true }
  if !objects.clears then { s with parser }
  else if s.preparedDst = some dst then { s with parser := objects.resetMap parser dst }
  else { s with parser := objects.initMap parser dst, preparedDst := some dst }

/-- An object is over: the error of the parser is that of the stream. -/
def ObjectStream.over (s : ObjectStream π) : ObjectStream π :=
  { s with objectInProgress := false, currentDst := none, error := objects.error s.parser }

/-- The beginning of `lonejson_stream_next`: it returns at once, or its loop begins. -/
def ObjectStream.begin (dst : ℕ) (s : ObjectStream π) : ObjectStream π × Option ObjectResult :=
  if !s.objectInProgress then
    let s := s.prepare objects dst
    if objects.failed s.parser then (s.over objects, some .error) else (s, none)
  else if s.currentDst ≠ some dst then
    ({ s with
      error := s.error.set .invalidArgument "resume the stream with the same destination" },
      some .error)
  else (s, none)

/-- The root is complete: an error of the parser that says nothing is cleared. -/
def ObjectStream.complete (s : ObjectStream π) : ObjectStream π × Option ObjectResult :=
  let error := objects.error s.parser
  ({ s.over objects with
    error := if error.code = .ok ∧ error.truncated = false then
      { pos := { offset := 0, line := 0, column := 0 } } else error }, some .object)

/-- The end of the input. -/
def ObjectStream.ended (s : ObjectStream π) : ObjectStream π × Option ObjectResult :=
  let s := { s with sawEof := true }
  if !objects.rootStarted s.parser then (s, some .eof)
  else (ObjectStream.over objects { s with parser := (objects.finish s.parser).1 }, some .error)

/-- The bytes that come next are fed to the parser, and before the root the white space is left out.
The number is that of the bytes used up. -/
def ObjectStream.feedNext (s : ObjectStream π) (input : Bytes) :
    (ObjectStream π × Option ObjectResult) × ℕ :=
  let started := objects.rootStarted s.parser
  let skipped := if started then 0 else (input.takeWhile isJsonSpace).length
  let rest := input.drop skipped
  if !started && rest = [] then ((s, none), skipped)
  else if !started && rest.head? ≠ some 0x7b then
    (({ s with error := s.error.set .invalidJson "expected top-level object" }, some .error), skipped)
  else
    let r := objects.feed s.parser rest
    let s := { s with parser := r.1.1 }
    if !r.1.2.soft then ((s.over objects, some .error), skipped + r.2)
    else if objects.rootComplete s.parser then (s.complete objects, skipped + r.2)
    else ((s, none), skipped + r.2)

/-- Bytes of the buffer are fed to the parser. -/
def ObjectStream.feedBuffered (s : ObjectStream π) : ObjectStream π × Option ObjectResult :=
  let r := s.feedNext objects s.buffered
  ({ r.1.1 with
    buffered := s.buffered.drop r.2, taken := s.taken ++ s.buffered.take r.2 }, r.1.2)

/-- What comes behind the reads of a refill. -/
def ObjectStream.refilled (s : ObjectStream π) : Refill → ObjectStream π × Option ObjectResult
  | .failed errno =>
    ({ s with error := StreamError.set { s.error with errno } .ioError "stream read failed" },
      some .error)
  | .blocked => (s, some .wouldBlock)
  | .ended => s.ended objects
  | .bytes chunk => ({ s with buffered := chunk }, none)

/-- One turn of the loop of `lonejson_stream_next`. -/
def ObjectStream.turn (s : ObjectStream π) : ObjectStream π × Option ObjectResult :=
  if objects.rootComplete s.parser then s.complete objects
  else
    match s.source with
    | .memory [] => s.ended objects
    | .memory input =>
      let r := s.feedNext objects input
      ({ r.1.1 with
        source := .memory (input.drop r.2), taken := s.taken ++ input.take r.2 }, r.1.2)
    | .reader script =>
      if s.buffered = [] then
        ObjectStream.refilled objects { s with source := .reader (readScript script).2 }
          (readScript script).1
      else s.feedBuffered objects

end

/-! ## Sessions -/

/-- A stream that is called until the end, and the parsers with the objects it has delivered. -/
structure ObjectSession (π : Type) where
  stream : ObjectStream π
  objects : List π := []
  result : Option ObjectResult := none

section

variable (parser : ObjectParser π) (dsts : ℕ → ℕ)

/-- The next call. The destination of a call is that of the object it is for. -/
def ObjectSession.again (s : ObjectSession π) : ObjectSession π :=
  let r := s.stream.begin parser (dsts s.objects.length)
  { s with stream := r.1, result := r.2 }

/-- What comes behind a turn. -/
def ObjectSession.turned (objects : List π) (r : ObjectStream π × Option ObjectResult) :
    ObjectSession π :=
  match r with
  | (stream, none) => ⟨stream, objects, none⟩
  | (stream, some .wouldBlock) => ObjectSession.again parser dsts ⟨stream, objects, none⟩
  | (stream, some .object) =>
    ObjectSession.again parser dsts ⟨stream, objects ++ [stream.parser], none⟩
  | (stream, some result) => ⟨stream, objects, some result⟩

/-- A turn of the call that is running. -/
def ObjectSession.step (s : ObjectSession π) : Option (ObjectSession π) :=
  match s.result with
  | some _ => none
  | none => some (ObjectSession.turned parser dsts s.objects (s.stream.turn parser))

/-- A stream that has been opened, when the first call begins. -/
def ObjectSession.opened (script : List ReadResult) (p : π) : ObjectSession π :=
  ObjectSession.again parser dsts { stream := { source := .reader script, parser := p } }

end

/-! ## Polling -/

def ObjectStream.withScript (script : List ReadResult) (s : ObjectStream π) : ObjectStream π :=
  { s with source := .reader script }

/-- The bytes that a stream has got. -/
def ObjectStream.held (s : ObjectStream π) : Bytes := s.taken ++ s.buffered

def ObjectSession.withScript (script : List ReadResult) (s : ObjectSession π) : ObjectSession π :=
  { s with stream := s.stream.withScript script }

def ObjectSession.script (s : ObjectSession π) : List ReadResult :=
  match s.stream.source with
  | .reader script => script
  | .memory _ => []

section

variable {parser : ObjectParser π} {dsts : ℕ → ℕ} {s : ObjectStream π}

theorem over_withScript (script : List ReadResult) :
    (s.withScript script).over parser = (s.over parser).withScript script := rfl

theorem complete_withScript (script : List ReadResult) : (s.withScript script).complete parser =
    ((s.complete parser).1.withScript script, (s.complete parser).2) := rfl

theorem ended_withScript (script : List ReadResult) : (s.withScript script).ended parser =
    ((s.ended parser).1.withScript script, (s.ended parser).2) := by
  have hparser : (s.withScript script).parser = s.parser := rfl
  rw [ObjectStream.ended, ObjectStream.ended]
  dsimp only
  rw [hparser]
  split_ifs <;> rfl

theorem feedNext_withScript (script : List ReadResult) (input : Bytes) :
    (s.withScript script).feedNext parser input =
      (((s.feedNext parser input).1.1.withScript script, (s.feedNext parser input).1.2),
        (s.feedNext parser input).2) := by
  have hparser : (s.withScript script).parser = s.parser := rfl
  rw [ObjectStream.feedNext, ObjectStream.feedNext]
  dsimp only
  rw [hparser]
  split_ifs <;> rfl

theorem begin_withScript (script : List ReadResult) (dst : ℕ) :
    (s.withScript script).begin parser dst =
      ((s.begin parser dst).1.withScript script, (s.begin parser dst).2) := by
  have hprepare : (s.withScript script).prepare parser dst =
      (s.prepare parser dst).withScript script := by
    have hdst : (s.withScript script).preparedDst = s.preparedDst := rfl
    rw [ObjectStream.prepare, ObjectStream.prepare]
    dsimp only
    rw [hdst]
    split_ifs <;> rfl
  have hprogress : (s.withScript script).objectInProgress = s.objectInProgress := rfl
  have hdst : (s.withScript script).currentDst = s.currentDst := rfl
  have hparser : ((s.prepare parser dst).withScript script).parser =
    (s.prepare parser dst).parser := rfl
  rw [ObjectStream.begin, ObjectStream.begin, hprogress, hdst, hprepare]
  dsimp only
  rw [hparser]
  split_ifs <;> rfl

theorem turn_withScript (script : List ReadResult) : (s.withScript script).turn parser =
    if parser.rootComplete s.parser then (s.withScript script).complete parser
    else if s.buffered = [] then
      ObjectStream.refilled parser (s.withScript (readScript script).2) (readScript script).1
    else (s.withScript script).feedBuffered parser := rfl

theorem feedBuffered_withScript (script : List ReadResult) : (s.withScript script).feedBuffered parser =
    ((s.feedBuffered parser).1.withScript script, (s.feedBuffered parser).2) := by
  have hbuffered : (s.withScript script).buffered = s.buffered := rfl
  rw [ObjectStream.feedBuffered, ObjectStream.feedBuffered, hbuffered, feedNext_withScript]
  rfl

theorem feedBuffered_held : (s.feedBuffered parser).1.held = s.held := by
  rw [ObjectStream.held, ObjectStream.held, ObjectStream.feedBuffered]
  dsimp only
  rw [List.append_assoc, List.take_append_drop]

theorem objectTurned_withScript (objects : List π) (r : ObjectStream π × Option ObjectResult)
    (script : List ReadResult) :
    ObjectSession.turned parser dsts objects (r.1.withScript script, r.2) =
      (ObjectSession.turned parser dsts objects r).withScript script := by
  have hagain : ∀ s : ObjectSession π, (s.withScript script).again parser dsts =
      (s.again parser dsts).withScript script := by
    intro s
    have hbegin := @begin_withScript _ parser s.stream script
      (dsts s.objects.length)
    exact congrArg (fun r : ObjectStream π × Option ObjectResult =>
      { s with stream := r.1, result := r.2 }) hbegin
  obtain ⟨stream, result⟩ := r
  cases result with
  | none => rfl
  | some result =>
      cases result with
      | object => exact hagain ⟨stream, objects ++ [stream.parser], none⟩
      | eof => rfl
      | wouldBlock => exact hagain ⟨stream, objects, none⟩
      | error => rfl

theorem begin_held (dst : ℕ) : (s.begin parser dst).1.held = s.held := by
  rw [ObjectStream.begin]
  dsimp only
  rw [ObjectStream.prepare]
  dsimp only
  split_ifs <;> rfl

theorem objectTurned_held (objects : List π) (r : ObjectStream π × Option ObjectResult) :
    (ObjectSession.turned parser dsts objects r).stream.held = r.1.held := by
  obtain ⟨stream, result⟩ := r
  cases result with
  | none => rfl
  | some result =>
      cases result with
      | object => exact begin_held _
      | eof => rfl
      | wouldBlock => exact begin_held _
      | error => rfl

/-- A call that is running, for this destination. -/
def ObjectStream.Going (dst : ℕ) (s : ObjectStream π) : Prop :=
  s.objectInProgress = true ∧ s.currentDst = some dst

def ObjectSession.Good (dsts : ℕ → ℕ) (s : ObjectSession π) : Prop :=
  s.result = none → s.stream.Going (dsts s.objects.length)

theorem begin_going {dst : ℕ} (h : (s.begin parser dst).2 = none) :
    (s.begin parser dst).1.Going dst := by
  have hprepared : (s.prepare parser dst).Going dst := by
    rw [ObjectStream.prepare]
    dsimp only
    split_ifs <;> exact ⟨rfl, rfl⟩
  rw [ObjectStream.begin] at h ⊢
  dsimp only at h ⊢
  split_ifs at h ⊢ with hidle hfailed hdst
  · exact hprepared
  · rw [Bool.not_eq_true', Bool.not_eq_false] at hidle
    exact ⟨hidle, not_not.mp hdst⟩

theorem begin_again {dst : ℕ} (h : s.Going dst) : s.begin parser dst = (s, none) := by
  rw [ObjectStream.begin, if_neg (by rw [h.1]; exact nofun), if_neg (not_not.mpr h.2)]

theorem objectTurned_good {objects : List π} {r : ObjectStream π × Option ObjectResult}
    (h : r.2 = none → r.1.Going (dsts objects.length)) :
    (ObjectSession.turned parser dsts objects r).Good dsts := by
  obtain ⟨stream, result⟩ := r
  cases result with
  | none => exact h
  | some result =>
      cases result with
      | object => exact fun hnone => begin_going hnone
      | eof => exact nofun
      | wouldBlock => exact fun hnone => begin_going hnone
      | error => exact nofun

theorem feedBuffered_going {dst : ℕ} (h : s.Going dst) (hnone : (s.feedBuffered parser).2 = none) :
    (s.feedBuffered parser).1.Going dst := by
  have hnext : ∀ input, (s.feedNext parser input).1.2 = none →
      (s.feedNext parser input).1.1.Going dst := by
    intro input hnone
    rw [ObjectStream.feedNext] at hnone ⊢
    dsimp only at hnone ⊢
    generalize (if parser.rootStarted s.parser then 0 else (input.takeWhile isJsonSpace).length) = n
      at hnone ⊢
    split_ifs at hnone ⊢
    · exact h
    · cases hnone
    · exact h
  exact hnext s.buffered hnone

end

theorem objectSession_polls (parser : ObjectParser π) (dsts : ℕ → ℕ) (s : ObjectSession π) :
    Polls (ObjectSession.step parser dsts) ObjectSession.withScript (fun s => s.stream.held)
      (ObjectSession.Good dsts) s := by
  cases hresult : s.result with
  | some result =>
      refine .halts fun script => ?_
      have hsome : (s.withScript script).result = some result := hresult
      rw [ObjectSession.step, hsome]
  | none =>
      have hstep : ∀ script, ObjectSession.step parser dsts (s.withScript script) =
          some (ObjectSession.turned parser dsts s.objects
            ((s.stream.withScript script).turn parser)) := by
        intro script
        have hnone : (s.withScript script).result = none := hresult
        rw [ObjectSession.step, hnone]
        rfl
      -- a turn that reads nothing
      have hstill : ∀ r : ObjectStream π × Option ObjectResult, r.1.held = s.stream.held →
          (s.stream.Going (dsts s.objects.length) → r.2 = none →
            r.1.Going (dsts s.objects.length)) →
          (∀ script, (s.stream.withScript script).turn parser = (r.1.withScript script, r.2)) →
          Polls (ObjectSession.step parser dsts) ObjectSession.withScript (fun s => s.stream.held)
            (ObjectSession.Good dsts) s := by
        intro r hheld hgoing hnext
        refine .still (ObjectSession.turned parser dsts s.objects r)
          (fun hgood => objectTurned_good (hgoing (hgood hresult))) ?_ fun script => ?_
        · exact (objectTurned_held s.objects r).trans hheld
        · rw [hstep, hnext, objectTurned_withScript]
      by_cases hroot : parser.rootComplete s.stream.parser = true
      · refine hstill (s.stream.complete parser) rfl (fun _ => nofun) fun script => ?_
        rw [turn_withScript, if_pos hroot]
        rfl
      by_cases hbuffered : s.stream.buffered = []
      · have hturn : ∀ script, (s.stream.withScript script).turn parser =
            ((s.stream.refilled parser (readScript script).1).1.withScript (readScript script).2,
              (s.stream.refilled parser (readScript script).1).2) := by
          intro script
          rw [turn_withScript, if_neg hroot, if_pos hbuffered]
          generalize (readScript script).2 = rest
          cases (readScript script).1 with
          | failed errno => rfl
          | blocked => rfl
          | ended => exact ended_withScript rest
          | bytes chunk => rfl
        refine .reads (fun r => ObjectSession.turned parser dsts s.objects (s.stream.refilled parser r))
          (fun hgood r => objectTurned_good fun hnone => ?_) (fun r => ?_) (fun script => ?_)
          fun hgood script => ?_
        · have hgoing := hgood hresult
          cases r with
          | failed errno => cases hnone
          | blocked => cases hnone
          | ended =>
              rw [ObjectStream.refilled, ObjectStream.ended] at hnone
              dsimp only at hnone
              split_ifs at hnone
          | bytes chunk => exact hgoing
        · refine (objectTurned_held s.objects _).trans ?_
          have hheld : s.stream.held = s.stream.taken := by
            rw [ObjectStream.held, hbuffered, List.append_nil]
          cases r with
          | failed errno => exact (List.append_nil _).symm
          | blocked => exact (List.append_nil _).symm
          | ended =>
              rw [ObjectStream.refilled, ObjectStream.ended]
              dsimp only
              split_ifs <;> exact (List.append_nil _).symm
          | bytes chunk =>
              rw [hheld]
              rfl
        · rw [hstep, hturn, objectTurned_withScript]
        · have hagain : ObjectSession.turned parser dsts s.objects (s.stream.refilled parser .blocked) =
              s := by
            have hbegin := @begin_again _ parser _ _ (hgood hresult)
            change ({ (⟨s.stream, s.objects, none⟩ : ObjectSession π) with
              stream := (s.stream.begin parser (dsts s.objects.length)).1
              result := (s.stream.begin parser (dsts s.objects.length)).2 } : ObjectSession π) = s
            rw [hbegin, ← hresult]
          rw [hagain]
      · refine hstill (s.stream.feedBuffered parser) feedBuffered_held
          (fun hgoing => feedBuffered_going hgoing) fun script => ?_
        rw [turn_withScript, if_neg hroot, if_neg hbuffered]
        exact feedBuffered_withScript script

/-- The sessions of an object stream, as a machine that polls a reader. -/
def objectPoller (parser : ObjectParser π) (dsts : ℕ → ℕ) : Poller (ObjectSession π) where
  step := ObjectSession.step parser dsts
  script := ObjectSession.script
  load := ObjectSession.withScript
  held s := s.stream.held
  good := ObjectSession.Good dsts
  script_load _ _ := rfl
  load_load _ _ _ := rfl
  held_load _ _ := rfl
  good_load _ _ := Iff.rfl
  polls := objectSession_polls parser dsts

end Lonejson
