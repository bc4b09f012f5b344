import Lonejson.Writer

/-!
# What a writer has written

The calls of a writer into a sink that accepts everything, seen from outside: the text that
has been written, the frames, and whether a string or a number is open. From these the text
of a whole tree follows.
-/

namespace Lonejson

open Json (Text Tree commaUnless quoted)

variable {σ γ : Type}

/-- A sink that accepts everything, in a world where memory does not run out; `told` are the
bytes that it was passed. -/
structure WriterEnv.Sinks (env : WriterEnv σ γ) (push : σ → Bytes → σ) (told : σ → Bytes) :
    Prop where
  sink : ∀ out data error, env.sink out data error = (push out data, error, .ok)
  told : ∀ out data, told (push out data) = told out ++ data
  blocked : ∀ out, env.blocked out = false
  available : ∀ out, env.available out = none
  canGrow : ∀ out n, env.canGrow out n = true

/-- What a writer is in the middle of. -/
inductive WriterMode where
  | idle
  | inString
  | inNumber (digits : Bytes)
  deriving DecidableEq, Repr

/-- The outside of a writer. -/
structure WriterView where
  out : Bytes
  frames : List WriterFrame
  root : Bool
  mode : WriterMode
  maxNumberBytes : ℕ

/-- The outside of a writer that has not failed. -/
structure Writer.Shows (told : σ → Bytes) (w : Writer σ γ) (v : WriterView) : Prop where
  out : told w.out = v.out
  frames : w.frames = v.frames
  root : w.rootWritten = v.root
  finished : w.finished = false
  stringOpen : w.stringOpen = (v.mode = .inString : Bool)
  numberOpen : w.numberOpen = (match v.mode with | .inNumber _ => true | _ => false)
  number : ∀ digits, v.mode = .inNumber digits → w.number = digits
  failed : w.failed = false
  stream : w.valueStreamActive = false
  limit : w.maxNumberBytes = v.maxNumberBytes

/-- A step that succeeds and leads from one view and event to another. -/
def Steps (told : σ → Bytes) (step : Writer σ γ → Writer σ γ × Status) (v : WriterView)
    (ev : WriterEvent γ) (v' : WriterView) (ev' : WriterEvent γ) : Prop :=
  ∀ w, w.Shows told v → w.event = ev →
    ∃ w', step w = (w', .ok) ∧ w'.Shows told v' ∧ w'.event = ev'

/-- A call that succeeds and leads from one view to another, with no event pending before
and none behind it. -/
def Does (told : σ → Bytes) (call : Writer σ γ → Writer σ γ × Status) (v v' : WriterView) : Prop :=
  ∀ ev : WriterEvent γ, ev.kind = .none →
    ∃ ev' : WriterEvent γ, ev'.kind = .none ∧ Steps told call v ev v' ev'

section

variable {told : σ → Bytes} {v v' v'' : WriterView} {ev ev' ev'' : WriterEvent γ}
  {step step' : Writer σ γ → Writer σ γ × Status}

theorem Steps.andThen (h : Steps told step v ev v' ev') (h' : Steps told step' v' ev' v'' ev'') :
    Steps told (fun w => andThenOk (step w) step') v ev v'' ev'' := by
  intro w hw hev
  obtain ⟨w', hstep, hw', hev'⟩ := h w hw hev
  obtain ⟨w'', hstep', hw'', hev''⟩ := h' w' hw' hev'
  refine ⟨w'', ?_, hw'', hev''⟩
  dsimp only
  rw [hstep, andThenOk_ok, hstep']

theorem Does.andThen (h : Does told step v v') (h' : Does told step' v' v'') :
    Does told (fun w => andThenOk (step w) step') v v'' := by
  intro ev hev
  obtain ⟨ev', hev', hstep⟩ := h ev hev
  obtain ⟨ev'', hev'', hstep'⟩ := h' ev' hev'
  exact ⟨ev'', hev'', hstep.andThen hstep'⟩

/-- A writer between two calls. -/
def Writer.Ready (told : σ → Bytes) (w : Writer σ γ) (v : WriterView) : Prop :=
  w.Shows told v ∧ w.event.kind = .none

theorem Does.ready (h : Does told step v v') {w : Writer σ γ} (hw : w.Ready told v) :
    ∃ w', step w = (w', .ok) ∧ w'.Ready told v' := by
  obtain ⟨ev', hev', hstep⟩ := h w.event hw.2
  obtain ⟨w', hcall, hw', hevent⟩ := hstep w hw.1 rfl
  exact ⟨w', hcall, hw', by rw [hevent, hev']⟩

/-- A step that leaves the event alone is a call. -/
theorem Steps.does (h : ∀ ev, Steps told step v ev v' ev) : Does told step v v' :=
  fun ev hev => ⟨ev, hev, h ev⟩

end

/-! ## Views -/

/-- The frames when a value comes: the separator in front of it, and the frames behind it. -/
def WriterView.place (v : WriterView) : Option WriterView :=
  match v.frames with
  | [] => if v.root then none else some { v with root := true }
  | ⟨.array, count, key⟩ :: rest =>
    some { v with
      out := v.out ++ commaUnless (count = 0)
      frames := ⟨.array, count + 1, key⟩ :: rest }
  | ⟨.object, _, false⟩ :: _ => none
  | ⟨.object, count, true⟩ :: rest => some { v with frames := ⟨.object, count + 1, false⟩ :: rest }

def WriterView.add (v : WriterView) (text : Bytes) : WriterView := { v with out := v.out ++ text }

@[simp] theorem WriterView.add_frames (v : WriterView) (text : Bytes) :
    (v.add text).frames = v.frames := rfl

@[simp] theorem WriterView.add_root (v : WriterView) (text : Bytes) :
    (v.add text).root = v.root := rfl

@[simp] theorem WriterView.add_mode (v : WriterView) (text : Bytes) :
    (v.add text).mode = v.mode := rfl

@[simp] theorem WriterView.add_limit (v : WriterView) (text : Bytes) :
    (v.add text).maxNumberBytes = v.maxNumberBytes := rfl

@[simp] theorem WriterView.add_nil (v : WriterView) : v.add [] = v := by
  simp [WriterView.add]

@[simp] theorem WriterView.add_add (v : WriterView) (text text' : Bytes) :
    (v.add text).add text' = v.add (text ++ text') := by
  simp [WriterView.add]

/-- The view inside a string or a number, or behind it. -/
def WriterView.enter (v : WriterView) (mode : WriterMode) : WriterView := { v with mode }

/-- The view inside a new container, or behind the last one. -/
def WriterView.withFrames (v : WriterView) (frames : List WriterFrame) : WriterView :=
  { v with frames }

theorem WriterView.place_mode {v v' : WriterView} (h : v.place = some v') : v'.mode = v.mode := by
  unfold WriterView.place at h
  split at h
  · split at h
    · cases h
    · cases h; rfl
  · cases h; rfl
  · cases h
  · cases h; rfl

theorem WriterView.place_limit {v v' : WriterView} (h : v.place = some v') :
    v'.maxNumberBytes = v.maxNumberBytes := by
  unfold WriterView.place at h
  split at h
  · split at h
    · cases h
    · cases h; rfl
  · cases h; rfl
  · cases h
  · cases h; rfl

/-- The view behind a member or an item with a text, or behind the text of the root. -/
def WriterView.child (v : WriterView) (key text : Bytes) : WriterView :=
  match v.frames with
  | [] => { v with out := v.out ++ text, root := true }
  | ⟨.array, count, afterKey⟩ :: rest =>
    { v with
      out := v.out ++ (commaUnless (count = 0) ++ text)
      frames := ⟨.array, count + 1, afterKey⟩ :: rest }
  | ⟨.object, count, _⟩ :: rest =>
    { v with
      out := v.out ++ (commaUnless (count = 0) ++ (quoted escapeText key ++ 0x3a :: text))
      frames := ⟨.object, count + 1, false⟩ :: rest }

/-! ## Steps -/

/-- The bytes of an event, pushed one by one. -/
def pushEach (push : σ → Bytes → σ) (piece : Byte → Bytes) (data : Bytes) (out : σ) : σ :=
  data.foldl (fun out b => push out (piece b)) out

theorem writtenByte_ne (b : Byte) : writtenByte b ≠ [] := by
  rw [writtenByte]
  split
  · simp
  · unfold escapeByte
    split_ifs <;> simp

section

variable {env : WriterEnv σ γ} {push : σ → Bytes → σ} {told : σ → Bytes} {v v' : WriterView}
  {ev : WriterEvent γ}

theorem emit_eq (hs : env.Sinks push told) (w : Writer σ γ) {data : Bytes} (hdata : data ≠ []) :
    w.emit env data = ({ w with out := push w.out data }, .ok) := by
  rw [Writer.emit, if_neg hdata, hs.sink]
  rfl

theorem unblocked_eq (hs : env.Sinks push told) (w : Writer σ γ) :
    w.unblocked env = (w, .ok) := by
  rw [Writer.unblocked, hs.blocked, if_neg (by simp)]

theorem told_pushEach (hs : env.Sinks push told) (piece : Byte → Bytes) (data : Bytes) (out : σ) :
    told (pushEach push piece data out) = told out ++ data.flatMap piece := by
  induction data generalizing out with
  | nil => simp [pushEach]
  | cons b data ih =>
      have h := ih (push out (piece b))
      rw [hs.told, List.append_assoc] at h
      exact h

theorem emitEach_eq (hs : env.Sinks push told) {piece : Byte → Bytes} (hpiece : ∀ b, piece b ≠ [])
    (data : Bytes) (w : Writer σ γ) :
    Writer.emitEach env piece data w =
      ({ w with out := pushEach push piece data w.out
                event := { w.event with off := w.event.off + data.length } }, .ok) := by
  induction data generalizing w with
  | nil => rfl
  | cons b data ih =>
      rw [Writer.emitEach, unblocked_eq hs, andThenOk_ok, emit_eq hs w (hpiece b), andThenOk_ok, ih]
      simp [pushEach, Nat.add_assoc, Nat.add_comm 1]

theorem steps_emit (hs : env.Sinks push told) {data : Bytes} (hdata : data ≠ []) :
    Steps told (fun w => w.emit env data) v ev (v.add data) ev := by
  intro w hw hev
  refine ⟨{ w with out := push w.out data }, emit_eq hs w hdata, ?_, hev⟩
  exact { hw with out := by simp [hs.told, hw.out, WriterView.add] }

theorem steps_emitEach (hs : env.Sinks push told) {piece : Byte → Bytes}
    (hpiece : ∀ b, piece b ≠ []) (data : Bytes) :
    Steps told (Writer.emitEach env piece data) v ev (v.add (data.flatMap piece))
      { ev with off := ev.off + data.length } := by
  intro w hw hev
  refine ⟨_, emitEach_eq hs hpiece data w, ?_, by rw [hev]⟩
  exact { hw with out := by simp [told_pushEach hs, hw.out, WriterView.add] }

/-- The bytes of an event that has just begun. -/
theorem steps_emitFrom (hs : env.Sinks push told) {piece : Byte → Bytes}
    (hpiece : ∀ b, piece b ≠ []) (data : Bytes) (hoff : ev.off = 0) :
    Steps told (fun w => Writer.emitEach env piece (data.drop w.event.off) w) v ev
      (v.add (data.flatMap piece)) { ev with off := data.length } := by
  intro w hw hev
  dsimp only
  have h := steps_emitEach hs hpiece data (v := v) w hw hev
  rw [hoff, Nat.zero_add] at h
  rw [hev, hoff, List.drop_zero]
  exact h

theorem steps_setPhase (phase : ℕ) :
    Steps (σ := σ) told (fun w => (w.setPhase phase, .ok)) v ev v { ev with phase } := by
  intro w hw hev
  exact ⟨_, rfl, { hw with }, by rw [Writer.setPhase, hev]⟩

theorem steps_clearEvent :
    Steps (σ := σ) told (fun w => (w.clearEvent, .ok)) v ev v { buffer := ev.buffer } := by
  intro w hw hev
  exact ⟨_, rfl, { hw with }, by rw [Writer.clearEvent, hev]⟩

/-- A check that lets every writer of this view pass. -/
theorem steps_check {test : Writer σ γ → Writer σ γ × Status}
    (h : ∀ w : Writer σ γ, w.Shows told v → w.event = ev → test w = (w, .ok)) :
    Steps told test v ev v ev := by
  intro w hw hev
  exact ⟨w, h w hw hev, hw, hev⟩

theorem steps_checkFailed : Steps (σ := σ) told Writer.checkFailed v ev v ev := by
  refine steps_check fun w hw _ => ?_
  rw [Writer.checkFailed, Writer.check, hw.failed, if_neg (by simp)]

theorem steps_checkStream : Steps (σ := σ) told Writer.checkStream v ev v ev := by
  refine steps_check fun w hw _ => ?_
  rw [Writer.checkStream, Writer.check, hw.stream, if_neg (by simp)]

theorem steps_checkString (hmode : v.mode ≠ .inString) :
    Steps (σ := σ) told Writer.checkString v ev v ev := by
  refine steps_check fun w hw _ => ?_
  rw [Writer.checkString, Writer.check, hw.stringOpen, if_neg (by simpa using hmode)]

theorem steps_checkNumber (hmode : v.mode = .idle ∨ v.mode = .inString) :
    Steps (σ := σ) told Writer.checkNumber v ev v ev := by
  refine steps_check fun w hw _ => ?_
  rw [Writer.checkNumber, Writer.check, hw.numberOpen]
  rcases hmode with hmode | hmode <;> rw [hmode] <;> simp

theorem steps_unblocked (hs : env.Sinks push told) :
    Steps told (fun w => w.unblocked env) v ev v ev :=
  steps_check fun w _ _ => unblocked_eq hs w

theorem steps_inPhase {phase : ℕ} {step : Writer σ γ → Writer σ γ × Status} {ev' : WriterEvent γ}
    (hphase : ev.phase = phase) (h : Steps told step v ev v' ev') :
    Steps told (fun w => w.inPhase phase step) v ev v' ev' := by
  intro w hw hev
  dsimp only
  rw [Writer.inPhase, hev, if_pos hphase]
  exact h w hw hev

theorem steps_emitPhase (hs : env.Sinks push told) {text : Bytes} (htext : text ≠ []) (next : ℕ) :
    Steps told (Writer.emitPhase env text next) v ev (v.add text) { ev with phase := next } :=
  (steps_unblocked hs).andThen ((steps_emit hs htext).andThen (steps_setPhase next))

theorem steps_beginEvent (hmode : v.mode = .idle ∨ v.mode = .inString) (hev : ev.kind = .none)
    (kind : WriterEventKind) (address : Address) (len : ℕ) :
    Steps (σ := σ) told (fun w => w.beginEvent kind address len) v ev v
      { kind, address, len, buffer := ev.buffer, child := ev.child } := by
  have hchecks : Steps (σ := σ) told Writer.requireAvailable v ev v ev :=
    steps_checkFailed.andThen (steps_checkStream.andThen (steps_checkNumber hmode))
  refine hchecks.andThen ?_
  intro w hw hwev
  refine ⟨_, if_neg (by simp [hwev, hev]), { hw with }, ?_⟩
  rw [hwev]

/-! ## Values in their place -/

theorem steps_placeValue (hs : env.Sinks push told) (hplace : v.place = some v') :
    Steps told (Writer.placeValue env) v ev v' ev := by
  intro w hw hev
  rw [Writer.placeValue, hw.frames]
  unfold WriterView.place at hplace
  split at hplace
  · next hframes =>
    split at hplace
    · cases hplace
    · next hroot =>
      obtain rfl := Option.some.inj hplace
      have hroot' : w.rootWritten = false := by simpa [hroot] using hw.root
      refine ⟨{ w with rootWritten := true }, by simp [hframes, hw.frames, hroot'], ?_, hev⟩
      exact { hw with root := rfl }
  · next count key rest hframes =>
    obtain rfl := Option.some.inj hplace
    by_cases hcount : count = 0
    · refine ⟨{ w with frames := ⟨.array, 1, key⟩ :: rest }, by simp [hframes, hcount], ?_, hev⟩
      exact { hw with frames := by simp [hcount], out := by simp [hw.out, hcount] }
    · refine ⟨{ w with out := push w.out [0x2c], frames := ⟨.array, count + 1, key⟩ :: rest },
        by simp [hframes, hcount, emit_eq hs w], ?_, hev⟩
      exact { hw with frames := rfl, out := by simp [hs.told, hw.out, hcount] }
  · cases hplace
  · next count rest hframes =>
    obtain rfl := Option.some.inj hplace
    refine ⟨{ w with frames := ⟨.object, count + 1, false⟩ :: rest }, by simp [hframes], ?_, hev⟩
    exact { hw with frames := rfl }

theorem steps_beforeValue (hs : env.Sinks push told) (hidle : v.mode = .idle)
    (hplace : v.place = some v') : Steps told (Writer.beforeValue env) v ev v' ev := by
  have hfinished : Steps (σ := σ) told
      (fun w => w.check w.finished "writer is already finished" .invalidArgument) v ev v ev := by
    refine steps_check fun w hw _ => ?_
    rw [hw.finished, Writer.check, if_neg (by simp)]
  exact steps_checkFailed.andThen <| steps_checkStream.andThen <|
    (steps_checkString (by simp [hidle])).andThen <| (steps_checkNumber (.inl hidle)).andThen <|
    hfinished.andThen <| (steps_unblocked hs).andThen (steps_placeValue hs hplace)

/-! ## Calls -/

/-- The view inside a container that has just been opened. -/
def WriterView.opened (v : WriterView) (kind : ContainerKind) (mark : Byte) : WriterView :=
  (v.add [mark]).withFrames ({ kind } :: v.frames)

theorem does_beginContainer (hs : env.Sinks push told) (hidle : v.mode = .idle)
    (hplace : v.place = some v') (kind : ContainerKind) (mark : Byte) :
    Does told (Writer.beginContainer env kind mark) v (v'.opened kind mark) := by
  refine Steps.does fun ev => ?_
  refine (steps_beforeValue hs hidle hplace).andThen ((steps_emit hs (by simp)).andThen ?_)
  intro w hw hev
  refine ⟨{ w with frames := { kind } :: w.frames }, ?_, ?_, hev⟩
  · dsimp only
    rw [Writer.pushFrame, hs.canGrow, if_pos rfl]
  · exact { hw with frames := by simp [hw.frames, WriterView.opened, WriterView.withFrames] }

theorem steps_checkClosing (hidle : v.mode = .idle) :
    Steps (σ := σ) told Writer.checkClosing v ev v ev :=
  steps_checkFailed.andThen <| steps_checkStream.andThen <|
    (steps_checkString (by simp [hidle])).andThen (steps_checkNumber (.inl hidle))

/-- The last step of the two calls that close a container. -/
theorem steps_close (hs : env.Sinks push told) {frame : WriterFrame} {rest : List WriterFrame}
    (hframes : v.frames = frame :: rest) (mark : Byte) :
    Steps told
      (fun w => andThenOk (w.emit env [mark]) fun w => ({ w with frames := w.frames.tail }, .ok))
      v ev ((v.add [mark]).withFrames rest) ev := by
  refine (steps_emit hs (by simp)).andThen ?_
  intro w hw hev
  refine ⟨_, rfl, ?_, hev⟩
  exact { hw with frames := by simp [hw.frames, hframes, WriterView.withFrames] }

theorem does_endObject (hs : env.Sinks push told) (hidle : v.mode = .idle) {count : ℕ}
    {rest : List WriterFrame} (hframes : v.frames = ⟨.object, count, false⟩ :: rest) :
    Does told (Writer.endObject env) v ((v.add [0x7d]).withFrames rest) := by
  refine Steps.does fun ev => (steps_checkClosing hidle).andThen ?_
  intro w hw hev
  obtain ⟨w', hstep, hw', hev'⟩ := steps_close hs hframes 0x7d w hw hev
  refine ⟨w', ?_, hw', hev'⟩
  have hemit := emit_eq hs w (show [0x7d] ≠ [] by simp)
  have hw'frames : w.frames = ⟨.object, count, false⟩ :: rest := hw.frames.trans hframes
  simp only [hemit, andThenOk_ok, hw'frames, List.tail_cons] at hstep
  simp only [hw'frames, hemit, andThenOk_ok, Bool.false_eq_true, if_false]
  exact hstep

theorem does_endArray (hs : env.Sinks push told) (hidle : v.mode = .idle) {count : ℕ} {key : Bool}
    {rest : List WriterFrame} (hframes : v.frames = ⟨.array, count, key⟩ :: rest) :
    Does told (Writer.endArray env) v ((v.add [0x5d]).withFrames rest) := by
  refine Steps.does fun ev => (steps_checkClosing hidle).andThen ?_
  intro w hw hev
  obtain ⟨w', hstep, hw', hev'⟩ := steps_close hs hframes 0x5d w hw hev
  refine ⟨w', ?_, hw', hev'⟩
  have hemit := emit_eq hs w (show [0x5d] ≠ [] by simp)
  have hw'frames : w.frames = ⟨.array, count, key⟩ :: rest := hw.frames.trans hframes
  simp only [hemit, andThenOk_ok, hw'frames, List.tail_cons] at hstep
  simp only [hw'frames, hemit, andThenOk_ok]
  exact hstep

/-- The view behind a key. -/
def WriterView.keyed (v : WriterView) (key : Bytes) : WriterView :=
  match v.frames with
  | [] => v
  | frame :: rest =>
    (v.add (commaUnless (frame.count = 0) ++ (quoted escapeText key ++ [0x3a]))).withFrames
      ({ frame with afterKey := true } :: rest)

theorem WriterView.keyed_eq {frame : WriterFrame} {rest : List WriterFrame}
    (hframes : v.frames = frame :: rest) (key : Bytes) :
    v.keyed key =
      (v.add (commaUnless (frame.count = 0) ++ (quoted escapeText key ++ [0x3a]))).withFrames
        ({ frame with afterKey := true } :: rest) := by
  rw [WriterView.keyed, hframes]

theorem steps_keyStart (hs : env.Sinks push told) (hidle : v.mode = .idle) {count : ℕ}
    {rest : List WriterFrame} (hframes : v.frames = ⟨.object, count, false⟩ :: rest) :
    Steps told (Writer.keyStart env) v ev (v.add (commaUnless (count = 0))) { ev with phase := 1 } := by
  refine (steps_checkString (by simp [hidle])).andThen <|
    (steps_checkNumber (.inl hidle)).andThen <| (steps_unblocked hs).andThen ?_
  intro w hw hev
  have hwframes : w.frames = ⟨.object, count, false⟩ :: rest := hw.frames.trans hframes
  have hcomma : Steps told (fun w => if count ≠ 0 then w.emit env [0x2c] else (w, .ok)) v ev
      (v.add (commaUnless (count = 0))) ev := by
    by_cases hcount : count = 0
    · simp only [hcount, ne_eq, not_true_eq_false, if_false, decide_true, Json.commaUnless_true,
        WriterView.add_nil]
      exact steps_check fun _ _ _ => rfl
    · simp only [hcount, ne_eq, not_false_eq_true, if_true, decide_false, Json.commaUnless_false]
      exact steps_emit hs (by simp)
  obtain ⟨w', hstep, hw'⟩ := (hcomma.andThen (steps_setPhase 1)) w hw hev
  refine ⟨w', ?_, hw'⟩
  simp only [hwframes, Bool.false_eq_true, if_false]
  exact hstep

theorem does_key (hs : env.Sinks push told) (hidle : v.mode = .idle) {count : ℕ}
    {rest : List WriterFrame} (hframes : v.frames = ⟨.object, count, false⟩ :: rest) (key : Slice) :
    Does told (fun w => w.key env key) v (v.keyed key.bytes) := by
  intro ev hev
  refine ⟨{ buffer := ev.buffer }, rfl, ?_⟩
  refine steps_checkFailed.andThen <| steps_checkStream.andThen <|
    (steps_beginEvent (.inl hidle) hev _ _ _).andThen <|
    (steps_inPhase rfl (steps_keyStart hs hidle hframes)).andThen <|
    (steps_inPhase rfl (steps_emitPhase hs (by simp) 2)).andThen <|
    (steps_inPhase rfl
      ((steps_emitFrom hs writtenByte_ne key.bytes rfl).andThen (steps_setPhase 3))).andThen <|
    (steps_inPhase rfl (steps_emitPhase hs (by simp) 3)).andThen ?_
  intro w hw hwev
  refine ⟨_, rfl, ?_, by simp [Writer.clearEvent, hwev]⟩
  rw [WriterView.keyed_eq hframes]
  refine { hw with out := ?_, frames := ?_ }
  · simp [Writer.clearEvent, hw.out, WriterView.withFrames, WriterView.add, quoted, escapeText]
  · simp [Writer.clearEvent, hw.frames, hframes, WriterView.withFrames, afterKey]

/-! ## Strings, numbers and literals -/

theorem steps_stringOpen (hmode : v.mode = .inString) :
    Steps (σ := σ) told (fun w => w.check (!w.stringOpen) "writer string is not open") v ev v
      ev := by
  refine steps_check fun w hw _ => ?_
  rw [Writer.check, hw.stringOpen, hmode, if_neg (by simp)]

theorem steps_numberOpen {digits : Bytes} (hmode : v.mode = .inNumber digits) :
    Steps (σ := σ) told (fun w => w.check (!w.numberOpen) "writer number is not open") v ev v
      ev := by
  refine steps_check fun w hw _ => ?_
  rw [Writer.check, hw.numberOpen, hmode, if_neg (by simp)]

theorem does_stringBegin (hs : env.Sinks push told) (hidle : v.mode = .idle)
    (hplace : v.place = some v') :
    Does told (Writer.stringBegin env) v ((v'.add [0x22]).enter .inString) := by
  refine Steps.does fun ev => ?_
  refine (steps_beforeValue hs hidle hplace).andThen ((steps_emit hs (by simp)).andThen ?_)
  intro w hw hev
  have hmode : v'.mode = .idle := (WriterView.place_mode hplace).trans hidle
  refine ⟨_, rfl, ?_, hev⟩
  exact { hw with
    stringOpen := by simp [WriterView.enter]
    numberOpen := by simp [hw.numberOpen, hmode, WriterView.enter]
    number := by simp [WriterView.enter] }

theorem does_stringChunk (hs : env.Sinks push told) (hmode : v.mode = .inString) (data : Slice) :
    Does told (fun w => w.stringChunk env data) v (v.add (escapeText data.bytes)) := by
  intro ev hev
  refine ⟨{ buffer := ev.buffer }, rfl, ?_⟩
  exact steps_checkFailed.andThen <| steps_checkStream.andThen <|
    (steps_stringOpen hmode).andThen <| (steps_beginEvent (.inr hmode) hev _ _ _).andThen <|
    (steps_emitFrom hs writtenByte_ne data.bytes rfl).andThen steps_clearEvent

theorem does_stringEnd (hs : env.Sinks push told) (hmode : v.mode = .inString) :
    Does told (Writer.stringEnd env) v ((v.add [0x22]).enter .idle) := by
  refine Steps.does fun ev =>
    (steps_stringOpen hmode).andThen ((steps_emit hs (by simp)).andThen ?_)
  intro w hw hev
  refine ⟨_, rfl, ?_, hev⟩
  exact { hw with
    stringOpen := by simp [WriterView.enter]
    numberOpen := by simp [hw.numberOpen, hmode, WriterView.enter]
    number := by simp [WriterView.enter] }

theorem does_numberBegin (hs : env.Sinks push told) (hidle : v.mode = .idle)
    (hplace : v.place = some v') :
    Does told (Writer.numberBegin env) v (v'.enter (.inNumber [])) := by
  refine Steps.does fun ev => (steps_beforeValue hs hidle hplace).andThen ?_
  intro w hw hev
  have hmode : v'.mode = .idle := (WriterView.place_mode hplace).trans hidle
  refine ⟨_, rfl, ?_, hev⟩
  exact { hw with
    stringOpen := by simp [hw.stringOpen, hmode, WriterView.enter]
    numberOpen := by simp [WriterView.enter]
    number := by simp [WriterView.enter] }

theorem does_numberChunk {digits : Bytes} (hmode : v.mode = .inNumber digits) (data : Bytes)
    (hlen : digits.length + data.length ≤ v.maxNumberBytes) (hlimit : v.maxNumberBytes < sizeMax) :
    Does told (fun w : Writer σ γ => w.numberChunk data) v
      (v.enter (.inNumber (digits ++ data))) := by
  refine Steps.does fun ev => steps_checkFailed.andThen <| steps_checkStream.andThen <|
    (steps_numberOpen hmode).andThen ?_
  intro w hw hev
  have happend : byteAppend w.number data w.maxNumberBytes = .ok (digits ++ data) := by
    rw [hw.number digits hmode, hw.limit]
    exact byteAppend_of_room hlen hlimit
  refine ⟨{ w with number := digits ++ data }, by simp only [happend], ?_, hev⟩
  exact { hw with
    stringOpen := by simp [hw.stringOpen, hmode, WriterView.enter]
    numberOpen := by simp [hw.numberOpen, hmode, WriterView.enter]
    number := by simp [WriterView.enter] }

theorem steps_emitBytes (hs : env.Sinks push told) (data : Bytes) (hoff : ev.off = 0) :
    Steps told (Writer.emitBytesEvent env data) v ev (v.add data) { ev with off := data.length } := by
  have h := steps_emitFrom (v := v) hs (show ∀ b : Byte, [b] ≠ [] by simp) data hoff
  rw [List.flatMap_singleton'] at h
  exact h

theorem does_numberEnd (hs : env.Sinks push told) {digits : Bytes}
    (hmode : v.mode = .inNumber digits) (hvalid : isValidJsonNumber digits = true) :
    Does told (Writer.numberEnd env) v ((v.add digits).enter .idle) := by
  intro ev hev
  refine ⟨{ buffer := ev.buffer }, rfl,
    steps_checkFailed.andThen ((steps_numberOpen hmode).andThen ?_)⟩
  intro w hw hwev
  have hnumber := hw.number digits hmode
  have hkind : w.event.kind = .none := by rw [hwev, hev]
  let began : Writer σ γ := { w with
    number := digits
    event := { w.event with
      kind := .bytes, address := .number, len := digits.length, off := 0, phase := 1 } }
  obtain ⟨w', hstep, hw', hev'⟩ :=
    steps_emitBytes (v := v) hs digits (show began.event.off = 0 from rfl) began
      { hw with number := fun _ hd => WriterMode.inNumber.inj (hmode.symm.trans hd) } rfl
  refine ⟨Writer.clearEvent { w' with number := [], numberOpen := false }, ?_, ?_, ?_⟩
  · simp only [hnumber, hvalid, hkind, Bool.not_true, Bool.false_eq_true, if_false, if_true,
      andThenOk_ok]
    rw [show Writer.emitBytesEvent env digits _ = (w', .ok) from hstep, andThenOk_ok]
  · exact { hw' with
      stringOpen := by simp [Writer.clearEvent, hw'.stringOpen, hmode, WriterView.enter]
      numberOpen := by simp [Writer.clearEvent, WriterView.enter]
      number := by simp [WriterView.enter] }
  · simp [Writer.clearEvent, hev', began, hwev]

theorem does_emitScalarBytes (hs : env.Sinks push told) (hidle : v.mode = .idle)
    (hplace : v.place = some v') (data : Bytes) :
    Does told (fun w => w.emitScalarBytes env data) v (v'.add data) := by
  intro ev hev
  have hbegin : Steps (σ := σ) told
      (fun w => if w.event.kind = .scalarBytes then
        w.check (w.event.len ≠ data.length || w.event.buffer ≠ data)
          "active writer event must be resumed with the same arguments" .invalidArgument
      else if w.event.kind = .none then
        Writer.beginEvent { w with event := { w.event with buffer := data } } .scalarBytes
          .eventBuffer data.length
      else w.beginEvent .scalarBytes .eventBuffer data.length) v ev v
      { kind := .scalarBytes, address := .eventBuffer, len := data.length, buffer := data,
        child := ev.child } := by
    intro w hw hwev
    have hkind : w.event.kind = .none := by rw [hwev, hev]
    simp only [hkind, reduceCtorEq, if_false, if_true]
    let buffered : WriterEvent γ := { ev with buffer := data }
    have hbuffered : buffered.kind = .none := hev
    exact steps_beginEvent (.inl hidle) hbuffered .scalarBytes
      .eventBuffer data.length _ { hw with } (by simp [hwev, hev, buffered])
  refine ⟨{ buffer := data }, rfl, hbegin.andThen ?_⟩
  refine Steps.andThen (steps_inPhase rfl
    ((steps_beforeValue hs hidle hplace).andThen (steps_setPhase 1))) ?_
  exact (steps_emitBytes hs data rfl).andThen steps_clearEvent

theorem does_bool (hs : env.Sinks push told) (hidle : v.mode = .idle) (hplace : v.place = some v')
    (value : Bool) : Does told (fun w => w.bool env value) v (v'.add (Json.boolText value)) :=
  does_emitScalarBytes hs hidle hplace _

theorem does_null (hs : env.Sinks push told) (hidle : v.mode = .idle)
    (hplace : v.place = some v') : Does told (Writer.null env) v (v'.add Json.nullText) :=
  does_emitScalarBytes hs hidle hplace _

end

end Lonejson
