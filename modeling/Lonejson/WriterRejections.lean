import Lonejson.WriterSound

/-!
# Calls that a writer does not allow

A call that is not allowed leaves nothing behind but its event. A writer that has failed emits
nothing more, unless a string reader is still active.
-/

namespace Lonejson

variable {σ γ : Type}

/-! ## Every call that is not allowed -/

section

variable {env : WriterEnv σ γ} {push : σ → Bytes → σ} {told : σ → Bytes}
  (hs : env.Accepts push told) {w : Writer σ γ}
include hs

theorem emitScalarBytes_refused (hsound : w.Sound) (h : w.takesValue = false) (data : Bytes) :
    (if w.available ∧ w.event.kind = .none then w.withEvent (w.event.forScalar data) else w).Refused
      (w.emitScalarBytes env data) := by
  rw [emitScalarBytes_eq]
  refine scalar_refused data (hsound.phaseOf nofun nofun) fun event hphase => ?_
  rw [Writer.inPhase, if_pos (show (w.withEvent event).event.phase = 0 from hphase)]
  exact (valueStart_refused (w := w.withEvent event) hs h).andThen

omit hs in
theorem WriterCall.left_none {call : WriterCall σ} (h : call.event w.event = none) :
    call.left w = w := by
  rw [WriterCall.left, h]
  exact ite_self w

theorem string_refused (hsound : w.Sound) (data : Slice) (h : w.takesValue = false) :
    (WriterCall.left w (.string data)).Refused (w.string env data) := by
  refine @event_refused _ _ w _ .string data.address data.bytes.length
    (hsound.phaseOf nofun nofun) fun event hphase => ?_
  rw [Writer.inPhase, if_pos (show (w.withEvent event).event.phase = 0 from hphase)]
  exact (valueStart_refused (w := w.withEvent event) hs h).andThen

theorem numberText_refused (hsound : w.Sound) (data : Slice) (h : w.takesValue = false) :
    (WriterCall.left w (.numberText data)).Refused (w.numberText env data) := by
  cases hvalid : isValidJsonNumber data.bytes with
  | false =>
      rw [WriterCall.left_none (show WriterCall.event w.event (.numberText data) = none by
        rw [WriterCall.event, hvalid, if_neg Bool.false_ne_true])]
      refine refused_check nofun fun _ => ?_
      rw [hvalid]
      exact (refused_setError (by decide) _).andThen
  | true =>
      have hevent : WriterCall.event (σ := σ) w.event (.numberText data) =
          some (w.event.forText .bytes data) := by
        rw [WriterCall.event, hvalid, if_pos rfl]
      have hsome : data.bytes.isEmpty = false := by
        cases hbytes : data.bytes with
        | nil =>
            rw [hbytes] at hvalid
            cases hvalid
        | cons b rest => rfl
      rw [WriterCall.left, hevent, Writer.numberText, hsome, check_false, andThenOk_ok, hvalid,
        show (!true) = false from rfl, check_false, andThenOk_ok]
      refine @event_refused _ _ w _ .bytes data.address data.bytes.length
        (hsound.phaseOf nofun nofun) fun event hphase => ?_
      rw [Writer.inPhase, if_pos (show (w.withEvent event).event.phase = 0 from hphase)]
      exact (valueStart_refused (w := w.withEvent event) hs h).andThen

theorem key_refused (hsound : w.Sound) (k : Slice)
    (h : (w.free && betweenMembers w.frames) = false) :
    (WriterCall.left w (.key k)).Refused (w.key env k) := by
  have hkept : w.failed = true ∨ w.valueStreamActive = true → WriterCall.left w (.key k) = w := by
    intro hbusy
    rw [WriterCall.left, if_neg]
    rintro ⟨havailable, -⟩
    rw [Writer.available] at havailable
    rcases hbusy with hbusy | hbusy <;> rw [hbusy] at havailable <;> simp at havailable
  rw [Writer.key, Writer.checkFailed]
  cases hfailed : w.failed with
  | true =>
      rw [hkept (.inl hfailed)]
      exact (refused_setError (by decide) _).andThen
  | false =>
  rw [check_false, andThenOk_ok, Writer.checkStream]
  cases hstream : w.valueStreamActive with
  | true =>
      rw [hkept (.inr hstream)]
      exact (refused_setError (by decide) _).andThen
  | false =>
  rw [check_false, andThenOk_ok]
  refine @event_refused _ _ w _ .key k.address k.bytes.length (hsound.phaseOf (fun h => by cases h) (fun h => by cases h))
    fun event hphase => ?_
  rw [Writer.inPhase, if_pos (show (w.withEvent event).event.phase = 0 from hphase)]
  exact (keyStart_refused (w := w.withEvent event) hs hfailed hstream h).andThen

omit hs in
theorem refused_closing {k : Writer σ γ → Writer σ γ × Status}
    (h : w.free = true → w.Refused (k w)) : w.Refused (andThenOk w.checkClosing k) := by
  rw [Writer.checkClosing, andThenOk_assoc]
  refine refused_check nofun fun hfailed => ?_
  rw [andThenOk_assoc]
  refine refused_check nofun fun hstream => ?_
  rw [andThenOk_assoc]
  refine refused_check nofun fun hstring => refused_check nofun fun hnumber => h ?_
  rw [Writer.free, Writer.available, hfailed, hstream, hstring, hnumber]
  rfl

omit hs in
theorem endObject_refused (h : (w.free && betweenMembers w.frames) = false) :
    w.Refused (w.endObject env) := by
  refine refused_closing fun hfree => ?_
  rw [hfree, Bool.true_and] at h
  split
  · next count key rest hframes =>
    rw [hframes] at h
    have hkey : key = true := by simpa [betweenMembers] using h
    rw [if_pos hkey]
    exact refused_setError (by decide) _
  · exact refused_setError (by decide) _

omit hs in
theorem endArray_refused (h : (w.free && inArray w.frames) = false) :
    w.Refused (w.endArray env) := by
  refine refused_closing fun hfree => ?_
  rw [hfree, Bool.true_and] at h
  split
  · next count key rest hframes =>
    rw [hframes] at h
    cases h
  · exact refused_setError (by decide) _

omit hs in
theorem stringChunk_refused (hsound : w.Sound) (data : Slice)
    (h : (w.available && w.stringOpen) = false) : w.Refused (w.stringChunk env data) := by
  refine refused_check nofun fun _ => refused_check nofun fun _ => ?_
  have hclosed : w.stringOpen = false := by
    cases hopen : w.stringOpen with
    | false => rfl
    | true =>
        rw [show w.available = true from hsound.opened hopen, hopen] at h
        cases h
  rw [hclosed]
  exact (refused_setError (by decide) _).andThen

omit hs in
theorem numberEnd_refused (h : (!w.failed && w.numberOpen) = false) :
    w.Refused (w.numberEnd env) := by
  refine refused_check nofun fun hfailed => ?_
  rw [hfailed] at h
  have hclosed : w.numberOpen = false := h
  rw [hclosed]
  exact (refused_setError (by decide) _).andThen

/-- A call that is not allowed leaves nothing behind but its event. -/
theorem disallowed_refused (hsound : w.Sound) (call : WriterCall σ)
    (h : call.allowed w = false) : (call.left w).Refused (call.run env w) := by
  cases call with
  | beginObject | beginArray | stringBegin | numberBegin =>
      rw [WriterCall.left_none rfl]
      exact (beforeValue_refused hs h).andThen
  | string data => exact string_refused hs hsound data h
  | numberText data => exact numberText_refused hs hsound data h
  | key k => exact key_refused hs hsound k h
  | i64 value | u64 value | bool value | null => exact emitScalarBytes_refused hs hsound h _
  | f64 finite text =>
      cases finite with
      | false =>
          rw [WriterCall.left_none rfl]
          exact refused_setError (by decide) _
      | true =>
          cases text with
          | none =>
              rw [WriterCall.left_none rfl]
              exact refused_setError (by decide) _
          | some text => exact emitScalarBytes_refused hs hsound h text
  | endObject =>
      rw [WriterCall.left_none rfl]
      exact endObject_refused h
  | endArray =>
      rw [WriterCall.left_none rfl]
      exact endArray_refused h
  | stringChunk data =>
      rw [WriterCall.left_none rfl]
      exact stringChunk_refused hsound data h
  | stringEnd =>
      rw [WriterCall.left_none rfl]
      have hclosed : w.stringOpen = false := h
      rw [WriterCall.run, Writer.stringEnd, hclosed]
      exact (refused_setError (by decide) _).andThen
  | numberEnd =>
      rw [WriterCall.left_none rfl]
      exact numberEnd_refused h
  | _ => cases h

/-! ## A writer that has failed -/

omit hs in
theorem Writer.Alike.out {w w' : Writer σ γ} (h : w.Alike w') : w.out = w'.out := by
  have hshown : w.shown.out = w'.shown.out := congrArg Writer.out h
  exact hshown

omit hs in
theorem Writer.Alike.failed {w w' : Writer σ γ} (h : w.Alike w') : w.failed = w'.failed := by
  have hshown : w.shown.failed = w'.shown.failed := congrArg Writer.failed h
  exact hshown

omit hs in
theorem Writer.Alike.stringReader {w w' : Writer σ γ} (h : w.Alike w') :
    w.stringReader = w'.stringReader := by
  have hshown : w.shown.stringReader = w'.shown.stringReader := congrArg Writer.stringReader h
  exact hshown

/-- A string reader that has something left to write, or may still read. -/
def WriterStringReader.pending (r : WriterStringReader) : Bool :=
  r.active && !(r.buffer.isEmpty && r.eof)

/-- A writer that has failed, with no string reader left. -/
structure Writer.Dead (w : Writer σ γ) : Prop where
  sound : w.Sound
  failed : w.failed = true
  spent : w.stringReader.pending = false

omit hs in
theorem Writer.Dead.available (h : w.Dead) : w.available = false := by
  rw [Writer.available, h.failed]
  rfl

omit hs in
theorem Writer.Dead.stringOpen (h : w.Dead) : w.stringOpen = false :=
  h.sound.shut h.available

omit hs in
theorem Writer.Dead.takesValue (h : w.Dead) : w.takesValue = false := by
  rw [Writer.takesValue, Writer.free, h.available]
  rfl

theorem dead_stringReader (h : w.Dead) (id fuel : ℕ) (reader : σ → ℕ → σ × ReadResult) :
    w.Refused (w.stringFromReader env id fuel reader) := by
  rw [Writer.stringFromReader]
  cases hactive : w.stringReader.active with
  | false =>
      rw [if_neg Bool.false_ne_true]
      exact ((beforeValue_refused hs h.takesValue).andThen.andThen).andThen
  | true =>
      rw [if_pos rfl]
      refine refused_check nofun fun _ => ?_
      have hspent := h.spent
      rw [WriterStringReader.pending, hactive] at hspent
      simp only [Bool.true_and, Bool.not_eq_false', Bool.and_eq_true, List.isEmpty_iff] at hspent
      obtain ⟨hbuffer, heof⟩ := hspent
      cases fuel with
      | zero => exact ⟨nofun, rfl⟩
      | succ n =>
          rw [Writer.readString, hbuffer, Writer.drainReader, andThenOk_ok, if_pos heof,
            unblocked_eq hs.toSinks, andThenOk_ok, Writer.stringEnd, h.stringOpen]
          exact ((refused_setError (by decide) _).andThen).andThen

/-- A failed writer refuses every call, but the end of a value stream. -/
theorem dead_refused (h : w.Dead) (call : WriterCall σ) (hcleanup : call ≠ .valueStreamCleanup) :
    w.Refused (call.run env w) := by
  have hfailed : ∀ {k : Writer σ γ → Writer σ γ × Status},
      w.Refused (andThenOk w.checkFailed k) := by
    intro k
    refine refused_check (fun h => by cases h) fun hnot => ?_
    rw [h.failed] at hnot
    cases hnot
  have hleft : ∀ call : WriterCall σ, call.left w = w := by
    intro call
    rw [WriterCall.left, if_neg]
    rintro ⟨havailable, -⟩
    rw [h.available] at havailable
    cases havailable
  by_cases hallowed : call.allowed w = false
  · have hrefused := disallowed_refused hs h.sound call hallowed
    rw [hleft] at hrefused
    exact hrefused
  cases call with
  | stringReader id fuel reader => exact dead_stringReader hs h id fuel reader
  | numberChunk data => exact hfailed
  | nullSource => exact (beforeValue_refused hs h.takesValue).andThen
  | child arg0 arg1 tag root =>
      rw [WriterCall.run, Writer.childEvent, Writer.beginEvent, andThenOk_assoc]
      refine refused_requireAvailable fun havailable => ?_
      rw [h.available] at havailable
      cases havailable
  | valueStreamOpen =>
      refine refused_check (fun h => by cases h) fun _ => refused_check (fun h => by cases h) fun _ => hfailed
  | valueStreamPush pieces status =>
      refine refused_check (fun h => by cases h) fun _ => ?_
      rw [h.failed]
      exact (refused_setError (by decide) _).andThen
  | valueStreamClose pieces status =>
      refine refused_check (fun h => by cases h) fun _ => ?_
      rw [h.failed]
      exact (refused_setError (by decide) _).andThen
  | valueStreamCleanup => exact absurd rfl hcleanup
  | arrayItems items status =>
      rw [WriterCall.run, Writer.arrayItems, Writer.arrayItemsRequire, andThenOk_assoc]
      exact hfailed
  | finish =>
      rw [WriterCall.run, Writer.finish, Writer.checkClosing, andThenOk_assoc]
      exact hfailed
  | beginObject | beginArray | string _ | stringBegin | numberText _ | numberBegin | i64 _ | u64 _
    | f64 _ _ | bool _ | null => exact absurd h.takesValue hallowed
  | key _ | endObject | endArray =>
      refine absurd ?_ hallowed
      rw [WriterCall.allowed, Writer.free, h.available]
      rfl
  | stringChunk _ =>
      refine absurd ?_ hallowed
      rw [WriterCall.allowed, h.available]
      rfl
  | stringEnd => exact absurd h.stringOpen hallowed
  | numberEnd =>
      refine absurd ?_ hallowed
      rw [WriterCall.allowed, h.failed]
      rfl

/-- A failed writer with no string reader left emits nothing, and stays so. -/
theorem dead_run (h : w.Dead) (call : WriterCall σ) :
    (call.run env w).1.Dead ∧ (call.run env w).1.out = w.out := by
  by_cases hcleanup : call = .valueStreamCleanup
  · subst hcleanup
    have hsound := sound_run hs .valueStreamCleanup h.sound
    rw [WriterCall.run, Writer.valueStreamCleanup] at hsound ⊢
    split_ifs at hsound ⊢
    · exact ⟨⟨hsound, rfl, h.spent⟩, rfl⟩
    · exact ⟨h, rfl⟩
  · have halike := (dead_refused hs h call hcleanup).2
    refine ⟨⟨sound_run hs call h.sound, halike.failed.trans h.failed, ?_⟩, halike.out⟩
    rw [halike.stringReader]
    exact h.spent

theorem dead_runCalls (calls : List (WriterCall σ)) : ∀ {w : Writer σ γ}, w.Dead →
    (Writer.runCalls env calls w).1.out = w.out := by
  induction calls with
  | nil => exact fun _ => rfl
  | cons call calls ih =>
      intro w h
      obtain ⟨hdead, hout⟩ := dead_run hs h call
      exact (ih hdead).trans hout

/-! ## A string reader that is left -/

theorem drainReader_eq (buffer : Bytes) : ∀ w : Writer σ γ, w.stringReader.buffer = buffer →
    Writer.drainReader env buffer w =
      ({ w with out := pushEach push writtenByte buffer w.out
                stringReader := { w.stringReader with buffer := [] } }, .ok) := by
  induction buffer with
  | nil =>
      intro w hbuffer
      have hsame : { w.stringReader with buffer := [] } = w.stringReader := by rw [← hbuffer]
      rw [hsame]
      rfl
  | cons b rest ih =>
      intro w hbuffer
      rw [Writer.drainReader, unblocked_eq hs.toSinks, andThenOk_ok,
        emit_eq hs.toSinks w (writtenByte_ne b), andThenOk_ok, ih _ rfl]
      rfl

/-- A reader with one byte, and nothing behind it. -/
def oneByte (out : σ) (_ : ℕ) : σ × ReadResult := (out, { bytes := [0x61], eof := true })

/-- A reader at the end of its input writes what is in the buffer. -/
theorem readString_last (reader : σ → ℕ → σ × ReadResult) (n : ℕ)
    (heof : w.stringReader.eof = true) (hclosed : w.stringOpen = false) :
    (Writer.readString env reader (n + 1) w).1.out =
      pushEach push writtenByte w.stringReader.buffer w.out := by
  rw [Writer.readString, drainReader_eq hs _ w rfl, andThenOk_ok]
  dsimp only
  rw [if_pos heof, unblocked_eq hs.toSinks, andThenOk_ok, Writer.stringEnd]
  dsimp only
  rw [hclosed, Bool.not_false, check_true]
  rfl

/-- A writer whose string reader has come to the end of its input. -/
def Writer.refilled (w : Writer σ γ) (out : σ) (buffer : Bytes) : Writer σ γ :=
  { w with out, stringReader := { w.stringReader with buffer, eof := true } }

theorem readString_oneByte (n : ℕ) (heof : w.stringReader.eof = false) :
    Writer.readString env oneByte (n + 1) w =
      Writer.readString env oneByte n
        (w.refilled (pushEach push writtenByte w.stringReader.buffer w.out) [0x61]) := by
  rw [Writer.readString, drainReader_eq hs _ w rfl, andThenOk_ok]
  dsimp only
  rw [heof, if_neg Bool.false_ne_true, unblocked_eq hs.toSinks, andThenOk_ok]
  rfl

/-- What the string reader of a failed writer still emits. -/
theorem told_stringReader (hactive : w.stringReader.active = true) (hclosed : w.stringOpen = false) :
    told (w.stringFromReader env w.stringReader.reader 2 oneByte).1.out =
      told w.out ++ escapeText
        (if w.stringReader.eof then w.stringReader.buffer else w.stringReader.buffer ++ [0x61]) := by
  rw [Writer.stringFromReader, if_pos hactive, Writer.check,
    if_neg (by simp), andThenOk_ok]
  cases heof : w.stringReader.eof with
  | true => rw [readString_last hs _ _ heof hclosed, told_pushEach hs.toSinks, if_pos rfl, escapeText]
  | false =>
      have hlast := readString_last hs oneByte 0
        (w := w.refilled (pushEach push writtenByte w.stringReader.buffer w.out) [0x61]) rfl hclosed
      rw [readString_oneByte hs _ heof, hlast, told_pushEach hs.toSinks, Writer.refilled,
        told_pushEach hs.toSinks, if_neg Bool.false_ne_true, escapeText, List.flatMap_append,
        List.append_assoc]

omit hs in
theorem escapeText_ne {content : Bytes} (h : content ≠ []) : escapeText content ≠ [] := by
  cases content with
  | nil => exact absurd rfl h
  | cons b rest =>
      rw [escapeText, List.flatMap_cons]
      exact List.append_ne_nil_of_left_ne_nil (writtenByte_ne b) _

/-! ## The effect of a refused call -/

/-- A call has no effect: it emits nothing, and every run behind it returns and emits what it would
have without the call; behind a call to a failed writer, nothing more is emitted. -/
structure WriterCall.NoEffect (env : WriterEnv σ γ) (told : σ → Bytes) (w : Writer σ γ)
    (call : WriterCall σ) : Prop where
  silent : told (call.run env w).1.out = told w.out
  working : w.failed = false → ∀ calls,
    (Writer.runCalls env calls (call.run env w).1).2 = (Writer.runCalls env calls w).2 ∧
      told (Writer.runCalls env calls (call.run env w).1).1.out =
        told (Writer.runCalls env calls w).1.out
  failed : w.failed = true → ∀ calls,
    told (Writer.runCalls env calls (call.run env w).1).1.out = told (call.run env w).1.out

/-- Whether a refused call is without effect: in a writer that works, it has no event, or an event
is pending already, or the writer is not available; in a failed one, no string reader is left. -/
def WriterCall.harmless (w : Writer σ γ) (call : WriterCall σ) : Bool :=
  if w.failed then !w.stringReader.pending
  else !(w.available && w.event.kind = .none && (call.event w.event).isSome)

omit hs in
/-- What a refused call leaves, where it is harmless. -/
theorem harmless_left {call : WriterCall σ} (hfailed : w.failed = false)
    (h : call.harmless w = true) : call.left w = w := by
  rw [WriterCall.harmless, hfailed, if_neg Bool.false_ne_true] at h
  by_cases hnew : w.available ∧ w.event.kind = .none
  · rw [hnew.1, decide_eq_true hnew.2] at h
    have hnone : call.event w.event = none := by simpa using h
    exact WriterCall.left_none hnone
  · rw [WriterCall.left, if_neg hnew]

theorem noEffect_of (hsound : w.Sound) (call : WriterCall σ) (h : call.allowed w = false)
    (hharmless : call.harmless w = true) : call.NoEffect env told w := by
  cases hfailed : w.failed with
  | false =>
      have hrefused := disallowed_refused hs hsound call h
      rw [harmless_left hfailed hharmless] at hrefused
      refine ⟨by rw [hrefused.2.out], fun _ calls => ?_, fun htrue => ?_⟩
      · obtain ⟨halike, hstatuses⟩ := runCalls_alike hs calls hrefused.2
        exact ⟨hstatuses, by rw [halike.out]⟩
      · rw [hfailed] at htrue
        cases htrue
  | true =>
      rw [WriterCall.harmless, hfailed, if_pos rfl, Bool.not_eq_true'] at hharmless
      obtain ⟨hdead, hout⟩ := dead_run hs ⟨hsound, hfailed, hharmless⟩ call
      refine ⟨by rw [hout], fun hfalse => ?_, fun _ calls => by rw [dead_runCalls hs calls hdead]⟩
      rw [hfailed] at hfalse
      cases hfalse

omit hs in
/-- A key that is longer than the event which is pending. -/
theorem key_mismatched (havailable : w.available = true) (hpending : w.event.kind ≠ .none)
    {k : Slice} (hlen : w.event.len ≠ k.bytes.length) : (w.key env k).2 = .invalidArgument := by
  have hflags := havailable
  simp only [Writer.available, Bool.and_eq_true, Bool.not_eq_true'] at hflags
  obtain ⟨⟨hfailed, hstream⟩, -⟩ := hflags
  rw [Writer.key, Writer.checkFailed, hfailed, check_false, andThenOk_ok, Writer.checkStream,
    hstream, check_false, andThenOk_ok, beginEvent_pending havailable hpending,
    decide_eq_true hlen, Bool.or_true, check_true]
  rfl

/-- Steps that never return this status. -/
def Avoids (code : Status) (f : Writer σ γ → Writer σ γ × Status) : Prop := ∀ w, (f w).2 ≠ code

omit hs in
theorem Avoids.andThen {code : Status} {f g : Writer σ γ → Writer σ γ × Status}
    (hf : Avoids code f) (hg : Avoids code g) : Avoids code fun w => andThenOk (f w) g := by
  intro w
  dsimp only
  rw [andThenOk]
  split_ifs
  · exact hg _
  · exact hf w

omit hs in
theorem Runs.avoids {code : Status} {f : Writer σ γ → Writer σ γ × Status} (hf : Runs f)
    (hcode : code ≠ .ok) : Avoids code f := by
  intro w h
  exact hcode (h.symm.trans (hf w).1)

/-- A key for which no event is pending is not refused for its arguments. -/
theorem key_status (havailable : w.available = true) (hnone : w.event.kind = .none) (k : Slice) :
    (w.key env k).2 ≠ .invalidArgument := by
  have hcheck : ∀ (bad : Writer σ γ → Bool) (message : String),
      Avoids .invalidArgument fun w => w.check (bad w) message := by
    intro bad message w
    dsimp only
    cases bad w with
    | true => exact fun h => by cases h
    | false => exact fun h => by cases h
  have hplace : Avoids .invalidArgument (Writer.keyStart env) := by
    refine (hcheck _ _).andThen ((hcheck _ _).andThen fun w => ?_)
    rw [unblocked_eq hs.toSinks, andThenOk_ok]
    split
    · next count key rest hframes =>
      split_ifs
      · exact fun h => by cases h
      · exact ((runs_emit hs _).andThen (runs_setPhase 1)).avoids (by decide) w
      · exact (runs_setPhase 1).avoids (by decide) w
    · exact fun h => by cases h
  have hstart : Avoids .invalidArgument fun w => w.inPhase 0 (Writer.keyStart env) := by
    intro w
    dsimp only
    rw [Writer.inPhase]
    split_ifs
    · exact hplace w
    · exact fun h => by cases h
  have hflags := havailable
  simp only [Writer.available, Bool.and_eq_true, Bool.not_eq_true'] at hflags
  obtain ⟨⟨hfailed, hstream⟩, -⟩ := hflags
  rw [Writer.key, Writer.checkFailed, hfailed, check_false, andThenOk_ok, Writer.checkStream,
    hstream, check_false, andThenOk_ok, beginEvent_new havailable hnone, andThenOk_ok]
  refine hstart.andThen (Runs.avoids ?_ (by decide)) _
  refine ((runs_emitPhase hs _ _).inPhase 1).andThen ?_
  refine (((runs_emitEach hs writtenByte_ne _).andThen (runs_setPhase 3)).inPhase 2).andThen ?_
  refine ((runs_emitPhase hs _ _).inPhase 3).andThen (runs_update fun w => ?_)
  exact ⟨_, rfl⟩

omit hs in
/-- An event that a call registers is pending. -/
theorem event_pending {call : WriterCall σ} {event event' : WriterEvent γ}
    (h : call.event event = some event') : event'.kind ≠ .none := by
  cases call with
  | numberText data =>
      rw [WriterCall.event] at h
      split_ifs at h
      injection h with h
      rw [← h]
      exact nofun
  | f64 finite text =>
      cases finite with
      | false => cases h
      | true =>
          cases text with
          | none => cases h
          | some text =>
              injection h with h
              rw [← h]
              exact nofun
  | key _ | string _ | i64 _ | u64 _ | bool _ | null =>
      injection h with h
      rw [← h]
      exact nofun
  | _ => cases h

theorem noEffect_only (hsound : w.Sound) (call : WriterCall σ) (h : call.allowed w = false)
    (heffect : call.NoEffect env told w) : call.harmless w = true := by
  by_contra hharmful
  have hharmless : call.harmless w = false := Bool.eq_false_iff.mpr hharmful
  obtain ⟨-, halike⟩ := disallowed_refused hs hsound call h
  cases hfailed : w.failed with
  | false =>
      rw [WriterCall.harmless, hfailed, if_neg Bool.false_ne_true] at hharmless
      simp only [Bool.not_eq_false', Bool.and_eq_true, decide_eq_true_eq,
        Option.isSome_iff_exists] at hharmless
      obtain ⟨⟨havailable, hnone⟩, event, hevent⟩ := hharmless
      have hleft : call.left w = w.withEvent event := by
        rw [WriterCall.left, if_pos ⟨havailable, hnone⟩, hevent]
      rw [hleft] at halike
      -- The later call is a key that does not fit the event which is left.
      let k : Slice := { bytes := List.replicate (event.len + 1) 0 }
      have hlen : (w.withEvent event).event.len ≠ k.bytes.length := by
        rw [List.length_replicate]
        exact (Nat.succ_ne_self event.len).symm
      have hrefused : ((w.withEvent event).key env k).2 = .invalidArgument :=
        key_mismatched (w := w.withEvent event) havailable (event_pending hevent) hlen
      have hsame : (((call.run env w).1).key env k).2 = ((w.withEvent event).key env k).2 :=
        (blind_key hs k halike).2
      obtain ⟨hstatuses, -⟩ := heffect.working hfailed [.key k]
      have hkey : (((call.run env w).1).key env k).2 = (w.key env k).2 :=
        List.head_eq_of_cons_eq hstatuses
      exact key_status hs havailable hnone k (hkey.symm.trans (hsame.trans hrefused))
  | true =>
      rw [WriterCall.harmless, hfailed, if_pos rfl, Bool.not_eq_false'] at hharmless
      have hleft : call.left w = w := by
        rw [WriterCall.left, if_neg]
        rintro ⟨havailable, -⟩
        rw [Writer.available, hfailed] at havailable
        cases havailable
      rw [hleft] at halike
      rw [WriterStringReader.pending, Bool.and_eq_true, Bool.not_eq_true'] at hharmless
      obtain ⟨hactive, hleftover⟩ := hharmless
      have hreader := halike.stringReader
      have hsound' := sound_run hs call hsound
      have hclosed : (call.run env w).1.stringOpen = false := by
        refine hsound'.shut ?_
        change (call.run env w).1.available = false
        rw [Writer.available, halike.failed, hfailed]
        rfl
      have htold := told_stringReader hs (w := (call.run env w).1) (by rw [hreader, hactive]) hclosed
      have hquiet := heffect.failed hfailed
        [.stringReader (call.run env w).1.stringReader.reader 2 oneByte]
      have hnothing := List.append_right_eq_self.mp (htold.symm.trans hquiet)
      refine escapeText_ne ?_ hnothing
      rw [hreader]
      cases heof : w.stringReader.eof with
      | false => exact List.append_ne_nil_of_right_ne_nil _ (List.cons_ne_nil _ _)
      | true =>
          rw [heof, Bool.and_true] at hleftover
          simpa using hleftover

end

/-- A call that is not allowed returns an error. It has no effect exactly where it registers no
event, in a writer that works, and where no string reader is left, in one that has failed. -/
theorem rejectedCall_noEffect {env : WriterEnv σ γ} {push : σ → Bytes → σ} {told : σ → Bytes}
    (hs : env.Accepts push told) {w : Writer σ γ} (hw : w.Reached env) (call : WriterCall σ)
    (h : call.allowed w = false) :
    (call.run env w).2 ≠ .ok ∧ (call.NoEffect env told w ↔ call.harmless w = true) := by
  have hsound := sound_reached hs hw
  exact ⟨(disallowed_refused hs hsound call h).1, noEffect_only hs hsound call h,
    noEffect_of hs hsound call h⟩

/-- A sink that keeps the text, with no nested values. -/
def textEnv : WriterEnv Bytes Unit where
  sink out data error := (out ++ data, error, .ok)
  blocked _ := false
  available _ := none
  canGrow _ _ := true
  childInit _ _ _ := .ok ()
  childRead child _ := { generator := child, bytes := [], eof := true, status := .ok, error := {} }
  childFuel _ := 1

theorem textEnv_accepts : textEnv.Accepts (fun out data => out ++ data) id where
  sink _ _ _ := rfl
  told _ _ := rfl
  blocked _ := rfl
  available _ := rfl
  canGrow _ _ := rfl
  child _ _ _ := rfl

/-- A writer behind `{`. -/
def inObject : Writer Bytes Unit :=
  (Writer.runCalls textEnv [.beginObject] { out := [], maxNumberBytes := 256 }).1

/-- The end of an array is refused in an object, without effect. -/
theorem rejectedCall_noEffect_endArray :
    (WriterCall.endArray (σ := Bytes)).allowed inObject = false ∧
      (WriterCall.endArray.run textEnv inObject).2 ≠ .ok ∧
      WriterCall.endArray.NoEffect textEnv id inObject :=
  have hw : inObject.Reached textEnv := ⟨[], 256, [.beginObject], rfl⟩
  have h := rejectedCall_noEffect textEnv_accepts hw .endArray rfl
  ⟨rfl, h.1, h.2.mpr rfl⟩

/-- A string where a key has to come is refused, and the key that comes next is refused too. -/
theorem rejectedString_key :
    inObject.Reached textEnv ∧
      WriterCall.allowed inObject (.string ⟨.caller 1, [0x78]⟩) = false ∧
      (inObject.string textEnv ⟨.caller 1, [0x78]⟩).2 = .invalidJson ∧
      (inObject.key textEnv ⟨.caller 2, [0x61]⟩).2 = .ok ∧
      ((inObject.string textEnv ⟨.caller 1, [0x78]⟩).1.key textEnv ⟨.caller 2, [0x61]⟩).2 =
        .invalidArgument ∧
      ¬ WriterCall.NoEffect textEnv id inObject (.string ⟨.caller 1, [0x78]⟩) := by
  refine ⟨⟨[], 256, [.beginObject], rfl⟩, rfl, by decide, by decide, by decide, fun heffect => ?_⟩
  obtain ⟨hstatuses, -⟩ := heffect.working rfl [.key ⟨.caller 2, [0x61]⟩]
  revert hstatuses
  decide

end Lonejson
