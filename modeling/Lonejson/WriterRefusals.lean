import Lonejson.WriterCalls

/-!
# Refusals of a writer

Where a call is allowed, and that a call is refused elsewhere before anything is written. The calls
with an event of their own have registered it by then.
-/

namespace Lonejson

variable {σ γ : Type}

/-! ## Where a call is allowed -/

/-- Whether the top frame, or the root, has a place for a value. -/
def hasPlace (rootWritten : Bool) : List WriterFrame → Bool
  | [] => !rootWritten
  | ⟨.array, _, _⟩ :: _ => true
  | ⟨.object, _, afterKey⟩ :: _ => afterKey

/-- Whether the top frame is an object between two members. -/
def betweenMembers : List WriterFrame → Bool
  | ⟨.object, _, afterKey⟩ :: _ => !afterKey
  | _ => false

/-- Whether the top frame is an array. -/
def inArray : List WriterFrame → Bool
  | ⟨.array, _, _⟩ :: _ => true
  | _ => false

/-- A writer that has not failed and has nothing open. -/
def Writer.free (w : Writer σ γ) : Bool := w.available && !w.stringOpen

/-- A value is allowed. -/
def Writer.takesValue (w : Writer σ γ) : Bool :=
  w.free && !w.finished && hasPlace w.rootWritten w.frames

/-- Whether a call may come where the writer stands: a value where there is a place for one, a key
between two members, the end of the container that is open, and a part of the string or number
that is open. Of the other calls nothing is said. -/
def WriterCall.allowed (w : Writer σ γ) : WriterCall σ → Bool
  | .beginObject | .beginArray | .string _ | .stringBegin | .numberText _ | .numberBegin => w.takesValue
  | .i64 _ | .u64 _ | .f64 _ _ | .bool _ | .null => w.takesValue
  | .key _ | .endObject => w.free && betweenMembers w.frames
  | .endArray => w.free && inArray w.frames
  | .stringChunk _ => w.available && w.stringOpen
  | .stringEnd => w.stringOpen
  | .numberEnd => !w.failed && w.numberOpen
  | _ => true

/-- A new event for a text of the caller. -/
def WriterEvent.forText (kind : WriterEventKind) (data : Slice) (event : WriterEvent γ) :
    WriterEvent γ :=
  { kind, address := data.address, len := data.bytes.length, buffer := event.buffer,
    child := event.child }

/-- A new event for a scalar. -/
def WriterEvent.forScalar (data : Bytes) (event : WriterEvent γ) : WriterEvent γ :=
  { kind := .scalarBytes, address := .eventBuffer, len := data.length, buffer := data,
    child := event.child }

/-- The event that a call registers where none is pending, if it has one. -/
def WriterCall.event (event : WriterEvent γ) : WriterCall σ → Option (WriterEvent γ)
  | .key k => some (event.forText .key k)
  | .string data => some (event.forText .string data)
  | .numberText data =>
    if isValidJsonNumber data.bytes then some (event.forText .bytes data) else none
  | .i64 value => some (event.forScalar (formatI64 value.toInt))
  | .u64 value => some (event.forScalar (decimalText value.toNat))
  | .f64 true (some text) => some (event.forScalar text)
  | .bool value => some (event.forScalar (Json.boolText value))
  | .null => some (event.forScalar Json.nullText)
  | _ => none

/-- A writer with another event. -/
def Writer.withEvent (w : Writer σ γ) (event : WriterEvent γ) : Writer σ γ := { w with event }

/-- What a refused call leaves behind: a writer that is available, and has no event pending, keeps
the event of the call. -/
def WriterCall.left (w : Writer σ γ) (call : WriterCall σ) : Writer σ γ :=
  if w.available ∧ w.event.kind = .none then
    match call.event w.event with
    | some event => w.withEvent event
    | none => w
  else w

/-! ## Refusals -/

/-- An error that leaves no trace but the error record. -/
def Writer.Refused (w : Writer σ γ) (r : Writer σ γ × Status) : Prop :=
  r.2 ≠ .ok ∧ r.1.Alike w

section

variable {w : Writer σ γ} {k : Writer σ γ → Writer σ γ × Status}

theorem refused_setError {code : Status} (hcode : code ≠ .ok) (message : String) :
    w.Refused (w.setError code message) := ⟨hcode, rfl⟩

theorem Writer.Refused.andThen {r : Writer σ γ × Status} (h : w.Refused r) :
    w.Refused (andThenOk r k) := by
  rw [andThenOk, if_neg h.1]
  exact h

theorem refused_check {bad : Bool} {message : String} {code : Status} (hcode : code ≠ .ok)
    (h : bad = false → w.Refused (k w)) : w.Refused (andThenOk (w.check bad message code) k) := by
  cases bad with
  | true => exact (refused_setError hcode message).andThen
  | false => exact h rfl

theorem refused_requireAvailable (h : w.available = true → w.Refused (k w)) :
    w.Refused (andThenOk w.requireAvailable k) := by
  cases havailable : w.available with
  | true =>
      rw [requireAvailable_of havailable]
      exact h havailable
  | false =>
      obtain ⟨error, heq⟩ := requireAvailable_not havailable
      rw [heq]
      exact ⟨nofun, rfl⟩

end

section

variable {env : WriterEnv σ γ} {push : σ → Bytes → σ} {told : σ → Bytes}
  (hs : env.Accepts push told) {w : Writer σ γ}
include hs

omit hs in
theorem placeValue_refused (h : hasPlace w.rootWritten w.frames = false) :
    w.Refused (w.placeValue env) := by
  rw [Writer.placeValue]
  cases hframes : w.frames with
  | nil =>
      rw [hframes] at h
      have hroot : w.rootWritten = true := by simpa [hasPlace] using h
      dsimp only
      rw [if_pos hroot]
      exact refused_setError (by decide) _
  | cons f rest =>
      obtain ⟨kind, count, key⟩ := f
      rw [hframes] at h
      cases kind with
      | array => cases h
      | object =>
          have hkey : key = false := h
          dsimp only
          rw [hkey, if_pos (show (!false) = true from rfl)]
          exact refused_setError (by decide) _

theorem beforeValue_refused (h : w.takesValue = false) : w.Refused (w.beforeValue env) := by
  refine refused_check nofun fun hfailed => refused_check nofun fun hstream => ?_
  refine refused_check nofun fun hstring => refused_check nofun fun hnumber => ?_
  refine refused_check nofun fun hfinished => ?_
  rw [unblocked_eq hs.toSinks, andThenOk_ok]
  rw [Writer.takesValue, Writer.free, Writer.available, hfailed, hstream, hstring, hnumber,
    hfinished] at h
  exact placeValue_refused h

theorem valueStart_refused (h : w.takesValue = false) :
    w.Refused (andThenOk (w.beforeValue env) fun w => (w.setPhase 1, .ok)) :=
  (beforeValue_refused hs h).andThen

theorem keyStart_refused (hfailed : w.failed = false) (hstream : w.valueStreamActive = false)
    (h : (w.free && betweenMembers w.frames) = false) : w.Refused (w.keyStart env) := by
  refine refused_check nofun fun hstring => refused_check nofun fun hnumber => ?_
  rw [unblocked_eq hs.toSinks, andThenOk_ok]
  rw [Writer.free, Writer.available, hfailed, hstream, hstring, hnumber] at h
  have hbetween : betweenMembers w.frames = false := h
  split
  · next count key rest hframes =>
    rw [hframes] at hbetween
    have hkey : key = true := by simpa [betweenMembers] using hbetween
    rw [if_pos hkey]
    exact refused_setError (by decide) _
  · exact refused_setError (by decide) _

end

/-! ## Calls with an event -/

section

variable {w : Writer σ γ} {k : Writer σ γ → Writer σ γ × Status}

/-- A call whose event begins, and that is refused then. -/
theorem event_refused {kind : WriterEventKind} (address : Address) (len : ℕ)
    (hphase : w.event.kind = kind → w.event.phase = 0)
    (hk : ∀ event : WriterEvent γ, event.phase = 0 →
      (w.withEvent event).Refused (k (w.withEvent event))) :
    (if w.available ∧ w.event.kind = .none then w.register kind address len else w).Refused
      (andThenOk (w.beginEvent kind address len) k) := by
  cases havailable : w.available with
  | false =>
      obtain ⟨error, heq⟩ := beginEvent_not havailable
      rw [heq, if_neg fun h => Bool.false_ne_true h.1]
      exact ⟨nofun, rfl⟩
  | true =>
      by_cases hnone : w.event.kind = .none
      · rw [beginEvent_new havailable hnone, if_pos ⟨rfl, hnone⟩, andThenOk_ok]
        exact hk _ rfl
      · rw [beginEvent_pending havailable hnone, if_neg fun h => hnone h.2]
        refine refused_check nofun fun hsame => ?_
        have hsamekind : w.event.kind = kind := by
          by_contra hne
          rw [decide_eq_true hne, Bool.true_or, Bool.true_or] at hsame
          cases hsame
        exact hk w.event (hphase hsamekind)

theorem holdScalar_alike (data : Bytes) (hnone : w.event.kind = .none) :
    (w.holdScalar data).Alike w := by
  have hscalar : ¬ w.event.kind = .scalarBytes := by
    rw [hnone]
    decide
  have hleft : (w.holdScalar data).shown =
      { w with error := {}, event := { w.event with buffer := [] } } := by
    unfold Writer.shown
    rw [if_neg (show ¬ (w.holdScalar data).event.kind = .scalarBytes from hscalar)]
    rfl
  have hright : w.shown = { w with error := {}, event := { w.event with buffer := [] } } := by
    unfold Writer.shown
    rw [if_neg hscalar]
  exact hleft.trans hright.symm

/-- The same for a scalar. -/
theorem scalar_refused (data : Bytes) (hphase : w.event.kind = .scalarBytes → w.event.phase = 0)
    (hk : ∀ event : WriterEvent γ, event.phase = 0 →
      (w.withEvent event).Refused (k (w.withEvent event))) :
    (if w.available ∧ w.event.kind = .none then w.withEvent (w.event.forScalar data) else w).Refused
      (andThenOk (w.beginScalar data) k) := by
  by_cases hnone : w.event.kind = .none
  · cases havailable : w.available with
    | false =>
        obtain ⟨error, heq⟩ := beginScalar_not data havailable hnone
        rw [heq, if_neg fun h => Bool.false_ne_true h.1]
        exact ⟨nofun, holdScalar_alike data hnone⟩
    | true =>
        rw [beginScalar_new havailable hnone, if_pos ⟨rfl, hnone⟩, andThenOk_ok]
        exact hk _ rfl
  · rw [if_neg fun h => hnone h.2]
    by_cases hscalar : w.event.kind = .scalarBytes
    · rw [beginScalar_same hscalar]
      exact refused_check nofun fun _ => hk w.event (hphase hscalar)
    · obtain ⟨error, heq⟩ := beginScalar_other data hnone hscalar
      rw [heq]
      refine Writer.Refused.andThen ⟨?_, rfl⟩
      split <;> nofun

end

end Lonejson
