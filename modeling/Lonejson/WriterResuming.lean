import Lonejson.WriterGenerator

/-!
# Calls that are interrupted

The calls of a writer inside a generator beside those of a writer into a sink that takes everything.
A call that returns `LONEJSON_STATUS_TRUNCATED` leaves the writer so that the same call, issued
again into the sink, writes what it would have written without the interruption.
-/

namespace Lonejson

open Resuming (Setting)

variable {ω γ : Type}

/-! ## Outlets -/

/-- What holds of the buffer of a read while the writer writes: bytes are held back only behind a
buffer that is full. -/
structure WriterOutlet.Fits (capacity : ℕ) (o : WriterOutlet ω) : Prop where
  capacity : o.capacity = capacity
  blocked : o.blocked = true ↔ o.pending ≠ []
  full : o.pending ≠ [] → o.capacity ≤ o.given.length
  within : o.given.length ≤ o.capacity

/-- All that has been written in a read. -/
def WriterOutlet.written (o : WriterOutlet ω) : Bytes := o.given ++ o.pending

/-- An outlet has taken some bytes. -/
structure WriterOutlet.Takes (capacity : ℕ) (o : WriterOutlet ω) (data : Bytes) (o' : WriterOutlet ω) :
    Prop where
  fits : o'.Fits capacity
  written : o'.written = o.written ++ data
  world : o'.world = o.world
  free : data.length ≤ o.room → o'.blocked = false

section

variable {o : WriterOutlet ω} {capacity : ℕ} {canHold : ℕ → Bool}

theorem WriterOutlet.Fits.free_of_open (h : o.outputBlocked = false) : o.blocked = false := by
  simp only [outputBlocked, Bool.or_eq_false_iff] at h
  exact h.1.1

theorem WriterOutlet.Fits.room_of_open (h : o.outputBlocked = false) : 1 ≤ o.room := by
  simp only [outputBlocked, Bool.or_eq_false_iff, decide_eq_false_iff_not] at h
  rw [room]
  omega

theorem WriterOutlet.Fits.full_of_blocked (hfits : o.Fits capacity) (h : o.outputBlocked = true) :
    o.capacity ≤ o.given.length := by
  simp only [outputBlocked, Bool.or_eq_true, decide_eq_true_eq] at h
  rcases h with (h | h) | h
  · exact hfits.full (hfits.blocked.mp h)
  · exact hfits.full h
  · exact h

theorem WriterOutlet.Fits.pending_of_free (hfits : o.Fits capacity) (h : o.blocked = false) :
    o.pending = [] := by
  by_contra hpending
  rw [hfits.blocked.mpr hpending] at h
  cases h

/-- A sink that holds nothing back takes all bytes; what does not fit it holds back. -/
theorem WriterOutlet.Fits.sink_free (hfits : o.Fits capacity) (h : o.blocked = false)
    (hold : ∀ n, canHold n = true) (data : Bytes) (error : ErrorInfo) :
    ∃ o', WriterOutlet.sink canHold o data error = (o', error, .ok) ∧ o.Takes capacity data o' := by
  have hpending := hfits.pending_of_free h
  have hwithin := hfits.within
  rw [sink, if_neg (by rw [h]; decide), accept]
  by_cases hdata : data = []
  · refine ⟨o, by rw [if_pos hdata], hfits, ?_, rfl, fun _ => h⟩
    rw [hdata, List.append_nil]
  rw [if_neg hdata, setPending]
  by_cases hroom : data.length ≤ o.room
  · rw [if_pos (List.drop_eq_nil_iff.mpr hroom), List.take_of_length_le hroom]
    refine ⟨_, rfl, ⟨⟨hfits.capacity, ?_, ?_, ?_⟩, ?_, rfl, fun _ => h⟩⟩
    · simp [h, hpending]
    · simp [hpending]
    · rw [room] at hroom
      simp only [List.length_append]
      omega
    · simp [written, hpending]
  · have hrest : data.drop o.room ≠ [] := by rwa [ne_eq, List.drop_eq_nil_iff]
    have hfull : (o.given ++ data.take o.room).length = o.capacity := by
      rw [List.length_append, List.length_take]
      rw [room] at hroom ⊢
      omega
    rw [if_neg hrest, if_neg (by rw [hold]; simp)]
    refine ⟨_, rfl, ⟨⟨hfits.capacity, by simpa using hroom, fun _ => hfull.ge, hfull.le⟩, ?_, rfl,
      fun hle => ?_⟩⟩
    · simp [written, hpending]
    · exact absurd hle hroom

/-- A sink that holds bytes back takes nothing. -/
theorem WriterOutlet.Fits.sink_held (hfits : o.Fits capacity) (h : o.blocked = true) (data : Bytes)
    (error : ErrorInfo) : WriterOutlet.sink canHold o data error = (o, error, .truncated) := by
  have hpending := hfits.blocked.mp h
  have hroom : o.room = 0 := by
    have hfull := hfits.full hpending
    rw [room]
    omega
  have hflush : o.flushPending = o := by
    simp [flushPending, hroom]
  rw [sink, if_pos h, hflush]
  exact if_pos (.inl hpending)

end

/-! ## What is seen of a writer -/

/-- What the reads before have given, and the capacity of this one. -/
structure ReadsBefore where
  given : Bytes := []
  capacity : ℕ := 0

/-- What a writer has written, as a writer into a sink has: in the reads before, in this one, and
what it holds back. -/
def Writer.taped (before : ReadsBefore) (w : Writer (WriterOutlet ω) γ) : Writer (WriterTape ω) γ :=
  { w with out := { out := before.given ++ w.out.written, world := w.out.world } }

/-- The setting of a read behind the bytes of some reads before. -/
def outletSetting (before : ReadsBefore) :
    Setting (Writer (WriterOutlet ω) γ) (Writer (WriterTape ω) γ) Status Byte where
  see := Writer.taped before
  told w := w.out.out
  fits w := w.out.Fits before.capacity
  stuck w := w.out.capacity ≤ w.out.given.length
  done := .ok
  paused := .truncated
  lost := .internalError
  lost_ne := by decide
  paused_ne := by decide

/-- What the checks of a call look at. -/
def Writer.flags {σ : Type} (w : Writer σ γ) : Writer Unit Unit where
  out := ()
  finished := w.finished
  stringOpen := w.stringOpen
  numberOpen := w.numberOpen
  failed := w.failed
  valueStreamActive := w.valueStreamActive
  stringReader := w.stringReader
  number := w.number
  maxNumberBytes := w.maxNumberBytes

/-- A writer without where it writes to and without what an interruption changes: the frames, and
how far the pending call has come. -/
def Writer.core {σ : Type} (w : Writer σ γ) : Writer Unit Unit :=
  { w.flags with
    event := {
      kind := w.event.kind
      address := w.event.address
      len := w.event.len
      buffer := w.event.buffer } }

theorem Writer.flags_of_core {σ τ : Type} {w : Writer σ γ} {b : Writer τ γ}
    (h : b.core = w.core) : b.flags = w.flags :=
  congrArg (fun c : Writer Unit Unit => ({ c with event := {} } : Writer Unit Unit)) h

/-- Inside a call, in some phases. -/
structure Writer.Inside (G : Option γ → Prop) (core : Writer Unit Unit) (phases : ℕ → Prop)
    (w : Writer (WriterOutlet ω) γ) : Prop where
  core : w.core = core
  phase : phases w.event.phase
  child : G w.event.child

def Writer.Open (w : Writer (WriterOutlet ω) γ) : Prop := w.out.outputBlocked = false

def Writer.Free (w : Writer (WriterOutlet ω) γ) : Prop := w.out.blocked = false

theorem Writer.Open.free {w : Writer (WriterOutlet ω) γ} (h : w.Open) : w.Free :=
  WriterOutlet.Fits.free_of_open h

/-! ## Steps -/

section

variable {nest : WriterNest γ} {canHold : ℕ → Bool} {before : ReadsBefore} {G : Option γ → Prop}
  {core : Writer Unit Unit} {phases : ℕ → Prop}

/-- A text that does not come behind bytes that are held back. -/
theorem emit_free (before : ReadsBefore) (hold : ∀ n, canHold n = true) {w : Writer (WriterOutlet ω) γ}
    (hfits : w.out.Fits before.capacity) (hfree : w.Free) (data : Bytes) : ∃ o, w.out.Takes before.capacity data o ∧
      w.emit (nest.generatorEnv canHold) data = ({ w with out := o }, .ok) ∧
      (w.taped before).emit nest.tapeEnv data =
        (Writer.taped before { w with out := o }, .ok) := by
  by_cases hdata : data = []
  · refine ⟨w.out, ⟨hfits, by rw [hdata, List.append_nil], rfl, fun _ => hfree⟩, ?_, ?_⟩
    · rw [Writer.emit, if_pos hdata]
    · rw [Writer.emit, if_pos hdata]
  · obtain ⟨o, hsink, htakes⟩ := hfits.sink_free hfree hold data w.error
    refine ⟨o, htakes, ?_, ?_⟩
    · rw [Writer.emit, if_neg hdata]
      change (let r := WriterOutlet.sink canHold w.out data w.error
        let w := { w with out := r.1, error := r.2.1 }
        if r.2.2.soft then (w, r.2.2) else ({ w with failed := true }, r.2.2)) = _
      rw [hsink]
      rfl
    · rw [Writer.emit, if_neg hdata, Writer.taped, Writer.taped, htakes.written, htakes.world,
        ← List.append_assoc]
      rfl

theorem told_emit (data : Bytes) (b : Writer (WriterTape ω) γ) :
    b.out.out <+: (b.emit nest.tapeEnv data).1.out.out := by
  rw [Writer.emit]
  split_ifs
  · exact List.prefix_rfl
  · exact List.prefix_append _ _

/-- A step that is never interrupted. -/
theorem replays_firm {P Q R : Writer (WriterOutlet ω) γ → Prop}
    {f : Writer (WriterOutlet ω) γ → Writer (WriterOutlet ω) γ × Status}
    {g : Writer (WriterTape ω) γ → Writer (WriterTape ω) γ × Status}
    (hgrows : ∀ b, b.out.out <+: (g b).1.out.out)
    (h : ∀ w, w.out.Fits before.capacity → P w → ∃ w' s, f w = (w', s) ∧ g (w.taped before) = (w'.taped before, s) ∧
      w'.out.Fits before.capacity ∧ (s = .ok → Q w')) : (outletSetting before).Replays P f g Q R := by
  refine ⟨hgrows, fun w hfits hw _ => ?_⟩
  obtain ⟨w', s, hf, hg, hfits', hQ⟩ := h w hfits hw
  rw [hf]
  exact ⟨hfits', .inl ⟨hg, hQ⟩⟩

/-- A text goes out behind no bytes that are held back. -/
theorem replays_emit (hold : ∀ n, canHold n = true) (data : Bytes) :
    (outletSetting before).Replays (fun w : Writer (WriterOutlet ω) γ =>
        w.Free ∧ Writer.Inside G core phases w)
      (fun w => w.emit (nest.generatorEnv canHold) data) (fun b => b.emit nest.tapeEnv data)
      (Writer.Inside G core phases) fun _ => False := by
  refine replays_firm (told_emit data) fun w hfits hw => ?_
  obtain ⟨o, htakes, hf, hg⟩ := emit_free before hold hfits hw.1 data
  exact ⟨_, _, hf, hg, htakes.fits, fun _ => ⟨hw.2.core, hw.2.phase, hw.2.child⟩⟩

/-- The text is one byte behind an open outlet, which is left with nothing held back. -/
theorem replays_emitByte (hold : ∀ n, canHold n = true) (b : Byte) :
    (outletSetting before).Replays (fun w : Writer (WriterOutlet ω) γ =>
        w.Open ∧ Writer.Inside G core phases w)
      (fun w => w.emit (nest.generatorEnv canHold) [b]) (fun w => w.emit nest.tapeEnv [b])
      (fun w => w.Free ∧ Writer.Inside G core phases w) fun _ => False := by
  refine replays_firm (told_emit [b]) fun w hfits hw => ?_
  obtain ⟨o, htakes, hf, hg⟩ := emit_free before hold hfits hw.1.free [b]
  exact ⟨_, _, hf, hg, htakes.fits, fun _ =>
    ⟨htakes.free (WriterOutlet.Fits.room_of_open hw.1), hw.2.core, hw.2.phase, hw.2.child⟩⟩

/-- A text that may come behind bytes that are held back. -/
theorem replays_emitHeld (hold : ∀ n, canHold n = true) {P : Writer (WriterOutlet ω) γ → Prop}
    (hP : ∀ w out, P w → P { w with out }) {data : Bytes} (hdata : data ≠ []) :
    (outletSetting before).Replays P (fun w => w.emit (nest.generatorEnv canHold) data)
      (fun b => b.emit nest.tapeEnv data) P P := by
  refine ⟨told_emit data, fun w hfits hw _ => ?_⟩
  cases hheld : w.out.blocked with
  | false =>
      obtain ⟨o, htakes, hf, hg⟩ := emit_free before hold hfits hheld data
      rw [hf]
      exact ⟨htakes.fits, .inl ⟨hg, fun _ => hP w o hw⟩⟩
  | true =>
      have hf : w.emit (nest.generatorEnv canHold) data = (w, .truncated) := by
        rw [Writer.emit, if_neg hdata]
        change (let r := WriterOutlet.sink canHold w.out data w.error
          let w := { w with out := r.1, error := r.2.1 }
          if r.2.2.soft then (w, r.2.2) else ({ w with failed := true }, r.2.2)) = _
        rw [hfits.sink_held hheld]
        rfl
      rw [hf]
      exact ⟨hfits, .inr ⟨rfl, hfits.full (hfits.blocked.mp hheld), hw, rfl⟩⟩

/-! ## Steps that do not write -/

/-- A step that neither writes nor looks at what is written. -/
structure Aside (f : Writer (WriterOutlet ω) γ → Writer (WriterOutlet ω) γ × Status)
    (g : Writer (WriterTape ω) γ → Writer (WriterTape ω) γ × Status) : Prop where
  see : ∀ before w, g (w.taped before) = ((f w).1.taped before, (f w).2)
  out : ∀ w, (f w).1.out = w.out
  tape : ∀ b, (g b).1.out = b.out

/-- A check: a step that leaves a writer as it is, and looks at its flags alone. -/
structure Checks (f : Writer (WriterOutlet ω) γ → Writer (WriterOutlet ω) γ × Status)
    (g : Writer (WriterTape ω) γ → Writer (WriterTape ω) γ × Status) : Prop extends Aside f g where
  keeps : ∀ w, (f w).2 = .ok → (f w).1 = w
  again : ∀ (w : Writer (WriterOutlet ω) γ) (b : Writer (WriterTape ω) γ), (f w).2 = .ok →
    b.flags = w.flags → g b = (b, .ok)

/-- The steps at the start of a call: once they have been made, they are passed over. -/
structure Enters (f : Writer (WriterOutlet ω) γ → Writer (WriterOutlet ω) γ × Status)
    (g : Writer (WriterTape ω) γ → Writer (WriterTape ω) γ × Status) : Prop extends Aside f g where
  flags : ∀ w, (f w).2 = .ok → (f w).1.flags = w.flags
  child : ∀ w, (f w).2 = .ok → (f w).1.event.child = w.event.child
  again : ∀ (w : Writer (WriterOutlet ω) γ) (b : Writer (WriterTape ω) γ), (f w).2 = .ok →
    b.core = (f w).1.core → g b = (b, .ok)

section

variable {P Q R : Writer (WriterOutlet ω) γ → Prop}
  {f f' : Writer (WriterOutlet ω) γ → Writer (WriterOutlet ω) γ × Status}
  {g g' : Writer (WriterTape ω) γ → Writer (WriterTape ω) γ × Status}

theorem Aside.replays (h : Aside f g) (hQ : ∀ w, P w → (f w).2 = .ok → Q (f w).1) :
    (outletSetting before).Replays P f g Q R := by
  refine .of_eq (fun b => ?_) (fun w _ => h.see before w) (fun w hfits _ => ?_) hQ
  · change b.out.out <+: (g b).1.out.out
    rw [h.tape]
  · change (f w).1.out.Fits before.capacity
    rw [h.out]
    exact hfits

theorem Checks.andThen (h : Checks f g) (hP : ∀ w, P w → w.core = core)
    (hR : ∀ w, R w → w.core = core) (h' : (outletSetting before).Replays P f' g' Q R) :
    (outletSetting before).Replays P (fun w => andThenOk (f w) f') (fun b => andThenOk (g b) g')
      Q R := by
  have hfirst : (outletSetting before).Replays P f g P R :=
    h.toAside.replays fun w hw hok => by rwa [h.keeps w hok]
  refine hfirst.andThen h' (fun _ hr => hr) fun w w' hw hok hr => ⟨hr, ?_⟩
  exact h.again w _ hok (Writer.flags_of_core ((hR w' hr).trans (hP w hw).symm))

theorem aside_check {bad : Writer (WriterOutlet ω) γ → Bool} {bad' : Writer (WriterTape ω) γ → Bool}
    (code : Status) (message : String) (hbad : ∀ before w, bad' (w.taped before) = bad w) :
    Aside (fun w => w.check (bad w) message code) (fun b => b.check (bad' b) message code) where
  see before w := by
    rw [Writer.check, Writer.check, hbad]
    cases bad w <;> rfl
  out w := by
    rw [Writer.check]
    cases bad w <;> rfl
  tape b := by
    rw [Writer.check]
    cases bad' b <;> rfl

theorem checks_check {bad : Writer (WriterOutlet ω) γ → Bool} {bad' : Writer (WriterTape ω) γ → Bool}
    {code : Status} (hcode : code ≠ .ok) (message : String)
    (hbad : ∀ (w : Writer (WriterOutlet ω) γ) (b : Writer (WriterTape ω) γ),
      b.flags = w.flags → bad' b = bad w) :
    Checks (fun w => w.check (bad w) message code) (fun b => b.check (bad' b) message code) where
  toAside := aside_check code message fun _ w => hbad w _ rfl
  keeps w hok := by
    rw [Writer.check] at hok ⊢
    cases hb : bad w with
    | false => rfl
    | true => rw [hb] at hok; exact absurd hok hcode
  again w b hok hflags := by
    have hpass : bad w = false := by
      rw [Writer.check] at hok
      cases hb : bad w with
      | false => rfl
      | true => rw [hb] at hok; exact absurd hok hcode
    rw [Writer.check, hbad w b hflags, hpass]
    rfl

theorem checks_checkFailed : @Checks ω γ Writer.checkFailed Writer.checkFailed :=
  checks_check (by decide) _ fun _ _ h => congrArg Writer.failed h

theorem checks_checkStream : @Checks ω γ Writer.checkStream Writer.checkStream :=
  checks_check (by decide) _ fun _ _ h => congrArg Writer.valueStreamActive h

theorem checks_checkString : @Checks ω γ Writer.checkString Writer.checkString :=
  checks_check (by decide) _ fun _ _ h => congrArg Writer.stringOpen h

theorem checks_checkNumber : @Checks ω γ Writer.checkNumber Writer.checkNumber :=
  checks_check (by decide) _ fun _ _ h => congrArg Writer.numberOpen h

theorem Checks.comp (h : Checks f g) (h' : Checks f' g') :
    Checks (fun w => andThenOk (f w) f') (fun b => andThenOk (g b) g') where
  see before w := by
    have hw := h.see before w
    rw [hw, andThenOk, andThenOk]
    split_ifs
    · exact h'.see before _
    · rfl
  out w := by
    rw [andThenOk]
    split_ifs
    · rw [h'.out, h.out]
    · exact h.out w
  tape b := by
    rw [andThenOk]
    split_ifs
    · rw [h'.tape, h.tape]
    · exact h.tape b
  keeps w hok := by
    rw [andThenOk] at hok ⊢
    split_ifs at hok ⊢ with hfirst
    · rw [h'.keeps _ hok, h.keeps w hfirst]
    · exact absurd hok hfirst
  again w b hok hflags := by
    rw [andThenOk] at hok
    split_ifs at hok with hfirst
    · rw [h.keeps w hfirst] at hok
      rw [h.again w b hfirst hflags, andThenOk_ok]
      exact h'.again w b hok hflags
    · exact absurd hok hfirst

theorem checks_requireAvailable :
    @Checks ω γ Writer.requireAvailable Writer.requireAvailable :=
  checks_checkFailed.comp (checks_checkStream.comp checks_checkNumber)

theorem Checks.enters (h : Checks f g) (h' : Enters f' g') :
    Enters (fun w => andThenOk (f w) f') (fun b => andThenOk (g b) g') where
  see before w := by
    have hw := h.see before w
    rw [hw, andThenOk, andThenOk]
    split_ifs
    · exact h'.see before _
    · rfl
  out w := by
    rw [andThenOk]
    split_ifs
    · rw [h'.out, h.out]
    · exact h.out w
  tape b := by
    rw [andThenOk]
    split_ifs
    · rw [h'.tape, h.tape]
    · exact h.tape b
  flags w hok := by
    rw [andThenOk] at hok ⊢
    split_ifs at hok ⊢ with hfirst
    · rw [h'.flags _ hok, h.keeps w hfirst]
    · exact absurd hok hfirst
  child w hok := by
    rw [andThenOk] at hok ⊢
    split_ifs at hok ⊢ with hfirst
    · rw [h'.child _ hok, h.keeps w hfirst]
    · exact absurd hok hfirst
  again w b hok hcore := by
    rw [andThenOk] at hok hcore
    split_ifs at hok hcore with hfirst
    · rw [h.keeps w hfirst] at hok hcore
      have hflags := (Writer.flags_of_core hcore).trans (h'.flags w hok)
      rw [h.again w b hfirst hflags, andThenOk_ok]
      exact h'.again w b hok hcore
    · exact absurd hok hfirst

/-- A call that may be interrupted anywhere; `G` is what holds of a nested generator. -/
def Resumes (before : ReadsBefore) (G : Option γ → Prop)
    (f : Writer (WriterOutlet ω) γ → Writer (WriterOutlet ω) γ × Status)
    (g : Writer (WriterTape ω) γ → Writer (WriterTape ω) γ × Status) : Prop :=
  (outletSetting before).Replays (fun w => G w.event.child) f g (fun w => G w.event.child)
    fun w => G w.event.child

/-- A call whose start is passed over once it has been made. -/
theorem Enters.replays (h : Enters f g) (hrest : ∀ core, (outletSetting before).Replays
    (Writer.Inside G core fun _ => True) f' g' (fun w => G w.event.child)
    (Writer.Inside G core fun _ => True)) :
    Resumes before G (fun w => andThenOk (f w) f') (fun b => andThenOk (g b) g') := by
  refine .read (fun w => (f w).1.core) { out := () } fun core => ?_
  have hfirst : (outletSetting before).Replays (fun w => G w.event.child ∧ (f w).1.core = core) f g
      (Writer.Inside G core fun _ => True) (fun w => G w.event.child) := by
    refine h.toAside.replays fun w hw hok => ⟨hw.2, trivial, ?_⟩
    rw [h.child w hok]
    exact hw.1
  refine hfirst.andThen (hrest core) (fun _ hr => hr) fun w w' hw hok hr => ⟨hr.child, ?_⟩
  exact h.again w _ hok (hr.core.trans hw.2.symm)

/-- A call that begins with checks. -/
theorem resumes_of_inside (h : ∀ core, (outletSetting before).Replays
    (Writer.Inside G core fun _ => True) f g (fun w => G w.event.child)
    (Writer.Inside G core fun _ => True)) : Resumes before G f g := by
  refine .read Writer.core { out := () } fun core => ?_
  exact (h core).imp (fun w hw => ⟨hw.2, trivial, hw.1⟩) (fun _ hw => hw) fun _ hw => hw.child

theorem unblocked_tape (b : Writer (WriterTape ω) γ) : b.unblocked nest.tapeEnv = (b, .ok) := rfl

theorem unblocked_shut {w : Writer (WriterOutlet ω) γ} (h : w.out.outputBlocked = true) :
    w.unblocked (nest.generatorEnv canHold) = (w, .truncated) := if_pos h

theorem unblocked_open {w : Writer (WriterOutlet ω) γ} (h : w.Open) :
    w.unblocked (nest.generatorEnv canHold) = (w, .ok) := if_neg (Bool.eq_false_iff.mp h)

/-- A step behind the question whether the output is blocked. -/
theorem replays_unblocked (hPR : ∀ w, P w → R w)
    (h : (outletSetting before).Replays (fun w => w.Open ∧ P w) f g Q R) :
    (outletSetting before).Replays P
      (fun w => andThenOk (w.unblocked (nest.generatorEnv canHold)) f)
      (fun b => andThenOk (b.unblocked nest.tapeEnv) g) Q R := by
  have hfirst : (outletSetting before).Replays P
      (fun w => w.unblocked (nest.generatorEnv canHold)) (fun b => b.unblocked nest.tapeEnv)
      (fun w => w.Open ∧ P w) R := by
    refine ⟨fun _ => List.prefix_rfl, fun w hfits hw _ => ?_⟩
    cases hblocked : w.out.outputBlocked with
    | false =>
        rw [unblocked_open hblocked]
        exact ⟨hfits, .inl ⟨rfl, fun _ => ⟨hblocked, hw⟩⟩⟩
    | true =>
        rw [unblocked_shut hblocked]
        exact ⟨hfits, .inr ⟨rfl, WriterOutlet.Fits.full_of_blocked hfits hblocked, hPR w hw, rfl⟩⟩
  exact hfirst.andThen h (fun _ hr => hr) fun _ _ _ _ hr => ⟨hr, rfl⟩

/-- A phase of a call, and the phases behind it. -/
theorem replays_inPhase {n : ℕ}
    (hstep : (outletSetting before).Replays (Writer.Inside G core (· = n)) f g
      (Writer.Inside G core (n + 1 ≤ ·)) (Writer.Inside G core (· = n)))
    (hrest : (outletSetting before).Replays (Writer.Inside G core (n + 1 ≤ ·)) f' g' Q
      (Writer.Inside G core (n + 1 ≤ ·))) :
    (outletSetting before).Replays (Writer.Inside G core (n ≤ ·))
      (fun w => andThenOk (w.inPhase n f) f') (fun b => andThenOk (b.inPhase n g) g') Q
      (Writer.Inside G core (n ≤ ·)) := by
  have hfirst : (outletSetting before).Replays (Writer.Inside G core (n ≤ ·))
      (fun w => w.inPhase n f) (fun b => b.inPhase n g) (Writer.Inside G core (n + 1 ≤ ·))
      (Writer.Inside G core (· = n)) := by
    refine Setting.Replays.ite (fun _ => Iff.rfl) ?_ ?_
    · exact hstep.imp (fun w hw => ⟨hw.1.core, hw.2, hw.1.child⟩) (fun _ hw => hw)
        fun w hw => ⟨hw, hw.phase⟩
    · refine replays_firm (fun _ => List.prefix_rfl) fun w hfits hw => ?_
      exact ⟨w, .ok, rfl, rfl, hfits, fun _ =>
        ⟨hw.1.core, Nat.lt_of_le_of_ne hw.1.phase (Ne.symm hw.2), hw.1.child⟩⟩
  refine hfirst.andThen hrest (fun w hw => ⟨hw.core, hw.phase.ge, hw.child⟩) fun w w' _ _ hr => ?_
  exact ⟨⟨hr.core, Nat.le_of_succ_le hr.phase, hr.child⟩, if_neg (Nat.ne_of_gt hr.phase)⟩

theorem aside_setPhase (n : ℕ) : Aside (fun w : Writer (WriterOutlet ω) γ => (w.setPhase n, .ok))
    (fun b : Writer (WriterTape ω) γ => (b.setPhase n, .ok)) :=
  ⟨fun _ _ => rfl, fun _ => rfl, fun _ => rfl⟩

theorem replays_setPhase (n : ℕ) : (outletSetting before).Replays
    (@Writer.Inside ω γ G core phases) (fun w => (w.setPhase n, .ok))
    (fun b => (b.setPhase n, .ok)) (Writer.Inside G core (· = n)) R :=
  (aside_setPhase n).replays fun _ hw _ => ⟨hw.core, rfl, hw.child⟩

/-- A call is through. -/
theorem replays_clearEvent (hG : G none) : (outletSetting before).Replays P
    (fun w : Writer (WriterOutlet ω) γ => (w.clearEvent, .ok)) (fun b => (b.clearEvent, .ok))
    (fun w => G w.event.child) R :=
  Aside.replays ⟨fun _ _ => rfl, fun _ => rfl, fun _ => rfl⟩ fun _ _ _ => hG

theorem replays_emitPhase (hold : ∀ n, canHold n = true) (text : Bytes) (next : ℕ) :
    (outletSetting before).Replays (@Writer.Inside ω γ G core phases)
      (Writer.emitPhase (nest.generatorEnv canHold) text next)
      (Writer.emitPhase nest.tapeEnv text next) (Writer.Inside G core (· = next))
      (Writer.Inside G core phases) :=
  replays_unblocked (fun _ hw => hw) <|
    (((replays_emit hold text).imp (fun _ hw => ⟨hw.1.free, hw.2⟩) (fun _ hw => hw)
      fun _ hnever => hnever.elim).andThen_firm (replays_setPhase next))

/-- One more byte of a call is written. -/
def Writer.advanced {σ : Type} (w : Writer σ γ) : Writer σ γ :=
  { w with event := { w.event with off := w.event.off + 1 } }

theorem emitEach_cons {σ : Type} (env : WriterEnv σ γ) (piece : Byte → Bytes) (ch : Byte)
    (data : Bytes) (w : Writer σ γ) : Writer.emitEach env piece (ch :: data) w =
      andThenOk (w.unblocked env) fun w => andThenOk (w.emit env (piece ch)) fun w =>
        Writer.emitEach env piece data w.advanced := rfl

theorem told_emitEach (piece : Byte → Bytes) (data : Bytes) (b : Writer (WriterTape ω) γ) :
    b.out.out <+: (Writer.emitEach nest.tapeEnv piece data b).1.out.out := by
  induction data generalizing b with
  | nil => exact List.prefix_rfl
  | cons ch data ih =>
      have hone : b.out.out <+: (b.emit nest.tapeEnv (piece ch)).1.out.out := told_emit _ b
      rw [emitEach_cons, unblocked_tape, andThenOk_ok, andThenOk]
      split_ifs
      · exact hone.trans (ih (b.emit nest.tapeEnv (piece ch)).1.advanced)
      · exact hone

/-- The bytes of a call from where it has come to. -/
theorem replays_emitFrom (hold : ∀ n, canHold n = true) (piece : Byte → Bytes) (data : Bytes) :
    (outletSetting before).Replays (@Writer.Inside ω γ G core phases)
      (fun w => Writer.emitEach (nest.generatorEnv canHold) piece (data.drop w.event.off) w)
      (fun b => Writer.emitEach nest.tapeEnv piece (data.drop b.event.off) b)
      (Writer.Inside G core phases) (Writer.Inside G core phases) := by
  refine .loop (fun b => told_emitEach piece _ b) (fun w => data.length - w.event.off)
    fun w hfits hw => ?_
  by_cases hend : data.length ≤ w.event.off
  · have hdrop : data.drop w.event.off = [] := List.drop_eq_nil_iff.mpr hend
    refine .inl ⟨by rw [hdrop]; rfl, ?_, hw⟩
    rw [show ((outletSetting before).see w).event.off = w.event.off from rfl, hdrop]
    rfl
  have hdrop : data.drop w.event.off = data[w.event.off] :: data.drop (w.event.off + 1) :=
    List.drop_eq_getElem_cons (by omega)
  cases hblocked : w.out.outputBlocked with
  | true =>
      refine .inr (.inl ⟨?_, WriterOutlet.Fits.full_of_blocked hfits hblocked⟩)
      rw [hdrop, emitEach_cons, unblocked_shut hblocked]
      rfl
  | false =>
      have hopen : w.Open := hblocked
      obtain ⟨o, htakes, hf, hg⟩ := @emit_free _ _ nest _ before hold w hfits hopen.free
        (piece data[w.event.off])
      refine .inr (.inr ⟨Writer.advanced { w with out := o }, htakes.fits,
        ⟨hw.core, hw.phase, hw.child⟩, ?_, ?_, ?_⟩)
      · change data.length - (w.event.off + 1) < data.length - w.event.off
        omega
      · rw [hdrop, emitEach_cons, unblocked_open hopen, andThenOk_ok, hf]
        rfl
      · rw [show ((outletSetting before).see w).event.off = w.event.off from rfl, hdrop,
          emitEach_cons, unblocked_tape, andThenOk_ok,
          show (outletSetting before).see w = w.taped before from rfl, hg]
        rfl

/-! ## Values in their place -/

theorem told_placeValue (b : Writer (WriterTape ω) γ) :
    b.out.out <+: (b.placeValue nest.tapeEnv).1.out.out := by
  rw [Writer.placeValue]
  split
  · split_ifs <;> exact List.prefix_rfl
  · split
    · split_ifs
      · exact told_emit _ b
      · exact List.prefix_rfl
    · split_ifs <;> exact List.prefix_rfl

/-- The frames of a value that comes next, behind the comma in front of it. -/
theorem replays_placeValue (hold : ∀ n, canHold n = true) :
    (outletSetting before).Replays (fun w : Writer (WriterOutlet ω) γ =>
        w.Open ∧ Writer.Inside G core phases w)
      (Writer.placeValue (nest.generatorEnv canHold)) (Writer.placeValue nest.tapeEnv)
      (fun w => w.Free ∧ Writer.Inside G core phases w) fun _ => False := by
  refine replays_firm told_placeValue fun w hfits hw => ?_
  have hsame (frames : List WriterFrame) (root : Bool) :
      Writer.Inside G core phases { w with frames, rootWritten := root } :=
    ⟨hw.2.core, hw.2.phase, hw.2.child⟩
  rw [Writer.placeValue, Writer.placeValue, show (w.taped before).frames = w.frames from rfl]
  cases hframes : w.frames with
  | nil =>
      have hroot : (w.taped before).rootWritten = w.rootWritten := rfl
      dsimp only
      rw [hroot]
      split_ifs
      · exact ⟨_, _, rfl, rfl, hfits, fun h => by cases h⟩
      · exact ⟨_, _, rfl, rfl, hfits, fun _ => ⟨hw.1.free, hsame _ _⟩⟩
  | cons frame rest =>
      obtain ⟨kind, count, after⟩ := frame
      cases kind with
      | object =>
          cases after with
          | false => exact ⟨_, _, rfl, rfl, hfits, fun h => by cases h⟩
          | true => exact ⟨_, _, rfl, rfl, hfits, fun _ => ⟨hw.1.free, hsame _ _⟩⟩
      | array =>
          dsimp only
          split_ifs with hcount
          · obtain ⟨o, htakes, hf, hg⟩ := @emit_free _ _ nest _ before hold w hfits hw.1.free [0x2c]
            rw [hf, hg, andThenOk_ok, andThenOk_ok]
            exact ⟨_, _, rfl, rfl, htakes.fits, fun _ =>
              ⟨htakes.free (WriterOutlet.Fits.room_of_open hw.1), hw.2.core, hw.2.phase,
                hw.2.child⟩⟩
          · exact ⟨_, _, rfl, rfl, hfits, fun _ => ⟨hw.1.free, hsame _ _⟩⟩

/-- `lonejson__writer_before_value`. -/
theorem replays_beforeValue (hold : ∀ n, canHold n = true) :
    (outletSetting before).Replays (@Writer.Inside ω γ G core phases)
      (Writer.beforeValue (nest.generatorEnv canHold)) (Writer.beforeValue nest.tapeEnv)
      (fun w => w.Free ∧ Writer.Inside G core phases w) (Writer.Inside G core phases) := by
  have hcore : ∀ w, @Writer.Inside ω γ G core phases w → w.core = core := fun _ hw => hw.core
  refine checks_checkFailed.andThen hcore hcore <| checks_checkStream.andThen hcore hcore <|
    checks_checkString.andThen hcore hcore <| checks_checkNumber.andThen hcore hcore <|
    Checks.andThen (checks_check (by decide) _ fun _ _ h => congrArg Writer.finished h)
      hcore hcore <| replays_unblocked (fun _ hw => hw) ?_
  exact (replays_placeValue hold).imp (fun _ hw => hw) (fun _ hw => hw) fun _ hnever => hnever.elim

/-! ## The start of a call -/

theorem Aside.andThen (h : Aside f g) (h' : Aside f' g') :
    Aside (fun w => andThenOk (f w) f') (fun b => andThenOk (g b) g') where
  see before w := by
    rw [h.see before w, andThenOk, andThenOk]
    split_ifs
    · exact h'.see before _
    · rfl
  out w := by
    rw [andThenOk]
    split_ifs
    · rw [h'.out, h.out]
    · exact h.out w
  tape b := by
    rw [andThenOk]
    split_ifs
    · rw [h'.tape, h.tape]
    · exact h.tape b

/-- One of two steps. -/
theorem Aside.ite {p : Writer (WriterOutlet ω) γ → Prop} {q : Writer (WriterTape ω) γ → Prop}
    [DecidablePred p] [DecidablePred q] (hq : ∀ before w, q (w.taped before) ↔ p w)
    (h : Aside f g) (h' : Aside f' g') :
    Aside (fun w => if p w then f w else f' w) (fun b => if q b then g b else g' b) where
  see before w := by
    by_cases hp : p w
    · rw [if_pos hp, if_pos ((hq before w).mpr hp)]
      exact h.see before w
    · rw [if_neg hp, if_neg (fun hb => hp ((hq before w).mp hb))]
      exact h'.see before w
  out w := by
    split_ifs
    · exact h.out w
    · exact h'.out w
  tape b := by
    split_ifs
    · exact h.tape b
    · exact h'.tape b

/-- A step behind an update. -/
theorem Aside.comp {u : Writer (WriterOutlet ω) γ → Writer (WriterOutlet ω) γ}
    {u' : Writer (WriterTape ω) γ → Writer (WriterTape ω) γ} (h : Aside f g)
    (hu : ∀ before w, u' (w.taped before) = (u w).taped before) (hout : ∀ w, (u w).out = w.out)
    (htape : ∀ b, (u' b).out = b.out) : Aside (fun w => f (u w)) (fun b => g (u' b)) where
  see before w := by
    rw [hu]
    exact h.see before (u w)
  out w := by rw [h.out, hout]
  tape b := by rw [h.tape, htape]

theorem aside_update {u : Writer (WriterOutlet ω) γ → Writer (WriterOutlet ω) γ}
    {u' : Writer (WriterTape ω) γ → Writer (WriterTape ω) γ} (status : Status)
    (hu : ∀ before w, u' (w.taped before) = (u w).taped before) (hout : ∀ w, (u w).out = w.out)
    (htape : ∀ b, (u' b).out = b.out) :
    Aside (fun w => (u w, status)) (fun b => (u' b, status)) :=
  ⟨fun before w => Prod.ext (hu before w) rfl, hout, htape⟩

theorem first_ok {σ : Type} {r : σ × Status} {k : σ → σ × Status} (h : (andThenOk r k).2 = .ok) :
    r.2 = .ok := by
  by_contra hr
  rw [andThenOk, if_neg hr] at h
  exact hr h

theorem requireAvailable_ok {w : Writer (WriterOutlet ω) γ} (h : w.requireAvailable.2 = .ok) :
    w.requireAvailable = (w, .ok) :=
  Prod.ext (checks_requireAvailable.keeps w h) h

theorem beginEvent_ok {kind : WriterEventKind} (address : Address) (len : ℕ)
    {w : Writer (WriterOutlet ω) γ} (h : (w.beginEvent kind address len).2 = .ok) :
    w.requireAvailable = (w, .ok) ∧
      (w.event.kind = .none ∧ (w.beginEvent kind address len).1 =
          { w with event := { kind, address, len, buffer := w.event.buffer,
                              child := w.event.child } } ∨
        w.event.kind ≠ .none ∧ (w.beginEvent kind address len).1 = w ∧ w.event.kind = kind ∧
          w.event.address = address ∧ w.event.len = len) := by
  have havailable : w.requireAvailable = (w, .ok) := requireAvailable_ok (first_ok h)
  refine ⟨havailable, ?_⟩
  rw [Writer.beginEvent, havailable, andThenOk_ok] at h ⊢
  by_cases hkind : w.event.kind = .none
  · exact .inl ⟨hkind, by rw [if_neg (not_not.mpr hkind)]⟩
  · rw [if_pos hkind, Writer.check] at h ⊢
    split_ifs at h ⊢ with hbad
    · cases h
    · simp only [ne_eq, decide_not, Bool.or_eq_true, Bool.not_eq_true', decide_eq_false_iff_not,
        not_or, not_not] at hbad
      exact .inr ⟨hkind, rfl, hbad.1.1, hbad.1.2, hbad.2⟩

theorem enters_beginEvent {kind : WriterEventKind} (hkind : kind ≠ .none) (address : Address)
    (len : ℕ) : Enters (fun w : Writer (WriterOutlet ω) γ => w.beginEvent kind address len)
      (fun b => b.beginEvent kind address len) where
  toAside := checks_requireAvailable.toAside.andThen <|
    Aside.ite (fun _ _ => Iff.rfl) (aside_check _ _ fun _ _ => rfl) <|
      aside_update .ok (fun _ _ => rfl) (fun _ => rfl) fun _ => rfl
  flags w hok := by
    obtain ⟨-, ⟨-, hw⟩ | ⟨-, hw, -⟩⟩ := beginEvent_ok address len hok
    · rw [hw]; rfl
    · rw [hw]
  child w hok := by
    obtain ⟨-, ⟨-, hw⟩ | ⟨-, hw, -⟩⟩ := beginEvent_ok address len hok <;> rw [hw]
  again w b hok hcore := by
    obtain ⟨havailable, hcases⟩ := beginEvent_ok address len hok
    have hflags : b.flags = w.flags := by
      refine (Writer.flags_of_core hcore).trans ?_
      obtain ⟨-, hw⟩ | ⟨-, hw, -⟩ := hcases
      · rw [hw]; rfl
      · rw [hw]
    have hevent : b.event.kind = kind ∧ b.event.address = address ∧ b.event.len = len := by
      have hb := congrArg Writer.event hcore
      simp only [Writer.core, WriterEvent.mk.injEq, and_true, true_and] at hb
      obtain ⟨-, hw⟩ | ⟨-, hw, hevent⟩ := hcases
      · rw [hw] at hb
        exact ⟨hb.1, hb.2.1, hb.2.2.1⟩
      · rw [hw] at hb
        exact ⟨hb.1.trans hevent.1, hb.2.1.trans hevent.2.1, hb.2.2.1.trans hevent.2.2⟩
    have hb := checks_requireAvailable.again w b (congrArg Prod.snd havailable) hflags
    rw [Writer.beginEvent, hb, andThenOk_ok, if_pos (by rw [hevent.1]; exact hkind), Writer.check,
      if_neg (by simp [hevent.1, hevent.2.1, hevent.2.2])]

end

end

end Lonejson
