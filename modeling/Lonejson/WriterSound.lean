import Lonejson.WriterRefusals

/-!
# What holds of every writer

A rule for steps that may fail, with one condition for the state after success and one for the
state after an error. With it, what every call of a writer keeps.
-/

namespace Lonejson

/-! ## Steps that may fail -/

/-- From `P`, a step leads to `Q` where it succeeds and to `R` where it does not. -/
def Ends {α : Type} (P : α → Prop) (f : α → α × Status) (Q R : α → Prop) : Prop :=
  ∀ a, P a → ((f a).2 = .ok → Q (f a).1) ∧ ((f a).2 ≠ .ok → R (f a).1)

section

variable {α : Type} {P P' Q Q' R R' : α → Prop} {f g : α → α × Status}

theorem Ends.andThen (hf : Ends P f Q R) (hg : Ends Q g Q' R) :
    Ends P (fun a => andThenOk (f a) g) Q' R := by
  intro a ha
  obtain ⟨hok, hnot⟩ := hf a ha
  dsimp only
  by_cases h : (f a).2 = .ok
  · rw [andThenOk, if_pos h]
    exact hg _ (hok h)
  · rw [andThenOk, if_neg h]
    exact ⟨fun h' => absurd h' h, fun _ => hnot h⟩

theorem Ends.consequence (h : Ends P f Q R) (hP : ∀ a, P' a → P a) (hQ : ∀ a, Q a → Q' a)
    (hR : ∀ a, R a → R' a) : Ends P' f Q' R' := by
  intro a ha
  obtain ⟨hok, hnot⟩ := h a (hP a ha)
  exact ⟨fun h' => hQ _ (hok h'), fun h' => hR _ (hnot h')⟩

/-- A step that succeeds. -/
theorem ends_update {u : α → α} (h : ∀ a, P a → Q (u a)) : Ends P (fun a => (u a, .ok)) Q R :=
  fun a ha => ⟨fun _ => h a ha, fun h' => absurd rfl h'⟩

/-- A step that fails. -/
theorem ends_error {u : α → α} {code : Status} (hcode : code ≠ .ok) (h : ∀ a, P a → R (u a)) :
    Ends P (fun a => (u a, code)) Q R :=
  fun a ha => ⟨fun h' => absurd h' hcode, fun _ => h a ha⟩

theorem Ends.ite {p : α → Prop} [DecidablePred p] (hf : Ends (fun a => P a ∧ p a) f Q R)
    (hg : Ends (fun a => P a ∧ ¬ p a) g Q R) : Ends P (fun a => if p a then f a else g a) Q R := by
  intro a ha
  dsimp only
  by_cases h : p a
  · rw [if_pos h]
    exact hf a ⟨ha, h⟩
  · rw [if_neg h]
    exact hg a ⟨ha, h⟩

/-- What a step reads may be fixed. -/
theorem Ends.read {β : Type} (r : α → β) {f : β → α → α × Status}
    (h : ∀ b, Ends (fun a => P a ∧ r a = b) (f b) Q R) : Ends P (fun a => f (r a) a) Q R :=
  fun a ha => h (r a) a ⟨ha, rfl⟩

end

variable {σ γ : Type}

/-! ## The invariant -/

/-- What the invariant reads. -/
structure WriterMarks (γ : Type) where
  stringOpen : Bool
  available : Bool
  event : WriterEvent γ

def Writer.marks (w : Writer σ γ) : WriterMarks γ := ⟨w.stringOpen, w.available, w.event⟩

/-- What every call keeps: a string is open only in a writer that is available, and an event that
is pending, other than that of a nested value, stands at its beginning. -/
structure WriterMarks.Sound (m : WriterMarks γ) : Prop where
  opened : m.stringOpen = true → m.available = true
  phase : m.event.kind ≠ .none → m.event.kind ≠ .child → m.event.phase = 0

def Writer.Sound (w : Writer σ γ) : Prop := w.marks.Sound

theorem Writer.Sound.phaseOf {w : Writer σ γ} (h : w.Sound) {kind : WriterEventKind}
    (hnone : kind ≠ .none) (hchild : kind ≠ .child) :
    w.event.kind = kind → w.event.phase = 0 := by
  rintro rfl
  exact h.phase hnone hchild

/-- Steps that leave alone what the invariant reads. -/
def Keeps (f : Writer σ γ → Writer σ γ × Status) : Prop := ∀ w, (f w).1.marks = w.marks

/-- `Ends` for conditions on what the invariant reads. -/
def Leads (P : WriterMarks γ → Prop) (f : Writer σ γ → Writer σ γ × Status)
    (Q R : WriterMarks γ → Prop) : Prop :=
  Ends (fun w => P w.marks) f (fun w => Q w.marks) fun w => R w.marks

section

variable {f g : Writer σ γ → Writer σ γ × Status} {P Q : WriterMarks γ → Prop}

theorem Keeps.andThen (hf : Keeps f) (hg : Keeps g) : Keeps fun w => andThenOk (f w) g := by
  intro w
  dsimp only
  rw [andThenOk]
  split_ifs
  · exact (hg _).trans (hf w)
  · exact hf w

theorem keeps_update {u : Writer σ γ → Writer σ γ} (h : ∀ w, (u w).marks = w.marks)
    (code : Status) : Keeps fun w => (u w, code) := h

theorem keeps_check (bad : Writer σ γ → Bool) (message : String) (code : Status) :
    Keeps fun w => w.check (bad w) message code := by
  intro w
  dsimp only
  cases bad w with
  | true => rfl
  | false => rfl

theorem Keeps.leads (hf : Keeps f) : Leads P f P P := by
  intro w hw
  have h : P (f w).1.marks := (hf w).symm ▸ hw
  exact ⟨fun _ => h, fun _ => h⟩

/-- A check that is passed. -/
theorem leads_check {bad : Writer σ γ → Bool} {message : String} {code : Status}
    (hcode : code ≠ .ok) (h : ∀ w, P w.marks → bad w = false → Q w.marks) :
    Leads P (fun w => w.check (bad w) message code) Q P := by
  intro w hw
  dsimp only
  cases hbad : bad w with
  | true => exact ⟨fun h' => absurd h' hcode, fun _ => hw⟩
  | false => exact ⟨fun _ => h w hw hbad, fun h' => absurd rfl h'⟩

end

/-! ## The steps of the calls -/

section

variable {env : WriterEnv σ γ} {push : σ → Bytes → σ} {told : σ → Bytes}
  (hs : env.Accepts push told) {P : WriterMarks γ → Prop}
include hs

theorem keeps_emit (data : Bytes) : Keeps fun w => w.emit env data := by
  intro w
  dsimp only
  by_cases hdata : data = []
  · rw [Writer.emit, if_pos hdata]
  · rw [emit_eq hs.toSinks w hdata]
    rfl

theorem keeps_unblocked : Keeps fun w => w.unblocked env := by
  intro w
  dsimp only
  rw [unblocked_eq hs.toSinks]

omit hs in
theorem keeps_frames (frames : List WriterFrame) :
    Keeps fun w : Writer σ γ => ({ w with frames }, .ok) := fun _ => rfl

theorem keeps_placeValue : Keeps fun w => w.placeValue env := by
  intro w
  dsimp only
  rw [Writer.placeValue]
  split
  · split_ifs <;> rfl
  · next frame rest hframes =>
    split
    · by_cases hcount : frame.count ≠ 0
      · rw [if_pos hcount]
        exact (keeps_emit hs [0x2c]).andThen (keeps_frames _) w
      · rw [if_neg hcount]
        rfl
    · split_ifs <;> rfl

theorem keeps_beforeValue : Keeps fun w => w.beforeValue env :=
  (keeps_check _ _ _).andThen <| (keeps_check _ _ _).andThen <| (keeps_check _ _ _).andThen <|
    (keeps_check _ _ _).andThen <| (keeps_check _ _ _).andThen <|
    (keeps_unblocked hs).andThen (keeps_placeValue hs)

/-- A value begins only in a writer that has nothing open. -/
theorem leads_beforeValue :
    Leads P (fun w => w.beforeValue env)
      (fun m => P m ∧ m.available = true ∧ m.stringOpen = false) P := by
  intro w hw
  have hkept : (w.beforeValue env).1.marks = w.marks := keeps_beforeValue hs w
  dsimp only
  rw [hkept]
  refine ⟨fun hok => ⟨hw, ?_⟩, fun _ => hw⟩
  have htakes : w.takesValue = true := by
    by_contra hnot
    exact (beforeValue_refused hs (Bool.eq_false_iff.mpr hnot)).1 hok
  rw [Writer.takesValue, Writer.free] at htakes
  simp only [Bool.and_eq_true, Bool.not_eq_true'] at htakes
  exact htakes.1.1

end

/-! ## Events -/

/-- A string is open only in a writer that is available. -/
def WriterMarks.Open (m : WriterMarks γ) : Prop := m.stringOpen = true → m.available = true

/-- An event that stands at its beginning. -/
def WriterMarks.Begun (m : WriterMarks γ) : Prop := m.Open ∧ m.event.phase = 0

/-- No string is open. -/
def WriterMarks.Shut (m : WriterMarks γ) : Prop := m.stringOpen = false

/-- Sound, with no string open. -/
def WriterMarks.Calm (m : WriterMarks γ) : Prop := m.Sound ∧ m.Shut

theorem WriterMarks.Begun.sound {m : WriterMarks γ} (h : m.Begun) : m.Sound := ⟨h.1, fun _ _ => h.2⟩

theorem WriterMarks.Shut.open {m : WriterMarks γ} (h : m.Shut) : m.Open := by
  intro hopen
  rw [h] at hopen
  cases hopen

/-- A condition that does not read the event. -/
def Eventless (P : WriterMarks γ → Prop) : Prop :=
  ∀ ⦃m : WriterMarks γ⦄, P m → ∀ event, P { m with event }

theorem eventless_open : Eventless (γ := γ) WriterMarks.Open := fun _ h _ => h

theorem eventless_shut : Eventless (γ := γ) WriterMarks.Shut := fun _ h _ => h

/-- Steps that always succeed, and change nothing that the invariant reads but the event. -/
def Runs (f : Writer σ γ → Writer σ γ × Status) : Prop :=
  ∀ w, (f w).2 = .ok ∧ ∃ event, (f w).1.marks = { w.marks with event }

section

variable {f g : Writer σ γ → Writer σ γ × Status} {P R : WriterMarks γ → Prop}

theorem Runs.andThen (hf : Runs f) (hg : Runs g) : Runs fun w => andThenOk (f w) g := by
  intro w
  obtain ⟨hok, event, hmarks⟩ := hf w
  obtain ⟨hok', event', hmarks'⟩ := hg (f w).1
  dsimp only
  rw [andThenOk, if_pos hok]
  refine ⟨hok', event', ?_⟩
  rw [hmarks', hmarks]

theorem runs_update {u : Writer σ γ → Writer σ γ}
    (h : ∀ w, ∃ event, (u w).marks = { w.marks with event }) : Runs fun w => (u w, .ok) :=
  fun w => ⟨rfl, h w⟩

theorem runs_ok : Runs fun w : Writer σ γ => (w, .ok) := runs_update fun w => ⟨w.event, rfl⟩

theorem runs_setPhase (phase : ℕ) : Runs fun w : Writer σ γ => (w.setPhase phase, .ok) :=
  runs_update fun w => ⟨(w.setPhase phase).event, rfl⟩

theorem Runs.inPhase (hf : Runs f) (phase : ℕ) : Runs fun w => w.inPhase phase f := by
  intro w
  dsimp only
  rw [Writer.inPhase]
  split_ifs
  · exact hf w
  · exact runs_ok w

theorem Runs.leads (hf : Runs f) (hP : Eventless P) : Leads P f P R := by
  intro w hw
  obtain ⟨hok, event, hmarks⟩ := hf w
  refine ⟨fun _ => ?_, fun h => absurd hok h⟩
  change P (f w).1.marks
  rw [hmarks]
  exact hP hw event

/-- The last step of an event. -/
theorem leads_clearEvent (h : ∀ m, P m → m.Open) {u : Writer σ γ → Writer σ γ}
    (hu : ∀ w, (u w).marks = { w.marks with event := { buffer := w.event.buffer } }) :
    Leads P (fun w => (u w, .ok)) WriterMarks.Sound R := by
  refine ends_update fun w hw => ?_
  rw [hu w]
  exact ⟨h w.marks hw, fun hnone => absurd rfl hnone⟩

end

section

variable {env : WriterEnv σ γ} {push : σ → Bytes → σ} {told : σ → Bytes}
  (hs : env.Accepts push told)
include hs

theorem runs_emit (data : Bytes) : Runs fun w => w.emit env data := by
  intro w
  dsimp only
  by_cases hdata : data = []
  · rw [Writer.emit, if_pos hdata]
    exact ⟨rfl, w.event, rfl⟩
  · rw [emit_eq hs.toSinks w hdata]
    exact ⟨rfl, w.event, rfl⟩

/-- What is emitted does not change what the invariant reads. -/
theorem leads_emit {P R : WriterMarks γ → Prop} (data : Bytes) :
    Leads P (fun w => w.emit env data) P R := by
  intro w hw
  refine ⟨fun _ => ?_, fun h => absurd (runs_emit hs data w).1 h⟩
  have hkept : (w.emit env data).1.marks = w.marks := keeps_emit hs data w
  dsimp only
  rw [hkept]
  exact hw

theorem runs_emitPhase (text : Bytes) (next : ℕ) : Runs fun w => Writer.emitPhase env text next w := by
  have hunblocked : Runs fun w => w.unblocked env := by
    intro w
    dsimp only
    rw [unblocked_eq hs.toSinks]
    exact runs_ok w
  exact hunblocked.andThen ((runs_emit hs text).andThen (runs_setPhase next))

theorem runs_emitEach {piece : Byte → Bytes} (hpiece : ∀ b, piece b ≠ []) (data : Writer σ γ → Bytes) :
    Runs fun w => Writer.emitEach env piece (data w) w := by
  intro w
  dsimp only
  rw [emitEach_eq hs.toSinks hpiece]
  exact ⟨rfl, _, rfl⟩

omit hs in
theorem leads_beginEvent {kind : WriterEventKind} (hnone : kind ≠ .none) (hchild : kind ≠ .child)
    (address : Address) (len : ℕ) :
    Leads (σ := σ) (γ := γ) WriterMarks.Sound (fun w => w.beginEvent kind address len)
      WriterMarks.Begun WriterMarks.Sound := by
  intro w hw
  dsimp only
  cases havailable : w.available with
  | false =>
      obtain ⟨error, heq⟩ := @beginEvent_not _ _ w kind address len
        havailable
      rw [heq]
      exact ⟨nofun, fun _ => hw⟩
  | true =>
      by_cases hpending : w.event.kind = .none
      · rw [beginEvent_new havailable hpending]
        exact ⟨fun _ => ⟨hw.opened, rfl⟩, fun h => absurd rfl h⟩
      · rw [beginEvent_pending havailable hpending]
        refine @leads_check _ _ WriterMarks.Sound WriterMarks.Begun
          (fun w => w.event.kind ≠ kind || w.event.address ≠ address || w.event.len ≠ len) _ _
          (by decide) (fun w hw hsame => ⟨hw.opened, ?_⟩) w hw
        refine Writer.Sound.phaseOf hw hnone hchild ?_
        by_contra hne
        rw [decide_eq_true hne, Bool.true_or, Bool.true_or] at hsame
        cases hsame

/-- The start of a value that is an event. -/
theorem leads_valueStart :
    Leads WriterMarks.Begun (fun w => w.inPhase 0 fun w =>
      andThenOk (w.beforeValue env) fun w => (w.setPhase 1, .ok)) WriterMarks.Open
      WriterMarks.Sound := by
  have hstart : Leads WriterMarks.Begun
      (fun w => andThenOk (w.beforeValue env) fun w => (w.setPhase 1, .ok)) WriterMarks.Open
      WriterMarks.Begun :=
    (leads_beforeValue hs).andThen (ends_update fun w hw => hw.1.1)
  intro w hw
  dsimp only
  rw [Writer.inPhase, if_pos (show w.event.phase = 0 from hw.2)]
  exact hstart.consequence (fun _ h => h) (fun _ h => h) (fun _ h => h.sound) w hw

theorem leads_string (data : Slice) :
    Leads WriterMarks.Sound (fun w => w.string env data) WriterMarks.Sound WriterMarks.Sound := by
  refine (@leads_beginEvent _ _ .string nofun nofun _ _).andThen
    ((leads_valueStart hs).andThen ?_)
  refine (((runs_emitPhase hs _ _).inPhase 1).leads eventless_open).andThen ?_
  refine ((((runs_emitEach hs writtenByte_ne _).andThen (runs_setPhase 3)).inPhase 2).leads
    eventless_open).andThen ?_
  refine ((runs_emitPhase hs _ _).leads eventless_open).andThen ?_
  exact leads_clearEvent (fun _ h => h) fun _ => rfl

theorem leads_numberText (data : Slice) :
    Leads WriterMarks.Sound (fun w => w.numberText env data) WriterMarks.Sound
      WriterMarks.Sound := by
  refine (keeps_check _ _ _).leads.andThen ((keeps_check _ _ _).leads.andThen ?_)
  refine (@leads_beginEvent _ _ .bytes nofun nofun _ _).andThen
    ((leads_valueStart hs).andThen ?_)
  refine ((runs_emitEach hs (fun b => List.cons_ne_nil b []) _).leads eventless_open).andThen ?_
  exact leads_clearEvent (fun _ h => h) fun _ => rfl

theorem leads_keyStart :
    Leads WriterMarks.Begun (fun w => w.inPhase 0 (Writer.keyStart env)) WriterMarks.Open
      WriterMarks.Sound := by
  have hstart : Leads WriterMarks.Begun (Writer.keyStart env) WriterMarks.Open
      WriterMarks.Begun := by
    refine (keeps_check _ _ _).leads.andThen ((keeps_check _ _ _).leads.andThen ?_)
    refine (keeps_unblocked hs).leads.andThen ?_
    intro w hw
    dsimp only
    split
    · next count key rest hframes =>
      split_ifs with hkey hcount
      · exact ⟨nofun, fun _ => hw⟩
      · exact ((runs_emit hs _).andThen (runs_setPhase 1)).leads eventless_open w hw.1
      · exact (runs_setPhase 1).leads eventless_open w hw.1
    · exact ⟨nofun, fun _ => hw⟩
  intro w hw
  dsimp only
  rw [Writer.inPhase, if_pos (show w.event.phase = 0 from hw.2)]
  exact hstart.consequence (fun _ h => h) (fun _ h => h) (fun _ h => h.sound) w hw

theorem leads_key (key : Slice) :
    Leads WriterMarks.Sound (fun w => w.key env key) WriterMarks.Sound WriterMarks.Sound := by
  refine (keeps_check _ _ _).leads.andThen ((keeps_check _ _ _).leads.andThen ?_)
  refine (@leads_beginEvent _ _ .key nofun nofun _ _).andThen
    ((leads_keyStart hs).andThen ?_)
  refine (((runs_emitPhase hs _ _).inPhase 1).leads eventless_open).andThen ?_
  refine ((((runs_emitEach hs writtenByte_ne _).andThen (runs_setPhase 3)).inPhase 2).leads
    eventless_open).andThen ?_
  refine (((runs_emitPhase hs _ _).inPhase 3).leads eventless_open).andThen ?_
  exact leads_clearEvent (fun _ h => h) fun _ => rfl

omit hs in
theorem leads_beginScalar (data : Bytes) :
    Leads (σ := σ) (γ := γ) WriterMarks.Sound (fun w => w.beginScalar data) WriterMarks.Begun
      WriterMarks.Sound := by
  intro w hw
  dsimp only
  by_cases hnone : w.event.kind = .none
  · cases havailable : w.available with
    | false =>
        obtain ⟨error, heq⟩ := beginScalar_not data havailable hnone
        rw [heq]
        exact ⟨nofun, fun _ => ⟨hw.opened, fun h => absurd hnone h⟩⟩
    | true =>
        rw [beginScalar_new havailable hnone]
        exact ⟨fun _ => ⟨hw.opened, rfl⟩, fun h => absurd rfl h⟩
  · by_cases hscalar : w.event.kind = .scalarBytes
    · have hbegun : w.marks.Begun :=
        ⟨hw.opened, @Writer.Sound.phaseOf _ _ _ hw .scalarBytes nofun nofun hscalar⟩
      have hcheck := (keeps_check
        (fun w : Writer σ γ => w.event.len ≠ data.length || w.event.buffer ≠ data)
        "active writer event must be resumed with the same arguments" .invalidArgument).leads
        w hbegun
      rw [beginScalar_same hscalar]
      exact ⟨hcheck.1, fun h => (hcheck.2 h).sound⟩
    · obtain ⟨error, heq⟩ := beginScalar_other data hnone hscalar
      rw [heq]
      refine ⟨fun h => ?_, fun _ => hw⟩
      split at h <;> cases h

theorem leads_emitScalarBytes (data : Bytes) :
    Leads WriterMarks.Sound (fun w => w.emitScalarBytes env data) WriterMarks.Sound
      WriterMarks.Sound := by
  refine (leads_beginScalar data).andThen ((leads_valueStart hs).andThen ?_)
  refine ((runs_emitEach hs (fun b => List.cons_ne_nil b []) _).leads eventless_open).andThen ?_
  exact leads_clearEvent (fun _ h => h) fun _ => rfl

theorem leads_stringChunk (data : Slice) :
    Leads WriterMarks.Sound (fun w => w.stringChunk env data) WriterMarks.Sound
      WriterMarks.Sound := by
  refine (keeps_check _ _ _).leads.andThen ((keeps_check _ _ _).leads.andThen ?_)
  refine (keeps_check _ _ _).leads.andThen ?_
  refine ((@leads_beginEvent _ _ .stringChunk nofun nofun _ _).consequence (fun _ h => h)
    (fun _ h => h.1) fun _ h => h).andThen ?_
  refine ((runs_emitEach hs writtenByte_ne _).leads eventless_open).andThen ?_
  exact leads_clearEvent (fun _ h => h) fun _ => rfl

omit hs in
/-- An error that makes the writer fail, where no string is open. -/
theorem leads_fail {P : WriterMarks γ → Prop} {Q : WriterMarks γ → Prop}
    (hP : ∀ m, P m → m.Sound ∧ m.Shut) {code : Status} (hcode : code ≠ .ok)
    {u : Writer σ γ → Writer σ γ}
    (hu : ∀ w, (u w).stringOpen = w.stringOpen ∧ (u w).event = w.event) :
    Leads P (fun w => (u w, code)) Q WriterMarks.Sound := by
  refine ends_error hcode fun w hw => ?_
  obtain ⟨hsound, hshut⟩ := hP _ hw
  obtain ⟨hstring, hevent⟩ := hu w
  refine ⟨fun hopen => ?_, ?_⟩
  · have hclosed : (u w).stringOpen = false := hstring.trans hshut
    have hopened : (u w).stringOpen = true := hopen
    rw [hclosed] at hopened
    cases hopened
  · change (u w).event.kind ≠ .none → (u w).event.kind ≠ .child → (u w).event.phase = 0
    rw [hevent]
    exact hsound.phase

omit hs in
/-- A writer that is not available has no string open. -/
theorem WriterMarks.Sound.shut {m : WriterMarks γ} (h : m.Sound) (hnot : m.available = false) :
    m.Shut := by
  cases hopen : m.stringOpen with
  | false => rw [WriterMarks.Shut, hopen]
  | true =>
      rw [h.opened hopen] at hnot
      cases hnot

omit hs in
/-- Behind a check that a number is open, or a value stream, no string is. -/
theorem leads_busy {busy : Writer σ γ → Bool} (hbusy : ∀ w, busy w = true → w.available = false)
    {message : String} {code : Status} (hcode : code ≠ .ok) :
    Leads (σ := σ) (γ := γ) WriterMarks.Sound (fun w => w.check (!busy w) message code)
      WriterMarks.Calm WriterMarks.Sound := by
  refine leads_check hcode fun w hw hcheck => ⟨hw, hw.shut (hbusy w ?_)⟩
  simpa using hcheck

omit hs in
theorem Writer.number_busy (w : Writer σ γ) (h : w.numberOpen = true) : w.available = false := by
  rw [Writer.available, h, Bool.not_true, Bool.and_false]

omit hs in
theorem Writer.stream_busy (w : Writer σ γ) (h : w.valueStreamActive = true) :
    w.available = false := by
  rw [Writer.available, h, Bool.not_true, Bool.and_false, Bool.false_and]

omit hs in
theorem leads_numberChunk (data : Bytes) :
    Leads (σ := σ) (γ := γ) WriterMarks.Sound (fun w => w.numberChunk data) WriterMarks.Sound
      WriterMarks.Sound := by
  refine (keeps_check _ _ _).leads.andThen ((keeps_check _ _ _).leads.andThen ?_)
  refine (leads_busy Writer.number_busy (by decide)).andThen ?_
  intro w hw
  dsimp only
  cases byteAppend w.number data w.maxNumberBytes with
  | ok number => exact ⟨fun _ => hw.1, fun h => absurd rfl h⟩
  | error message =>
      exact @leads_fail _ _ _ _ (fun _ h => h) .overflow (by decide)
        (fun w => (w.fail .overflow message).1) (fun _ => ⟨rfl, rfl⟩) w hw

theorem leads_numberEnd :
    Leads WriterMarks.Sound (fun w => w.numberEnd env) WriterMarks.Sound WriterMarks.Sound := by
  refine (keeps_check _ _ _).leads.andThen ((leads_busy Writer.number_busy (by decide)).andThen ?_)
  refine Ends.ite ?_ ?_
  · refine (@leads_fail _ _ _ _ (fun _ h => h) .invalidJson (by decide)
      (fun w => (w.fail .invalidJson "number text must be a JSON number").1)
      fun _ => ⟨rfl, rfl⟩).consequence (fun _ h => h.1) (fun _ h => h) fun _ h => h
  · have hbegin : Leads (σ := σ) (γ := γ) WriterMarks.Calm
        (fun w =>
          if w.event.kind = .none then
            ({ w with event := { w.event with
                kind := .bytes, address := .number, len := w.number.length, off := 0,
                phase := 1 } }, .ok)
          else
            w.check
              (w.event.kind ≠ .bytes || w.event.address ≠ .number ||
                w.event.len ≠ w.number.length)
              "active writer event must be resumed with the same arguments" .invalidArgument)
        WriterMarks.Shut WriterMarks.Sound := by
      refine Ends.ite (ends_update fun w hw => hw.1.2) ?_
      exact ((keeps_check _ _ _).leads (P := WriterMarks.Calm)).consequence
        (fun _ h => h.1) (fun _ h => h.2) fun _ h => h.1
    refine (hbegin.consequence (fun _ h => h.1) (fun _ h => h) fun _ h => h).andThen ?_
    refine ((runs_emitEach hs (fun b => List.cons_ne_nil b []) _).leads eventless_shut).andThen ?_
    refine ends_update fun w hw => ⟨fun hopen => ?_, fun hnone => absurd rfl hnone⟩
    have hshut : w.stringOpen = false := hw
    have hopened : w.stringOpen = true := hopen
    rw [hshut] at hopened
    cases hopened

omit hs in
/-- No string is open behind this step. -/
theorem leads_shut {P : WriterMarks γ → Prop} {R : WriterMarks γ → Prop}
    {u : Writer σ γ → Writer σ γ} (hP : ∀ m, P m → m.Sound)
    (hu : ∀ w, P w.marks → (u w).stringOpen = false ∧ (u w).event = w.event) :
    Leads P (fun w => (u w, .ok)) WriterMarks.Sound R := by
  refine ends_update fun w hw => ?_
  obtain ⟨hstring, hevent⟩ := hu w hw
  refine ⟨fun hopen => ?_, ?_⟩
  · have hopened : (u w).stringOpen = true := hopen
    rw [hstring] at hopened
    cases hopened
  · change (u w).event.kind ≠ .none → (u w).event.kind ≠ .child → (u w).event.phase = 0
    rw [hevent]
    exact (hP _ hw).phase

theorem leads_beginContainer (kind : ContainerKind) (mark : Byte) :
    Leads WriterMarks.Sound (fun w => w.beginContainer env kind mark) WriterMarks.Sound
      WriterMarks.Sound := by
  have hpush : Keeps fun w => w.pushFrame env kind := by
    intro w
    dsimp only
    rw [Writer.pushFrame]
    split_ifs <;> rfl
  exact ((keeps_beforeValue hs).andThen ((keeps_emit hs [mark]).andThen hpush)).leads

omit hs in
theorem keeps_checkClosing : Keeps fun w : Writer σ γ => w.checkClosing :=
  (keeps_check _ _ _).andThen <| (keeps_check _ _ _).andThen <| (keeps_check _ _ _).andThen
    (keeps_check _ _ _)

theorem keeps_endObject : Keeps fun w => w.endObject env := by
  refine keeps_checkClosing.andThen fun w => ?_
  split
  · split_ifs
    · rfl
    · exact ((keeps_emit hs [0x7d]).andThen (keeps_frames _)) w
  · rfl

theorem keeps_endArray : Keeps fun w => w.endArray env := by
  refine keeps_checkClosing.andThen fun w => ?_
  split
  · exact ((keeps_emit hs [0x5d]).andThen (keeps_frames _)) w
  · rfl

theorem leads_stringBegin :
    Leads WriterMarks.Sound (fun w => w.stringBegin env) WriterMarks.Sound WriterMarks.Sound := by
  refine (leads_beforeValue hs).andThen ((leads_emit hs (P := fun m =>
    m.Sound ∧ m.available = true ∧ m.stringOpen = false) (R := WriterMarks.Sound) _).andThen ?_)
  exact ends_update fun w hw => ⟨fun _ => hw.2.1, hw.1.phase⟩

theorem leads_stringEnd :
    Leads WriterMarks.Sound (fun w => w.stringEnd env) WriterMarks.Sound WriterMarks.Sound := by
  refine (keeps_check _ _ _).leads.andThen ((keeps_emit hs _).leads.andThen ?_)
  exact leads_shut (u := fun w => { w with stringOpen := false }) (fun _ h => h)
    fun _ _ => ⟨rfl, rfl⟩

theorem keeps_drainReader (buffer : Bytes) : Keeps fun w => Writer.drainReader env buffer w := by
  induction buffer with
  | nil => exact fun _ => rfl
  | cons b rest ih =>
      exact (keeps_unblocked hs).andThen ((keeps_emit hs (writtenByte b)).andThen fun w =>
        ih { w with stringReader := { w.stringReader with buffer := rest } })

theorem leads_readString (reader : σ → ℕ → σ × ReadResult) (n : ℕ) :
    Leads WriterMarks.Sound (fun w => Writer.readString env reader n w) WriterMarks.Sound
      WriterMarks.Sound := by
  induction n with
  | zero => exact fun w hw => ⟨nofun, fun _ => hw⟩
  | succ n ih =>
      have hdrain : Keeps fun w => Writer.drainReader env w.stringReader.buffer w :=
        fun w => keeps_drainReader hs w.stringReader.buffer w
      refine hdrain.leads.andThen (Ends.ite ?_ ?_)
      · refine (((keeps_unblocked hs).leads.andThen ((leads_stringEnd hs).andThen ?_)).consequence
          (fun _ h => h.1) (fun _ h => h) fun _ h => h)
        exact ends_update fun w hw => hw
      · refine ((keeps_unblocked hs).leads.andThen ?_).consequence (fun _ h => h.1) (fun _ h => h)
          fun _ h => h
        intro w hw
        dsimp only
        split_ifs
        · exact ⟨nofun, fun _ => hw⟩
        · exact ⟨nofun, fun _ => hw⟩
        · exact ih _ hw

theorem leads_stringReader (id fuel : ℕ) (reader : σ → ℕ → σ × ReadResult) :
    Leads WriterMarks.Sound (fun w => w.stringFromReader env id fuel reader) WriterMarks.Sound
      WriterMarks.Sound := by
  have hbegin : Leads WriterMarks.Sound
      (fun w : Writer σ γ =>
        if w.stringReader.active then
          w.check (w.stringReader.reader ≠ id)
            "active string reader must be resumed with the same reader" .invalidArgument
        else
          andThenOk (w.stringBegin env) fun w =>
            ({ w with stringReader := { active := true, reader := id } }, .ok))
      WriterMarks.Sound WriterMarks.Sound := by
    refine Ends.ite ?_ ?_
    · exact ((keeps_check _ _ _).leads (P := WriterMarks.Sound)).consequence (fun _ h => h.1)
        (fun _ h => h) fun _ h => h
    · refine ((leads_stringBegin hs).andThen (ends_update fun w hw => ?_)).consequence
        (fun _ h => h.1) (fun _ h => h) fun _ h => h
      exact hw
  exact hbegin.andThen (leads_readString hs reader fuel)

theorem leads_numberBegin :
    Leads WriterMarks.Sound (fun w => w.numberBegin env) WriterMarks.Sound WriterMarks.Sound := by
  refine (leads_beforeValue hs).andThen ?_
  exact leads_shut (P := fun m => m.Sound ∧ m.available = true ∧ m.stringOpen = false)
    (u := fun w => { w with number := [], numberOpen := true }) (fun _ h => h.1)
    fun _ h => ⟨h.2.2, rfl⟩

/-! ## Nested values and value streams -/

/-- The event of a nested value, at any phase. -/
def WriterMarks.Nests (m : WriterMarks γ) : Prop := m.Open ∧ m.event.kind = .child

omit hs in
theorem WriterMarks.Nests.sound {m : WriterMarks γ} (h : m.Nests) : m.Sound :=
  ⟨h.1, fun _ hchild => absurd h.2 hchild⟩

theorem leads_childLoop (n : ℕ) : ∀ child,
    Leads WriterMarks.Nests (fun w => Writer.childLoop env n child w) WriterMarks.Sound
      WriterMarks.Sound := by
  induction n with
  | zero => exact fun _ w hw => ⟨(fun h => by cases h), fun _ => hw.sound⟩
  | succ n ih =>
      intro child w hw
      dsimp only
      rw [childLoop_succ hs]
      generalize env.childRead child 512 = r
      dsimp only
      split_ifs with hstatus
      · have hkept : ((w.withChild r.generator).withError r.error).marks.Nests := hw
        exact ⟨fun h => absurd h hstatus, fun _ => hkept.sound⟩
      · have hnext : Leads WriterMarks.Nests (childNext env n r) WriterMarks.Sound
            WriterMarks.Sound := by
          intro w hw
          rw [childNext]
          split_ifs
          · exact ⟨fun _ => ⟨hw.1, fun hnone => absurd rfl hnone⟩, fun h => absurd rfl h⟩
          · exact ⟨(fun h => by cases h), fun _ => hw.sound⟩
          · exact ih r.generator w hw
        exact (leads_emit hs r.bytes).andThen hnext (w.withChild r.generator) hw

omit hs in
/-- The begin of a nested value. -/
theorem ends_childInit (arg1 : ℕ) (root : GeneratorRoot) :
    Ends (fun w : Writer σ γ => w.marks.Nests ∧ w.available = true ∧ w.stringOpen = false)
      (fun w =>
        let w : Writer σ γ := { w with event := { w.event with data2 := arg1 } }
        match env.childInit w.out root w.error with
        | .error error => (Writer.clearEvent { w with error }, error.code)
        | .ok child =>
          (Writer.setPhase { w with event := { w.event with child := some child } } 1, .ok))
      (fun w => w.marks.Sound ∧ (w.event.child ≠ none → w.marks.Nests))
      fun w => w.marks.Sound := by
  rintro w ⟨hw, -⟩
  dsimp only
  cases env.childInit w.out root w.error with
  | error error =>
      have hcleared : (Writer.clearEvent { w with error }).marks.Sound :=
        ⟨hw.1, fun hnone => absurd rfl hnone⟩
      exact ⟨fun _ => ⟨hcleared, fun hchild => absurd rfl hchild⟩, fun _ => hcleared⟩
  | ok child =>
      have hnests : (Writer.setPhase { w with event := { w.event with
          data2 := arg1, child := some child } } 1).marks.Nests := hw
      exact ⟨fun _ => ⟨hnests.sound, fun _ => hnests⟩, fun h => absurd rfl h⟩

theorem leads_childEvent (arg0 : Address) (arg1 tag : ℕ) (root : GeneratorRoot) :
    Leads WriterMarks.Sound (fun w => w.childEvent env arg0 arg1 tag root) WriterMarks.Sound
      WriterMarks.Sound := by
  have hbegin : Leads (σ := σ) (γ := γ) WriterMarks.Sound (fun w => w.beginEvent .child arg0 tag)
      WriterMarks.Nests WriterMarks.Sound := by
    intro w hw
    dsimp only
    cases havailable : w.available with
    | false =>
        obtain ⟨error, heq⟩ := @beginEvent_not _ _ w .child arg0 tag
          havailable
        rw [heq]
        exact ⟨(fun h => by cases h), fun _ => hw⟩
    | true =>
        by_cases hpending : w.event.kind = .none
        · rw [beginEvent_new havailable hpending]
          exact ⟨fun _ => ⟨hw.opened, rfl⟩, fun h => absurd rfl h⟩
        · rw [beginEvent_pending havailable hpending]
          refine @leads_check _ _ WriterMarks.Sound WriterMarks.Nests
            (fun w => w.event.kind ≠ .child || w.event.address ≠ arg0 || w.event.len ≠ tag) _ _
            (by decide) (fun w hw hsame => ⟨hw.opened, ?_⟩) w hw
          change w.event.kind = .child
          by_contra hne
          rw [decide_eq_true hne, Bool.true_or, Bool.true_or] at hsame
          cases hsame
  refine hbegin.andThen (Ends.andThen
    (Q := fun w => w.marks.Sound ∧ (w.event.child ≠ none → w.marks.Nests)) (Ends.ite ?_ ?_) ?_)
  · refine (((leads_beforeValue hs).consequence (fun _ h => h) (fun _ h => h)
      fun _ h => h.sound).andThen (ends_childInit arg1 root)).consequence (fun _ h => h.1) (fun _ h => h) fun _ h => h
  · refine ((keeps_check _ _ _).leads (P := WriterMarks.Nests)).consequence (fun _ h => h.1)
      (fun _ h => ⟨h.sound, fun _ => h⟩) fun _ h => h.sound
  · rintro w ⟨hsound, hnests⟩
    dsimp only
    cases hchild : w.event.child with
    | none => exact ⟨(fun h => by cases h), fun _ => hsound⟩
    | some child =>
        refine leads_childLoop hs _ child w (hnests ?_)
        rw [hchild]
        exact fun h => by cases h

theorem keeps_emitPieces (pieces : List Bytes) : Keeps fun w => Writer.emitPieces env pieces w := by
  induction pieces with
  | nil => exact fun _ => rfl
  | cons piece pieces ih => exact (keeps_emit hs piece).andThen ih

omit hs in
/-- The end of a value stream, or of a piece of it. -/
theorem leads_ending {u : Writer σ γ → Writer σ γ}
    (hu : ∀ w, (u w).stringOpen = w.stringOpen ∧ (u w).event = w.event) (status : Status) :
    Leads WriterMarks.Calm
      (fun w => if status = .ok then (u w, .ok) else ({ w with failed := true }, status))
      WriterMarks.Sound WriterMarks.Sound := by
  by_cases hstatus : status = .ok
  · simp only [if_pos hstatus]
    exact leads_shut (P := WriterMarks.Calm) (fun _ h => h.1)
      fun w h => ⟨(hu w).1.trans h.2, (hu w).2⟩
  · simp only [if_neg hstatus]
    exact leads_fail (fun _ h => h) hstatus (u := fun w => { w with failed := true })
      fun _ => ⟨rfl, rfl⟩

theorem keeps_spliceItems (items : List (List Bytes)) :
    Keeps fun w => Writer.spliceItems env items w := by
  induction items with
  | nil => exact fun _ => rfl
  | cons item items ih =>
      exact (keeps_beforeValue hs).andThen ((keeps_emitPieces hs item).andThen ih)

omit hs in
theorem keeps_inArray : Keeps fun w : Writer σ γ =>
    andThenOk (w.check (w.event.kind ≠ .none) "writer event is still active") fun w =>
      match w.frames with
      | ⟨.array, _, _⟩ :: _ => (w, .ok)
      | _ => w.setError .invalidJson "writer is not inside an array" := by
  refine (keeps_check _ _ _).andThen fun w => ?_
  split <;> rfl

theorem leads_arrayItems (items : List (List Bytes)) (status : Status) :
    Leads WriterMarks.Sound (fun w => w.arrayItems env items status) WriterMarks.Sound
      WriterMarks.Sound := by
  have hrequire : Leads (σ := σ) (γ := γ) WriterMarks.Sound (fun w => w.arrayItemsRequire)
      WriterMarks.Calm WriterMarks.Sound := by
    refine (keeps_check _ _ _).leads.andThen ((keeps_check _ _ _).leads.andThen ?_)
    refine (leads_check (P := WriterMarks.Sound) (Q := WriterMarks.Calm) (by decide)
      fun w hw hshut => ⟨hw, hshut⟩).andThen ?_
    exact keeps_inArray.leads.consequence (fun _ h => h) (fun _ h => h) fun _ h => h.1
  refine hrequire.andThen ?_
  refine Ends.andThen (Q := fun w => w.marks.Calm)
    (((keeps_spliceItems hs items).leads (P := WriterMarks.Calm)).consequence
      (fun _ h => h) (fun _ h => h) fun _ h => h.1) ?_
  by_cases hitems : items = []
  · intro w hw
    dsimp only
    rw [if_pos hitems]
    split_ifs with hstatus
    · exact ⟨fun _ => hw.1, fun _ => hw.1⟩
    · exact ⟨fun _ => hw.1, fun _ => hw.1⟩
  · simp only [if_neg hitems]
    exact leads_ending (u := fun w => w) (fun _ => ⟨rfl, rfl⟩) status

theorem leads_valueStreamOpen :
    Leads WriterMarks.Sound (fun w => w.valueStreamOpen env) WriterMarks.Sound
      WriterMarks.Sound := by
  refine (keeps_check _ _ _).leads.andThen ((keeps_check _ _ _).leads.andThen ?_)
  refine (keeps_check _ _ _).leads.andThen ((leads_beforeValue hs).andThen ?_)
  exact leads_shut (P := fun m => m.Sound ∧ m.available = true ∧ m.stringOpen = false)
    (u := fun w => { w with valueStreamActive := true }) (fun _ h => h.1)
    fun _ h => ⟨h.2.2, rfl⟩

/-- What comes behind the check that a value stream is open. -/
theorem leads_streamPieces {message : String} {u : Writer σ γ → Writer σ γ}
    (hu : ∀ w, (u w).stringOpen = w.stringOpen ∧ (u w).event = w.event) (pieces : List Bytes)
    (status : Status) :
    Leads WriterMarks.Calm
      (fun w => andThenOk (w.check w.failed message) fun w =>
        andThenOk (Writer.emitPieces env pieces w) fun w =>
          if status = .ok then (u w, .ok) else ({ w with failed := true }, status))
      WriterMarks.Sound WriterMarks.Sound := by
  have hkeeps : Keeps fun w : Writer σ γ => andThenOk (w.check w.failed message) fun w =>
      Writer.emitPieces env pieces w :=
    (keeps_check _ _ _).andThen (keeps_emitPieces hs pieces)
  have hpieces : Leads WriterMarks.Calm (fun w : Writer σ γ =>
      andThenOk (w.check w.failed message) fun w => Writer.emitPieces env pieces w)
      WriterMarks.Calm WriterMarks.Sound :=
    hkeeps.leads.consequence (fun _ h => h) (fun _ h => h) fun _ h => h.1
  have hboth := hpieces.andThen (leads_ending hu status)
  simp only [andThenOk_assoc] at hboth
  exact hboth

theorem leads_valueStreamPush (pieces : List Bytes) (status : Status) :
    Leads WriterMarks.Sound (fun w => w.valueStreamPush env pieces status) WriterMarks.Sound
      WriterMarks.Sound :=
  (leads_busy Writer.stream_busy (by decide)).andThen
    (leads_streamPieces hs (u := fun w => w) (fun _ => ⟨rfl, rfl⟩) pieces status)

theorem leads_valueStreamClose (pieces : List Bytes) (status : Status) :
    Leads WriterMarks.Sound (fun w => w.valueStreamClose env pieces status) WriterMarks.Sound
      WriterMarks.Sound :=
  (leads_busy Writer.stream_busy (by decide)).andThen
    (leads_streamPieces hs (u := fun w => { w with valueStreamActive := false })
      (fun _ => ⟨rfl, rfl⟩) pieces status)

omit hs in
theorem leads_valueStreamCleanup :
    Leads (σ := σ) (γ := γ) WriterMarks.Sound (fun w => w.valueStreamCleanup) WriterMarks.Sound
      WriterMarks.Sound := by
  refine Ends.ite (ends_update ?_) (ends_update fun w hw => hw.1)
  rintro w ⟨hw, hactive⟩
  have hshut : w.marks.Shut := hw.shut (w.stream_busy hactive)
  refine ⟨fun hopen => ?_, hw.phase⟩
  have hopened : w.stringOpen = true := hopen
  rw [show w.stringOpen = false from hshut] at hopened
  cases hopened

/-- Every call keeps the invariant. -/
theorem sound_run (call : WriterCall σ) {w : Writer σ γ} (hw : w.Sound) :
    (call.run env w).1.Sound := by
  have hleads : Leads WriterMarks.Sound (fun w => call.run env w) WriterMarks.Sound
      WriterMarks.Sound := by
    cases call with
    | beginObject => exact leads_beginContainer hs .object 0x7b
    | endObject => exact (keeps_endObject hs).leads
    | beginArray => exact leads_beginContainer hs .array 0x5b
    | endArray => exact (keeps_endArray hs).leads
    | key k => exact leads_key hs k
    | string data => exact leads_string hs data
    | stringBegin => exact leads_stringBegin hs
    | stringChunk data => exact leads_stringChunk hs data
    | stringEnd => exact leads_stringEnd hs
    | stringReader id fuel reader => exact leads_stringReader hs id fuel reader
    | numberText data => exact leads_numberText hs data
    | numberBegin => exact leads_numberBegin hs
    | numberChunk data => exact leads_numberChunk data
    | numberEnd => exact leads_numberEnd hs
    | i64 value => exact leads_emitScalarBytes hs _
    | u64 value => exact leads_emitScalarBytes hs _
    | f64 finite text =>
        cases finite with
        | false => exact (keeps_check (fun _ => true) _ _).leads
        | true =>
            cases text with
            | none => exact (keeps_check (fun _ => true) _ _).leads
            | some text => exact leads_emitScalarBytes hs text
    | bool value => exact leads_emitScalarBytes hs _
    | null => exact leads_emitScalarBytes hs _
    | nullSource => exact ((keeps_beforeValue hs).andThen (keeps_emit hs _)).leads
    | child arg0 arg1 tag root => exact leads_childEvent hs _ arg1 tag root
    | valueStreamOpen => exact leads_valueStreamOpen hs
    | valueStreamPush pieces status => exact leads_valueStreamPush hs pieces status
    | valueStreamClose pieces status => exact leads_valueStreamClose hs pieces status
    | valueStreamCleanup => exact leads_valueStreamCleanup
    | arrayItems items status => exact leads_arrayItems hs items status
    | finish =>
        exact (keeps_checkClosing.andThen ((keeps_check _ _ _).andThen
          ((keeps_check _ _ _).andThen fun _ => rfl))).leads
  by_cases hok : (call.run env w).2 = .ok
  · exact (hleads w hw).1 hok
  · exact (hleads w hw).2 hok

theorem sound_runCalls (calls : List (WriterCall σ)) : ∀ {w : Writer σ γ}, w.Sound →
    (Writer.runCalls env calls w).1.Sound := by
  induction calls with
  | nil => exact fun hw => hw
  | cons call calls ih => exact fun hw => ih (sound_run hs call hw)

theorem sound_reached {w : Writer σ γ} (hw : w.Reached env) : w.Sound := by
  obtain ⟨out, maxNumberBytes, calls, rfl⟩ := hw
  refine sound_runCalls hs calls ⟨fun hopen => ?_, fun hnone => absurd rfl hnone⟩
  cases hopen

end

end Lonejson
