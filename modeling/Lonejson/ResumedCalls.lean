import Lonejson.WriterResuming

/-!
# The calls of a writer that is interrupted

Each call of a producer may be interrupted anywhere and issued again. What is pushed as text that
comes from elsewhere is left out, since it is not resumed: value streams and spliced array items.
-/

namespace Lonejson

open Resuming (Setting)

variable {ω γ : Type} {nest : WriterNest γ} {canHold : ℕ → Bool} {before : ReadsBefore}
  {G : Option γ → Prop} {core : Writer Unit Unit} {phases : ℕ → Prop}

/-! ## Containers -/

theorem aside_pushFrame (kind : ContainerKind) : Aside
    (fun w : Writer (WriterOutlet ω) γ => w.pushFrame (nest.generatorEnv canHold) kind)
    (fun b => b.pushFrame nest.tapeEnv kind) := by
  refine ⟨fun before w => ?_, fun w => ?_, fun b => ?_⟩
  · have hgrow : nest.tapeEnv.canGrow (w.taped before).out (w.taped before).frames.length =
        (nest.generatorEnv canHold).canGrow w.out w.frames.length := rfl
    rw [Writer.pushFrame, Writer.pushFrame, hgrow]
    split_ifs <;> rfl
  · rw [Writer.pushFrame]
    split_ifs <;> rfl
  · rw [Writer.pushFrame]
    split_ifs <;> rfl

theorem resumes_beginContainer (hold : ∀ n, canHold n = true) (kind : ContainerKind) (mark : Byte) :
    Resumes before G
      (@Writer.beginContainer (WriterOutlet ω) γ (nest.generatorEnv canHold) kind mark)
      (Writer.beginContainer nest.tapeEnv kind mark) := by
  refine resumes_of_inside fun core => (replays_beforeValue hold).andThen_firm <|
    (replays_emit hold [mark]).andThen_firm <| (aside_pushFrame kind).replays fun w hw _ => ?_
  rw [Writer.pushFrame]
  split_ifs <;> exact hw.child

theorem aside_frames (frames : List WriterFrame) :
    Aside (fun w : Writer (WriterOutlet ω) γ => ({ w with frames }, .ok))
      (fun b => ({ b with frames }, .ok)) :=
  ⟨fun _ _ => rfl, fun _ => rfl, fun _ => rfl⟩

/-- In a container with some frames, which an interruption leaves alone. -/
def Writer.Framed (G : Option γ → Prop) (core : Writer Unit Unit) (frames : List WriterFrame)
    (w : Writer (WriterOutlet ω) γ) : Prop :=
  Writer.Inside G core (fun _ => True) w ∧ w.frames = frames

/-- The mark of a container that is closed may come behind bytes that are held back. -/
theorem replays_close (hold : ∀ n, canHold n = true) (frames rest : List WriterFrame) (mark : Byte) :
    (outletSetting before).Replays (@Writer.Framed ω γ G core frames)
      (fun w => andThenOk (w.emit (nest.generatorEnv canHold) [mark]) fun w =>
        ({ w with frames := rest }, .ok))
      (fun b => andThenOk (b.emit nest.tapeEnv [mark]) fun b => ({ b with frames := rest }, .ok))
      (fun w => G w.event.child) (Writer.Framed G core frames) := by
  have hemit := @replays_emitHeld ω γ nest canHold before hold (Writer.Framed G core frames)
    (fun w out hw => ⟨⟨hw.1.core, hw.1.phase, hw.1.child⟩, hw.2⟩) [mark] (by simp)
  exact hemit.andThen_firm ((aside_frames rest).replays fun _ hw _ => hw.1.child)

theorem checks_checkClosing : @Checks ω γ Writer.checkClosing Writer.checkClosing :=
  checks_checkFailed.comp (checks_checkStream.comp (checks_checkString.comp checks_checkNumber))

/-- The frames behind a container that is closed, or what is wrong with those that there are. -/
def behindObject : List WriterFrame → Except String (List WriterFrame)
  | ⟨.object, _, false⟩ :: rest => .ok rest
  | ⟨.object, _, true⟩ :: _ => .error "object key is missing a value"
  | _ => .error "writer is not inside an object"

def behindArray : List WriterFrame → Except String (List WriterFrame)
  | ⟨.array, _, _⟩ :: rest => .ok rest
  | _ => .error "writer is not inside an array"

/-- The end of the two calls that close a container. -/
def Writer.closeFrame {σ : Type} (env : WriterEnv σ γ) (mark : Byte)
    (behind : List WriterFrame → Except String (List WriterFrame)) (w : Writer σ γ) :
    Writer σ γ × Status :=
  match behind w.frames with
  | .ok rest => andThenOk (w.emit env [mark]) fun w => ({ w with frames := rest }, .ok)
  | .error message => w.setError .invalidJson message

theorem closeFrame_ok {σ : Type} (env : WriterEnv σ γ) (mark : Byte)
    {behind : List WriterFrame → Except String (List WriterFrame)} {w : Writer σ γ}
    {rest : List WriterFrame} (h : behind w.frames = .ok rest) : w.closeFrame env mark behind =
      andThenOk (w.emit env [mark]) fun w => ({ w with frames := rest }, .ok) := by
  rw [Writer.closeFrame, h]

theorem closeFrame_error {σ : Type} (env : WriterEnv σ γ) (mark : Byte)
    {behind : List WriterFrame → Except String (List WriterFrame)} {w : Writer σ γ}
    {message : String} (h : behind w.frames = .error message) :
    w.closeFrame env mark behind = w.setError .invalidJson message := by
  rw [Writer.closeFrame, h]

theorem endObject_eq {σ : Type} (env : WriterEnv σ γ) : Writer.endObject env =
    fun w => andThenOk w.checkClosing (Writer.closeFrame env 0x7d behindObject) := by
  refine funext fun w => congrArg (andThenOk w.checkClosing) (funext fun w => ?_)
  rw [Writer.closeFrame]
  rcases w.frames with _ | ⟨⟨_ | _, count, _ | _⟩, rest⟩ <;> rfl

theorem endArray_eq {σ : Type} (env : WriterEnv σ γ) : Writer.endArray env =
    fun w => andThenOk w.checkClosing (Writer.closeFrame env 0x5d behindArray) := by
  refine funext fun w => congrArg (andThenOk w.checkClosing) (funext fun w => ?_)
  rw [Writer.closeFrame]
  rcases w.frames with _ | ⟨⟨_ | _, count, _ | _⟩, rest⟩ <;> rfl

theorem told_closeFrame (mark : Byte)
    (behind : List WriterFrame → Except String (List WriterFrame)) (b : Writer (WriterTape ω) γ) :
    b.out.out <+: (b.closeFrame nest.tapeEnv mark behind).1.out.out := by
  cases h : behind b.frames with
  | error message => rw [closeFrame_error _ _ h]; exact List.prefix_rfl
  | ok rest =>
      have hemit : b.out.out <+: (b.emit nest.tapeEnv [mark]).1.out.out := told_emit [mark] b
      rw [closeFrame_ok _ _ h, andThenOk]
      split_ifs <;> exact hemit

theorem resumes_closing (hold : ∀ n, canHold n = true) (mark : Byte)
    (behind : List WriterFrame → Except String (List WriterFrame)) :
    Resumes before G (fun w : Writer (WriterOutlet ω) γ => andThenOk w.checkClosing
        (Writer.closeFrame (nest.generatorEnv canHold) mark behind))
      (fun b => andThenOk b.checkClosing (Writer.closeFrame nest.tapeEnv mark behind)) := by
  refine resumes_of_inside fun core => checks_checkClosing.andThen (fun _ hw => hw.core)
    (fun _ hw => hw.core) (.read Writer.frames [] fun frames => ?_)
  cases h : behind frames with
  | error message =>
      refine replays_firm (told_closeFrame mark behind) fun w hfits hw => ?_
      rw [closeFrame_error _ _ (by rw [hw.2, h]),
        closeFrame_error _ _ (show behind (w.taped before).frames = .error message by rw [← h, ← hw.2]; rfl)]
      exact ⟨_, _, rfl, rfl, hfits, fun h => by cases h⟩
  | ok rest =>
      have hclose := @replays_close ω γ nest canHold before G core hold frames rest mark
      refine (hclose.congr (told_closeFrame mark behind) (fun w hw => ?_) fun w hw => ?_).imp
        (fun _ hw => hw) (fun _ hw => hw) fun _ hw => hw.1
      · exact closeFrame_ok _ _ (by rw [hw.2, h])
      · refine closeFrame_ok _ _ (show behind w.frames = .ok rest from ?_)
        rw [hw.elim And.right And.right, h]

theorem resumes_endObject (hold : ∀ n, canHold n = true) :
    Resumes before G (@Writer.endObject (WriterOutlet ω) γ (nest.generatorEnv canHold))
      (Writer.endObject nest.tapeEnv) := by
  rw [endObject_eq, endObject_eq]
  exact resumes_closing hold _ _

theorem resumes_endArray (hold : ∀ n, canHold n = true) :
    Resumes before G (@Writer.endArray (WriterOutlet ω) γ (nest.generatorEnv canHold))
      (Writer.endArray nest.tapeEnv) := by
  rw [endArray_eq, endArray_eq]
  exact resumes_closing hold _ _

/-! ## Strings and numbers in pieces -/

theorem aside_stringOpen (stringOpen : Bool) :
    Aside (fun w : Writer (WriterOutlet ω) γ => ({ w with stringOpen }, .ok))
      (fun b => ({ b with stringOpen }, .ok)) :=
  ⟨fun _ _ => rfl, fun _ => rfl, fun _ => rfl⟩

theorem aside_numberOpen :
    Aside (fun w : Writer (WriterOutlet ω) γ => ({ w with number := [], numberOpen := true }, .ok))
      (fun b => ({ b with number := [], numberOpen := true }, .ok)) :=
  ⟨fun _ _ => rfl, fun _ => rfl, fun _ => rfl⟩

theorem replays_stringBegin (hold : ∀ n, canHold n = true) :
    (outletSetting before).Replays (@Writer.Inside ω γ G core phases)
      (Writer.stringBegin (nest.generatorEnv canHold)) (Writer.stringBegin nest.tapeEnv)
      (fun w => G w.event.child) (Writer.Inside G core phases) :=
  (replays_beforeValue hold).andThen_firm <|
    (replays_emit hold [0x22]).andThen_firm <| (aside_stringOpen true).replays fun _ hw _ => hw.child

theorem resumes_stringBegin (hold : ∀ n, canHold n = true) :
    Resumes before G (@Writer.stringBegin (WriterOutlet ω) γ (nest.generatorEnv canHold))
      (Writer.stringBegin nest.tapeEnv) :=
  resumes_of_inside fun _ => replays_stringBegin hold

theorem replays_stringEnd (hold : ∀ n, canHold n = true) :
    (outletSetting before).Replays (@Writer.Inside ω γ G core phases)
      (Writer.stringEnd (nest.generatorEnv canHold)) (Writer.stringEnd nest.tapeEnv)
      (fun w => G w.event.child) (Writer.Inside G core phases) := by
  refine Checks.andThen
    (checks_check (by decide) _ fun _ _ h => congrArg (fun c => !Writer.stringOpen c) h)
    (fun _ hw => hw.core) (fun _ hw => hw.core) ?_
  have hemit := @replays_emitHeld ω γ nest canHold before hold
    (Writer.Inside G core phases) (fun w out hw => ⟨hw.core, hw.phase, hw.child⟩) [0x22] (by simp)
  exact hemit.andThen_firm ((aside_stringOpen false).replays fun _ hw _ => hw.child)

theorem resumes_stringEnd (hold : ∀ n, canHold n = true) :
    Resumes before G (@Writer.stringEnd (WriterOutlet ω) γ (nest.generatorEnv canHold))
      (Writer.stringEnd nest.tapeEnv) :=
  resumes_of_inside fun _ => replays_stringEnd hold

theorem resumes_numberBegin (hold : ∀ n, canHold n = true) :
    Resumes before G (@Writer.numberBegin (WriterOutlet ω) γ (nest.generatorEnv canHold))
      (Writer.numberBegin nest.tapeEnv) :=
  resumes_of_inside fun _ => (replays_beforeValue hold).andThen_firm <|
    aside_numberOpen.replays fun _ hw _ => hw.2.child

/-- What a step is told from may be fixed. -/
theorem Aside.read {β : Type} {f : β → Writer (WriterOutlet ω) γ → Writer (WriterOutlet ω) γ × Status}
    {g : β → Writer (WriterTape ω) γ → Writer (WriterTape ω) γ × Status}
    {r : Writer (WriterOutlet ω) γ → β} {r' : Writer (WriterTape ω) γ → β}
    (hr : ∀ before w, r' (w.taped before) = r w) (h : ∀ x, Aside (f x) (g x)) :
    Aside (fun w => f (r w) w) (fun b => g (r' b) b) := by
  refine ⟨fun before w => ?_, fun w => (h (r w)).out w, fun b => (h (r' b)).tape b⟩
  rw [hr before w]
  exact (h (r w)).see before w

/-- The number of `lonejson_writer_number_chunk`, with the bytes or without. -/
theorem aside_gathered (r : Except String Bytes) :
    Aside (fun w : Writer (WriterOutlet ω) γ => Writer.gathered r w) (Writer.gathered r) := by
  cases r <;> exact ⟨fun _ _ => rfl, fun _ => rfl, fun _ => rfl⟩

theorem check_event {σ : Type} (w : Writer σ γ) (bad : Bool) (message : String) (code : Status) :
    (w.check bad message code).1.event = w.event := by
  rw [Writer.check]
  split_ifs <;> rfl

theorem first_event {σ : Type} {w : Writer σ γ} {r : Writer σ γ × Status}
    {k : Writer σ γ → Writer σ γ × Status} (hr : r.1.event = w.event)
    (hk : ∀ w, (k w).1.event = w.event) : (andThenOk r k).1.event = w.event := by
  rw [andThenOk]
  split_ifs
  · rw [hk, hr]
  · exact hr

/-- A call that does not write is not interrupted. -/
theorem Aside.resumes {f : Writer (WriterOutlet ω) γ → Writer (WriterOutlet ω) γ × Status}
    {g : Writer (WriterTape ω) γ → Writer (WriterTape ω) γ × Status} (h : Aside f g)
    (hevent : ∀ w, (f w).1.event = w.event) : Resumes before G f g :=
  h.replays fun w hw _ => by rwa [hevent w]

theorem resumes_numberChunk (data : Bytes) :
    Resumes before G (fun w : Writer (WriterOutlet ω) γ => w.numberChunk data)
      (fun b => b.numberChunk data) := by
  have hlast : Aside
      (fun w : Writer (WriterOutlet ω) γ =>
        Writer.gathered (byteAppend w.number data w.maxNumberBytes) w)
      (fun b => Writer.gathered (byteAppend b.number data b.maxNumberBytes) b) :=
    Aside.read (fun _ _ => rfl) aside_gathered
  refine Aside.resumes (checks_checkFailed.toAside.andThen <| checks_checkStream.toAside.andThen <|
    (aside_check _ _ fun _ _ => rfl).andThen hlast) fun w => ?_
  refine first_event (check_event _ _ _ _) fun w => first_event (check_event _ _ _ _) fun w =>
    first_event (check_event _ _ _ _) fun w => ?_
  cases byteAppend w.number data w.maxNumberBytes <;> rfl

theorem aside_finish : @Aside ω γ Writer.finish Writer.finish :=
  checks_checkClosing.toAside.andThen <| (aside_check _ _ fun _ _ => rfl).andThen <|
    (aside_check _ _ fun _ _ => rfl).andThen ⟨fun _ _ => rfl, fun _ => rfl, fun _ => rfl⟩

theorem resumes_finish : Resumes before G (@Writer.finish (WriterOutlet ω) γ) Writer.finish := by
  refine Aside.resumes aside_finish fun w => ?_
  refine first_event ?_ fun w => first_event (check_event _ _ _ _) fun w =>
    first_event (check_event _ _ _ _) fun w => rfl
  exact first_event (check_event _ _ _ _) fun w => first_event (check_event _ _ _ _) fun w =>
    first_event (check_event _ _ _ _) fun w => check_event _ _ _ _

/-! ## Keys and strings -/

theorem replays_escaped (hold : ∀ n, canHold n = true) (data : Bytes) :
    (outletSetting before).Replays (@Writer.Inside ω γ G core phases)
      (Writer.emitEscapedEvent (nest.generatorEnv canHold) data)
      (Writer.emitEscapedEvent nest.tapeEnv data) (Writer.Inside G core phases)
      (Writer.Inside G core phases) := replays_emitFrom hold writtenByte data

/-- A call is in its first phase or behind it. -/
theorem replays_fromStart {Q : Writer (WriterOutlet ω) γ → Prop}
    {f : Writer (WriterOutlet ω) γ → Writer (WriterOutlet ω) γ × Status}
    {g : Writer (WriterTape ω) γ → Writer (WriterTape ω) γ × Status}
    (h : (outletSetting before).Replays (Writer.Inside G core (0 ≤ ·)) f g Q
      (Writer.Inside G core (0 ≤ ·))) :
    (outletSetting before).Replays (Writer.Inside G core fun _ => True) f g Q
      (Writer.Inside G core fun _ => True) :=
  h.imp (fun _ hw => ⟨hw.core, Nat.zero_le _, hw.child⟩) (fun _ hw => hw)
    fun _ hw => ⟨hw.core, trivial, hw.child⟩

/-- The phase of a call that places its value. -/
theorem replays_valueStart (hold : ∀ n, canHold n = true) :
    (outletSetting before).Replays (@Writer.Inside ω γ G core (· = 0))
      (fun w => andThenOk (w.beforeValue (nest.generatorEnv canHold)) fun w => (w.setPhase 1, .ok))
      (fun b => andThenOk (b.beforeValue nest.tapeEnv) fun b => (b.setPhase 1, .ok))
      (Writer.Inside G core (1 ≤ ·)) (Writer.Inside G core (· = 0)) :=
  (replays_beforeValue hold).andThen_firm <|
    (replays_setPhase 1).imp (fun _ hw => hw.2) (fun _ hw => ⟨hw.core, hw.phase.ge, hw.child⟩)
      fun _ hw => hw

/-- The phase of a call that writes the bytes of a string. -/
theorem replays_content (hold : ∀ n, canHold n = true) (data : Bytes) :
    (outletSetting before).Replays (@Writer.Inside ω γ G core (· = 2))
      (fun w => andThenOk (w.emitEscapedEvent (nest.generatorEnv canHold) data) fun w =>
        (w.setPhase 3, .ok))
      (fun b => andThenOk (b.emitEscapedEvent nest.tapeEnv data) fun b => (b.setPhase 3, .ok))
      (Writer.Inside G core (3 ≤ ·)) (Writer.Inside G core (· = 2)) := by
  have hphase : (outletSetting before).Replays (@Writer.Inside ω γ G core (· = 2))
      (fun w => (w.setPhase 3, .ok)) (fun b => (b.setPhase 3, .ok)) (Writer.Inside G core (3 ≤ ·))
      fun _ => False :=
    (replays_setPhase 3).imp (fun _ hw => hw) (fun _ hw => ⟨hw.core, hw.phase.ge, hw.child⟩)
      fun _ hw => hw
  exact (replays_escaped hold data).andThen_firm hphase

/-- A phase of a call that writes a mark. -/
theorem replays_mark (hold : ∀ n, canHold n = true) (text : Bytes) (n : ℕ) :
    (outletSetting before).Replays (@Writer.Inside ω γ G core (· = n))
      (Writer.emitPhase (nest.generatorEnv canHold) text (n + 1))
      (Writer.emitPhase nest.tapeEnv text (n + 1)) (Writer.Inside G core (n + 1 ≤ ·))
      (Writer.Inside G core (· = n)) :=
  (replays_emitPhase hold text (n + 1)).imp (fun _ hw => hw)
    (fun _ hw => ⟨hw.core, hw.phase.ge, hw.child⟩) fun _ hw => hw

theorem resumes_string (hold : ∀ n, canHold n = true) (hG : G none) (data : Slice) :
    Resumes before G (fun w : Writer (WriterOutlet ω) γ =>
      w.string (nest.generatorEnv canHold) data) (fun b => b.string nest.tapeEnv data) := by
  refine (enters_beginEvent (by decide) data.address data.bytes.length).replays fun core =>
    replays_fromStart ?_
  have hlast : (outletSetting before).Replays (@Writer.Inside ω γ G core (3 ≤ ·))
      (fun w => andThenOk (Writer.emitPhase (nest.generatorEnv canHold) [0x22] 3 w) fun w =>
        (w.clearEvent, .ok))
      (fun b => andThenOk (Writer.emitPhase nest.tapeEnv [0x22] 3 b) fun b => (b.clearEvent, .ok))
      (fun w => G w.event.child) (Writer.Inside G core (3 ≤ ·)) :=
    (replays_emitPhase hold [0x22] 3).andThen_firm (replays_clearEvent hG)
  exact replays_inPhase (replays_valueStart hold) <| replays_inPhase (replays_mark hold [0x22] 1) <|
    replays_inPhase (replays_content hold data.bytes) hlast

/-- The marks behind a key do not end their phase. -/
theorem replays_keyEnd (hold : ∀ n, canHold n = true) (hG : G none) :
    (outletSetting before).Replays (@Writer.Inside ω γ G core (3 ≤ ·))
      (fun w => andThenOk
        (w.inPhase 3 (Writer.emitPhase (nest.generatorEnv canHold) [0x22, 0x3a] 3)) fun w =>
          (Writer.clearEvent { w with frames := afterKey w.frames }, .ok))
      (fun b => andThenOk (b.inPhase 3 (Writer.emitPhase nest.tapeEnv [0x22, 0x3a] 3)) fun b =>
        (Writer.clearEvent { b with frames := afterKey b.frames }, .ok))
      (fun w => G w.event.child) (Writer.Inside G core (3 ≤ ·)) := by
  have hmarks : (outletSetting before).Replays (@Writer.Inside ω γ G core (3 ≤ ·))
      (fun w => w.inPhase 3 (Writer.emitPhase (nest.generatorEnv canHold) [0x22, 0x3a] 3))
      (fun b => b.inPhase 3 (Writer.emitPhase nest.tapeEnv [0x22, 0x3a] 3))
      (fun _ => True) (Writer.Inside G core (3 ≤ ·)) := by
    refine Setting.Replays.ite (fun _ => Iff.rfl) ?_ ?_
    · exact (replays_emitPhase hold [0x22, 0x3a] 3).imp
        (fun w hw => (⟨hw.1.core, hw.2, hw.1.child⟩ : Writer.Inside G core (· = 3) w))
        (fun _ _ => trivial) fun w hw => ⟨⟨hw.core, hw.phase.ge, hw.child⟩, hw.phase⟩
    · exact replays_firm (fun _ => List.prefix_rfl) fun w hfits _ =>
        ⟨w, .ok, rfl, rfl, hfits, fun _ => trivial⟩
  have hclear : Aside
      (fun w : Writer (WriterOutlet ω) γ =>
        (Writer.clearEvent { w with frames := afterKey w.frames }, .ok))
      (fun b => (Writer.clearEvent { b with frames := afterKey b.frames }, .ok)) :=
    ⟨fun _ _ => rfl, fun _ => rfl, fun _ => rfl⟩
  exact hmarks.andThen_firm (hclear.replays fun _ _ _ => hG)

/-- The comma in front of a key. -/
theorem replays_keyComma (hold : ∀ n, canHold n = true) (first : Prop) [Decidable first] :
    (outletSetting before).Replays
      (fun w : Writer (WriterOutlet ω) γ => w.Open ∧ Writer.Inside G core (· = 0) w)
      (fun w => andThenOk (if first then w.emit (nest.generatorEnv canHold) [0x2c] else (w, .ok))
        fun w => (w.setPhase 1, .ok))
      (fun b => andThenOk (if first then b.emit nest.tapeEnv [0x2c] else (b, .ok))
        fun b => (b.setPhase 1, .ok))
      (Writer.Inside G core (1 ≤ ·)) fun _ => False := by
  have hphase : (outletSetting before).Replays (@Writer.Inside ω γ G core (· = 0))
      (fun w => (w.setPhase 1, .ok)) (fun b => (b.setPhase 1, .ok)) (Writer.Inside G core (1 ≤ ·))
      fun _ => False :=
    (replays_setPhase 1).imp (fun _ hw => hw) (fun _ hw => ⟨hw.core, hw.phase.ge, hw.child⟩)
      fun _ hw => hw
  refine Setting.Replays.andThen_firm ?_ hphase
  by_cases hfirst : first
  · simp only [if_pos hfirst]
    exact (replays_emitByte hold 0x2c).imp (fun _ hw => hw) (fun _ hw => hw.2) fun _ hw => hw
  · simp only [if_neg hfirst]
    exact replays_firm (fun _ => List.prefix_rfl) fun w hfits hw =>
      ⟨w, .ok, rfl, rfl, hfits, fun _ => hw.2⟩

/-- The end of the first phase of a key, with the output not blocked. -/
def Writer.keyPlace {σ : Type} (env : WriterEnv σ γ) (w : Writer σ γ) : Writer σ γ × Status :=
  match w.frames with
  | ⟨.object, count, afterKey⟩ :: _ =>
    if afterKey then w.setError .invalidJson "previous object key is missing a value"
    else
      andThenOk (if count ≠ 0 then w.emit env [0x2c] else (w, .ok)) fun w => (w.setPhase 1, .ok)
  | _ => w.setError .invalidJson "writer key requires an object"

theorem keyPlace_eq {σ : Type} (env : WriterEnv σ γ) {w : Writer σ γ} {count : ℕ}
    {rest : List WriterFrame} (h : w.frames = ⟨.object, count, false⟩ :: rest) : w.keyPlace env =
      andThenOk (if count ≠ 0 then w.emit env [0x2c] else (w, .ok)) fun w =>
        (w.setPhase 1, .ok) := by
  rw [Writer.keyPlace, h]
  rfl

theorem keyPlace_error (frames : List WriterFrame) :
    (∃ count rest, frames = ⟨.object, count, false⟩ :: rest) ∨ ∃ message, ∀ {σ : Type}
      (env : WriterEnv σ γ) (w : Writer σ γ), w.frames = frames →
        w.keyPlace env = w.setError .invalidJson message := by
  rcases frames with _ | ⟨⟨_ | _, count, _ | _⟩, rest⟩
  case cons.object.false => exact .inl ⟨count, rest, rfl⟩
  case cons.object.true =>
    refine .inr ⟨"previous object key is missing a value", fun env w h => ?_⟩
    rw [Writer.keyPlace, h]
    rfl
  all_goals
    refine .inr ⟨"writer key requires an object", fun env w h => ?_⟩
    rw [Writer.keyPlace, h]

theorem told_keyPlace (b : Writer (WriterTape ω) γ) :
    b.out.out <+: (b.keyPlace nest.tapeEnv).1.out.out := by
  obtain ⟨count, rest, h⟩ | ⟨message, h⟩ := @keyPlace_error γ b.frames
  · rw [keyPlace_eq _ h]
    exact (@replays_keyComma ω γ nest (fun _ => true) ({} : ReadsBefore) (fun _ => True) { out := () }
      (fun _ => rfl) (count ≠ 0) _).grows b
  · rw [h _ b rfl]
    exact List.prefix_rfl

theorem replays_keyPlace (hold : ∀ n, canHold n = true) :
    (outletSetting before).Replays
      (fun w : Writer (WriterOutlet ω) γ => w.Open ∧ Writer.Inside G core (· = 0) w)
      (Writer.keyPlace (nest.generatorEnv canHold)) (Writer.keyPlace nest.tapeEnv)
      (Writer.Inside G core (1 ≤ ·)) fun _ => False := by
  refine .read Writer.frames [] fun frames => ?_
  obtain ⟨count, rest, rfl⟩ | ⟨message, h⟩ := @keyPlace_error γ frames
  · have hcomma := (@replays_keyComma ω γ nest canHold before G core hold (count ≠ 0) _).imp
      (fun w (hw : (w.Open ∧ Writer.Inside G core (· = 0) w) ∧
        w.frames = ⟨.object, count, false⟩ :: rest) => hw.1) (fun _ hw => hw) fun _ hw => hw
    exact hcomma.congr told_keyPlace (fun w hw => keyPlace_eq _ hw.2)
      fun w hw => keyPlace_eq _ (hw.resolve_right id).2
  · refine replays_firm told_keyPlace fun w hfits hw => ?_
    exact ⟨_, _, h _ w hw.2, h _ _ hw.2, hfits, fun h => by cases h⟩

theorem replays_keyStart (hold : ∀ n, canHold n = true) :
    (outletSetting before).Replays (@Writer.Inside ω γ G core (· = 0))
      (Writer.keyStart (nest.generatorEnv canHold)) (Writer.keyStart nest.tapeEnv)
      (Writer.Inside G core (1 ≤ ·)) (Writer.Inside G core (· = 0)) := by
  have hcore : ∀ w, @Writer.Inside ω γ G core (· = 0) w → w.core = core := fun _ hw => hw.core
  refine checks_checkString.andThen hcore hcore <| checks_checkNumber.andThen hcore hcore <|
    replays_unblocked (fun _ hw => hw) ?_
  exact (replays_keyPlace hold).imp (fun _ hw => hw) (fun _ hw => hw) fun _ hw => hw.elim

/-- A key behind the start of its call. -/
def Writer.keyRest {σ : Type} (env : WriterEnv σ γ) (key : Bytes) (w : Writer σ γ) :
    Writer σ γ × Status :=
  andThenOk (w.inPhase 0 (Writer.keyStart env)) fun w =>
  andThenOk (w.inPhase 1 (Writer.emitPhase env [0x22] 2)) fun w =>
  andThenOk (w.inPhase 2 fun w =>
    andThenOk (w.emitEscapedEvent env key) fun w => (w.setPhase 3, .ok)) fun w =>
  andThenOk (w.inPhase 3 (Writer.emitPhase env [0x22, 0x3a] 3)) fun w =>
    (Writer.clearEvent { w with frames := afterKey w.frames }, .ok)

theorem key_eq {σ : Type} (env : WriterEnv σ γ) (w : Writer σ γ) (key : Slice) : w.key env key =
    andThenOk (andThenOk w.checkFailed fun w => andThenOk w.checkStream fun w =>
      w.beginEvent .key key.address key.bytes.length) (Writer.keyRest env key.bytes) := by
  simp only [andThenOk_assoc]
  rfl

theorem resumes_key (hold : ∀ n, canHold n = true) (hG : G none) (key : Slice) :
    Resumes before G (fun w : Writer (WriterOutlet ω) γ => w.key (nest.generatorEnv canHold) key)
      (fun b => b.key nest.tapeEnv key) := by
  simp only [key_eq]
  refine (checks_checkFailed.enters (checks_checkStream.enters
    (enters_beginEvent (by decide) _ _))).replays fun core => replays_fromStart ?_
  exact replays_inPhase (replays_keyStart hold) <| replays_inPhase (replays_mark hold [0x22] 1) <|
    replays_inPhase (replays_content hold key.bytes) (replays_keyEnd hold hG)

theorem resumes_stringChunk (hold : ∀ n, canHold n = true) (hG : G none) (data : Slice) :
    Resumes before G (fun w : Writer (WriterOutlet ω) γ =>
      w.stringChunk (nest.generatorEnv canHold) data) (fun b => b.stringChunk nest.tapeEnv data) := by
  have hopen : Checks
      (fun w : Writer (WriterOutlet ω) γ => w.check (!w.stringOpen) "writer string is not open")
      (fun b => b.check (!b.stringOpen) "writer string is not open") :=
    checks_check (by decide) _ fun _ _ h => congrArg (fun c => !Writer.stringOpen c) h
  have hstart := checks_checkFailed.enters (checks_checkStream.enters (hopen.enters
    (enters_beginEvent (by decide : WriterEventKind.stringChunk ≠ .none) data.address
      data.bytes.length)))
  have hcall := hstart.replays fun core => (@replays_escaped ω γ nest canHold before G core
    (fun _ => True) hold data.bytes).andThen_firm (replays_clearEvent hG)
  simp only [andThenOk_assoc] at hcall
  exact hcall

/-! ## Numbers and scalars -/

/-- The calls that write bytes as they are, behind their start. -/
def Writer.bytesRest {σ : Type} (env : WriterEnv σ γ) (data : Bytes) (w : Writer σ γ) :
    Writer σ γ × Status :=
  andThenOk (w.inPhase 0 fun w =>
    andThenOk (w.beforeValue env) fun w => (w.setPhase 1, .ok)) fun w =>
  andThenOk (w.emitBytesEvent env data) fun w => (w.clearEvent, .ok)

theorem replays_bytes (hold : ∀ n, canHold n = true) (data : Bytes) :
    (outletSetting before).Replays (@Writer.Inside ω γ G core phases)
      (Writer.emitBytesEvent (nest.generatorEnv canHold) data)
      (Writer.emitBytesEvent nest.tapeEnv data) (Writer.Inside G core phases)
      (Writer.Inside G core phases) := replays_emitFrom hold (fun b => [b]) data

theorem replays_bytesRest (hold : ∀ n, canHold n = true) (hG : G none) (data : Bytes) :
    (outletSetting before).Replays (@Writer.Inside ω γ G core fun _ => True)
      (Writer.bytesRest (nest.generatorEnv canHold) data) (Writer.bytesRest nest.tapeEnv data)
      (fun w => G w.event.child) (Writer.Inside G core fun _ => True) :=
  replays_fromStart <| replays_inPhase (replays_valueStart hold) <|
    (replays_bytes hold data).andThen_firm (replays_clearEvent hG)

theorem numberText_eq {σ : Type} (env : WriterEnv σ γ) (w : Writer σ γ) (data : Slice) :
    w.numberText env data =
      andThenOk (andThenOk (w.check data.bytes.isEmpty "number text is required" .invalidArgument)
        fun w => andThenOk (w.check (!isValidJsonNumber data.bytes) "number text must be a JSON number")
        fun w => w.beginEvent .bytes data.address data.bytes.length)
        (Writer.bytesRest env data.bytes) := by
  simp only [andThenOk_assoc]
  rfl

theorem resumes_numberText (hold : ∀ n, canHold n = true) (hG : G none) (data : Slice) :
    Resumes before G (fun w : Writer (WriterOutlet ω) γ =>
      w.numberText (nest.generatorEnv canHold) data) (fun b => b.numberText nest.tapeEnv data) := by
  simp only [numberText_eq]
  refine Enters.replays ?_ fun core => replays_bytesRest hold hG data.bytes
  exact Checks.enters (checks_check (by decide) _ fun _ _ _ => rfl) <|
    Checks.enters (checks_check (by decide) _ fun _ _ _ => rfl) (enters_beginEvent (by decide) _ _)

/-- What the start of a scalar leaves. -/
theorem beginScalar_ok (data : Bytes) {w : Writer (WriterOutlet ω) γ}
    (h : (w.beginScalar data).2 = .ok) :
    (w.beginScalar data).1.flags = w.flags ∧
      (w.beginScalar data).1.event.child = w.event.child ∧
      (w.beginScalar data).1.event.kind = .scalarBytes ∧
      (w.beginScalar data).1.event.len = data.length ∧
      (w.beginScalar data).1.event.buffer = data := by
  rw [Writer.beginScalar] at h ⊢
  split_ifs at h ⊢ with hscalar hnone
  · rw [Writer.check] at h ⊢
    split_ifs at h ⊢ with hbad
    · cases h
    · simp only [ne_eq, decide_not, Bool.or_eq_true, Bool.not_eq_true', decide_eq_false_iff_not,
        not_or, not_not] at hbad
      exact ⟨rfl, rfl, hscalar, hbad.1, hbad.2⟩
  · obtain ⟨-, ⟨-, hw⟩ | ⟨hsome, -⟩⟩ := beginEvent_ok _ _ h
    · rw [hw]
      exact ⟨rfl, rfl, rfl, rfl, rfl⟩
    · exact absurd hnone hsome
  · obtain ⟨-, ⟨hnone', -⟩ | ⟨-, -, hkind, -⟩⟩ := beginEvent_ok _ _ h
    · exact absurd hnone' hnone
    · exact absurd hkind hscalar

theorem enters_beginScalar (data : Bytes) :
    Enters (fun w : Writer (WriterOutlet ω) γ => w.beginScalar data) (fun b => b.beginScalar data) where
  toAside := by
    have hbegin := (@enters_beginEvent ω γ .scalarBytes (by decide) .eventBuffer data.length).toAside
    have hhold : Aside
        (fun w : Writer (WriterOutlet ω) γ =>
          (w.holdScalar data).beginEvent .scalarBytes .eventBuffer data.length)
        (fun b => (b.holdScalar data).beginEvent .scalarBytes .eventBuffer data.length) :=
      hbegin.comp (fun _ _ => rfl) (fun _ => rfl) fun _ => rfl
    exact Aside.ite (fun _ _ => Iff.rfl) (aside_check _ _ fun _ _ => rfl) <|
      Aside.ite (fun _ _ => Iff.rfl) hhold hbegin
  flags w hok := (beginScalar_ok data hok).1
  child w hok := (beginScalar_ok data hok).2.1
  again w b hok hcore := by
    obtain ⟨-, -, hkind, hlen, hbuffer⟩ := beginScalar_ok data hok
    have hb := congrArg Writer.event hcore
    simp only [Writer.core, WriterEvent.mk.injEq, and_true, true_and] at hb
    rw [beginScalar_same (hb.1.trans hkind), Writer.check, if_neg]
    simp [hb.2.2.1.trans hlen, hb.2.2.2.trans hbuffer]

theorem resumes_scalarBytes (hold : ∀ n, canHold n = true) (hG : G none) (data : Bytes) :
    Resumes before G (fun w : Writer (WriterOutlet ω) γ =>
      w.emitScalarBytes (nest.generatorEnv canHold) data)
      (fun b => b.emitScalarBytes nest.tapeEnv data) :=
  (enters_beginScalar data).replays fun _ => replays_bytesRest hold hG data

theorem resumes_f64 (hold : ∀ n, canHold n = true) (hG : G none) (finite : Bool)
    (text : Option Bytes) :
    Resumes before G (fun w : Writer (WriterOutlet ω) γ =>
      w.f64 (nest.generatorEnv canHold) finite text) (fun b => b.f64 nest.tapeEnv finite text) := by
  have herror (code : Status) (message : String) : Resumes before G
      (fun w : Writer (WriterOutlet ω) γ => w.setError code message)
      (fun b => b.setError code message) :=
    Aside.resumes (aside_update code (fun _ _ => rfl) (fun _ => rfl) fun _ => rfl) fun _ => rfl
  cases finite with
  | false => exact herror _ _
  | true =>
      cases text with
      | none => exact herror _ _
      | some text => exact resumes_scalarBytes hold hG text

theorem resumes_nullSource (hold : ∀ n, canHold n = true) :
    Resumes before G (@Writer.nullSource (WriterOutlet ω) γ (nest.generatorEnv canHold))
      (Writer.nullSource nest.tapeEnv) :=
  resumes_of_inside fun _ => (replays_beforeValue hold).andThen_firm <|
    (replays_emit hold Json.nullText).imp (fun _ hw => hw) (fun _ hw => hw.child) fun _ hw => hw

/-- How `lonejson_writer_number_end` begins. -/
def Writer.numberStart {σ : Type} (w : Writer σ γ) : Writer σ γ × Status :=
  andThenOk w.checkFailed fun w =>
  andThenOk (w.check (!w.numberOpen) "writer number is not open") fun w =>
    if !isValidJsonNumber w.number then w.fail .invalidJson "number text must be a JSON number"
    else if w.event.kind = .none then
      ({ w with event := { w.event with
          kind := .bytes, address := .number, len := w.number.length, off := 0, phase := 1 } }, .ok)
    else
      w.check
        (w.event.kind ≠ .bytes || w.event.address ≠ .number || w.event.len ≠ w.number.length)
        "active writer event must be resumed with the same arguments" .invalidArgument

/-- The digits of a number that is complete. -/
def Writer.numberRest {σ : Type} (env : WriterEnv σ γ) (w : Writer σ γ) : Writer σ γ × Status :=
  andThenOk (w.emitBytesEvent env w.number) fun w =>
    (Writer.clearEvent { w with number := [], numberOpen := false }, .ok)

theorem numberEnd_eq {σ : Type} (env : WriterEnv σ γ) :
    Writer.numberEnd env = fun w => andThenOk w.numberStart (Writer.numberRest env) := by
  refine funext fun w => ?_
  rw [Writer.numberEnd, Writer.numberStart]
  simp only [andThenOk_assoc]
  refine congrArg _ (funext fun w => congrArg _ (funext fun w => ?_))
  split_ifs <;> rfl

/-- The event of a number, or the one that is pending. -/
def Writer.numberEvent {σ : Type} (w : Writer σ γ) : Writer σ γ × Status :=
  if w.event.kind = .none then
    ({ w with event := { w.event with
        kind := .bytes, address := .number, len := w.number.length, off := 0, phase := 1 } }, .ok)
  else
    w.check
      (w.event.kind ≠ .bytes || w.event.address ≠ .number || w.event.len ≠ w.number.length)
      "active writer event must be resumed with the same arguments" .invalidArgument

theorem check_ok {σ : Type} {w : Writer σ γ} {bad : Bool} {message : String} {code : Status}
    (hcode : code ≠ .ok) (h : (w.check bad message code).2 = .ok) : bad = false := by
  cases bad with
  | false => rfl
  | true => exact absurd h hcode

theorem numberStart_eq {σ : Type} {w : Writer σ γ} (hfailed : w.failed = false)
    (hopen : w.numberOpen = true) (hvalid : isValidJsonNumber w.number = true) :
    w.numberStart = w.numberEvent := by
  rw [Writer.numberStart, Writer.checkFailed, hfailed, check_false, andThenOk_ok, hopen,
    Bool.not_true, check_false, andThenOk_ok, hvalid, Bool.not_true]
  rfl

theorem numberStart_ok {σ : Type} {w : Writer σ γ} (h : w.numberStart.2 = .ok) :
    w.failed = false ∧ w.numberOpen = true ∧ isValidJsonNumber w.number = true := by
  have hfailed : w.failed = false := check_ok (by decide) (first_ok h)
  rw [Writer.numberStart, Writer.checkFailed, hfailed, check_false, andThenOk_ok] at h
  have hopen : w.numberOpen = true := by
    have hnot := check_ok (by decide) (first_ok h)
    simpa using hnot
  rw [hopen, Bool.not_true, check_false, andThenOk_ok] at h
  refine ⟨hfailed, hopen, ?_⟩
  by_contra hvalid
  rw [if_pos (by simpa using hvalid)] at h
  cases h

theorem numberEvent_ok {σ : Type} {w : Writer σ γ} (h : w.numberEvent.2 = .ok) :
    w.numberEvent.1.flags = w.flags ∧ w.numberEvent.1.event.child = w.event.child ∧
      w.numberEvent.1.event.kind = .bytes ∧ w.numberEvent.1.event.address = .number ∧
      w.numberEvent.1.event.len = w.number.length := by
  rw [Writer.numberEvent] at h ⊢
  split_ifs at h ⊢ with hnone
  · exact ⟨rfl, rfl, rfl, rfl, rfl⟩
  · have hsame := check_ok (by decide) h
    rw [hsame, check_false]
    simp only [ne_eq, decide_not, Bool.or_eq_false_iff, Bool.not_eq_false', decide_eq_true_eq]
      at hsame
    exact ⟨rfl, rfl, hsame.1.1, hsame.1.2, hsame.2⟩

theorem enters_numberStart : Enters (@Writer.numberStart γ (WriterOutlet ω)) Writer.numberStart where
  toAside := by
    refine checks_checkFailed.toAside.andThen <| (aside_check _ _ fun _ _ => rfl).andThen <|
      Aside.ite (fun _ _ => Iff.rfl) ?_ <| Aside.ite (fun _ _ => Iff.rfl) ?_
        (aside_check _ _ fun _ _ => rfl)
    · exact aside_update .invalidJson (fun _ _ => rfl) (fun _ => rfl) fun _ => rfl
    · exact aside_update .ok (fun _ _ => rfl) (fun _ => rfl) fun _ => rfl
  flags w hok := by
    obtain ⟨hfailed, hopen, hvalid⟩ := numberStart_ok hok
    rw [numberStart_eq hfailed hopen hvalid] at hok ⊢
    exact (numberEvent_ok hok).1
  child w hok := by
    obtain ⟨hfailed, hopen, hvalid⟩ := numberStart_ok hok
    rw [numberStart_eq hfailed hopen hvalid] at hok ⊢
    exact (numberEvent_ok hok).2.1
  again w b hok hcore := by
    obtain ⟨hfailed, hopen, hvalid⟩ := numberStart_ok hok
    rw [numberStart_eq hfailed hopen hvalid] at hok hcore
    obtain ⟨hflags, -, hkind, haddress, hlen⟩ := numberEvent_ok hok
    have hflags' : b.flags = w.flags := (Writer.flags_of_core hcore).trans hflags
    have hnumber : b.number = w.number := congrArg Writer.number hflags'
    have hb := congrArg Writer.event hcore
    simp only [Writer.core, WriterEvent.mk.injEq, and_true, true_and] at hb
    have hfailed' : b.failed = false := (congrArg Writer.failed hflags').trans hfailed
    have hopen' : b.numberOpen = true := (congrArg Writer.numberOpen hflags').trans hopen
    rw [numberStart_eq hfailed' hopen' (by rw [hnumber, hvalid]), Writer.numberEvent,
      if_neg (by rw [hb.1, hkind]; decide), hb.1.trans hkind, hb.2.1.trans haddress,
      hb.2.2.1.trans hlen, hnumber]
    simp [check_false]

/-- The digits are those that the call began with. -/
theorem replays_digits (hold : ∀ n, canHold n = true) :
    (outletSetting before).Replays (@Writer.Inside ω γ G core fun _ => True)
      (fun w => w.emitBytesEvent (nest.generatorEnv canHold) w.number)
      (fun b => b.emitBytesEvent nest.tapeEnv b.number) (Writer.Inside G core fun _ => True)
      (Writer.Inside G core fun _ => True) := by
  have hnumber (w : Writer (WriterOutlet ω) γ) (hw : Writer.Inside G core (fun _ => True) w) :
      w.number = core.number := congrArg Writer.number hw.core
  refine (@replays_bytes ω γ nest canHold before G core (fun _ => True) hold core.number).congr
    (fun b => told_emitEach _ _ b) (fun w hw => by rw [hnumber w hw]) fun w hw => ?_
  rw [show ((outletSetting before).see w).number = core.number from hnumber w (hw.elim id id)]

theorem resumes_numberEnd (hold : ∀ n, canHold n = true) (hG : G none) :
    Resumes before G (@Writer.numberEnd (WriterOutlet ω) γ (nest.generatorEnv canHold))
      (Writer.numberEnd nest.tapeEnv) := by
  rw [numberEnd_eq, numberEnd_eq]
  have hlast : Aside
      (fun w : Writer (WriterOutlet ω) γ =>
        (Writer.clearEvent { w with number := [], numberOpen := false }, .ok))
      (fun b => (Writer.clearEvent { b with number := [], numberOpen := false }, .ok)) :=
    aside_update .ok (fun _ _ => rfl) (fun _ => rfl) fun _ => rfl
  exact enters_numberStart.replays fun _ =>
    (replays_digits hold).andThen_firm (hlast.replays fun _ _ _ => hG)

end Lonejson
