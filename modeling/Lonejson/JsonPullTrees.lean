import Lonejson.JsonPull
import Lonejson.Transcoding

/-!
# What the pull reader prints

What the pull reader prints for a text that spells a tree: the text that the transcoder lays
out, up to the first number or string that the pull reader does not take. The induction is on
the spelling, from the end of the text to its start; it carries the frames.
-/

namespace Lonejson

open Json (Text Tree Lexis Layout Spells SpellsMembers SpellsMember SpellsItems SpellsElement
  Space quoted itemsLaid membersLaid itemsEachToken membersEachToken commaUnless Document)
open Pull (Producer)

namespace JsonPull

theorem producer_lawful : producer.Lawful where
  pending_flush _ _ := rfl
  flush_flush _ _ _ := rfl
  flush_pending _ := rfl

/-! ## Fetching bytes -/

/-- No limit is in the way of the text that is left. -/
def Roomy (s : JsonPull) : Prop :=
  s.maxTotalBytes ≠ 0 →
    s.totalBytes + s.text.length ≤ s.maxTotalBytes + if s.hasPushback then 1 else 0

/-- The state with another text left, after some bytes have been fetched. -/
def Moves (s : JsonPull) (text : Text) (s' : JsonPull) : Prop :=
  s'.Roomy ∧ ∃ hasPushback totalBytes, s' = { s with text, hasPushback, totalBytes }

theorem Moves.trans {s s' s'' : JsonPull} {i j : Text} (h : s.Moves i s') (h' : s'.Moves j s'') :
    s.Moves j s'' := by
  obtain ⟨_, _, _, rfl⟩ := h
  obtain ⟨hroom, pushback, total, rfl⟩ := h'
  exact ⟨hroom, pushback, total, rfl⟩

theorem getc_eq {s : JsonPull} {b : Byte} {i : Text} (hs : s.text = b :: i) (hroom : s.Roomy) :
    ∃ s', s.Moves i s' ∧ s'.hasPushback = false ∧ ∀ k, s.getc k = k s' (some b) := by
  refine ⟨{ s with
    text := i
    hasPushback := false
    totalBytes := if s.hasPushback then s.totalBytes else s.totalBytes + 1 },
    ⟨fun hmax => ?_, _, _, rfl⟩, rfl, fun k => ?_⟩
  · have h := hroom hmax
    rw [hs, List.length_cons] at h
    dsimp only
    split at h <;> simp_all <;> omega
  · rw [getc, hs]
    dsimp only
    rw [if_neg]
    rw [overTotal, Bool.and_eq_true, decide_eq_true_eq, decide_eq_true_eq, not_and]
    intro hmax
    have h := hroom hmax
    rw [hs, List.length_cons] at h
    dsimp only
    split at h <;> simp_all <;> omega

theorem ungetc_moves {s : JsonPull} (b : Byte) (hroom : s.Roomy) (hback : s.hasPushback = false) :
    s.Moves (b :: s.text) (s.ungetc b) := by
  refine ⟨fun hmax => ?_, _, _, rfl⟩
  have h := hroom hmax
  rw [hback, if_neg (by simp)] at h
  change s.totalBytes + (s.text.length + 1) ≤ s.maxTotalBytes + 1
  omega

theorem peek_eq {s : JsonPull} {b : Byte} {i r : Text} (hs : s.text = i) (hroom : s.Roomy)
    (h : Space i (b :: r)) (hb : isJsonSpace b = false) :
    ∃ s', s.Moves (b :: r) s' ∧ ∀ k, s.peek k = k s' (some b) := by
  rw [← hs] at h
  generalize hj : b :: r = j at h
  have hskip : ∃ s', s.Moves j s' ∧ ∀ k, skipSpaces k s.text s = k s' (some b) := by
    clear hs
    generalize hi : s.text = i at h
    induction h generalizing s with
    | done =>
        subst hj
        obtain ⟨s', hmoves, hback, hget⟩ := getc_eq hi hroom
        have htext : s'.text = r := by obtain ⟨_, _, _, rfl⟩ := hmoves; rfl
        refine ⟨s'.ungetc b, hmoves.trans (htext ▸ ungetc_moves b hmoves.1 hback), fun k => ?_⟩
        rw [skipSpaces, ← hi, hget, if_neg (by simp [hb])]
    | @skip c i _ hc h ih =>
        obtain ⟨s', hmoves, hback, hget⟩ := getc_eq hi hroom
        have htext : s'.text = i := by obtain ⟨_, _, _, rfl⟩ := hmoves; rfl
        obtain ⟨s'', hmoves', hskip⟩ := ih hmoves.1 hj htext
        refine ⟨s'', hmoves.trans hmoves', fun k => ?_⟩
        rw [skipSpaces, ← hi, hget, if_pos (by rwa [← isSpace_eq])]
        exact hskip k
  exact hskip

/-- Only blanks are left. -/
theorem peek_end {s : JsonPull} (hroom : s.Roomy) (h : Space s.text []) :
    ∃ s', s.Moves [] s' ∧ ∀ k, s.peek k = k s' none := by
  generalize hi : s.text = i at h
  generalize hj : ([] : Text) = j at h
  have hskip : ∃ s', s.Moves j s' ∧ ∀ k, skipSpaces k s.text s = k s' none := by
    induction h generalizing s with
    | done =>
        subst hj
        refine ⟨s, ⟨hroom, _, _, by rw [← hi]⟩, fun k => ?_⟩
        rw [hi, skipSpaces, ← hi]
    | @skip c i _ hc h ih =>
        obtain ⟨s', hmoves, hback, hget⟩ := getc_eq hi hroom
        have htext : s'.text = i := by obtain ⟨_, _, _, rfl⟩ := hmoves; rfl
        obtain ⟨s'', hmoves', hskip⟩ := ih hmoves.1 htext hj
        refine ⟨s'', hmoves.trans hmoves', fun k => ?_⟩
        rw [hi, skipSpaces, ← hi, hget, if_pos (by rwa [← isSpace_eq]), ← htext]
        exact hskip k
  exact hskip

/-! ## States -/

/-- Whether the text is indented, and the depth it is at. -/
abbrev Mode := Bool × ℕ

variable {mode : Mode}

/-- A state with some text left, inside some frames. -/
structure At (mode : Mode) (text : Text) (frames : List JsonPullFrame) (lex : JsonPullLex)
    (s : JsonPull) : Prop where
  text : s.text = text
  frames : s.frames = frames
  lex : s.lex = lex
  mode : (s.pretty, s.baseDepth) = mode
  finished : s.finished = false
  synthetic : s.syntheticNull = false
  room : s.Roomy

theorem At.pretty {i : Text} {frames : List JsonPullFrame} {lex : JsonPullLex} {s : JsonPull}
    (h : s.At mode i frames lex) : s.pretty = mode.1 := congrArg Prod.fst h.mode

theorem At.baseDepth {i : Text} {frames : List JsonPullFrame} {lex : JsonPullLex} {s : JsonPull}
    (h : s.At mode i frames lex) : s.baseDepth = mode.2 := congrArg Prod.snd h.mode

theorem At.moves {i j : Text} {frames : List JsonPullFrame} {lex : JsonPullLex} {s s' : JsonPull}
    (h : s.At mode i frames lex) (hs : s.Moves j s') : s'.At mode j frames lex := by
  obtain ⟨hroom, _, _, rfl⟩ := hs
  exact ⟨rfl, h.frames, h.lex, h.mode, h.finished, h.synthetic, hroom⟩

theorem At.flushed {i : Text} {frames : List JsonPullFrame} {lex : JsonPullLex} {s : JsonPull}
    (h : s.At mode i frames lex) : (producer.flush s []).At mode i frames lex :=
  ⟨h.text, h.frames, h.lex, h.mode, h.finished, h.synthetic, h.room⟩

/-- The frames behind a value. -/
def doneFrames : List JsonPullFrame → List JsonPullFrame
  | [] => []
  | frame :: rest => { frame with phase := .commaOrEnd, count := frame.count + 1 } :: rest

/-- The frames in front of a value. -/
def Waits (frames : List JsonPullFrame) : Prop := ∀ frame ∈ frames.head?, frame.phase = .value

/-- How many containers are around a value. -/
def valueDepth : List JsonPullFrame → ℕ
  | [] => 0
  | frame :: _ => frame.depth + 1

structure AtValue (mode : Mode) (text : Text) (frames : List JsonPullFrame) (s : JsonPull) :
    Prop where
  place : s.At mode text frames .none
  begun : frames = [] → s.rootStarted = false ∧ s.rootFinished = false

structure AfterValue (mode : Mode) (text : Text) (frames : List JsonPullFrame) (s : JsonPull) :
    Prop where
  place : s.At mode text (doneFrames frames) .none
  done : frames = [] → s.rootFinished = true

theorem At.complete {i : Text} {frames : List JsonPullFrame} {s : JsonPull}
    (h : s.At mode i frames .none) (hw : Waits frames) (out : Bytes) :
    AfterValue mode i frames { s.valueComplete with pending := out } := by
  obtain ⟨htext, hframes, hlex, hmode, hfinished, hsynthetic, hroom⟩ := h
  cases frames with
  | nil =>
      rw [valueComplete, hframes]
      exact ⟨⟨htext, rfl, hlex, hmode, hfinished, hsynthetic, hroom⟩, fun _ => rfl⟩
  | cons frame rest =>
      rw [valueComplete, hframes]
      dsimp only
      rw [if_pos (hw frame rfl)]
      exact ⟨⟨htext, rfl, hlex, hmode, hfinished, hsynthetic, hroom⟩, fun h => by cases h⟩

/-- A step from one kind of state to another. -/
def Steps (A B : JsonPull → Prop) (out : Bytes) : Prop :=
  ∀ s, A s → producer.ended (producer.flush s []) = false ∧
    ∃ s', producer.step (producer.flush s []) = .next s' ∧ producer.pending s' = out ∧ B s'

section

variable {frames : List JsonPullFrame} {i r : Text} {b : Byte}

/-! ## Containers -/

/-- A frame that looks at the next byte that is no blank. -/
theorem steps_frame {frame : JsonPullFrame} {B : JsonPull → Prop} {out : Bytes}
    (h : ∀ s : JsonPull, s.At mode i (frame :: frames) .none → s.pending = [] →
      ∃ s', s.stepTop frame = .next s' ∧ s'.pending = out ∧ B s') :
    Steps (At mode i (frame :: frames) .none) B out := by
  intro s hs
  obtain ⟨s', hstep, hout, hB⟩ := h _ hs.flushed rfl
  refine ⟨hs.finished, s', ?_, hout, hB⟩
  rw [← hstep]
  change step _ = _
  rw [step, hs.flushed.lex]
  dsimp only
  rw [hs.flushed.frames, if_neg (by simp), stepFrame, hs.flushed.frames]

/-- A byte is looked at and taken. -/
theorem take_eq {s : JsonPull} (hs : s.text = i) (hroom : s.Roomy) (h : Space i (b :: r))
    (hb : isJsonSpace b = false) :
    ∃ s₁ s₂, s.Moves (b :: r) s₁ ∧ s.Moves r s₂ ∧ (∀ k, s.peek k = k s₁ (some b)) ∧
      ∀ k, s₁.getc k = k s₂ (some b) := by
  obtain ⟨s₁, h₁, hpeek⟩ := peek_eq hs hroom h hb
  have htext : s₁.text = b :: r := by obtain ⟨_, _, _, rfl⟩ := h₁; rfl
  obtain ⟨s₂, h₂, -, hget⟩ := getc_eq htext h₁.1
  exact ⟨s₁, s₂, h₁, h₁.trans h₂, hpeek, hget⟩

theorem closer_solid (kind : ContainerKind) : isJsonSpace (closer kind) = false := by
  cases kind <;> rfl

/-- The top frame in another phase. -/
theorem At.withPhase {frame : JsonPullFrame} {s : JsonPull} {lex : JsonPullLex}
    (h : s.At mode i (frame :: frames) lex) (phase : JsonPullPhase) :
    (s.withPhase phase).At mode i ({ frame with phase } :: frames) lex := by
  rw [JsonPull.withPhase, h.frames]
  exact ⟨h.text, rfl, h.lex, h.mode, h.finished, h.synthetic, h.room⟩

/-- What is pending does not matter. -/
theorem At.withPending {s : JsonPull} {lex : JsonPullLex} (h : s.At mode i frames lex) (out : Bytes) :
    At mode i frames lex { s with pending := out } :=
  ⟨h.text, h.frames, h.lex, h.mode, h.finished, h.synthetic, h.room⟩

theorem At.pending {s : JsonPull} {lex : JsonPullLex} {frame : JsonPullFrame} (phase : JsonPullPhase)
    (h : s.At mode i (frame :: frames) lex) (out : Bytes) :
    At mode i ({ frame with phase } :: frames) lex { s.withPhase phase with pending := out } :=
  (h.withPhase phase).withPending out

variable {kind : ContainerKind} {depth count : ℕ}

/-- The phase of a frame before a child, behind the blanks. -/
def childPhase (kind : ContainerKind) : JsonPullPhase :=
  JsonPullFrame.child false { kind, depth := 0 }

/-- The phase of a frame before the blanks in front of a child. -/
def startPhase (mode : Mode) (kind : ContainerKind) : JsonPullPhase :=
  JsonPullFrame.child mode.1 { kind, depth := 0 }

/-- The phase of a frame with children before the blanks in front of its end. -/
def endPhase (mode : Mode) : JsonPullPhase := if mode.1 then .preCloseNl else .close

theorem withPhase_pending (s : JsonPull) (phase : JsonPullPhase) :
    (s.withPhase phase).pending = s.pending := by
  rw [JsonPull.withPhase]
  split <;> rfl

theorem Moves.pending {s s' : JsonPull} (h : s.Moves i s') : s'.pending = s.pending := by
  obtain ⟨_, _, _, rfl⟩ := h
  rfl

theorem steps_firstMore (h : Space i (b :: r)) (hb : isJsonSpace b = false)
    (hclose : b ≠ closer kind) :
    Steps (At mode i (⟨kind, .first, depth, count⟩ :: frames) .none)
      (At mode (b :: r) (⟨kind, startPhase mode kind, depth, count⟩ :: frames) .none) [] := by
  refine steps_frame fun s hs hpending => ?_
  obtain ⟨s₁, hmoves, hpeek⟩ := peek_eq hs.text hs.room h hb
  have hs₁ := hs.moves hmoves
  refine ⟨s₁.withPhase (startPhase mode kind), ?_, ?_, hs₁.withPhase _⟩
  · rw [stepTop]
    dsimp only
    rw [hpeek]
    dsimp only
    rw [if_neg hclose, hs₁.pretty]
    rfl
  · rw [withPhase_pending, hmoves.pending, hpending]

theorem steps_firstClose (h : Space i (closer kind :: r)) :
    Steps (At mode i (⟨kind, .first, depth, 0⟩ :: frames) .none)
      (At mode r (⟨kind, .close, depth, 0⟩ :: frames) .none) [] := by
  refine steps_frame fun s hs hpending => ?_
  obtain ⟨s₁, s₂, -, hmoves, hpeek, hget⟩ := take_eq hs.text hs.room h (closer_solid kind)
  have hs₂ := hs.moves hmoves
  refine ⟨s₂.withPhase .close, ?_, ?_, hs₂.withPhase _⟩
  · rw [stepTop]
    dsimp only
    rw [hpeek]
    dsimp only
    rw [if_pos rfl, hget, if_neg (by simp)]
  · rw [withPhase_pending, hmoves.pending, hpending]

theorem steps_end (depth count : ℕ) (frames : List JsonPullFrame) (h : Space i (closer kind :: r)) :
    Steps (At mode i (⟨kind, .commaOrEnd, depth, count⟩ :: frames) .none)
      (At mode r (⟨kind, endPhase mode, depth, count⟩ :: frames) .none) [] := by
  refine steps_frame fun s hs hpending => ?_
  obtain ⟨s₁, s₂, -, hmoves, hpeek, hget⟩ := take_eq hs.text hs.room h (closer_solid kind)
  have hs₂ := hs.moves hmoves
  refine ⟨s₂.withPhase (endPhase mode), ?_, ?_, hs₂.withPhase _⟩
  · rw [stepTop]
    dsimp only
    rw [hpeek]
    rw [if_neg (by cases kind <;> simp [closer]), if_pos rfl, hget, hs₂.pretty]
    rfl
  · rw [withPhase_pending, hmoves.pending, hpending]

theorem steps_comma (h : Space i (0x2c :: r)) :
    Steps (At mode i (⟨kind, .commaOrEnd, depth, count⟩ :: frames) .none)
      (At mode r (⟨kind, startPhase mode kind, depth, count⟩ :: frames) .none) [0x2c] := by
  refine steps_frame fun s hs _ => ?_
  obtain ⟨s₁, s₂, -, hmoves, hpeek, hget⟩ := take_eq hs.text hs.room h (by rfl)
  have hs₂ := hs.moves hmoves
  refine ⟨_, ?_, rfl, hs₂.pending (startPhase mode kind) [0x2c]⟩
  rw [stepTop]
  dsimp only
  rw [hpeek]
  rw [if_pos rfl, hget, hs₂.pretty]
  rfl

theorem steps_colon (depth count : ℕ) (frames : List JsonPullFrame) (h : Space i (0x3a :: r)) :
    Steps (At mode i (⟨.object, .colon, depth, count⟩ :: frames) .none)
      (AtValue mode r (⟨.object, .value, depth, count⟩ :: frames))
      (0x3a :: (transcodeLayout mode.1 mode.2).colon) := by
  refine steps_frame fun s hs _ => ?_
  obtain ⟨s₁, s₂, -, hmoves, hpeek, hget⟩ := take_eq hs.text hs.room h (by rfl)
  have hs₂ := hs.moves hmoves
  refine ⟨_, ?_, rfl, hs₂.pending .value _, fun hnil => by cases hnil⟩
  have hcolon : (if mode.1 then [0x3a, 0x20] else [0x3a]) =
      0x3a :: (transcodeLayout mode.1 mode.2).colon := by
    cases mode.1 <;> rfl
  rw [stepTop]
  dsimp only
  rw [hpeek]
  rw [if_pos rfl, hget, hs₂.pretty, hcolon]
  rfl

theorem steps_newline (phase next : JsonPullPhase)
    (h : phase = .preChildNl ∧ next = .preChildIndent ∨
      phase = .preCloseNl ∧ next = .preCloseIndent) :
    Steps (At mode i (⟨kind, phase, depth, count⟩ :: frames) .none)
      (At mode i (⟨kind, next, depth, count⟩ :: frames) .none) [0x0a] := by
  refine steps_frame fun s hs _ => ⟨_, ?_, rfl, hs.pending next [0x0a]⟩
  rcases h with ⟨rfl, rfl⟩ | ⟨rfl, rfl⟩ <;> rfl

theorem steps_indent (phase next : JsonPullPhase) (d : ℕ)
    (h : phase = .preChildIndent ∧ next = childPhase kind ∧ d = depth + 1 ∨
      phase = .preCloseIndent ∧ next = .close ∧ d = depth) :
    Steps (At mode i (⟨kind, phase, depth, count⟩ :: frames) .none)
      (At mode i (⟨kind, next, depth, count⟩ :: frames) .none)
      (spaces ((mode.2 + d) * 2 % (sizeMax + 1))) := by
  refine steps_frame fun s hs _ => ⟨_, ?_, rfl, hs.pending next _⟩
  have hbase : (s.withPhase next).baseDepth = mode.2 := (hs.withPhase next).baseDepth
  rw [← hbase]
  rcases h with ⟨rfl, rfl, rfl⟩ | ⟨rfl, rfl, rfl⟩ <;> rfl

theorem steps_close (hw : Waits frames) :
    Steps (At mode r (⟨kind, .close, depth, count⟩ :: frames) .none) (AfterValue mode r frames)
      [closer kind] := by
  refine steps_frame fun s hs _ => ⟨_, rfl, rfl, ?_⟩
  have htail : { s with frames := s.frames.tail }.At mode r frames .none :=
    ⟨hs.text, by rw [hs.frames]; rfl, hs.lex, hs.mode, hs.finished, hs.synthetic, hs.room⟩
  exact htail.complete hw _

/-! ## Strings -/

/-- What is known inside a string. -/
structure Inside where
  escape : Bool := false
  digits : ℕ := 0
  accum : ℕ := 0
  slash : Bool := false
  lowU : Bool := false
  low : Bool := false

/-- Inside a string; the digits so far matter only inside an escape. -/
structure AtString (mode : Mode) (text : Text) (frames : List JsonPullFrame) (isKey : Bool)
    (q : Inside) (s : JsonPull) : Prop where
  place : s.At mode text frames .string
  isKey : s.isKey = isKey
  escape : s.escape = q.escape
  digits : s.digitsNeeded = q.digits
  accum : q.digits ≠ 0 → s.accum = q.accum
  slash : s.expectLowSlash = q.slash
  lowU : s.expectLowU = q.lowU
  low : q.digits ≠ 0 → s.parsingLow = q.low

theorem At.withString {s : JsonPull} {lex : JsonPullLex} (h : s.At mode i frames lex)
    (escape : Bool) (accum digitsNeeded : ℕ) (expectLowSlash expectLowU parsingLow : Bool)
    (pending : Bytes) :
    At mode i frames lex { s with
      escape, accum, digitsNeeded, expectLowSlash, expectLowU, parsingLow, pending } :=
  ⟨h.text, h.frames, h.lex, h.mode, h.finished, h.synthetic, h.room⟩

theorem AtString.moves {isKey : Bool} {q : Inside} {s s' : JsonPull}
    (h : AtString mode i frames isKey q s) (hs : s.Moves r s') : AtString mode r frames isKey q s' := by
  have hplace := h.place.moves hs
  obtain ⟨_, _, _, rfl⟩ := hs
  exact ⟨hplace, h.isKey, h.escape, h.digits, h.accum, h.slash, h.lowU, h.low⟩

/-- A byte of a string is fetched. -/
theorem stringStep_eq {isKey : Bool} {q : Inside} {s : JsonPull}
    (hs : AtString mode (b :: i) frames isKey q s) :
    ∃ s₁, AtString mode i frames isKey q s₁ ∧
      producer.step (producer.flush s []) = s₁.stringByte (some b) := by
  have hflushed : AtString mode (b :: i) frames isKey q (producer.flush s []) :=
    ⟨hs.place.flushed, hs.isKey, hs.escape, hs.digits, hs.accum, hs.slash, hs.lowU, hs.low⟩
  obtain ⟨s₁, hmoves, -, hget⟩ := getc_eq hflushed.place.text hflushed.place.room
  refine ⟨s₁, hflushed.moves hmoves, ?_⟩
  rw [← hget stringByte]
  change step _ = _
  rw [step, hflushed.place.lex]
  rfl

/-- A byte of a string. -/
theorem steps_byte {isKey : Bool} {q : Inside} {B : JsonPull → Prop} {out : Bytes}
    (h : ∀ s, AtString mode i frames isKey q s →
      ∃ s', s.stringByte (some b) = .next s' ∧ s'.pending = out ∧ B s') :
    Steps (AtString mode (b :: i) frames isKey q) B out := by
  intro s hs
  obtain ⟨s₁, hs₁, hstep⟩ := stringStep_eq hs
  obtain ⟨s', hnext, hout, hB⟩ := h s₁ hs₁
  exact ⟨hs.place.finished, s', hstep.trans hnext, hout, hB⟩

variable {isKey : Bool}

theorem steps_plain (hb : isPlain b = true) :
    Steps (AtString mode (b :: i) frames isKey {}) (AtString mode i frames isKey {}) [b] := by
  refine steps_byte fun s hs => ?_
  obtain ⟨hplace, hkey, hescape, hdigits, haccum, hslash, hlowU, hlow⟩ := hs
  obtain ⟨hquote, hbackslash, hcontrol⟩ := isPlain_iff.mp hb
  refine ⟨_, ?_, rfl, hplace.withString (b = 0x5c) s.accum s.digitsNeeded s.expectLowSlash
    s.expectLowU s.parsingLow [b], hkey, by simpa using hbackslash, hdigits, haccum, hslash,
    hlowU, hlow⟩
  rw [stringByte, hslash, hlowU, hdigits, hescape]
  simp [hquote, hcontrol, setPending]

theorem steps_backslash :
    Steps (AtString mode (0x5c :: i) frames isKey {}) (AtString mode i frames isKey { escape := true })
      [0x5c] := by
  refine steps_byte fun s hs => ?_
  obtain ⟨hplace, hkey, hescape, hdigits, haccum, hslash, hlowU, hlow⟩ := hs
  refine ⟨_, ?_, rfl, hplace.withString true s.accum s.digitsNeeded s.expectLowSlash
    s.expectLowU s.parsingLow [0x5c], hkey, rfl, hdigits, haccum, hslash, hlowU, hlow⟩
  rw [stringByte, hslash, hlowU, hdigits, hescape]
  rfl

theorem steps_escaped (hb : (simpleEscape b).isSome = true) :
    Steps (AtString mode (b :: i) frames isKey { escape := true }) (AtString mode i frames isKey {}) [b] := by
  refine steps_byte fun s hs => ?_
  obtain ⟨hplace, hkey, hescape, hdigits, haccum, hslash, hlowU, hlow⟩ := hs
  refine ⟨_, ?_, rfl, hplace.withString false s.accum s.digitsNeeded s.expectLowSlash
    s.expectLowU s.parsingLow [b], hkey, rfl, hdigits, haccum, hslash, hlowU, hlow⟩
  rw [stringByte, hslash, hlowU, hdigits, hescape]
  simp [hb, setPending]

theorem steps_unitStart :
    Steps (AtString mode (0x75 :: i) frames isKey { escape := true })
      (AtString mode i frames isKey { digits := 4 }) [0x75] := by
  refine steps_byte fun s hs => ?_
  obtain ⟨hplace, hkey, hescape, hdigits, haccum, hslash, hlowU, hlow⟩ := hs
  refine ⟨_, ?_, rfl, hplace.withString false 0 4 s.expectLowSlash
    s.expectLowU false [0x75], hkey, rfl, rfl, fun _ => rfl, hslash, hlowU, fun _ => rfl⟩
  rw [stringByte, hslash, hlowU, hdigits, hescape]
  rfl

/-- A digit that is not the last one of its unit. -/
theorem steps_digit {n accum hv : ℕ} {low : Bool} (hb : hexValue b = some hv) :
    Steps (AtString mode (b :: i) frames isKey { digits := n + 2, accum, low })
      (AtString mode i frames isKey { digits := n + 1, accum := pushHex accum hv, low }) [b] := by
  refine steps_byte fun s hs => ?_
  obtain ⟨hplace, hkey, hescape, hdigits, haccum, hslash, hlowU, hlow⟩ := hs
  refine ⟨_, ?_, rfl, hplace.withString s.escape (pushHex s.accum hv) (n + 1) s.expectLowSlash
    s.expectLowU s.parsingLow [b], hkey, hescape, rfl, fun _ => ?_, hslash, hlowU,
    fun _ => hlow (by simp)⟩
  · rw [stringByte, hslash, hlowU, hdigits]
    simp [hb, setPending]
  · rw [haccum (by simp)]

/-- The last digit of a unit. -/
theorem lastDigit_eq {accum hv : ℕ} {low : Bool} {s : JsonPull} (hb : hexValue b = some hv)
    (h : AtString mode i frames isKey { digits := 1, accum, low } s) :
    s.stringByte (some b) =
      endUnit { s with accum := pushHex accum hv, digitsNeeded := 0, parsingLow := low } b := by
  obtain ⟨-, -, -, hdigits, haccum, hslash, hlowU, hlow⟩ := h
  obtain rfl : s.accum = accum := haccum (by simp)
  obtain rfl : s.parsingLow = low := hlow (by simp)
  rw [stringByte, hslash, hlowU, hdigits]
  simp [hb]

theorem steps_unitEnd {accum hv : ℕ} (hb : hexValue b = some hv)
    (hhigh : isHighSurrogate (pushHex accum hv) = false)
    (hlow : isLowSurrogate (pushHex accum hv) = false) :
    Steps (AtString mode (b :: i) frames isKey { digits := 1, accum }) (AtString mode i frames isKey {})
      [b] := by
  refine steps_byte fun s hs => ?_
  refine ⟨_, ?_, rfl, hs.place.withString s.escape (pushHex accum hv) 0 s.expectLowSlash
    s.expectLowU false [b], hs.isKey, hs.escape, rfl, fun h => absurd rfl h, hs.slash, hs.lowU,
    fun h => absurd rfl h⟩
  rw [lastDigit_eq hb hs, endUnit]
  simp [hhigh, hlow, setPending]

theorem steps_highEnd {accum hv : ℕ} (hb : hexValue b = some hv)
    (hhigh : isHighSurrogate (pushHex accum hv) = true) :
    Steps (AtString mode (b :: i) frames isKey { digits := 1, accum })
      (AtString mode i frames isKey { slash := true }) [b] := by
  refine steps_byte fun s hs => ?_
  refine ⟨_, ?_, rfl, hs.place.withString s.escape (pushHex accum hv) 0 true
    s.expectLowU false [b], hs.isKey, hs.escape, rfl, fun h => absurd rfl h, rfl, hs.lowU,
    fun h => absurd rfl h⟩
  rw [lastDigit_eq hb hs, endUnit]
  simp [hhigh, setPending]

theorem steps_lowEnd {accum hv : ℕ} (hb : hexValue b = some hv)
    (hlow : isLowSurrogate (pushHex accum hv) = true) :
    Steps (AtString mode (b :: i) frames isKey { digits := 1, accum, low := true })
      (AtString mode i frames isKey {}) [b] := by
  refine steps_byte fun s hs => ?_
  refine ⟨_, ?_, rfl, hs.place.withString s.escape (pushHex accum hv) 0 s.expectLowSlash
    s.expectLowU false [b], hs.isKey, hs.escape, rfl, fun h => absurd rfl h, hs.slash, hs.lowU,
    fun h => absurd rfl h⟩
  rw [lastDigit_eq hb hs, endUnit]
  simp [hlow, setPending]

theorem steps_lowSlash :
    Steps (AtString mode (0x5c :: i) frames isKey { slash := true })
      (AtString mode i frames isKey { lowU := true }) [0x5c] := by
  refine steps_byte fun s hs => ?_
  obtain ⟨hplace, hkey, hescape, hdigits, haccum, hslash, hlowU, hlow⟩ := hs
  refine ⟨_, ?_, rfl, hplace.withString s.escape s.accum s.digitsNeeded false true s.parsingLow
    [0x5c], hkey, hescape, hdigits, haccum, rfl, rfl, hlow⟩
  rw [stringByte, hslash]
  rfl

theorem steps_lowStart :
    Steps (AtString mode (0x75 :: i) frames isKey { lowU := true })
      (AtString mode i frames isKey { digits := 4, low := true }) [0x75] := by
  refine steps_byte fun s hs => ?_
  obtain ⟨hplace, hkey, hescape, hdigits, haccum, hslash, hlowU, hlow⟩ := hs
  refine ⟨_, ?_, rfl, hplace.withString s.escape 0 4 s.expectLowSlash false true [0x75], hkey,
    hescape, rfl, fun _ => rfl, hslash, rfl, fun _ => rfl⟩
  rw [stringByte, hslash, hlowU]
  rfl

theorem quote_eq {s : JsonPull} (h : AtString mode i frames isKey {} s) :
    s.stringByte (some 0x22) = s.endString := by
  rw [stringByte, h.slash, h.lowU, h.digits, h.escape]
  rfl

theorem steps_stringEnd (hw : Waits frames) :
    Steps (AtString mode (0x22 :: r) frames false {}) (AfterValue mode r frames) [0x22] := by
  refine steps_byte fun s hs => ?_
  have hplace := hs.place
  have hdone : { s with lex := .none }.At mode r frames .none :=
    ⟨hplace.text, hplace.frames, rfl, hplace.mode, hplace.finished, hplace.synthetic, hplace.room⟩
  refine ⟨_, ?_, rfl, hdone.complete hw [0x22]⟩
  rw [quote_eq hs, endString]
  dsimp only
  rw [if_neg (by simp [hs.isKey])]
  rfl

theorem steps_keyEnd {phase : JsonPullPhase} {depth count : ℕ} :
    Steps (AtString mode (0x22 :: r) (⟨.object, phase, depth, count⟩ :: frames) true {})
      (At mode r (⟨.object, .colon, depth, count⟩ :: frames) .none) [0x22] := by
  refine steps_byte fun s hs => ?_
  have hplace := hs.place
  refine ⟨{ s with
    lex := .none, frames := ⟨.object, .colon, depth, count⟩ :: frames, pending := [0x22] },
    ?_, rfl, ⟨hplace.text, rfl, rfl, hplace.mode, hplace.finished, hplace.synthetic,
      hplace.room⟩⟩
  rw [quote_eq hs, endString]
  dsimp only
  rw [if_pos hs.isKey, hplace.frames]
  rfl

/-! ## The start of a value -/

theorem startValue_eq {s : JsonPull} (hs : s.At mode i frames .none) (h : Space i (b :: r))
    (hb : isJsonSpace b = false) (depth : ℕ) :
    ∃ s' : JsonPull, s'.At mode r frames .none ∧ s'.pending = s.pending ∧
      s.startValue depth = s'.startByte depth b := by
  have hstarted : { s with rootStarted := true }.At mode i frames .none :=
    ⟨hs.text, hs.frames, hs.lex, hs.mode, hs.finished, hs.synthetic, hs.room⟩
  obtain ⟨s₁, s₂, -, hmoves, hpeek, hget⟩ := take_eq hstarted.text hstarted.room h hb
  refine ⟨s₂, hstarted.moves hmoves, hmoves.pending, ?_⟩
  rw [startValue, hpeek]
  dsimp only
  rw [hget]

theorem valueStep_eq (hw : Waits frames) {s : JsonPull} (hs : AtValue mode i frames s) :
    producer.step (producer.flush s []) =
      (producer.flush s []).startValue (valueDepth frames) := by
  have hplace := hs.place.flushed
  change step _ = _
  rw [step, hplace.lex]
  dsimp only
  rw [hplace.frames]
  match frames with
  | [] =>
      obtain ⟨hstarted, hfinished⟩ := hs.begun rfl
      rw [if_neg (by simp [producer, hfinished]), stepFrame, hplace.frames]
      dsimp only
      rw [if_pos (by simp [producer, hstarted])]
      rfl
  | ⟨kind, phase, depth, count⟩ :: rest =>
      obtain rfl : phase = .value := hw _ rfl
      rw [if_neg (by simp), stepFrame, hplace.frames]
      rfl

theorem steps_value (hw : Waits frames) (hi : Space i (b :: r)) (hb : isJsonSpace b = false)
    {B : JsonPull → Prop} {out : Bytes}
    (h : ∀ s : JsonPull, s.At mode r frames .none → s.pending = [] →
      ∃ s', s.startByte (valueDepth frames) b = .next s' ∧ s'.pending = out ∧ B s') :
    Steps (AtValue mode i frames) B out := by
  intro s hs
  obtain ⟨s₁, hs₁, hpending, hstart⟩ := startValue_eq hs.place.flushed hi hb (valueDepth frames)
  obtain ⟨s', hnext, hout, hB⟩ := h s₁ hs₁ (by rw [hpending]; rfl)
  exact ⟨hs.place.finished, s', by rw [valueStep_eq hw hs, hstart, hnext], hout, hB⟩

theorem steps_open (hw : Waits frames) {mark : Byte}
    (hmark : kind = .object ∧ mark = 0x7b ∨ kind = .array ∧ mark = 0x5b) (hi : Space i (mark :: r)) :
    Steps (AtValue mode i frames)
      (At mode r (⟨kind, .first, valueDepth frames, 0⟩ :: frames) .none) [mark] := by
  rcases hmark with ⟨rfl, rfl⟩ | ⟨rfl, rfl⟩
  all_goals
    refine steps_value hw hi rfl fun s hs _ => ⟨_, rfl, rfl, ?_⟩
    exact ⟨hs.text, by rw [← hs.frames]; rfl, hs.lex, hs.mode, hs.finished, hs.synthetic, hs.room⟩

theorem steps_quote (hw : Waits frames) (hi : Space i (0x22 :: r)) :
    Steps (AtValue mode i frames) (AtString mode r frames false {}) [0x22] :=
  steps_value hw hi rfl fun _ hs _ => ⟨_, rfl, rfl,
    ⟨hs.text, hs.frames, rfl, hs.mode, hs.finished, hs.synthetic, hs.room⟩,
    rfl, rfl, rfl, fun h => absurd rfl h, rfl, rfl, fun h => absurd rfl h⟩

theorem steps_key (h : Space i (0x22 :: r)) :
    Steps (At mode i (⟨.object, .key, depth, count⟩ :: frames) .none)
      (AtString mode r (⟨.object, .key, depth, count⟩ :: frames) true {}) [0x22] := by
  refine steps_frame fun s hs _ => ?_
  obtain ⟨s₁, s₂, -, hmoves, hpeek, hget⟩ := take_eq hs.text hs.room h (by rfl)
  have hs₂ := hs.moves hmoves
  have hstep : s.stepTop ⟨.object, .key, depth, count⟩ = s₂.beginString true := by
    rw [stepTop]
    dsimp only
    rw [hpeek, if_pos rfl, hget]
  exact ⟨_, hstep, rfl, ⟨hs₂.text, hs₂.frames, rfl, hs₂.mode, hs₂.finished, hs₂.synthetic, hs₂.room⟩,
    rfl, rfl, rfl, fun h => absurd rfl h, rfl, rfl, fun h => absurd rfl h⟩

/-! ## Numbers and literals -/

structure AtNumber (mode : Mode) (text : Text) (frames : List JsonPullFrame) (num : Bytes)
    (s : JsonPull) : Prop where
  place : s.At mode text frames .number
  number : s.number = num

theorem steps_numberStart (hw : Waits frames) (hb : isNumberStart b = true) (hi : Space i (b :: r)) :
    Steps (AtValue mode i frames) (AtNumber mode r frames [b]) [] := by
  obtain ⟨hspace, h₁, h₂, h₃, h₄, h₅, h₆⟩ := isNumberStart_only hb
  refine steps_value hw hi hspace fun s hs hpending =>
    ⟨{ s with lex := .number, number := [b] }, ?_, hpending,
      ⟨hs.text, hs.frames, rfl, hs.mode, hs.finished, hs.synthetic, hs.room⟩, rfl⟩
  rw [startByte, if_neg h₁, if_neg h₂, if_neg h₃, if_neg h₄, if_neg h₅, if_neg h₆, if_pos hb]
  rfl

theorem stepNumber_eq {more : Bytes} (hmore : ∀ b ∈ more, isNumberByte b = true)
    (hr : NumberEnds r) {s : JsonPull} (hs : s.text = more ++ r) (hroom : s.Roomy)
    (hlen : (s.number ++ more).length < 256) :
    ∃ s', s.Moves r s' ∧
      stepNumber s.text s = endNumber { s' with number := s.number ++ more } := by
  induction more generalizing s with
  | nil =>
      rw [List.nil_append] at hs
      rw [List.append_nil] at hlen ⊢
      cases r with
      | nil =>
          refine ⟨s, ⟨hroom, _, _, by rw [← hs]⟩, ?_⟩
          rw [hs, stepNumber, if_pos hlen, ← hs, getc, hs]
      | cons b r =>
          obtain ⟨s₁, hmoves, hback, hget⟩ := getc_eq hs hroom
          have htext : s₁.text = r := by obtain ⟨_, _, _, rfl⟩ := hmoves; rfl
          have hnumber : s₁.number = s.number := by obtain ⟨_, _, _, rfl⟩ := hmoves; rfl
          have hend : isNumberByte b = false := hr b rfl
          refine ⟨s₁.ungetc b, hmoves.trans (htext ▸ ungetc_moves b hmoves.1 hback), ?_⟩
          rw [hs, stepNumber, if_pos hlen, ← hs, hget, if_neg (by simp [hend]), ← hnumber]
          rfl
  | cons b more ih =>
      rw [List.cons_append] at hs
      obtain ⟨s₁, hmoves, -, hget⟩ := getc_eq hs hroom
      have htext : s₁.text = more ++ r := by obtain ⟨_, _, _, rfl⟩ := hmoves; rfl
      have hnumber : s₁.number = s.number := by obtain ⟨_, _, _, rfl⟩ := hmoves; rfl
      have happend : s.number ++ b :: more = s.number ++ [b] ++ more := by simp
      obtain ⟨s₂, hmoves₂, hnext⟩ := ih (fun c hc => hmore c (by simp [hc]))
        (s := { s₁ with number := s.number ++ [b] }) htext hmoves.1 (by rwa [← happend])
      obtain ⟨hroom₂, pushback, total, rfl⟩ := hmoves₂
      refine ⟨{ s₁ with text := r, hasPushback := pushback, totalBytes := total },
        hmoves.trans ⟨hroom₂, _, _, rfl⟩, ?_⟩
      rw [hs, stepNumber, if_pos (by rw [List.length_append] at hlen; omega), ← hs]
      dsimp only
      rw [hget, if_pos (hmore b (by simp)), hnumber, ← htext, happend]
      exact hnext

theorem steps_number (hw : Waits frames) {first : Byte} {more : Bytes}
    (hnum : JsonNumber (first :: more)) (hr : NumberEnds r)
    (hlen : (first :: more).length < 256) :
    Steps (AtNumber mode (more ++ r) frames [first]) (AfterValue mode r frames) (first :: more) := by
  intro s hs
  have hplace := hs.place.flushed
  have hnumber : (producer.flush s []).number = [first] := hs.number
  obtain ⟨s₁, hmoves, hstep⟩ := stepNumber_eq (fun b hb => hnum.bytes b (by simp [hb])) hr
    hplace.text hplace.room (by rwa [hnumber])
  rw [hnumber, List.singleton_append] at hstep
  have hs₁ := hplace.moves hmoves
  have hdone : { s₁ with number := first :: more, lex := .none }.At mode r frames .none :=
    ⟨hs₁.text, hs₁.frames, rfl, hs₁.mode, hs₁.finished, hs₁.synthetic, hs₁.room⟩
  refine ⟨hs.place.finished, _, ?_, rfl, hdone.complete hw (first :: more)⟩
  change step _ = _
  rw [step, hplace.lex]
  dsimp only
  rw [hstep, endNumber, if_pos ((isValidJsonNumber_iff _).mpr hnum)]
  rfl

structure AtLiteral (mode : Mode) (text : Text) (frames : List JsonPullFrame)
    (literal left : Bytes) (s : JsonPull) : Prop where
  place : s.At mode text frames .literal
  literal : s.literal = literal
  left : s.left = left

theorem stepLiteral_eq {rest : Bytes} {s : JsonPull} (hs : s.text = rest ++ r)
    (hroom : s.Roomy) :
    ∃ s' left, s.Moves r s' ∧ stepLiteral rest s =
      setPending (valueComplete { s' with
        lex := .none, literal := s.literal ++ rest, left }) (s.literal ++ rest) := by
  induction rest generalizing s with
  | nil =>
      refine ⟨s, s.left, ⟨hroom, _, _, by rw [← show s.text = r from hs]⟩, ?_⟩
      rw [stepLiteral, List.append_nil]
  | cons b rest ih =>
      rw [List.cons_append] at hs
      obtain ⟨s₁, hmoves, -, hget⟩ := getc_eq hs hroom
      have htext : s₁.text = rest ++ r := by obtain ⟨_, _, _, rfl⟩ := hmoves; rfl
      have hliteral : s₁.literal = s.literal := by obtain ⟨_, _, _, rfl⟩ := hmoves; rfl
      have happend : s.literal ++ b :: rest = s.literal ++ [b] ++ rest := by simp
      obtain ⟨s₂, left, hmoves₂, hnext⟩ :=
        ih (s := { s₁ with literal := s.literal ++ [b], left := rest }) htext hmoves.1
      obtain ⟨hroom₂, pushback, total, rfl⟩ := hmoves₂
      refine ⟨{ s₁ with text := r, hasPushback := pushback, totalBytes := total }, left,
        hmoves.trans ⟨hroom₂, _, _, rfl⟩, ?_⟩
      rw [stepLiteral, hget, if_pos rfl, hliteral, happend]
      exact hnext

theorem steps_literal (hw : Waits frames) (b : Byte) (rest : Bytes) :
    Steps (AtLiteral mode (rest ++ r) frames [b] rest) (AfterValue mode r frames) (b :: rest) := by
  intro s hs
  have hplace := hs.place.flushed
  have hliteral : (producer.flush s []).literal = [b] := hs.literal
  obtain ⟨s₁, left, hmoves, hstep⟩ := stepLiteral_eq hplace.text hplace.room
  rw [hliteral, List.singleton_append] at hstep
  have hs₁ := hplace.moves hmoves
  have hdone : { s₁ with lex := .none, literal := b :: rest, left }.At mode r frames .none :=
    ⟨hs₁.text, hs₁.frames, rfl, hs₁.mode, hs₁.finished, hs₁.synthetic, hs₁.room⟩
  refine ⟨hs.place.finished, _, ?_, rfl, hdone.complete hw (b :: rest)⟩
  change step _ = _
  rw [step, hplace.lex]
  dsimp only
  rw [show (producer.flush s []).left = rest from hs.left, hstep]
  rfl

/-- The first byte of a literal, and what stands behind it. -/
theorem steps_literalStart (hw : Waits frames) {rest : Bytes}
    (hlit : b = 0x74 ∧ rest = [0x72, 0x75, 0x65] ∨ b = 0x66 ∧ rest = [0x61, 0x6c, 0x73, 0x65] ∨
      b = 0x6e ∧ rest = [0x75, 0x6c, 0x6c]) (hi : Space i (b :: r)) :
    Steps (AtValue mode i frames) (AtLiteral mode r frames [b] rest) [] := by
  rcases hlit with ⟨rfl, rfl⟩ | ⟨rfl, rfl⟩ | ⟨rfl, rfl⟩
  all_goals
    exact steps_value hw hi rfl fun _ hs hpending => ⟨_, rfl, hpending,
      ⟨hs.text, hs.frames, rfl, hs.mode, hs.finished, hs.synthetic, hs.room⟩, rfl, rfl⟩

/-! ## What is printed -/

theorem Steps.yields {A B : JsonPull → Prop} {out text : Bytes} {e : Option Status}
    (h : Steps A B out) (hB : producer.Yields B text e) : producer.Yields A (out ++ text) e :=
  hB.step h

/-- The reader fails inside a text, in front of a byte that ends no line. -/
def Breaks (A : JsonPull → Prop) (text : Bytes) : Prop :=
  ∃ out b more code, text = out ++ b :: more ∧ b ≠ 0x0a ∧ producer.Yields A out (some code)

omit mode frames i r b isKey in
theorem Breaks.fail {A : JsonPull → Prop} {b : Byte} {code : Status}
    (h : producer.Yields A [] (some code)) (hb : b ≠ 0x0a) (text : Bytes) : Breaks A (b :: text) :=
  ⟨[], b, text, code, rfl, hb, h⟩

theorem Breaks.append {A : JsonPull → Prop} {text : Bytes} (h : Breaks A text) (text' : Bytes) :
    Breaks A (text ++ text') := by
  obtain ⟨out, b, more, code, rfl, hb, hout⟩ := h
  exact ⟨out, b, more ++ text', code, by rw [List.append_assoc, List.cons_append], hb, hout⟩

/-- A text is printed in front of the one that breaks. -/
theorem Breaks.behind {A B : JsonPull → Prop} {text : Bytes} (out : Bytes) (hB : Breaks B text)
    (h : ∀ text e, producer.Yields B text e → producer.Yields A (out ++ text) e) :
    Breaks A (out ++ text) := by
  obtain ⟨out', b, more, code, rfl, hb, hout⟩ := hB
  exact ⟨out ++ out', b, more, code, (List.append_assoc _ _ _).symm, hb, h _ _ hout⟩

theorem Steps.breaks {A B : JsonPull → Prop} {out text : Bytes} (h : Steps A B out)
    (hB : Breaks B text) : Breaks A (out ++ text) :=
  hB.behind out fun _ _ => h.yields

/-- A byte at which a string is given up. -/
theorem fails_byte {q : Inside} {code : Status}
    (h : ∀ s, AtString mode i frames isKey q s → ∃ s', s.stringByte (some b) = .fail s' code) :
    producer.Yields (AtString mode (b :: i) frames isKey q) [] (some code) := by
  apply Producer.Yields.fail
  intro s hs
  obtain ⟨s₁, hs₁, hstep⟩ := stringStep_eq hs
  obtain ⟨s', hfail⟩ := h s₁ hs₁
  exact ⟨s', hstep.trans hfail⟩

/-- Four digits. -/
theorem yields_unit {a b c d : Byte} {cp : ℕ} (low : Bool)
    (hcp : decodeUnicodeQuad a b c d = some cp) {text : Bytes} {e : Option Status}
    (hlast : ∀ accum hv, hexValue d = some hv → pushHex accum hv = cp → producer.Yields
      (AtString mode (d :: i) frames isKey { digits := 1, accum, low }) text e) :
    producer.Yields (AtString mode (a :: b :: c :: d :: i) frames isKey { digits := 4, low })
      (a :: b :: c :: text) e := by
  obtain ⟨va, vb, vc, vd, ha, hb, hc, hd, rfl⟩ := decodeUnicodeQuad_eq_some.mp hcp
  have hdigit := (steps_digit hc).yields (hlast _ _ hd rfl)
  have hdigit := (steps_digit hb).yields hdigit
  exact (steps_digit ha).yields hdigit

/-- A `\u` escape up to its last digit. -/
theorem yields_unitStart {a b c d : Byte} {cp : ℕ} (hcp : decodeUnicodeQuad a b c d = some cp)
    {text : Bytes} {e : Option Status} (pending : Bool)
    (hlast : ∀ accum hv, hexValue d = some hv → pushHex accum hv = cp → producer.Yields
      (AtString mode (d :: i) frames isKey { digits := 1, accum, low := pending }) text e) :
    producer.Yields
      (AtString mode (0x5c :: 0x75 :: a :: b :: c :: d :: i) frames isKey { slash := pending })
      (0x5c :: 0x75 :: a :: b :: c :: text) e := by
  have hunit := yields_unit pending hcp hlast
  cases pending with
  | false => exact steps_backslash.yields (steps_unitStart.yields hunit)
  | true => exact steps_lowSlash.yields (steps_lowStart.yields hunit)

/-- The rest of a string in which surrogates come in pairs, and the text behind it. -/
theorem yields_string {B : JsonPull → Prop} {text : Bytes} {e : Option Status} {pending : Bool}
    (hend : Steps (AtString mode (0x22 :: r) frames isKey {}) B [0x22])
    (h : StringTail false pending i r) (hB : producer.Yields B text e) :
    ∃ raw, i = raw ++ 0x22 :: r ∧ producer.Yields
      (AtString mode i frames isKey { slash := pending }) (raw ++ 0x22 :: text) e := by
  induction h with
  | close => exact ⟨[], rfl, hend.yields hB⟩
  | @plain pending b i r hb hgap _ ih =>
      obtain ⟨raw, rfl, hraw⟩ := ih hend
      obtain rfl : pending = false := by
        cases pending with
        | false => rfl
        | true => exact absurd (hgap rfl) Bool.false_ne_true
      exact ⟨b :: raw, rfl, (steps_plain hb).yields hraw⟩
  | @escape pending esc ch i r he hgap _ ih =>
      obtain ⟨raw, rfl, hraw⟩ := ih hend
      obtain rfl : pending = false := by
        cases pending with
        | false => rfl
        | true => exact absurd (hgap rfl) Bool.false_ne_true
      exact ⟨0x5c :: esc :: raw, rfl,
        steps_backslash.yields ((steps_escaped (by rw [he]; rfl)).yields hraw)⟩
  | @unit a b c d cp i r hcp hhigh hlow _ ih =>
      obtain ⟨raw, rfl, hraw⟩ := ih hend
      exact ⟨0x5c :: 0x75 :: a :: b :: c :: d :: raw, rfl, yields_unitStart hcp false
        fun accum hv hd hpush =>
          (steps_unitEnd hd (by rwa [hpush]) (by rwa [hpush])).yields hraw⟩
  | @high a b c d cp i r hcp hhigh _ ih =>
      obtain ⟨raw, rfl, hraw⟩ := ih hend
      exact ⟨0x5c :: 0x75 :: a :: b :: c :: d :: raw, rfl, yields_unitStart hcp false
        fun accum hv hd hpush => (steps_highEnd hd (by rwa [hpush])).yields hraw⟩
  | @low a b c d cp i r hcp hlow _ ih =>
      obtain ⟨raw, rfl, hraw⟩ := ih hend
      exact ⟨0x5c :: 0x75 :: a :: b :: c :: d :: raw, rfl, yields_unitStart hcp true
        fun accum hv hd hpush => (steps_lowEnd hd (by rwa [hpush])).yields hraw⟩

theorem fails_lowSlash (hb : b ≠ 0x5c) :
    producer.Yields (AtString mode (b :: i) frames isKey { slash := true }) []
      (some .invalidJson) := by
  apply fails_byte
  intro s hs
  rw [stringByte, hs.slash, if_pos rfl, if_neg (by simpa using hb)]
  exact ⟨_, rfl⟩

theorem fails_lowStart (hb : b ≠ 0x75) :
    producer.Yields (AtString mode (b :: i) frames isKey { lowU := true }) []
      (some .invalidJson) := by
  apply fails_byte
  intro s hs
  rw [stringByte, hs.slash, hs.lowU, if_neg Bool.false_ne_true, if_pos rfl,
    if_neg (by simpa using hb)]
  exact ⟨_, rfl⟩

theorem fails_unitEnd {accum hv : ℕ} {low : Bool} (hb : hexValue b = some hv)
    (hbad : if low then isLowSurrogate (pushHex accum hv) = false
      else isHighSurrogate (pushHex accum hv) = false ∧
        isLowSurrogate (pushHex accum hv) = true) :
    producer.Yields (AtString mode (b :: i) frames isKey { digits := 1, accum, low }) []
      (some .invalidJson) := by
  apply fails_byte
  intro s hs
  rw [lastDigit_eq hb hs, endUnit]
  dsimp only
  cases low with
  | false =>
      rw [if_neg Bool.false_ne_true] at hbad
      rw [if_neg Bool.false_ne_true, hbad.1, hbad.2, if_neg Bool.false_ne_true, if_pos rfl]
      exact ⟨_, rfl⟩
  | true =>
      rw [if_pos rfl] at hbad
      rw [if_pos rfl, hbad, if_neg Bool.false_ne_true]
      exact ⟨_, rfl⟩

/-- The rest of a string with a torn surrogate. -/
theorem breaks_string (h : CopyTail i r) : ∀ pending : Bool, ¬ StringTail false pending i r →
    ∃ content, i = content ++ 0x22 :: r ∧
      Breaks (AtString mode i frames isKey { slash := pending }) (content ++ [0x22]) := by
  induction h with
  | close =>
      intro pending hno
      cases pending with
      | false => exact absurd .close hno
      | true => exact ⟨[], rfl, .fail (fails_lowSlash (by decide)) (by decide) []⟩
  | @plain b i r hb htail ih =>
      intro pending hno
      cases pending with
      | false =>
          obtain ⟨content, rfl, hbreaks⟩ := ih false fun h => hno (.plain hb nofun h)
          exact ⟨b :: content, rfl, (steps_plain hb).breaks hbreaks⟩
      | true =>
          obtain ⟨content, rfl, -⟩ := htail.split
          have hline : b ≠ 0x0a := by
            rintro rfl
            cases hb
          exact ⟨b :: content, rfl, .fail (fails_lowSlash (isPlain_iff.mp hb).2.1) hline _⟩
  | @escape esc ch i r he htail ih =>
      intro pending hno
      cases pending with
      | false =>
          obtain ⟨content, rfl, hbreaks⟩ := ih false fun h => hno (.escape he nofun h)
          exact ⟨0x5c :: esc :: content, rfl,
            steps_backslash.breaks ((steps_escaped (by rw [he]; rfl)).breaks hbreaks)⟩
      | true =>
          obtain ⟨content, rfl, -⟩ := htail.split
          have hu : esc ≠ 0x75 := by
            rintro rfl
            cases he
          have hline : esc ≠ 0x0a := by
            rintro rfl
            cases he
          exact ⟨0x5c :: esc :: content, rfl,
            steps_lowSlash.breaks (.fail (fails_lowStart hu) hline _)⟩
  | @unit a b c d cp i r hcp htail ih =>
      obtain ⟨va, vb, vc, vd, -, -, -, hlast, -⟩ := decodeUnicodeQuad_eq_some.mp hcp
      have hline : d ≠ 0x0a := by
        rintro rfl
        cases hlast
      -- the reader fails at the last digit
      have hfails (pending : Bool) (hbad : if pending then isLowSurrogate cp = false
          else isHighSurrogate cp = false ∧ isLowSurrogate cp = true) :
          ∃ content, 0x5c :: 0x75 :: a :: b :: c :: d :: i = content ++ 0x22 :: r ∧
            Breaks (AtString mode (0x5c :: 0x75 :: a :: b :: c :: d :: i) frames isKey
              { slash := pending }) (content ++ [0x22]) := by
        obtain ⟨content, rfl, -⟩ := htail.split
        refine ⟨0x5c :: 0x75 :: a :: b :: c :: d :: content, rfl,
          [0x5c, 0x75, a, b, c], d, content ++ [0x22], .invalidJson, rfl, hline, ?_⟩
        apply yields_unitStart hcp pending
        rintro accum hv hd rfl
        exact fails_unitEnd hd hbad
      intro pending hno
      cases pending with
      | false =>
          cases hhigh : isHighSurrogate cp with
          | true =>
              obtain ⟨content, rfl, hbreaks⟩ := ih true fun h => hno (.high hcp hhigh h)
              exact ⟨0x5c :: 0x75 :: a :: b :: c :: d :: content, rfl,
                hbreaks.behind [0x5c, 0x75, a, b, c, d] fun _ _ h =>
                  yields_unitStart hcp false fun accum hv hd hpush =>
                    (steps_highEnd hd (by rwa [hpush])).yields h⟩
          | false =>
              cases hlow : isLowSurrogate cp with
              | true => exact hfails false ⟨hhigh, hlow⟩
              | false =>
                  obtain ⟨content, rfl, hbreaks⟩ := ih false fun h => hno (.unit hcp hhigh hlow h)
                  exact ⟨0x5c :: 0x75 :: a :: b :: c :: d :: content, rfl,
                    hbreaks.behind [0x5c, 0x75, a, b, c, d] fun _ _ h =>
                      yields_unitStart hcp false fun accum hv hd hpush =>
                        (steps_unitEnd hd (by rwa [hpush]) (by rwa [hpush])).yields h⟩
      | true =>
          cases hlow : isLowSurrogate cp with
          | true =>
              obtain ⟨content, rfl, hbreaks⟩ := ih false fun h => hno (.low hcp hlow h)
              exact ⟨0x5c :: 0x75 :: a :: b :: c :: d :: content, rfl,
                hbreaks.behind [0x5c, 0x75, a, b, c, d] fun _ _ h =>
                  yields_unitStart hcp true fun accum hv hd hpush =>
                    (steps_lowEnd hd (by rwa [hpush])).yields h⟩
          | false => exact hfails true hlow

/-- A string that is known as it is spelled. -/
def Paired (content : Text) : Prop := StringTail false false (content ++ [0x22]) []

omit mode in
theorem StringTail.split {gap pending : Bool} (h : StringTail gap pending i r) :
    ∃ content, i = content ++ 0x22 :: r ∧ ∀ s, StringTail gap pending (content ++ 0x22 :: s) s := by
  induction h with
  | close => exact ⟨[], rfl, fun s => .close⟩
  | @plain pending b i r hb hgap _ ih =>
      obtain ⟨content, rfl, hagain⟩ := ih
      exact ⟨b :: content, rfl, fun s => .plain hb hgap (hagain s)⟩
  | @escape pending esc ch i r he hgap _ ih =>
      obtain ⟨content, rfl, hagain⟩ := ih
      exact ⟨0x5c :: esc :: content, rfl, fun s => .escape he hgap (hagain s)⟩
  | @unit a b c d cp i r hcp hhigh hlow _ ih =>
      obtain ⟨content, rfl, hagain⟩ := ih
      exact ⟨0x5c :: 0x75 :: a :: b :: c :: d :: content, rfl,
        fun s => .unit hcp hhigh hlow (hagain s)⟩
  | @high a b c d cp i r hcp hhigh _ ih =>
      obtain ⟨content, rfl, hagain⟩ := ih
      exact ⟨0x5c :: 0x75 :: a :: b :: c :: d :: content, rfl,
        fun s => .high hcp hhigh (hagain s)⟩
  | @low a b c d cp i r hcp hlow _ ih =>
      obtain ⟨content, rfl, hagain⟩ := ih
      exact ⟨0x5c :: 0x75 :: a :: b :: c :: d :: content, rfl,
        fun s => .low hcp hlow (hagain s)⟩

omit mode in
theorem paired_iff {content : Text} (r : Text) :
    Paired content ↔ StringTail false false (content ++ 0x22 :: r) r := by
  constructor
  · intro h
    obtain ⟨content', hcontent, hagain⟩ := StringTail.split h
    obtain rfl : content = content' := List.append_cancel_right hcontent
    exact hagain r
  · intro h
    obtain ⟨content', hcontent, hagain⟩ := StringTail.split h
    obtain rfl : content = content' := List.append_cancel_right hcontent
    exact hagain []

/-- A string behind its quote, as it is spelled. -/
theorem yields_raw {B : JsonPull → Prop} {content text : Bytes} {e : Option Status}
    (hend : Steps (AtString mode (0x22 :: r) frames isKey {}) B [0x22])
    (h : rawLexis.string content i r) (hpaired : Paired content) (hB : producer.Yields B text e) :
    producer.Yields (AtString mode i frames isKey {}) (content ++ 0x22 :: text) e := by
  obtain ⟨rfl, -⟩ := h
  obtain ⟨raw, hraw, hyields⟩ := yields_string hend ((paired_iff r).mp hpaired) hB
  obtain rfl : content = raw := List.append_cancel_right hraw
  exact hyields

theorem breaks_raw {content : Bytes} (h : rawLexis.string content i r)
    (hpaired : ¬ Paired content) :
    Breaks (AtString mode i frames isKey {}) (content ++ [0x22]) := by
  obtain ⟨rfl, htail⟩ := h
  obtain ⟨content', hcontent, hbreaks⟩ :=
    breaks_string htail false fun h => hpaired ((paired_iff r).mpr h)
  obtain rfl : content = content' := List.append_cancel_right hcontent
  exact hbreaks

/-! ### Literals and numbers -/

theorem yields_literal (hw : Waits frames) {text rest : Bytes} {e : Option Status}
    (hlit : b = 0x74 ∧ rest = [0x72, 0x75, 0x65] ∨ b = 0x66 ∧ rest = [0x61, 0x6c, 0x73, 0x65] ∨
      b = 0x6e ∧ rest = [0x75, 0x6c, 0x6c]) (hi : Space i (b :: (rest ++ r)))
    (hB : producer.Yields (AfterValue mode r frames) text e) :
    producer.Yields (AtValue mode i frames) (b :: (rest ++ text)) e :=
  (steps_literalStart hw hlit hi).yields ((steps_literal hw b rest).yields hB)

theorem yields_number (hw : Waits frames) {num text : Bytes} {e : Option Status}
    (hnum : JsonNumber num) (hlen : num.length ≤ 255) (hr : NumberEnds r) (hi : Space i (num ++ r))
    (hB : producer.Yields (AfterValue mode r frames) text e) :
    producer.Yields (AtValue mode i frames) (num ++ text) e := by
  obtain ⟨first, more, rfl, hfirst⟩ := hnum.start
  exact (steps_numberStart hw hfirst hi).yields
    ((steps_number hw hnum hr (by omega)).yields hB)

omit mode in
theorem stepNumber_full (i : Text) {s : JsonPull} (h : ¬ s.number.length < 256) :
    stepNumber i s = s.fail .overflow "JSON number exceeds maximum byte limit" := by
  cases i with
  | nil => rw [stepNumber, if_neg h]
  | cons b i => rw [stepNumber, if_neg h]

/-- The buffer of a number has 256 bytes, and it is full before the number ends. -/
theorem stepNumber_long {more : Bytes} (hmore : ∀ b ∈ more, isNumberByte b = true) :
    ∀ {s : JsonPull}, s.text = more ++ r → s.Roomy → 256 ≤ s.number.length + more.length →
      ∃ s', stepNumber s.text s = .fail s' .overflow := by
  induction more with
  | nil =>
      intro s hs hroom hlen
      rw [List.length_nil] at hlen
      exact ⟨_, stepNumber_full _ (by omega)⟩
  | cons b more ih =>
      intro s hs hroom hlen
      by_cases hshort : s.number.length < 256
      · obtain ⟨s₁, hmoves, -, hget⟩ := getc_eq (i := more ++ r) hs hroom
        have htext : s₁.text = more ++ r := by obtain ⟨_, _, _, rfl⟩ := hmoves; rfl
        have hnumber : s₁.number = s.number := by obtain ⟨_, _, _, rfl⟩ := hmoves; rfl
        have hnext : ∃ s', stepNumber (more ++ r) { s₁ with number := s₁.number ++ [b] } =
            .fail s' .overflow := by
          have hlength : 256 ≤ (s₁.number ++ [b]).length + more.length := by
            rw [hnumber, List.length_append, List.length_singleton]
            rw [List.length_cons] at hlen
            omega
          rw [← htext]
          exact ih (fun c hc => hmore c (List.mem_cons_of_mem _ hc))
            (s := { s₁ with number := s₁.number ++ [b] }) htext hmoves.1 hlength
        obtain ⟨s', hfail⟩ := hnext
        refine ⟨s', ?_⟩
        rw [hs, List.cons_append, stepNumber, if_pos hshort, ← List.cons_append, ← hs, hget,
          if_pos (hmore b List.mem_cons_self)]
        exact hfail
      · exact ⟨_, stepNumber_full _ hshort⟩

theorem breaks_number (hw : Waits frames) {num : Bytes} (hnum : JsonNumber num)
    (hlen : ¬ num.length ≤ 255) (hi : Space i (num ++ r)) :
    Breaks (AtValue mode i frames) num := by
  obtain ⟨first, more, rfl, hfirst⟩ := hnum.start
  have hline : first ≠ 0x0a := by
    rintro rfl
    cases hfirst
  have hlong : producer.Yields (AtNumber mode (more ++ r) frames [first]) [] (some .overflow) := by
    apply Producer.Yields.fail
    intro s hs
    have hplace := hs.place.flushed
    have hnumber : (producer.flush s []).number = [first] := hs.number
    rw [List.length_cons] at hlen
    obtain ⟨s', hfail⟩ := stepNumber_long (r := r)
      (fun b hb => hnum.bytes b (List.mem_cons_of_mem _ hb)) hplace.text hplace.room
      (by rw [hnumber, List.length_singleton]; omega)
    refine ⟨s', ?_⟩
    change step _ = _
    rw [step, hplace.lex]
    exact hfail
  exact .fail ((steps_numberStart hw hfirst hi).yields hlong) hline more

/-! ### Containers -/

section

variable {text : Bytes} {e : Option Status}

/-- The blanks in front of a child. -/
theorem yields_child (kind : ContainerKind) (depth count : ℕ)
    (hB : producer.Yields (At mode i (⟨kind, childPhase kind, depth, count⟩ :: frames) .none)
      text e) :
    producer.Yields (At mode i (⟨kind, startPhase mode kind, depth, count⟩ :: frames) .none)
      ((transcodeLayout mode.1 mode.2).line (depth + 1) ++ text) e := by
  obtain ⟨pretty, baseDepth⟩ := mode
  cases pretty with
  | false => exact hB
  | true =>
      have hindent := (steps_indent .preChildIndent (childPhase kind) (depth + 1)
        (.inl ⟨rfl, rfl, rfl⟩)).yields hB
      exact (steps_newline .preChildNl .preChildIndent (.inl ⟨rfl, rfl⟩)).yields hindent

/-- The end of a container. -/
theorem yields_close (kind : ContainerKind) (depth count : ℕ) (hw : Waits frames)
    (hB : producer.Yields (AfterValue mode r frames) text e) :
    producer.Yields (At mode r (⟨kind, .close, depth, count⟩ :: frames) .none)
      (closer kind :: text) e :=
  (steps_close hw).yields hB

/-- The end of a container with children. -/
theorem yields_end (kind : ContainerKind) (depth count : ℕ) (hw : Waits frames)
    (h : Space i (closer kind :: r)) (hB : producer.Yields (AfterValue mode r frames) text e) :
    producer.Yields (AfterValue mode i (⟨kind, .value, depth, count⟩ :: frames))
      ((transcodeLayout mode.1 mode.2).line depth ++ closer kind :: text) e := by
  have hclose := yields_close kind depth (count + 1) hw hB
  have hblanks : producer.Yields
      (At mode r (⟨kind, endPhase mode, depth, count + 1⟩ :: frames) .none)
      ((transcodeLayout mode.1 mode.2).line depth ++ closer kind :: text) e := by
    obtain ⟨pretty, baseDepth⟩ := mode
    cases pretty with
    | false => exact hclose
    | true =>
        have hindent := (steps_indent .preCloseIndent .close depth
          (.inr ⟨rfl, rfl, rfl⟩)).yields hclose
        exact (steps_newline .preCloseNl .preCloseIndent (.inr ⟨rfl, rfl⟩)).yields hindent
  exact ((steps_end depth (count + 1) frames h).yields hblanks).imp fun _ hs => hs.place

theorem yields_comma (kind : ContainerKind) (depth count : ℕ) {j : Text} (h : Space i (0x2c :: j))
    (hB : producer.Yields
      (At mode j (⟨kind, startPhase mode kind, depth, count + 1⟩ :: frames) .none) text e) :
    producer.Yields (AfterValue mode i (⟨kind, .value, depth, count⟩ :: frames))
      (0x2c :: text) e :=
  ((steps_comma h).yields hB).imp fun _ hs => hs.place

/-- The key and the colon of a member. -/
theorem yields_key {key : Bytes} {j k l : Text} (hi : Space i (0x22 :: j))
    (hkey : rawLexis.string key j k) (hpaired : Paired key) (hk : Space k (0x3a :: l))
    (depth count : ℕ)
    (hB : producer.Yields (AtValue mode l (⟨.object, .value, depth, count⟩ :: frames)) text e) :
    producer.Yields (At mode i (⟨.object, .key, depth, count⟩ :: frames) .none)
      (quoted id key ++ 0x3a :: ((transcodeLayout mode.1 mode.2).colon ++ text)) e := by
  have hcolon := (steps_colon depth count frames hk).yields hB
  have hstring := (steps_key hi).yields (yields_raw steps_keyEnd hkey hpaired hcolon)
  rw [quoted, List.cons_append, List.append_assoc, List.singleton_append]
  exact hstring

theorem breaks_key {key : Bytes} {j k : Text} (hi : Space i (0x22 :: j))
    (hkey : rawLexis.string key j k) (hpaired : ¬ Paired key) (depth count : ℕ) :
    Breaks (At mode i (⟨.object, .key, depth, count⟩ :: frames) .none) (quoted id key) :=
  (steps_key hi).breaks (breaks_raw hkey hpaired)

/-- The opening mark of a container. -/
theorem yields_open (kind : ContainerKind) (hw : Waits frames) {mark : Byte}
    (hmark : kind = .object ∧ mark = 0x7b ∨ kind = .array ∧ mark = 0x5b) {j : Text}
    (hi : Space i (mark :: j))
    (hB : producer.Yields (At mode j (⟨kind, .first, valueDepth frames, 0⟩ :: frames) .none)
      text e) :
    producer.Yields (AtValue mode i frames) (mark :: text) e :=
  (steps_open hw hmark hi).yields hB

theorem yields_empty (kind : ContainerKind) (hw : Waits frames) (h : Space i (closer kind :: r))
    (depth : ℕ) (hB : producer.Yields (AfterValue mode r frames) text e) :
    producer.Yields (At mode i (⟨kind, .first, depth, 0⟩ :: frames) .none)
      (closer kind :: text) e :=
  (steps_firstClose h).yields (yields_close kind depth 0 hw hB)

theorem yields_first (kind : ContainerKind) (depth : ℕ) (h : Space i (b :: r))
    (hb : isJsonSpace b = false) (hclose : b ≠ closer kind)
    (hB : producer.Yields
      (At mode (b :: r) (⟨kind, startPhase mode kind, depth, 0⟩ :: frames) .none) text e) :
    producer.Yields (At mode i (⟨kind, .first, depth, 0⟩ :: frames) .none) text e :=
  (steps_firstMore h hb hclose).yields hB

end

theorem waits_cons {kind : ContainerKind} {depth count : ℕ} :
    Waits (⟨kind, .value, depth, count⟩ :: frames) := by
  rintro _ ⟨⟩
  rfl

/-- The numbers that the buffer holds. -/
def Buffered (num : Text) : Prop := num.length ≤ 255

theorem spellsMembers_head {ms : List (Text × Tree)} (h : SpellsMembers rawLexis ms i r) :
    ∃ j, Space i (0x22 :: j) ∧ SpellsMembers rawLexis ms (0x22 :: j) r := by
  cases h with
  | last h =>
      obtain ⟨hi, hkey, hk, hv⟩ := h
      exact ⟨_, hi, .last (.mk .done hkey hk hv)⟩
  | cons h hs =>
      obtain ⟨hi, hkey, hk, hv⟩ := h
      exact ⟨_, hi, .cons (.mk .done hkey hk hv) hs⟩

theorem spellsItems_head {ts : List Tree} (h : SpellsItems rawLexis ts i r) :
    ∃ b j, Space i (b :: j) ∧ isJsonSpace b = false ∧ b ≠ 0x5d ∧
      SpellsItems rawLexis ts (b :: j) r := by
  cases h with
  | last h =>
      obtain ⟨hi, hv, hk⟩ := h
      obtain ⟨b, j, rfl, hb, hclose⟩ := spells_head (fun _ h => h) hv
      exact ⟨b, j, hi, hb, hclose, .last (.mk .done hv hk)⟩
  | cons h hs =>
      obtain ⟨hi, hv, hk⟩ := h
      obtain ⟨b, j, rfl, hb, hclose⟩ := spells_head (fun _ h => h) hv
      exact ⟨b, j, hi, hb, hclose, .cons (.mk .done hv hk) hs⟩

/-! ### Values -/

mutual

/-- A value of the tokens that the pull reader takes, and the text behind it. -/
theorem yields_value {t : Tree} {frames : List JsonPullFrame} {i j r text : Text}
    {e : Option Status} (hw : Waits frames) (ht : t.EachToken Paired Buffered) (hi : Space i j)
    (hr : NumberEnds r) (h : Spells rawLexis t j r)
    (hB : producer.Yields (AfterValue mode r frames) text e) :
    producer.Yields (AtValue mode i frames)
      (t.laid (transcodeLayout mode.1 mode.2) id (valueDepth frames) ++ text) e := by
  match h with
  | .string hstring =>
      rw [Tree.EachToken] at ht
      have hraw := yields_raw (steps_stringEnd hw) hstring ht hB
      have hquote := (steps_quote hw hi).yields hraw
      rw [Tree.laid, quoted, List.cons_append, List.append_assoc]
      exact hquote
  | .number hnum =>
      rw [Tree.EachToken] at ht
      exact yields_number hw hnum ht hr hi hB
  | .true => exact yields_literal hw (.inl ⟨rfl, rfl⟩) hi hB
  | .false => exact yields_literal hw (.inr (.inl ⟨rfl, rfl⟩)) hi hB
  | .null => exact yields_literal hw (.inr (.inr ⟨rfl, rfl⟩)) hi hB
  | .emptyObject hspace =>
      exact yields_open .object hw (.inl ⟨rfl, rfl⟩) hi (yields_empty .object hw hspace _ hB)
  | .emptyArray hspace =>
      exact yields_open .array hw (.inr ⟨rfl, rfl⟩) hi (yields_empty .array hw hspace _ hB)
  | .object hms =>
      rw [Tree.EachToken] at ht
      obtain ⟨k, hk, hms'⟩ := spellsMembers_head hms
      have hmembers := yields_members (valueDepth frames) 0 hw ht hms' hB
      have hopen := yields_open .object hw (.inl ⟨rfl, rfl⟩) hi
        (yields_first .object (valueDepth frames) hk rfl (by decide) hmembers)
      simpa [Tree.laid] using hopen
  | .array hts =>
      rw [Tree.EachToken] at ht
      obtain ⟨b, k, hk, hb, hclose, hts'⟩ := spellsItems_head hts
      have hitems := yields_items (valueDepth frames) 0 hw ht hts' hB
      have hopen := yields_open .array hw (.inr ⟨rfl, rfl⟩) hi
        (yields_first .array (valueDepth frames) hk hb hclose hitems)
      simpa [Tree.laid] using hopen

theorem yields_members {ms : List (Text × Tree)} {frames : List JsonPullFrame} {i r text : Text}
    {e : Option Status} (depth count : ℕ) (hw : Waits frames)
    (hms : membersEachToken Paired Buffered ms) (h : SpellsMembers rawLexis ms i r)
    (hB : producer.Yields (AfterValue mode r frames) text e) :
    producer.Yields
      (At mode i (⟨.object, startPhase mode .object, depth, count⟩ :: frames) .none)
      (membersLaid (transcodeLayout mode.1 mode.2) id depth true ms ++ 0x7d :: text) e := by
  match h with
  | .last (.mk hi hkey hk (.mk hx hv hy)) =>
      rw [membersEachToken, membersEachToken, and_true] at hms
      have hend := yields_end .object depth count hw hy hB
      have hvalue := yields_value waits_cons hms.2 hx (numberEnds_space hy numberEnds_brace) hv hend
      have hmember := yields_child .object depth count
        (yields_key hi hkey hms.1 hk depth count hvalue)
      simpa [membersLaid, Layout.closing, valueDepth, closer] using hmember
  | .cons (.mk hi hkey hk (.mk hx hv hy)) hs =>
      rw [membersEachToken] at hms
      have hrest := yields_members depth (count + 1) hw hms.2.2 hs hB
      have hcomma := yields_comma .object depth count hy hrest
      have hvalue := yields_value waits_cons hms.2.1 hx (numberEnds_space hy numberEnds_comma) hv
        hcomma
      have hmember := yields_child .object depth count
        (yields_key hi hkey hms.1 hk depth count hvalue)
      rw [membersLaid, Json.membersLaid_rest depth hs.ne_nil]
      simpa [valueDepth] using hmember

theorem yields_items {ts : List Tree} {frames : List JsonPullFrame} {i r text : Text}
    {e : Option Status} (depth count : ℕ) (hw : Waits frames)
    (hts : itemsEachToken Paired Buffered ts) (h : SpellsItems rawLexis ts i r)
    (hB : producer.Yields (AfterValue mode r frames) text e) :
    producer.Yields
      (At mode i (⟨.array, startPhase mode .array, depth, count⟩ :: frames) .none)
      (itemsLaid (transcodeLayout mode.1 mode.2) id depth true ts ++ 0x5d :: text) e := by
  match h with
  | .last (.mk hx hv hy) =>
      rw [itemsEachToken, itemsEachToken, and_true] at hts
      have hend := yields_end .array depth count hw hy hB
      have hvalue := yields_value waits_cons hts hx (numberEnds_space hy numberEnds_bracket) hv hend
      have hitem := yields_child .array depth count (hvalue.imp fun _ hs => ⟨hs, nofun⟩)
      simpa [itemsLaid, Layout.closing, valueDepth, closer] using hitem
  | .cons (.mk hx hv hy) hs =>
      rw [itemsEachToken] at hts
      have hrest := yields_items depth (count + 1) hw hts.2 hs hB
      have hcomma := yields_comma .array depth count hy hrest
      have hvalue := yields_value waits_cons hts.1 hx (numberEnds_space hy numberEnds_comma) hv
        hcomma
      have hitem := yields_child .array depth count (hvalue.imp fun _ hs => ⟨hs, nofun⟩)
      rw [itemsLaid, Json.itemsLaid_rest depth hs.ne_nil]
      simpa [valueDepth] using hitem

end

theorem Breaks.child (kind : ContainerKind) {depth count : ℕ} {text : Bytes}
    (h : Breaks (At mode i (⟨kind, childPhase kind, depth, count⟩ :: frames) .none) text) :
    Breaks (At mode i (⟨kind, startPhase mode kind, depth, count⟩ :: frames) .none)
      ((transcodeLayout mode.1 mode.2).line (depth + 1) ++ text) :=
  h.behind _ fun _ _ => yields_child kind depth count

theorem Breaks.imp {A B : JsonPull → Prop} {text : Bytes} (h : Breaks B text)
    (hA : ∀ s, A s → B s) : Breaks A text :=
  h.behind [] fun _ _ h => h.imp hA

/-- The value of a member, or the text behind it, breaks. -/
theorem Breaks.key {key : Bytes} {j k l : Text} (hi : Space i (0x22 :: j))
    (hkey : rawLexis.string key j k) (hpaired : Paired key) (hk : Space k (0x3a :: l))
    {depth count : ℕ} {text : Bytes}
    (h : Breaks (AtValue mode l (⟨.object, .value, depth, count⟩ :: frames)) text) :
    Breaks (At mode i (⟨.object, .key, depth, count⟩ :: frames) .none)
      (quoted id key ++ 0x3a :: ((transcodeLayout mode.1 mode.2).colon ++ text)) := by
  have hkeys := h.behind (quoted id key ++ 0x3a :: (transcodeLayout mode.1 mode.2).colon)
    fun _ _ h => by
      rw [List.append_assoc, List.cons_append]
      exact yields_key hi hkey hpaired hk depth count h
  rwa [List.append_assoc, List.cons_append] at hkeys

theorem Breaks.open (kind : ContainerKind) (hw : Waits frames) {mark : Byte}
    (hmark : kind = .object ∧ mark = 0x7b ∨ kind = .array ∧ mark = 0x5b) {j k : Text}
    (hi : Space i (mark :: j)) (hj : Space j (b :: k)) (hb : isJsonSpace b = false)
    (hclose : b ≠ closer kind) {text : Bytes}
    (h : Breaks (At mode (b :: k) (⟨kind, startPhase mode kind, valueDepth frames, 0⟩ :: frames)
      .none) text) :
    Breaks (AtValue mode i frames) (mark :: text) :=
  h.behind [mark] fun _ _ h =>
    yields_open kind hw hmark hi (yields_first kind (valueDepth frames) hj hb hclose h)

mutual

/-- A value with a token that the pull reader does not take. -/
theorem breaks_value {t : Tree} {frames : List JsonPullFrame} {i j r : Text} (hw : Waits frames)
    (ht : ¬ t.EachToken Paired Buffered) (hi : Space i j) (h : Spells rawLexis t j r) :
    Breaks (AtValue mode i frames)
      (t.laid (transcodeLayout mode.1 mode.2) id (valueDepth frames)) := by
  match h with
  | .string hstring =>
      rw [Tree.EachToken] at ht
      exact (steps_quote hw hi).breaks (breaks_raw hstring ht)
  | .number hnum =>
      rw [Tree.EachToken] at ht
      exact breaks_number hw hnum ht hi
  | .true => exact absurd trivial ht
  | .false => exact absurd trivial ht
  | .null => exact absurd trivial ht
  | .emptyObject _ => exact absurd trivial ht
  | .emptyArray _ => exact absurd trivial ht
  | .object hms =>
      rw [Tree.EachToken] at ht
      obtain ⟨k, hk, hms'⟩ := spellsMembers_head hms
      have hmembers := breaks_members (valueDepth frames) 0 hw ht hms'
      have hopen := Breaks.open .object hw (.inl ⟨rfl, rfl⟩) hi hk rfl (by decide) hmembers
      exact hopen.append [0x7d]
  | .array hts =>
      rw [Tree.EachToken] at ht
      obtain ⟨b, k, hk, hb, hclose, hts'⟩ := spellsItems_head hts
      have hitems := breaks_items (valueDepth frames) 0 hw ht hts'
      have hopen := Breaks.open .array hw (.inr ⟨rfl, rfl⟩) hi hk hb hclose hitems
      exact hopen.append [0x5d]

theorem breaks_members {ms : List (Text × Tree)} {frames : List JsonPullFrame} {i r : Text}
    (depth count : ℕ) (hw : Waits frames) (hms : ¬ membersEachToken Paired Buffered ms)
    (h : SpellsMembers rawLexis ms i r) :
    Breaks (At mode i (⟨.object, startPhase mode .object, depth, count⟩ :: frames) .none)
      (membersLaid (transcodeLayout mode.1 mode.2) id depth true ms) := by
  match h with
  | .last (m := (key, t)) (.mk hi hkey hk (.mk hx hv hy)) =>
      rw [membersEachToken, membersEachToken, and_true] at hms
      have hmember : Breaks (At mode i (⟨.object, .key, depth, count⟩ :: frames) .none)
          (quoted id key ++ 0x3a :: ((transcodeLayout mode.1 mode.2).colon ++
            t.laid (transcodeLayout mode.1 mode.2) id (depth + 1))) := by
        by_cases hpaired : Paired key
        · have ht : ¬ t.EachToken Paired Buffered := fun ht => hms ⟨hpaired, ht⟩
          exact (breaks_value waits_cons ht hx hv).key hi hkey hpaired hk
        · exact (breaks_key hi hkey hpaired depth count).append _
      simpa [membersLaid] using
        (hmember.child .object).append ((transcodeLayout mode.1 mode.2).closing depth false)
  | @SpellsMembers.cons _ (key, t) ms _ _ _ (.mk hi hkey hk (.mk hx hv hy)) hs =>
      rw [membersEachToken] at hms
      have hmember : Breaks (At mode i (⟨.object, .key, depth, count⟩ :: frames) .none)
          (quoted id key ++ 0x3a :: ((transcodeLayout mode.1 mode.2).colon ++
            (t.laid (transcodeLayout mode.1 mode.2) id (depth + 1) ++ 0x2c ::
              membersLaid (transcodeLayout mode.1 mode.2) id depth true ms))) := by
        by_cases hpaired : Paired key
        · apply Breaks.key hi hkey hpaired hk
          by_cases ht : t.EachToken Paired Buffered
          · -- the first member is printed, and the rest of the members breaks
            have hrest := breaks_members depth (count + 1) hw (fun hms' => hms ⟨hpaired, ht, hms'⟩) hs
            have hcomma : Breaks _ (0x2c :: _) := hrest.behind [0x2c] fun _ _ h =>
              yields_comma .object depth count hy h
            exact hcomma.behind _ fun _ _ h =>
              yields_value waits_cons ht hx (numberEnds_space hy numberEnds_comma) hv h
          · exact (breaks_value waits_cons ht hx hv).append _
        · exact (breaks_key hi hkey hpaired depth count).append _
      rw [membersLaid, Json.membersLaid_rest depth hs.ne_nil]
      simpa using hmember.child .object

theorem breaks_items {ts : List Tree} {frames : List JsonPullFrame} {i r : Text}
    (depth count : ℕ) (hw : Waits frames) (hts : ¬ itemsEachToken Paired Buffered ts)
    (h : SpellsItems rawLexis ts i r) :
    Breaks (At mode i (⟨.array, startPhase mode .array, depth, count⟩ :: frames) .none)
      (itemsLaid (transcodeLayout mode.1 mode.2) id depth true ts) := by
  match h with
  | .last (t := t) (.mk hx hv hy) =>
      rw [itemsEachToken, itemsEachToken, and_true] at hts
      have hvalue : Breaks (AtValue mode i (⟨.array, .value, depth, count⟩ :: frames)) _ :=
        breaks_value waits_cons hts hx hv
      have hitem : Breaks (At mode i (⟨.array, .value, depth, count⟩ :: frames) .none) _ :=
        hvalue.imp fun _ hs => ⟨hs, nofun⟩
      simpa [itemsLaid, valueDepth] using
        (hitem.child .array).append ((transcodeLayout mode.1 mode.2).closing depth false)
  | @SpellsItems.cons _ t ts _ _ _ (.mk hx hv hy) hs =>
      rw [itemsEachToken] at hts
      have hvalue : Breaks (AtValue mode i (⟨.array, .value, depth, count⟩ :: frames))
          (t.laid (transcodeLayout mode.1 mode.2) id (depth + 1) ++ 0x2c ::
            itemsLaid (transcodeLayout mode.1 mode.2) id depth true ts) := by
        by_cases ht : t.EachToken Paired Buffered
        · have hrest := breaks_items depth (count + 1) hw (fun hts' => hts ⟨ht, hts'⟩) hs
          have hcomma : Breaks _ (0x2c :: _) := hrest.behind [0x2c] fun _ _ h =>
            yields_comma .array depth count hy h
          exact hcomma.behind _ fun _ _ h =>
            yields_value waits_cons ht hx (numberEnds_space hy numberEnds_comma) hv h
        · exact (breaks_value waits_cons ht hx hv).append _
      have hitem : Breaks (At mode i (⟨.array, .value, depth, count⟩ :: frames) .none) _ :=
        hvalue.imp fun _ hs => ⟨hs, nofun⟩
      rw [itemsLaid, Json.itemsLaid_rest depth hs.ne_nil]
      simpa using hitem.child .array

end

end

/-! ## Whole texts -/

/-- The blanks behind the value. -/
theorem yields_rest {r : Text} (hr : Space r []) :
    producer.Yields (AfterValue mode r []) [] none := by
  apply Producer.Yields.finish
  intro s hs
  have hplace := hs.place.flushed
  have hdone : (producer.flush s []).rootFinished = true := hs.done rfl
  obtain ⟨s₁, hmoves, hpeek⟩ := peek_end hplace.room (hplace.text ▸ hr)
  have hs₁ := hplace.moves hmoves
  have hpending : s₁.pending = [] := hmoves.pending
  have hfinished : s₁.rootFinished = true := by
    obtain ⟨_, _, _, rfl⟩ := hmoves
    exact hdone
  have hend (s : JsonPull) (hlex : s.lex = .none) (hframes : s.frames = [])
      (hfinished : s.rootFinished = true) : s.step = s.stepEnd := by
    rw [step, hlex]
    dsimp only
    rw [if_pos (by rw [hfinished, hframes]; rfl)]
  refine ⟨{ s₁ with finished := true }, ?_, ?_, ?_⟩
  · change step _ = _
    rw [hend _ hplace.lex hplace.frames hdone, stepEnd, if_neg (by simp [hplace.synthetic]), hpeek]
  · rw [Producer.eof]
    change (true && s₁.pending.isEmpty) = true
    rw [hpending]
    rfl
  · change step { s₁ with finished := true } = _
    have hsynthetic : s₁.syntheticNull = false := hs₁.synthetic
    rw [hend { s₁ with finished := true } hs₁.lex hs₁.frames hfinished, stepEnd,
      if_neg (by simp [hsynthetic]), peek, show s₁.text = [] from hs₁.text, skipSpaces]

variable {value : JsonValue} {v : Text} {pretty : Bool} {baseDepth : ℕ}

/-- The limit on the bytes of a text. -/
def totalLimit (value : JsonValue) : ℕ :=
  (if value.limits.maxDepth ≠ 0 then value.limits else defaultValueLimits).maxTotalBytes

theorem init_at (hkind : value.kind ≠ .null)
    (hroom : totalLimit value ≠ 0 → v.length ≤ totalLimit value) :
    AtValue (pretty, baseDepth) v [] (init value v pretty baseDepth) := by
  have hinit : init value v pretty baseDepth =
      { text := v, maxTotalBytes := totalLimit value, pretty, baseDepth } := by
    rw [init, if_neg hkind]
    rfl
  rw [hinit]
  refine ⟨⟨rfl, rfl, rfl, rfl, rfl, rfl, ?_⟩, fun _ => ⟨rfl, rfl⟩⟩
  intro hmax
  dsimp only
  rw [if_neg Bool.false_ne_true, Nat.zero_add, Nat.add_zero]
  exact hroom hmax

theorem init_pending (hkind : value.kind ≠ .null) :
    (init value v pretty baseDepth).pending = [] := by
  rw [init, if_neg hkind]

/-- The whole text of a tree whose tokens the pull reader takes. -/
theorem delivers_laid (hkind : value.kind ≠ .null)
    (hroom : totalLimit value ≠ 0 → v.length ≤ totalLimit value) {t : Tree}
    (h : t.SpelledBy rawLexis v) (ht : t.EachToken Paired Buffered) :
    producer.Delivers (init value v pretty baseDepth)
      (t.laid (transcodeLayout pretty baseDepth) id 0) none := by
  obtain ⟨hi, hv, hr⟩ := h
  have hvalue : producer.Yields (AtValue (pretty, baseDepth) v []) _ none :=
    yields_value nofun ht hi (numberEnds_space hr nofun) hv (yields_rest hr)
  obtain ⟨n, hprints⟩ := hvalue
  have hprints := hprints _ (init_at hkind hroom)
  rw [List.append_nil] at hprints
  have hpending : producer.pending (init value v pretty baseDepth) = [] := init_pending hkind
  rw [hpending] at hprints
  exact hprints.delivers producer_lawful

theorem delivers_broken (hkind : value.kind ≠ .null)
    (hroom : totalLimit value ≠ 0 → v.length ≤ totalLimit value) (pretty : Bool)
    (baseDepth : ℕ) {t : Tree} (h : t.SpelledBy rawLexis v) (ht : ¬ t.EachToken Paired Buffered) :
    ∃ out b more code, t.laid (transcodeLayout pretty baseDepth) id 0 = out ++ b :: more ∧
      b ≠ 0x0a ∧ producer.Delivers (init value v pretty baseDepth) out (some code) := by
  obtain ⟨hi, hv, hr⟩ := h
  have hvalue : Breaks (AtValue (pretty, baseDepth) v []) _ := breaks_value nofun ht hi hv
  obtain ⟨out, b, more, code, htext, hb, n, hprints⟩ := hvalue
  have hprints := hprints _ (init_at hkind hroom)
  have hpending : producer.pending (init value v pretty baseDepth) = [] := init_pending hkind
  rw [hpending] at hprints
  exact ⟨out, b, more, code, htext, hb, hprints.delivers producer_lawful⟩

/-- The reads return what the recursive transcoder writes, and fail behind it where it fails. -/
def PullAgrees (value : JsonValue) (v : Text) (pretty : Bool) (baseDepth : ℕ) : Prop :=
  ∃ out e, producer.Delivers (init value v pretty baseDepth) out e ∧
    ∀ (τ : Type) (sink : Sink τ) (text : τ → Bytes), sink.Appends text → sink.Reliable →
      ∀ (ahead : Ahead) (io : JsonIo τ),
        text (jsonTranscodeCursor sink ahead pretty baseDepth v io).out = text io.out ++ out ∧
        ((jsonTranscodeCursor sink ahead pretty baseDepth v io).status.soft = true ↔ e = none)

theorem pullAgrees_of_fits (hkind : value.kind ≠ .null)
    (hroom : totalLimit value ≠ 0 → v.length ≤ totalLimit value) {t : Tree}
    (h : t.SpelledBy rawLexis v) (hfit : t.linesFit (indentFits pretty baseDepth) 0 = true)
    (ht : t.EachToken Paired Buffered) : PullAgrees value v pretty baseDepth := by
  refine ⟨_, none, delivers_laid hkind hroom h ht, ?_⟩
  intro τ sink text hsink hreliable ahead io
  rcases transcode_lays hsink hreliable ahead pretty baseDepth h io with
    ⟨-, hsoft, hout⟩ | ⟨hno, -⟩
  · exact ⟨hout, fun _ => rfl, fun _ => hsoft⟩
  · rw [hfit] at hno
    cases hno

theorem fits_of_pullAgrees (hkind : value.kind ≠ .null)
    (hroom : totalLimit value ≠ 0 → v.length ≤ totalLimit value) {t : Tree}
    (h : t.SpelledBy rawLexis v) (hagrees : PullAgrees value v pretty baseDepth) :
    t.linesFit (indentFits pretty baseDepth) 0 = true ∧ t.EachToken Paired Buffered := by
  obtain ⟨out, e, hdelivers, hyields⟩ := hagrees
  obtain ⟨hout, hsame⟩ :=
    hyields Bytes collectSink id collectSink_appends collectSink_reliable id { out := [] }
  rcases transcode_lays collectSink_appends collectSink_reliable id pretty baseDepth h
    { out := [] } with ⟨hfit, hsoft, -⟩ | ⟨-, hstatus, before, behind, hbefore, hcut⟩
  · obtain rfl := hsame.mp hsoft
    refine ⟨hfit, ?_⟩
    by_contra ht
    obtain ⟨out', _, _, code, -, -, hbroken⟩ :=
      delivers_broken hkind hroom pretty baseDepth h ht
    cases (hdelivers.unique hbroken).2
  · exfalso
    by_cases ht : t.EachToken Paired Buffered
    · obtain ⟨-, rfl⟩ := hdelivers.unique (delivers_laid hkind hroom h ht)
      have hsoft := hsame.mpr rfl
      rw [hstatus] at hsoft
      cases hsoft
    · -- both fail, one of them in front of a line and the other one inside a line
      obtain ⟨out', b, more, code, htext, hb, hbroken⟩ :=
        delivers_broken hkind hroom pretty baseDepth h ht
      obtain ⟨rfl, -⟩ := hdelivers.unique hbroken
      obtain rfl : before = out := List.append_cancel_left (hcut.symm.trans hout)
      rw [hbefore] at htext
      injection List.append_cancel_left htext with hhead
      exact hb hhead.symm

end JsonPull

end Lonejson
