import Lonejson.Capturing
import Lonejson.Generator
import Lonejson.JsonPullTrees
import Lonejson.SerializerBuffers

/-!
# A frame of the generator writes what the serializer writes

The serializer goes down a record by recursion, the generator with a stack of frames, one step at
a time. A frame is followed from the step that pushes it to the one that pops it: what is printed
in between is what the serializer emits for the same value, and a value at which the serializer
fails is one at which the generator fails.
-/

namespace Lonejson

open Pull (Outcome Producer)

/-! ## What the serializer emits -/

/-- A writer that emits a text and succeeds. -/
def Emits (write : JsonIo Bytes → Except (JsonIo Bytes) (JsonIo Bytes)) (text : Bytes) : Prop :=
  ∀ io, ∃ io', write io = .ok io' ∧ io'.out = io.out ++ text

theorem Emits.bind {write write' : JsonIo Bytes → Except (JsonIo Bytes) (JsonIo Bytes)}
    {text text' : Bytes} (h : Emits write text) (h' : Emits write' text') :
    Emits (fun io => (write io).bind write') (text ++ text') := by
  intro io
  obtain ⟨io', hwrite, hout⟩ := h io
  obtain ⟨io'', hwrite', hout'⟩ := h' io'
  refine ⟨io'', ?_, by rw [hout', hout, List.append_assoc]⟩
  dsimp only
  rw [hwrite]
  exact hwrite'

theorem emits_emit (data : Bytes) : Emits (fun io => io.emit collectSink data) data :=
  fun io => emit_reliable collectSink_appends collectSink_reliable io data

theorem emits_emitBytes (data : Bytes) :
    Emits (fun io => (sinkOps collectSink).emit io data) data := by
  intro io
  change ∃ io', io.emitBytes collectSink data = .ok io' ∧ _
  rw [emitBytes_collect]
  exact emits_emit data io

theorem emits_emitAll (pieces : List Bytes) :
    Emits (fun io => io.emitAll collectSink pieces) pieces.flatten := by
  induction pieces with
  | nil => exact fun io => ⟨io, rfl, (List.append_nil _).symm⟩
  | cons piece pieces ih =>
      rw [List.flatten_cons]
      exact (emits_emit piece).bind ih

theorem emits_escaped (text : Bytes) :
    Emits (fun io => (sinkOps collectSink).escaped io text)
      (0x22 :: (escapeText text ++ [0x22])) := by
  intro io
  change ∃ io', io.emitEscapedBytes collectSink text = .ok io' ∧ _
  rw [emitEscapedBytes_collect]
  have hpieces := emits_emitAll (escapedPieces [] text)
  rw [escapedPieces_flatten, List.nil_append] at hpieces
  exact (emits_emit [0x22]).bind (hpieces.bind (emits_emit [0x22])) io

theorem emits_indent {depth : ℕ} (h : depth ≤ sizeMax / 2) :
    Emits (fun io => io.emitIndent collectSink depth)
      (0x0a :: List.replicate (depth * 2) 0x20) := by
  intro io
  have hpieces := emits_emitAll (indentPieces depth) io
  rw [indentPieces_flatten] at hpieces
  dsimp only
  rw [JsonIo.emitIndent, if_neg (by omega)]
  exact hpieces

theorem emits_digits {pieces : Option (List Bytes)} {text : Bytes}
    (h : pieces.map List.flatten = some text) :
    Emits (serializeDigits (sinkOps collectSink) pieces) text := by
  cases pieces with
  | none => cases h
  | some pieces =>
      obtain rfl : pieces.flatten = text := Option.some.inj h
      change Emits (fun io => serializeEach (sinkOps collectSink) io pieces) pieces.flatten
      clear h
      induction pieces with
      | nil => exact fun io => ⟨io, rfl, (List.append_nil _).symm⟩
      | cons piece pieces ih =>
          rw [List.flatten_cons]
          exact (emits_emitBytes piece).bind ih

namespace Generator

/-! ## Frames that follow a writer -/

/-- The frames are on the stack, and none of them owns the io buffer. -/
def At (frames : List (GeneratorFrame RecordFrame)) (g : RecordGenerator) : Prop :=
  g.frames = frames ∧ g.ioOwner = none ∧ g.finished = false

section

variable (P : Producer RecordGenerator GeneratorFault)

/-- What a generator prints from some states to others, beside the result of a serializer. -/
def EchoesFrom (A B : RecordGenerator → Prop) (io : JsonIo Bytes) :
    Except (JsonIo Bytes) (JsonIo Bytes) → Prop
  | .ok io' => ∃ text, io'.out = io.out ++ text ∧ P.Runs A text B
  | .error _ => ∃ text e, P.Yields A text (some e)

/-- From some states to others a generator prints what a serializer emits, or fails where that
fails. -/
def Echoes (write : JsonIo Bytes → Except (JsonIo Bytes) (JsonIo Bytes))
    (A B : RecordGenerator → Prop) : Prop :=
  ∀ io, EchoesFrom P A B io (write io)

/-- What a call in a step above some frames leads to, beside the result of a serializer. -/
def AnswersFrom (call : RecordGenerator → Step RecordFrame)
    (frames : List (GeneratorFrame RecordFrame)) (io : JsonIo Bytes) :
    Except (JsonIo Bytes) (JsonIo Bytes) → Prop
  | .ok io' => ∃ text, io'.out = io.out ++ text ∧ ∀ behind e, P.Yields (At frames) behind e →
      ∃ n, ∀ g, At frames g → g.pending = [] → P.Leads n (call g) (text ++ behind) e
  | .error _ => ∃ text e n, ∀ g, At frames g → g.pending = [] → P.Leads n (call g) text (some e)

/-- A call in a step above some frames leads to what a serializer emits. -/
def Answers (call : RecordGenerator → Step RecordFrame)
    (frames : List (GeneratorFrame RecordFrame))
    (write : JsonIo Bytes → Except (JsonIo Bytes) (JsonIo Bytes)) : Prop :=
  ∀ io, AnswersFrom P call frames io (write io)

end

section

variable {P : Producer RecordGenerator GeneratorFault}
  {write write' : JsonIo Bytes → Except (JsonIo Bytes) (JsonIo Bytes)}
  {A B C : RecordGenerator → Prop} {frames : List (GeneratorFrame RecordFrame)}
  {call : RecordGenerator → Step RecordFrame}

theorem echoes_runs {text : Bytes} (hwrite : Emits write text) (h : P.Runs A text B) :
    Echoes P write A B := by
  intro io
  obtain ⟨io', hio, hout⟩ := hwrite io
  rw [hio]
  exact ⟨text, hout, h⟩

theorem EchoesFrom.bind {io : JsonIo Bytes} {x : Except (JsonIo Bytes) (JsonIo Bytes)}
    (h : EchoesFrom P A B io x) (h' : Echoes P write' B C) :
    EchoesFrom P A C io (x.bind write') := by
  cases x with
  | error io' => exact h
  | ok io' =>
      obtain ⟨text, hout, hruns⟩ := h
      have hnext := h' io'
      change EchoesFrom P A C io (write' io')
      cases hwrite : write' io' with
      | error io'' =>
          rw [hwrite] at hnext
          obtain ⟨text', e, hyields⟩ := hnext
          exact ⟨text ++ text', e, hruns _ _ hyields⟩
      | ok io'' =>
          rw [hwrite] at hnext
          obtain ⟨text', hout', hruns'⟩ := hnext
          exact ⟨text ++ text', by rw [hout', hout, List.append_assoc], hruns.trans hruns'⟩

theorem Echoes.bind (h : Echoes P write A B) (h' : Echoes P write' B C) :
    Echoes P (fun io => (write io).bind write') A C :=
  fun io => (h io).bind h'

theorem Echoes.congr (h : Echoes P write A B) (hwrite : ∀ io, write' io = write io) :
    Echoes P write' A B :=
  fun io => hwrite io ▸ h io

/-- Steps in front of states from which a serializer is echoed. -/
theorem Echoes.after {text : Bytes} (hruns : P.Runs A text B) (hwrite : Emits write text)
    (h : Echoes P write' B C) : Echoes P (fun io => (write io).bind write') A C :=
  (echoes_runs hwrite hruns).bind h

/-- Steps that print nothing. -/
theorem Echoes.from (h : Echoes P write B C) (hruns : P.Runs A [] B) : Echoes P write A C :=
  fun io => by
    have hio := h io
    cases hwrite : write io with
    | error io' =>
        rw [hwrite] at hio
        obtain ⟨text, e, hyields⟩ := hio
        exact ⟨[] ++ text, e, hruns _ _ hyields⟩
    | ok io' =>
        rw [hwrite] at hio
        obtain ⟨text, hout, hruns'⟩ := hio
        exact ⟨[] ++ text, hout, hruns.trans hruns'⟩

/-- A call that leaves something pending. -/
theorem answers_pending {text : Bytes} (hwrite : Emits write text)
    (hcall : ∀ g, call g = g.setPending text)
    (hP : ∀ (g : RecordGenerator) (bytes : Bytes), P.pending { g with pending := bytes } = bytes) :
    Answers P call frames write := by
  intro io
  obtain ⟨io', hio, hout⟩ := hwrite io
  rw [hio]
  refine ⟨text, hout, fun behind e hbehind => ?_⟩
  obtain ⟨n, hn⟩ := hbehind
  refine ⟨n, fun g hg _ => ?_⟩
  have hprints := hn { g with pending := text } hg
  rw [hP] at hprints
  rw [hcall]
  exact .next hprints

/-- A call that pushes a frame. -/
theorem answers_push {frame : GeneratorFrame RecordFrame}
    (h : Echoes P write (At (frame :: frames)) (At frames))
    (hcall : ∀ g, call g = .next (g.push frame))
    (hP : ∀ g : RecordGenerator, P.pending g = g.pending) : Answers P call frames write := by
  have hpushed {text : Bytes} {e : Option GeneratorFault}
      (hyields : P.Yields (At (frame :: frames)) text e) :
      ∃ n, ∀ g, At frames g → g.pending = [] → P.Leads n (call g) text e := by
    obtain ⟨n, hn⟩ := hyields
    refine ⟨n, fun g hg hpending => ?_⟩
    have hprints := hn (g.push frame) ⟨by rw [push, hg.1], hg.2⟩
    have hempty : P.pending (g.push frame) = [] := (hP _).trans hpending
    rw [hempty, List.nil_append] at hprints
    rw [hcall]
    exact .next hprints
  intro io
  have hio := h io
  cases hwrite : write io with
  | error io' =>
      rw [hwrite] at hio
      obtain ⟨text, e, hyields⟩ := hio
      obtain ⟨n, hn⟩ := hpushed hyields
      exact ⟨text, e, n, hn⟩
  | ok io' =>
      rw [hwrite] at hio
      obtain ⟨text, hout, hruns⟩ := hio
      exact ⟨text, hout, fun behind e hbehind => hpushed (hruns behind e hbehind)⟩

/-- A call that fails, where the serializer fails. -/
theorem answers_fail (e : GeneratorFault) (hwrite : ∀ io, ∃ io', write io = .error io')
    (hcall : ∀ g, ∃ g', call g = .fail g' e) : Answers P call frames write := by
  intro io
  obtain ⟨io', hio⟩ := hwrite io
  rw [hio]
  refine ⟨[], e, 0, fun g _ _ => ?_⟩
  obtain ⟨g', hg⟩ := hcall g
  rw [hg]
  exact .fail

theorem Answers.congr {call' : RecordGenerator → Step RecordFrame}
    (h : Answers P call frames write) (hcall : ∀ g, call' g = call g)
    (hwrite : ∀ io, write' io = write io) : Answers P call' frames write' := by
  rw [funext hcall, funext hwrite]
  exact h

/-- A step that makes a call above some frames. -/
theorem Answers.echoes (h : Answers P call frames write)
    (hA : ∀ g, A g → P.ended (P.flush g []) = false ∧
      ∃ g', At frames g' ∧ g'.pending = [] ∧ P.step (P.flush g []) = call g') :
    Echoes P write A (At frames) := by
  have hlead {n : ℕ} {text : Bytes} {e : Option GeneratorFault}
      (hcall : ∀ g, At frames g → g.pending = [] → P.Leads n (call g) text e) :
      P.Yields A text e := by
    refine @Producer.Yields.lead _ _ P A n text e fun g hg => ?_
    obtain ⟨hended, g', hg', hpending, hstep⟩ := hA g hg
    exact ⟨hended, hstep ▸ hcall g' hg' hpending⟩
  intro io
  have hio := h io
  cases hwrite : write io with
  | error io' =>
      rw [hwrite] at hio
      obtain ⟨text, e, n, hcall⟩ := hio
      exact ⟨text, e, hlead hcall⟩
  | ok io' =>
      rw [hwrite] at hio
      obtain ⟨text, hout, hcalls⟩ := hio
      refine ⟨text, hout, fun behind e hbehind => ?_⟩
      obtain ⟨n, hcall⟩ := hcalls behind e hbehind
      exact hlead hcall

end

/-! ## Steps -/

section

variable {fuel : ℕ} {env : SerializeEnv} {pretty : Bool}
  {frames : List (GeneratorFrame RecordFrame)}

theorem step_at {frame : RecordFrame} {g : RecordGenerator} (hg : At (.other frame :: frames) g) :
    (recordProducer fuel env pretty).ended ((recordProducer fuel env pretty).flush g []) = false ∧
      (recordProducer fuel env pretty).step ((recordProducer fuel env pretty).flush g []) =
        stepRecordFrame fuel env pretty frame { g with pending := [] } := by
  obtain ⟨hframes, -, hfinished⟩ := hg
  refine ⟨?_, ?_⟩
  · change (g.finished || g.frames.isEmpty) = false
    rw [hfinished, hframes]
    rfl
  · change stepFrame _ { g with pending := [] } = _
    rw [stepFrame, if_neg (by simp [hfinished]), hframes]

/-- A step that writes its frame back and leaves something pending. -/
theorem runs_put {frame frame' : RecordFrame} {text : Bytes}
    (h : ∀ g, stepRecordFrame fuel env pretty frame g = (g.putTop frame').setPending text) :
    (recordProducer fuel env pretty).Runs (At (.other frame :: frames)) text
      (At (.other frame' :: frames)) := by
  refine .step fun g hg => ⟨(step_at hg).1, _, (step_at hg).2.trans (h _), rfl, ?_, hg.2⟩
  change GeneratorFrame.other frame' :: g.frames.tail = _
  rw [hg.1]
  rfl

/-- A step that only writes its frame back. -/
theorem runs_next {frame frame' : RecordFrame}
    (h : ∀ g, stepRecordFrame fuel env pretty frame g = .next (g.putTop frame')) :
    (recordProducer fuel env pretty).Runs (At (.other frame :: frames)) []
      (At (.other frame' :: frames)) := by
  refine .step fun g hg => ⟨(step_at hg).1, _, (step_at hg).2.trans (h _), rfl, ?_, hg.2⟩
  change GeneratorFrame.other frame' :: g.frames.tail = _
  rw [hg.1]
  rfl

theorem popFrame_at {g : RecordGenerator} (h : g.ioOwner = none)
    (frames : List (GeneratorFrame RecordFrame)) : g.popFrame frames = { g with frames } := by
  rw [popFrame, if_neg]
  rintro ⟨index, hindex, -⟩
  rw [h] at hindex
  cases hindex

/-- A step that pops its frame. -/
theorem runs_pop {frame : RecordFrame} {text : Bytes}
    (h : ∀ g : RecordGenerator, stepRecordFrame fuel env pretty frame g =
      setPending (g.popFrame g.frames.tail) text) :
    (recordProducer fuel env pretty).Runs (At (.other frame :: frames)) text (At frames) := by
  refine .step fun g hg => ⟨(step_at hg).1, _, (step_at hg).2.trans (h _), rfl, ?_⟩
  have howner : Generator.ioOwner { g with pending := [] } = none := hg.2.1
  rw [popFrame_at howner]
  refine ⟨?_, hg.2⟩
  change g.frames.tail = _
  rw [hg.1]
  rfl

/-- A step that writes its frame back and makes a call above it. -/
theorem Answers.put {call : RecordGenerator → Step RecordFrame} {frame frame' : RecordFrame}
    {write : JsonIo Bytes → Except (JsonIo Bytes) (JsonIo Bytes)}
    (h : Answers (recordProducer fuel env pretty) call (.other frame' :: frames) write)
    (hstep : ∀ g, stepRecordFrame fuel env pretty frame g = call (g.putTop frame')) :
    Echoes (recordProducer fuel env pretty) write (At (.other frame :: frames))
      (At (.other frame' :: frames)) := by
  refine h.echoes fun g hg => ⟨(step_at hg).1, putTop { g with pending := [] } frame', ⟨?_, hg.2⟩,
    rfl, (step_at hg).2.trans (hstep _)⟩
  change GeneratorFrame.other frame' :: g.frames.tail = _
  rw [hg.1]
  rfl

/-! ## Strings -/

theorem escapeText_plain {run : Bytes} (h : ∀ ch ∈ run, isPlain ch = true) :
    escapeText run = run := by
  induction run with
  | nil => rfl
  | cons ch run ih =>
      rw [List.forall_mem_cons] at h
      change writtenByte ch ++ escapeText run = _
      rw [ih h.2, writtenByte, if_pos h.1]
      rfl

/-- Up to a byte that is escaped, or to the end. -/
theorem escapeText_run {text run : Bytes} (hrun : text.takeWhile isPlain = run) :
    escapeText text = run ++ escapeText (text.drop run.length) := by
  have hsplit : text = run ++ text.drop run.length := by
    obtain ⟨rest, hrest⟩ := hrun ▸ List.takeWhile_prefix isPlain (l := text)
    conv_rhs => rw [← hrest, List.drop_left]
    exact hrest.symm
  conv_lhs => rw [hsplit, escapeText_append]
  rw [escapeText_plain fun ch hch => List.mem_takeWhile_imp (hrun ▸ hch)]

/-- The text of a string up to its closing quote. -/
theorem runs_string (text : Bytes) : (recordProducer fuel env pretty).Runs
    (At (.other (.string { text, phase := 1 }) :: frames)) (escapeText text)
    (At (.other (.string { text := [], phase := 2 }) :: frames)) := by
  induction hlen : text.length using Nat.strong_induction_on generalizing text with
  | _ len ih =>
      obtain ⟨run, hrun⟩ : ∃ run, text.takeWhile isPlain = run := ⟨_, rfl⟩
      by_cases hempty : run = []
      · rw [hempty] at hrun
        cases text with
        | nil => exact runs_next fun g => rfl
        | cons ch rest =>
            have hch : isPlain ch = false := by
              rw [List.takeWhile_cons] at hrun
              cases hplain : isPlain ch with
              | false => rfl
              | true => rw [hplain] at hrun; cases hrun
            have hstep : (recordProducer fuel env pretty).Runs
                (At (.other (.string { text := ch :: rest, phase := 1 }) :: frames))
                (escapeByte ch) (At (.other (.string { text := rest, phase := 1 }) :: frames)) := by
              refine runs_put fun g => ?_
              change stepString { text := ch :: rest, phase := 1 } g = _
              simp only [stepString, hrun, ne_eq, not_true_eq_false, if_false, one_ne_zero]
              rfl
            have htext : escapeText (ch :: rest) = escapeByte ch ++ escapeText rest := by
              change writtenByte ch ++ escapeText rest = _
              rw [writtenByte, hch, if_neg Bool.false_ne_true]
            rw [htext]
            exact hstep.trans (ih rest.length (by rw [← hlen, List.length_cons]; omega) rest rfl)
      · have hstep : (recordProducer fuel env pretty).Runs
            (At (.other (.string { text, phase := 1 }) :: frames)) run
            (At (.other (.string { text := text.drop run.length, phase := 1 }) :: frames)) := by
          refine runs_put fun g => ?_
          change stepString { text, phase := 1 } g = _
          simp only [stepString, hrun, ne_eq, hempty, not_false_eq_true, if_true, one_ne_zero,
            if_false]
          rfl
        rw [escapeText_run hrun]
        have hpos := List.length_pos_of_ne_nil hempty
        have hle : run.length ≤ text.length := hrun ▸ (List.takeWhile_sublist isPlain).length_le
        exact hstep.trans (ih _ (by rw [List.length_drop]; omega) _ rfl)

/-- A string frame. -/
theorem echoes_string (text : Bytes) : Echoes (recordProducer fuel env pretty)
    (fun io => (sinkOps collectSink).escaped io text)
    (At (.other (.string { text }) :: frames)) (At frames) := by
  refine echoes_runs (emits_escaped text) ?_
  have hopen : (recordProducer fuel env pretty).Runs (At (.other (.string { text }) :: frames))
      [0x22] (At (.other (.string { text, phase := 1 }) :: frames)) := runs_put fun g => rfl
  have hclose : (recordProducer fuel env pretty).Runs
      (At (.other (.string { text := [], phase := 2 }) :: frames)) [0x22] (At frames) :=
    runs_pop fun g => rfl
  exact hopen.trans ((runs_string text).trans hclose)

end

end Generator

end Lonejson
