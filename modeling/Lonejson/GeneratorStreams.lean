import Lonejson.GeneratorRecords

/-!
# Members that the generator reads in chunks

The frames that own the io buffer: texts and base64 members, whose content is read a chunk at a
time. The reads to come carry the induction; a read that fails ends the serializer and the
generator alike.
-/

namespace Lonejson

open Pull (Outcome Producer)

/-- The reads return some bytes, none of them no bytes, and then one fails. -/
inductive DeliveryFails : List ReadResult → Bytes → Prop where
  | error {chunk : ReadResult} {more : List ReadResult} (herror : chunk.errorCode ≠ 0) :
      DeliveryFails (chunk :: more) []
  | chunk {data content : Bytes} {reads : List ReadResult} (hdata : data ≠ [])
      (hreads : DeliveryFails reads content) :
      DeliveryFails ({ bytes := data } :: reads) (data ++ content)

/-- The reads of an open cursor come to the end or fail, and none before is empty. -/
def Cursor.Steady (cursor : Cursor) : Prop :=
  ∀ reads, cursor = .ok reads →
    (∃ content, Delivers reads content) ∨ ∃ content, DeliveryFails reads content

/-- The error of a read that fails. -/
def readFault (isSource : Bool) : GeneratorFault :=
  .error .ioError
    (if isSource then "failed to read source data" else "failed to read spooled data")

namespace Generator

section

variable {fuel : ℕ} {env : SerializeEnv} {pretty : Bool}
  {below : List (GeneratorFrame RecordFrame)} {isSource : Bool}

/-! ## Texts -/

/-- In a text, with some bytes unread in the io buffer and the reads to come. -/
def InText (isSource : Bool) (below : List (GeneratorFrame RecordFrame)) (buffer : Bytes)
    (eof : Bool) (reads : List ReadResult) (g : RecordGenerator) : Prop :=
  ∃ frame, frame.isSource = isSource ∧ g.frames = .other (.text frame) :: below ∧
    frame.phase = 1 ∧ g.ioOwner = some below.length ∧ g.finished = false ∧
    g.ioBuffer = buffer ∧ g.ioEof = eof ∧ (eof = false → HasReads frame reads)

/-- Behind the content of a text. -/
def TextEnds (below : List (GeneratorFrame RecordFrame)) (g : RecordGenerator) : Prop :=
  ∃ frame, g.frames = .other (.text frame) :: below ∧ frame.phase = 2 ∧
    g.ioOwner = some below.length ∧ g.finished = false

theorem step_text {frame : Base64Frame} {g : RecordGenerator}
    (hframes : g.frames = .other (.text frame) :: below) (howner : g.ioOwner = some below.length)
    (hfinished : g.finished = false) :
    (recordProducer fuel env pretty).ended ((recordProducer fuel env pretty).flush g []) = false ∧
      (recordProducer fuel env pretty).step ((recordProducer fuel env pretty).flush g []) =
        stepStreamText frame { g with pending := [] } ∧
      prepareStreamOwner { g with pending := [] } (g.frames.tail).length =
        { g with pending := [] } := by
  refine ⟨?_, ?_, ?_⟩
  · change (g.finished || g.frames.isEmpty) = false
    rw [hfinished, hframes]
    rfl
  · change stepFrame _ { g with pending := [] } = _
    rw [stepFrame, if_neg (by simp [hfinished]), hframes]
    rfl
  · have htail : g.frames.tail = below := congrArg List.tail hframes
    rw [htail]
    exact @prepareStreamOwner_own _ { g with pending := [] } _ howner

/-- What a step takes from the io buffer. -/
theorem textRun_split (buffer : Bytes) : ∃ text rest,
    escapeText buffer = text ++ escapeText rest ∧ (buffer ≠ [] → rest.length < buffer.length) ∧
    ∀ g : RecordGenerator, g.ioBuffer = buffer → g.pending = [] →
      textRun g = .next { g with ioBuffer := rest, pending := text } := by
  obtain ⟨run, hrun⟩ : ∃ run, buffer.takeWhile isPlain = run := ⟨_, rfl⟩
  by_cases hempty : run = []
  · cases buffer with
    | nil =>
        refine ⟨[], [], rfl, fun h => absurd rfl h, fun g hbuffer hpending => ?_⟩
        rw [textRun, hbuffer]
        dsimp only
        rw [if_neg (by simp)]
        congr 1
        cases g
        simp_all
    | cons ch rest =>
        rw [hempty] at hrun
        have hch : isPlain ch = false := by
          rw [List.takeWhile_cons] at hrun
          cases hplain : isPlain ch with
          | false => rfl
          | true => rw [hplain] at hrun; cases hrun
        refine ⟨escapeByte ch, rest, ?_, fun _ => Nat.lt_succ_self _, fun g hbuffer _ => ?_⟩
        · change writtenByte ch ++ escapeText rest = _
          rw [writtenByte, hch, if_neg Bool.false_ne_true]
        · rw [textRun, hbuffer, hrun]
          rfl
  · refine ⟨run, buffer.drop run.length, escapeText_run hrun, fun hbuffer => ?_,
      fun g hbuffer _ => ?_⟩
    · have hpos := List.length_pos_of_ne_nil hempty
      have hlen := List.length_pos_of_ne_nil hbuffer
      rw [List.length_drop]
      omega
    · rw [textRun, hbuffer, hrun]
      exact if_pos hempty

theorem InText.run {buffer : Bytes} {eof : Bool} {reads : List ReadResult} {g : RecordGenerator}
    (h : InText isSource below buffer eof reads g) (rest text : Bytes) :
    InText isSource below rest eof reads { g with ioBuffer := rest, pending := text } := by
  obtain ⟨frame, hsource, hframes, hphase, howner, hfinished, -, heof, hreads⟩ := h
  exact ⟨frame, hsource, hframes, hphase, howner, hfinished, rfl, heof, hreads⟩

/-- The unread bytes of the io buffer. -/
theorem runs_buffer (buffer : Bytes) (eof : Bool) (reads : List ReadResult) :
    (recordProducer fuel env pretty).Runs (InText isSource below buffer eof reads) (escapeText buffer)
      (InText isSource below [] eof reads) := by
  induction hlen : buffer.length using Nat.strong_induction_on generalizing buffer with
  | _ len ih =>
      by_cases hempty : buffer = []
      · rw [hempty]
        exact .refl _
      · obtain ⟨text, rest, hescape, hlt, hrun⟩ := textRun_split buffer
        rw [hescape]
        refine .trans (.step fun g hg => ?_)
          (ih rest.length (by rw [← hlen]; exact hlt hempty) rest rfl)
        have hg' := hg
        obtain ⟨frame, -, hframes, hphase, howner, hfinished, hbuffer, -, -⟩ := hg
        obtain ⟨hended, hstep, hown⟩ := @step_text fuel env pretty below frame g hframes howner
          hfinished
        refine ⟨hended, _, ?_, rfl, hg'.run rest text⟩
        rw [hstep, stepStreamText, hown]
        dsimp only
        rw [if_neg (by omega), if_neg (by omega), if_neg (by rwa [hbuffer])]
        exact hrun { g with pending := [] } hbuffer rfl

theorem refill_from {g : RecordGenerator} {frame : Base64Frame} {reads : List ReadResult}
    (h : HasReads frame reads) : refill g frame = refill.refillFrom g frame reads := by
  rw [refill]
  rcases h with hopened | ⟨hopened, hcursor⟩
  · rw [hopened]
  · rw [hopened, hcursor]

section

variable {frame : Base64Frame} {g : RecordGenerator} (hphase : frame.phase = 1)
  (hown : g.prepareStreamOwner g.frames.tail.length = g) (hbuffer : g.ioBuffer = [])
include hphase hown hbuffer

theorem stepStreamText_end (heof : g.ioEof = true) :
    stepStreamText frame g = .next (g.putTop (.text { frame with phase := 2 })) := by
  rw [stepStreamText, hown, if_neg (by omega), if_neg (by omega), if_pos hbuffer, if_pos heof]

theorem stepStreamText_error (heof : g.ioEof = false) {fault : GeneratorFault}
    (h : refill g frame = .error fault) : stepStreamText frame g = .fail g fault := by
  rw [stepStreamText, hown, if_neg (by omega), if_neg (by omega), if_pos hbuffer, if_neg (by simp [heof]), h]

theorem stepStreamText_ok (heof : g.ioEof = false) {g' : RecordGenerator} {frame' : Base64Frame}
    (h : refill g frame = .ok (g', frame')) : stepStreamText frame g =
      if g'.ioBuffer = [] ∧ g'.ioEof then .next (g'.putTop (.text { frame' with phase := 2 }))
      else textRun (g'.putTop (.text frame')) := by
  rw [stepStreamText, hown, if_neg (by omega), if_neg (by omega), if_pos hbuffer, if_neg (by simp [heof]), h]

end

/-- The end that the last read has reported. -/
theorem runs_textEnd (reads : List ReadResult) : (recordProducer fuel env pretty).Runs
    (InText isSource below [] true reads) [] (TextEnds below) := by
  refine .step fun g hg => ?_
  obtain ⟨frame, -, hframes, hphase, howner, hfinished, hbuffer, heof, -⟩ := hg
  obtain ⟨hended, hstep, hown⟩ := @step_text fuel env pretty below frame g hframes howner hfinished
  refine ⟨hended, _, hstep.trans (stepStreamText_end hphase hown hbuffer heof), rfl,
    { frame with phase := 2 }, ?_, rfl, howner, hfinished⟩
  change GeneratorFrame.other (.text { frame with phase := 2 }) :: g.frames.tail = _
  rw [hframes]
  rfl

/-- No read is left, or the next one reports the end with no bytes. -/
theorem runs_lastRead {reads : List ReadResult}
    (h : reads = [] ∨ ∃ chunk more, reads = chunk :: more ∧ chunk.errorCode = 0 ∧
      chunk.bytes = [] ∧ chunk.eof = true) :
    (recordProducer fuel env pretty).Runs (InText isSource below [] false reads) [] (TextEnds below) := by
  refine .step fun g hg => ?_
  obtain ⟨frame, hsource, hframes, hphase, howner, hfinished, hbuffer, heof, hreads⟩ := hg
  obtain ⟨hended, hstep, hown⟩ := @step_text fuel env pretty below frame g hframes howner hfinished
  have hrefill : ∃ opened, refill { g with pending := [] } frame =
      .ok ({ g with pending := [], ioBuffer := [], ioEof := true }, { frame with opened }) := by
    rcases h with rfl | ⟨chunk, more, rfl, herror, hbytes, hchunk⟩
    · exact ⟨some [], refill_from (hreads rfl)⟩
    · refine ⟨some more, (refill_from (hreads rfl)).trans ?_⟩
      rw [refill.refillFrom, if_neg (by simp [herror]), hbytes, hchunk]
  obtain ⟨opened, hrefill⟩ := hrefill
  refine ⟨hended, _, hstep.trans ((stepStreamText_ok hphase hown hbuffer heof hrefill).trans
    (if_pos ⟨rfl, rfl⟩)), rfl, { frame with phase := 2, opened }, ?_, rfl, howner, hfinished⟩
  change GeneratorFrame.other (.text { frame with phase := 2, opened }) :: g.frames.tail = _
  rw [hframes]
  rfl

/-- A read, and the bytes that it returns. -/
theorem runs_chunk {chunk : ReadResult} {reads : List ReadResult} (herror : chunk.errorCode = 0)
    (h : ¬ (chunk.bytes = [] ∧ chunk.eof = true)) :
    (recordProducer fuel env pretty).Runs (InText isSource below [] false (chunk :: reads))
      (escapeText chunk.bytes) (InText isSource below [] chunk.eof reads) := by
  obtain ⟨text, rest, hescape, -, hrun⟩ := textRun_split chunk.bytes
  rw [hescape]
  refine .trans (.step fun g hg => ?_) (runs_buffer rest chunk.eof reads)
  obtain ⟨frame, hsource, hframes, hphase, howner, hfinished, hbuffer, heof, hreads⟩ := hg
  obtain ⟨hended, hstep, hown⟩ := @step_text fuel env pretty below frame g hframes howner hfinished
  have hrefill : refill { g with pending := [] } frame =
      .ok ({ g with pending := [], ioBuffer := chunk.bytes, ioEof := chunk.eof },
        { frame with opened := some reads }) := by
    refine (refill_from (hreads rfl)).trans ?_
    rw [refill.refillFrom, if_neg (by simp [herror])]
  refine ⟨hended, _, hstep.trans ((stepStreamText_ok hphase hown hbuffer heof hrefill).trans
    ((if_neg h).trans (hrun _ rfl rfl))), rfl, { frame with opened := some reads }, hsource, ?_,
    hphase, howner, hfinished, rfl, rfl, fun _ => .inl rfl⟩
  change GeneratorFrame.other (.text { frame with opened := some reads }) :: g.frames.tail = _
  rw [hframes]
  rfl

theorem yields_failedRead {chunk : ReadResult} {reads : List ReadResult}
    (herror : chunk.errorCode ≠ 0) : (recordProducer fuel env pretty).Yields
      (InText isSource below [] false (chunk :: reads)) []
      (some (readFault isSource)) := by
  refine .fail fun g hg => ?_
  obtain ⟨frame, rfl, hframes, hphase, howner, hfinished, hbuffer, heof, hreads⟩ := hg
  obtain ⟨-, hstep, hown⟩ := @step_text fuel env pretty below frame g hframes howner hfinished
  refine ⟨_, hstep.trans (stepStreamText_error hphase hown hbuffer heof ?_)⟩
  refine (refill_from (hreads rfl)).trans ?_
  rw [refill.refillFrom, if_pos herror]
  rfl

theorem emits_chunk (data : Bytes) : Emits
    (fun io => if data ≠ [] then io.emitAll collectSink (escapedPieces [] data) else .ok io)
    (escapeText data) := by
  by_cases hempty : data = []
  · rw [hempty]
    exact fun io => ⟨io, rfl, (List.append_nil _).symm⟩
  · have hpieces := emits_emitAll (escapedPieces [] data)
    rw [escapedPieces_flatten, List.nil_append] at hpieces
    simpa only [ne_eq, hempty, not_false_eq_true, if_true] using hpieces

/-- The loop over the chunks of a text. -/
theorem echoes_chunks (message : String) (reads : List ReadResult) :
    Echoes (recordProducer fuel env pretty) (serializeTextChunks collectSink message reads)
      (InText isSource below [] false reads) (TextEnds below) := by
  induction reads with
  | nil => exact echoes_runs (fun io => ⟨io, rfl, (List.append_nil _).symm⟩) (runs_lastRead (.inl rfl))
  | cons chunk reads ih =>
      by_cases herror : chunk.errorCode = 0
      · have hloop : Echoes (recordProducer fuel env pretty)
            (fun io => if chunk.eof then .ok io else serializeTextChunks collectSink message reads io)
            (InText isSource below [] chunk.eof reads) (TextEnds below) := by
          cases chunk.eof with
          | true => exact echoes_runs (fun io => ⟨io, rfl, (List.append_nil _).symm⟩) (runs_textEnd reads)
          | false => exact ih
        by_cases hlast : chunk.bytes = [] ∧ chunk.eof = true
        · refine (echoes_runs (fun io => ⟨io, rfl, (List.append_nil _).symm⟩)
            (runs_lastRead (.inr ⟨chunk, reads, rfl, herror, hlast⟩))).congr fun io => ?_
          rw [serializeTextChunks, if_neg (by simp [herror]), if_neg (by simp [hlast.1]), hlast.2]
          rfl
        · refine ((echoes_runs (emits_chunk chunk.bytes) (runs_chunk herror hlast)).bind
            hloop).congr fun io => ?_
          rw [serializeTextChunks, if_neg (by simp [herror])]
      · intro io
        rw [serializeTextChunks, if_pos herror]
        exact ⟨[], _, yields_failedRead herror⟩

/-! ## The quotes -/

/-- A text frame has been pushed; its cursor has not been opened. -/
theorem runs_openText {cursor : Cursor} (A : RecordGenerator → Prop)
    (hA : ∀ g frame, frame.isSource = isSource → frame.phase = 1 → frame.opened = none →
      frame.cursor = cursor → g.frames = .other (.text frame) :: below →
      g.ioOwner = some below.length → g.finished = false → g.ioBuffer = [] → g.ioEof = false → A g) :
    (recordProducer fuel env pretty).Runs (At (.other (.text { isSource, cursor }) :: below)) [0x22]
      A := by
  refine .step fun g hg => ?_
  have htail : g.frames.tail = below := congrArg List.tail hg.1
  have hprepare : prepareStreamOwner { g with pending := [] } g.frames.tail.length =
      { g with pending := [], ioOwner := some below.length, ioBuffer := [], ioEof := false } := by
    rw [prepareStreamOwner, htail, if_neg]
    rw [show g.ioOwner = none from hg.2.1]
    exact fun h => by cases h
  refine ⟨(step_at hg).1, putTop { g with
    pending := [0x22], ioOwner := some below.length, ioBuffer := [], ioEof := false }
    (.text { isSource, cursor, phase := 1 }), (step_at hg).2.trans ?_, rfl, ?_⟩
  · change stepStreamText { isSource, cursor } { g with pending := [] } = _
    rw [stepStreamText, hprepare]
    rfl
  · exact hA _ { isSource, cursor, phase := 1 } rfl rfl rfl rfl
      (congrArg (GeneratorFrame.other _ :: ·) htail) rfl hg.2.2 rfl rfl

theorem runs_closeText :
    (recordProducer fuel env pretty).Runs (TextEnds below) [0x22] (At below) := by
  refine .step fun g hg => ?_
  obtain ⟨frame, hframes, hphase, howner, hfinished⟩ := hg
  obtain ⟨hended, hstep, hown⟩ := @step_text fuel env pretty below frame g hframes howner hfinished
  have htail : g.frames.tail = below := congrArg List.tail hframes
  have hpop : popFrame { g with pending := [] } g.frames.tail = { g with
      frames := below, pending := [], ioOwner := none, ioBuffer := [], ioEof := false } := by
    rw [popFrame, htail, if_pos]
    exact ⟨below.length, howner, le_rfl⟩
  refine ⟨hended, { g with
    frames := below, pending := [0x22], ioOwner := none, ioBuffer := [], ioEof := false }, ?_, rfl,
    rfl, rfl, hfinished⟩
  rw [hstep, stepStreamText, hown, if_neg (by omega), if_pos hphase]
  change setPending (popFrame { g with pending := [] } g.frames.tail) [0x22] = _
  rw [hpop]
  rfl

/-- A text whose cursor does not open. -/
theorem yields_unopened (message : String) : ∃ text e, (recordProducer fuel env pretty).Yields
    (At (.other (.text { isSource, cursor := .error message }) :: below)) text (some e) := by
  refine ⟨_, _, runs_openText (fun g => ∃ frame : Base64Frame,
    g.frames = .other (.text frame) :: below ∧ frame.phase = 1 ∧ g.ioOwner = some below.length ∧
      g.finished = false ∧ g.ioBuffer = [] ∧ g.ioEof = false ∧ frame.opened = none ∧
      frame.cursor = .error message)
    (fun g frame _ hphase hopened hcursor hframes howner hfinished hbuffer heof =>
      ⟨frame, hframes, hphase, howner, hfinished, hbuffer, heof, hopened, hcursor⟩) []
    (some (.error .ioError message)) (.fail fun g hg => ?_)⟩
  obtain ⟨frame, hframes, hphase, howner, hfinished, hbuffer, heof, hopened, hcursor⟩ := hg
  obtain ⟨-, hstep, hown⟩ := @step_text fuel env pretty below frame g hframes howner hfinished
  refine ⟨_, hstep.trans (stepStreamText_error hphase hown hbuffer heof ?_)⟩
  rw [refill, hopened, hcursor]

/-- A text whose cursor opens. -/
theorem echoes_openText (message : String) (reads : List ReadResult) :
    Echoes (recordProducer fuel env pretty)
      (fun io => (io.emit collectSink [0x22]).bind fun io =>
        (serializeTextChunks collectSink message reads io).bind fun io =>
          io.emit collectSink [0x22])
      (At (.other (.text { isSource, cursor := .ok reads }) :: below)) (At below) := by
  have hopen := @runs_openText fuel env pretty below isSource (.ok reads)
    (InText isSource below [] false reads)
    fun g frame hsource hphase hopened hcursor hframes howner hfinished hbuffer heof =>
      ⟨frame, hsource, hframes, hphase, howner, hfinished, hbuffer, heof,
        fun _ => .inr ⟨hopened, hcursor⟩⟩
  exact Echoes.after hopen (emits_emit [0x22])
    ((echoes_chunks message reads).bind (echoes_runs (emits_emit [0x22]) runs_closeText))

/-- A text that is spooled. -/
theorem echoes_spooledText (cursor : Cursor) : Echoes (recordProducer fuel env pretty)
    (serializeSpooledText collectSink cursor)
    (At (.other (.text { isSource := false, cursor }) :: below)) (At below) := by
  cases cursor with
  | ok reads => exact echoes_openText "failed to read spooled text" reads
  | error message => exact fun io => yields_unopened message

/-- A text of a source. -/
theorem echoes_sourceText (cursor : Cursor) : Echoes (recordProducer fuel env pretty)
    (serializeSourceText collectSink (some cursor))
    (At (.other (.text { isSource := true, cursor }) :: below)) (At below) := by
  cases cursor with
  | ok reads => exact echoes_openText "failed to read source text" reads
  | error message => exact fun io => yields_unopened message

/-! ## Base64 members -/

theorem base64Text_split (content : Bytes) : base64Text .standard content =
    base64Text .standard (content.take 3) ++ base64Text .standard (content.drop 3) := by
  by_cases hthree : content.length < 3
  · rw [List.take_of_length_le hthree.le, List.drop_of_length_le hthree.le]
    exact (List.append_nil _).symm
  · rw [← base64Text_append, List.take_append_drop]
    rw [List.length_take]
    omega

theorem step_base64 {frame : Base64Frame} {g : RecordGenerator}
    (hframes : g.frames = .base64 frame :: below) (hfinished : g.finished = false) :
    (recordProducer fuel env pretty).ended ((recordProducer fuel env pretty).flush g []) = false ∧
      (recordProducer fuel env pretty).step ((recordProducer fuel env pretty).flush g []) =
        stepStreamBase64 { g with pending := [] } frame below := by
  have hframes' : Generator.frames { g with pending := [] } = .base64 frame :: below := hframes
  refine ⟨?_, stepFrame_base64 hframes' hfinished⟩
  change (g.finished || g.frames.isEmpty) = false
  rw [hfinished, hframes]
  rfl

theorem Streams.going {content : Bytes} {g : RecordGenerator} (h : Streams below content g) :
    (recordProducer fuel env pretty).ended ((recordProducer fuel env pretty).flush g []) = false := by
  obtain ⟨frame, hframes, -, -, -, hfinished, -⟩ := h
  exact (step_base64 hframes hfinished).1

/-- The groups of a content. -/
theorem runs_streams (content : Bytes) : (recordProducer fuel env pretty).Runs
    (Streams below content) (base64Text .standard content) (Closes below) := by
  induction hlen : content.length using Nat.strong_induction_on generalizing content with
  | _ len ih =>
      by_cases hcontent : content = []
      · subst hcontent
        refine .step fun g hg => ⟨hg.going, ?_⟩
        obtain ⟨g', hstep, hpending, hnext⟩ := step_streams hg
        rw [if_pos rfl] at hnext
        exact ⟨g', hstep, hpending, hnext⟩
      · have hpos := List.length_pos_of_ne_nil hcontent
        rw [base64Text_split]
        refine .trans (.step fun g hg => ⟨hg.going, ?_⟩)
          (ih (content.drop 3).length (by rw [List.length_drop]; omega) (content.drop 3) rfl)
        obtain ⟨g', hstep, hpending, hnext⟩ := step_streams hg
        rw [if_neg hcontent] at hnext
        exact ⟨g', hstep, hpending, hnext⟩

theorem pushed_of_at {frame : Base64Frame} {g : RecordGenerator}
    (h : At (.base64 frame :: below) g) : Pushed frame below g := by
  refine ⟨h.1, ?_, h.2.2⟩
  intro index hindex
  rw [h.2.1] at hindex
  cases hindex

theorem runs_base64 {cursor : Cursor} {reads : List ReadResult} {content : Bytes}
    (hcursor : cursor = .ok reads) (hreads : Delivers reads content) :
    (recordProducer fuel env pretty).Runs (At (.base64 { isSource, cursor } :: below))
      (0x22 :: (base64Text .standard content ++ [0x22])) (At below) := by
  have hopen : (recordProducer fuel env pretty).Runs (At (.base64 { isSource, cursor } :: below))
      [0x22] (Streams below content) := by
    refine .step fun g hg => ⟨(step_base64 hg.1 hg.2.2).1, ?_⟩
    obtain ⟨g', hstep, hpending, hnext⟩ := @step_pushed _ (stepRecordFrame fuel env pretty) below
      { isSource, cursor } reads content rfl rfl (.inr ⟨rfl, hcursor⟩) hreads g (pushed_of_at hg)
    exact ⟨g', hstep, hpending, hnext⟩
  have hclose : (recordProducer fuel env pretty).Runs (Closes below) [0x22] (At below) := by
    refine .step fun g hg => ⟨?_, ?_⟩
    · obtain ⟨frame, hframes, -, -, hfinished⟩ := hg
      exact (step_base64 hframes hfinished).1
    · obtain ⟨g', hstep, hpending, hframes, howner, -, -, hfinished⟩ := step_closes hg
      exact ⟨g', hstep, hpending, hframes, howner, hfinished⟩
  exact hopen.trans ((runs_streams content).trans hclose)

/-! ## Reads that fail -/

/-- What is left of a content in front of a read that fails. -/
def LeftFails (isSource : Bool) (g : RecordGenerator) (frame : Base64Frame) (content : Bytes) :
    Prop :=
  frame.isSource = isSource ∧ g.ioEof = false ∧ ∃ rest reads, content = g.ioBuffer ++ rest ∧
    HasReads frame reads ∧ DeliveryFails reads rest

/-- The loop takes the next bytes of the content, or comes to the read that fails. -/
theorem fillCarry_fails {n : ℕ} : ∀ {g : RecordGenerator} {frame : Base64Frame} {content : Bytes},
    LeftFails isSource g frame content →
    (n ≤ content.length ∧ ∃ g' frame', fillCarry n g frame = .ok (g', frame') ∧
      Fills g frame g' frame' ∧ frame'.carry = frame.carry ++ content.take n ∧
      LeftFails isSource g' frame' (content.drop n)) ∨
    (content.length < n ∧ fillCarry n g frame = .error (readFault isSource)) := by
  induction n with
  | zero =>
      intro g frame content h
      exact .inl ⟨Nat.zero_le _, g, frame, rfl, ⟨rfl, rfl, rfl, rfl, rfl⟩, by simp, h⟩
  | succ n ih =>
      -- a turn with an unread byte
      have hturn {g : RecordGenerator} {frame : Base64Frame} {content : Bytes}
          (h : LeftFails isSource g frame content) {ch : Byte} {rest : Bytes}
          (hcons : g.ioBuffer = ch :: rest) :
          (n + 1 ≤ content.length ∧ ∃ g' frame', fillCarry n { g with ioBuffer := rest }
              { frame with carry := frame.carry ++ [ch] } = .ok (g', frame') ∧
            Fills g frame g' frame' ∧ frame'.carry = frame.carry ++ content.take (n + 1) ∧
            LeftFails isSource g' frame' (content.drop (n + 1))) ∨
          (content.length < n + 1 ∧ fillCarry n { g with ioBuffer := rest }
              { frame with carry := frame.carry ++ [ch] } = .error (readFault isSource)) := by
        obtain ⟨hsource, heof, more, reads, rfl, hreads, hfails⟩ := h
        have hmore : LeftFails isSource { g with ioBuffer := rest }
            { frame with carry := frame.carry ++ [ch] } (rest ++ more) :=
          ⟨hsource, heof, more, reads, rfl, hreads, hfails⟩
        rw [hcons, List.cons_append, List.length_cons]
        rcases ih hmore with ⟨hle, g', frame', hfill, hfills, hcarry, hleft⟩ | ⟨hlt, hfill⟩
        · refine .inl ⟨Nat.succ_le_succ hle, g', frame', hfill, hfills, ?_, hleft⟩
          rw [hcarry, List.take_succ_cons, List.append_assoc]
          rfl
        · exact .inr ⟨Nat.succ_lt_succ hlt, hfill⟩
      intro g frame content h
      cases hbuffer : g.ioBuffer with
      | cons ch rest =>
          rw [fillCarry, hbuffer, if_neg (List.cons_ne_nil ch rest)]
          dsimp only
          rw [hbuffer]
          exact hturn h hbuffer
      | nil =>
          obtain ⟨hsource, heof, rest, reads, rfl, hreads, hfails⟩ := h
          rw [hbuffer, List.nil_append, fillCarry, if_pos hbuffer, if_neg (by simp [heof]),
            refill_from hreads]
          cases hfails with
          | @error chunk more herror =>
              rw [refill.refillFrom, if_pos herror, hsource]
              exact .inr ⟨Nat.succ_pos n, rfl⟩
          | @chunk data rest reads hdata hfails =>
              obtain ⟨ch, bytes, rfl⟩ := List.exists_cons_of_ne_nil hdata
              have hleft : LeftFails isSource { g with ioBuffer := ch :: bytes, ioEof := false }
                  { frame with opened := some reads } (ch :: bytes ++ rest) :=
                ⟨hsource, rfl, rest, reads, rfl, .inl rfl, hfails⟩
              rw [refill.refillFrom, if_neg (by simp)]
              dsimp only
              rw [if_neg (by simp)]
              exact hturn hleft rfl

/-- The frame has written its opening quote and some groups; `content` is left in front of the
read that fails. -/
def StreamsFails (isSource : Bool) (below : List (GeneratorFrame RecordFrame)) (content : Bytes)
    (g : RecordGenerator) : Prop :=
  ∃ frame, g.frames = .base64 frame :: below ∧ frame.phase = 1 ∧ frame.carry = [] ∧
    g.ioOwner = some below.length ∧ g.finished = false ∧ LeftFails isSource g frame content

theorem yields_streamsFails (content : Bytes) : ∃ text e, (recordProducer fuel env pretty).Yields
    (StreamsFails isSource below content) text (some e) := by
  have hstep {content : Bytes} {g : RecordGenerator} (hg : StreamsFails isSource below content g) :
      (content.length < 3 ∧ ∃ g', (recordProducer fuel env pretty).step
        ((recordProducer fuel env pretty).flush g []) = .fail g' (readFault isSource)) ∨
      (3 ≤ content.length ∧
        (recordProducer fuel env pretty).ended ((recordProducer fuel env pretty).flush g []) = false ∧
        ∃ g', (recordProducer fuel env pretty).step ((recordProducer fuel env pretty).flush g []) =
          .next g' ∧ g'.pending = emitBase64Quad (content.take 3) ∧
          StreamsFails isSource below (content.drop 3) g') := by
    obtain ⟨frame, hframes, hphase, hcarry, howner, hfinished, hleft⟩ := hg
    have hown := @prepareStreamOwner_own _ { g with pending := [] } _ howner
    obtain ⟨hended, hframe⟩ := @step_base64 fuel env pretty below frame g hframes hfinished
    have hleft' : LeftFails isSource { g with pending := [] } frame content := hleft
    rw [hframe, stepStreamBase64, hown, if_neg (by omega), if_neg (by omega), hcarry]
    rcases fillCarry_fails (n := 3) hleft' with ⟨hle, g', frame', hfill, hfills, hcarry', hleft''⟩ |
      ⟨hlt, hfill⟩
    · obtain ⟨-, -, howner', hfinished', hphase'⟩ := hfills
      rw [hcarry, List.nil_append] at hcarry'
      have hfull : frame'.carry.length = 3 := by
        rw [hcarry', List.length_take]
        omega
      refine .inr ⟨hle, hended, { g' with
        frames := .base64 { frame' with carry := [] } :: below
        pending := emitBase64Quad frame'.carry }, ?_, by rw [hcarry'],
        { frame' with carry := [] }, rfl, hphase'.trans hphase, rfl, howner'.trans howner,
        hfinished'.trans hfinished, hleft''⟩
      rw [List.length_nil, Nat.sub_zero, hfill]
      exact if_pos (.inl hfull)
    · refine .inl ⟨hlt, ?_⟩
      rw [List.length_nil, Nat.sub_zero, hfill]
      exact ⟨_, rfl⟩
  induction hlen : content.length using Nat.strong_induction_on generalizing content with
  | _ len ih =>
      by_cases hshort : content.length < 3
      · refine ⟨[], readFault isSource, .fail fun g hg => ?_⟩
        rcases hstep hg with ⟨-, hfail⟩ | ⟨hle, -⟩
        · exact hfail
        · omega
      · obtain ⟨text, e, hrest⟩ := ih (content.drop 3).length (by rw [List.length_drop]; omega)
          (content.drop 3) rfl
        refine ⟨emitBase64Quad (content.take 3) ++ text, e, hrest.step fun g hg => ?_⟩
        rcases hstep hg with ⟨hlt, -⟩ | ⟨-, hended, g', hnext, hpending, hg'⟩
        · omega
        · exact ⟨hended, g', hnext, hpending, hg'⟩

theorem serializeChunks_fails (message : String) {reads : List ReadResult} {rest : Bytes}
    (hreads : DeliveryFails reads rest) : ∀ {base content carry : Bytes} {io : JsonIo Bytes},
      Carried io.out base content carry →
      ∃ io', serializeChunks collectSink message reads carry io = .error io' := by
  induction hreads with
  | @error chunk more herror =>
      intro base content carry io _
      exact ⟨_, if_pos herror⟩
  | @chunk data rest reads hdata hreads ih =>
      intro base content carry io h
      obtain ⟨left, io', hchunk, hleft⟩ := @serializeChunk_carried _ collectSink id
        collectSink_appends collectSink_reliable base content carry data io h
      obtain ⟨io'', hchunks⟩ := ih hleft
      refine ⟨io'', ?_⟩
      rw [serializeChunks, if_neg (by simp), hchunk]
      exact hchunks

/-- A base64 member whose frame has been pushed, up to a state inside. -/
theorem yields_openBase64 {cursor : Cursor} {A : RecordGenerator → Prop}
    (hA : ∀ g frame, frame.isSource = isSource → frame.phase = 1 → frame.opened = none →
      frame.cursor = cursor → frame.carry = [] → g.frames = .base64 frame :: below →
      g.ioOwner = some below.length → g.finished = false → g.ioBuffer = [] → g.ioEof = false → A g)
    {text : Bytes} {e : Option GeneratorFault} (h : (recordProducer fuel env pretty).Yields A text e) :
    (recordProducer fuel env pretty).Yields (At (.base64 { isSource, cursor } :: below))
      ([0x22] ++ text) e := by
  refine h.step fun g hg => ?_
  have hprepare : prepareStreamOwner { g with pending := [] } below.length =
      { g with pending := [], ioOwner := some below.length, ioBuffer := [], ioEof := false } := by
    rw [prepareStreamOwner, if_neg]
    rw [show g.ioOwner = none from hg.2.1]
    exact fun h => by cases h
  obtain ⟨hended, hstep⟩ := @step_base64 fuel env pretty below _ g hg.1 hg.2.2
  refine ⟨hended, { g with
    frames := .base64 { isSource, cursor, phase := 1 } :: below
    pending := [0x22], ioOwner := some below.length, ioBuffer := [], ioEof := false }, ?_, rfl,
    hA _ { isSource, cursor, phase := 1 } rfl rfl rfl rfl rfl rfl rfl hg.2.2 rfl rfl⟩
  rw [hstep, stepStreamBase64, hprepare]
  rfl

theorem yields_base64DeliveryFails {reads : List ReadResult} {content : Bytes} (h : DeliveryFails reads content) :
    ∃ text e, (recordProducer fuel env pretty).Yields
      (At (.base64 { isSource, cursor := .ok reads } :: below)) text (some e) := by
  obtain ⟨text, e, hyields⟩ := @yields_streamsFails fuel env pretty below isSource content
  refine ⟨_, e, yields_openBase64 (fun g frame hsource hphase hopened hcursor hcarry hframes howner
    hfinished hbuffer heof => ?_) hyields⟩
  exact ⟨frame, hframes, hphase, hcarry, howner, hfinished, hsource, heof, content, reads,
    by rw [hbuffer]; rfl, .inr ⟨hopened, hcursor⟩, h⟩

theorem yields_base64Unopened (message : String) : ∃ text e, (recordProducer fuel env pretty).Yields
    (At (.base64 { isSource, cursor := .error message } :: below)) text (some e) := by
  refine ⟨_, .error .ioError message, @yields_openBase64 fuel env pretty below isSource _
    (fun g => ∃ frame : Base64Frame, g.frames = .base64 frame :: below ∧ frame.phase = 1 ∧
      frame.carry = [] ∧ g.ioOwner = some below.length ∧ g.finished = false ∧ g.ioBuffer = [] ∧
      g.ioEof = false ∧ frame.opened = none ∧ frame.cursor = .error message)
    (fun g frame _ hphase hopened hcursor hcarry hframes howner hfinished hbuffer heof =>
      ⟨frame, hframes, hphase, hcarry, howner, hfinished, hbuffer, heof, hopened, hcursor⟩) _ _
    (.fail fun g hg => ?_)⟩
  obtain ⟨frame, hframes, hphase, hcarry, howner, hfinished, hbuffer, heof, hopened, hcursor⟩ := hg
  have hown := @prepareStreamOwner_own _ { g with pending := [] } _ howner
  have hfill : fillCarry 3 { g with pending := [] } frame =
      .error (.error .ioError message) := by
    rw [fillCarry, if_pos hbuffer, if_neg (by simp [heof]), refill, hopened, hcursor]
  refine ⟨{ g with pending := [] }, (step_base64 hframes hfinished).2.trans ?_⟩
  rw [stepStreamBase64, hown, if_neg (by omega), if_neg (by omega), hcarry, List.length_nil,
    Nat.sub_zero, hfill]

/-- Behind the opening quote of a base64 member. -/
theorem echoes_base64 (message : String) {reads : List ReadResult}
    (hreads : (Cursor.Steady (.ok reads))) : Echoes (recordProducer fuel env pretty)
      (fun io => (io.emit collectSink [0x22]).bind fun io =>
        (serializeChunks collectSink message reads [] io).bind (serializeBase64Tail collectSink))
      (At (.base64 { isSource, cursor := .ok reads } :: below)) (At below) := by
  rcases hreads reads rfl with ⟨content, hdelivers⟩ | ⟨content, hfails⟩
  · refine echoes_runs (fun io => ?_) (runs_base64 rfl hdelivers)
    obtain ⟨io', hquote, hout⟩ := emits_emit [0x22] io
    obtain ⟨io'', hrun, htext⟩ := @serializeBase64_text _ collectSink id collectSink_appends
      collectSink_reliable message reads content hdelivers io'
    refine ⟨io'', ?_, ?_⟩
    · dsimp only at hquote ⊢
      rw [hquote]
      exact hrun
    · refine htext.trans ?_
      rw [id, hout, List.append_assoc, List.append_assoc]
      rfl
  · intro io
    obtain ⟨io', hquote, -⟩ := emits_emit [0x22] io
    obtain ⟨io'', hchunks⟩ := serializeChunks_fails message hfails (carried_start io'.out)
    dsimp only at hquote ⊢
    rw [hquote]
    change EchoesFrom _ _ _ _ ((serializeChunks collectSink message reads [] io').bind _)
    rw [hchunks]
    exact yields_base64DeliveryFails hfails

/-- A base64 member that is spooled. -/
theorem echoes_spooledBase64 {cursor : Cursor} (h : cursor.Steady) :
    Echoes (recordProducer fuel env pretty) (serializeSpooledBase64 collectSink cursor)
      (At (.base64 { isSource := false, cursor } :: below)) (At below) := by
  cases cursor with
  | ok reads => exact echoes_base64 "failed to read spooled bytes" h
  | error message => exact fun io => yields_base64Unopened message

/-- A base64 member of a source. -/
theorem echoes_sourceBase64 {cursor : Cursor} (h : cursor.Steady) :
    Echoes (recordProducer fuel env pretty) (serializeSourceBase64 collectSink (some cursor))
      (At (.base64 { isSource := true, cursor } :: below)) (At below) := by
  cases cursor with
  | ok reads => exact echoes_base64 "failed to read source bytes" h
  | error message => exact fun io => yields_base64Unopened message

end

end Generator

end Lonejson
