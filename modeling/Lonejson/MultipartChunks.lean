import Lonejson.Multipart

/-!
# Multipart pushes and single bytes

What a multipart run tells a handler that never fails, as one sequence of ticks, does not
depend on the handler, and a chunk does to the parser what its bytes do one after another.
Two splits of a text tell the same. They end with the same status exactly when both or neither
of them has a push behind the one that closed the parser.
-/

namespace Lonejson

/-- A part begins, one byte of its body, and a part ends. -/
inductive PartTick where
  | beginPart (part : MultipartPart)
  | byte (b : Byte)
  | endPart (part : MultipartPart)
  deriving DecidableEq, Repr

def PartEvent.ticks : PartEvent → List PartTick
  | .beginPart part => [.beginPart part]
  | .partData bytes => bytes.map .byte
  | .endPart part => [.endPart part]

variable {σ : Type}

/-- A handler that never fails. -/
def MultipartHandler.Reliable (h : MultipartHandler σ) : Prop :=
  ∀ user event error, (h user event error).2.2 = .ok

/-- A handler beside which the ticks are written down. -/
def MultipartHandler.recording (h : MultipartHandler σ) : MultipartHandler (σ × List PartTick) :=
  fun user event error =>
    let x := h user.1 event error
    ((x.1, user.2 ++ event.ticks), x.2)

/-- The handler that only writes down. -/
def ticker : MultipartHandler (List PartTick) := fun log event error =>
  (log ++ event.ticks, error, .ok)

/-! ## Every reliable handler is told the same -/

/-- A run beside the run of the ticker: the same parser, and the same ticks told. -/
structure Alike (told : σ → List PartTick) (r : MultipartRun σ)
    (s : MultipartRun (List PartTick)) : Prop where
  mp : r.mp = s.mp
  user : told r.user = s.user

/-- The same for a run that came to a status. -/
def AlikeAt (told : σ → List PartTick) (x : MultipartRun σ × Status)
    (y : MultipartRun (List PartTick) × Status) : Prop :=
  Alike told x.1 y.1 ∧ x.2 = y.2

/-- A handler that writes down what it is told. -/
def MultipartHandler.Records (h : MultipartHandler σ) (told : σ → List PartTick) : Prop :=
  ∀ user event error, (h user event error).2.2 = .ok ∧
    told (h user event error).1 = told user ++ event.ticks

theorem MultipartHandler.Reliable.recording {h : MultipartHandler σ} (hh : h.Reliable) :
    h.recording.Records Prod.snd :=
  fun user event error => ⟨hh user.1 event error, rfl⟩

theorem ticker_records : ticker.Records id := fun _ _ _ => ⟨rfl, rfl⟩

section

variable {told : σ → List PartTick} {h : MultipartHandler σ} {r : MultipartRun σ}
  {s : MultipartRun (List PartTick)}

theorem Alike.ok (hrs : Alike told r s) : AlikeAt told (r, .ok) (s, .ok) := ⟨hrs, rfl⟩

theorem Alike.setMp (hrs : Alike told r s) (mp : Multipart) :
    Alike told (r.setMp mp) (s.setMp mp) := ⟨rfl, hrs.user⟩

theorem Alike.fail (hrs : Alike told r s) (code : Status) (message : String) :
    AlikeAt told (r.fail code message) (s.fail code message) := ⟨⟨hrs.mp, hrs.user⟩, rfl⟩

theorem AlikeAt.andThenOk {x : MultipartRun σ × Status}
    {y : MultipartRun (List PartTick) × Status} (hxy : AlikeAt told x y)
    {k : MultipartRun σ → MultipartRun σ × Status}
    {k' : MultipartRun (List PartTick) → MultipartRun (List PartTick) × Status}
    (hk : ∀ r s, Alike told r s → AlikeAt told (k r) (k' s)) :
    AlikeAt told (andThenOk x k) (andThenOk y k') := by
  obtain ⟨hrun, hstatus⟩ := hxy
  rw [Lonejson.andThenOk, Lonejson.andThenOk, ← hstatus]
  split_ifs
  · exact hk _ _ hrun
  · exact ⟨hrun, hstatus⟩

theorem AlikeAt.clearLine {x : MultipartRun σ × Status}
    {y : MultipartRun (List PartTick) × Status} (hxy : AlikeAt told x y) :
    AlikeAt told (MultipartRun.clearLine x) (MultipartRun.clearLine y) := by
  obtain ⟨hrun, hstatus⟩ := hxy
  rw [MultipartRun.clearLine, MultipartRun.clearLine, hrun.mp]
  exact ⟨hrun.setMp _, hstatus⟩

theorem Alike.call (hrs : Alike told r s) (hh : h.Records told) (event : PartEvent)
    (message : String) : AlikeAt told (r.call h event message) (s.call ticker event message) := by
  obtain ⟨hok, htold⟩ := hh r.user event r.error
  rw [MultipartRun.call, MultipartRun.call]
  dsimp only
  rw [if_pos hok, if_pos (ticker_records s.user event s.error).1]
  exact ⟨⟨hrs.mp, by rw [htold, hrs.user]; rfl⟩, rfl⟩

theorem Alike.callData (hrs : Alike told r s) (hh : h.Records told) (bytes : Bytes) :
    AlikeAt told (multipartCallData h r bytes) (multipartCallData ticker s bytes) := by
  rw [multipartCallData, multipartCallData]
  split_ifs
  · exact hrs.ok
  · exact hrs.call hh _ _

theorem Alike.callEnd (hrs : Alike told r s) (hh : h.Records told) :
    AlikeAt told (multipartCallEnd h r) (multipartCallEnd ticker s) := by
  rw [multipartCallEnd, multipartCallEnd, hrs.mp]
  exact hrs.call hh _ _

theorem Alike.processLine (cfg : MultipartConfig) (hrs : Alike told r s) (hh : h.Records told) :
    AlikeAt told (multipartProcessLine cfg h r) (multipartProcessLine cfg ticker s) := by
  rw [multipartProcessLine, multipartProcessLine, hrs.mp]
  cases s.mp.phase with
  | expectBoundary =>
      dsimp only
      split_ifs
      · exact hrs.ok
      · exact (hrs.setMp _).ok
      · exact (hrs.setMp _).ok
      · exact hrs.fail _ _
  | headers =>
      dsimp only
      split_ifs
      · have hbegin : AlikeAt told (multipartCallBegin h r) (multipartCallBegin ticker s) := by
          rw [multipartCallBegin, multipartCallBegin, hrs.mp]
          exact hrs.call hh _ _
        apply hbegin.andThenOk
        intro r s hrs
        rw [hrs.mp]
        cases s.mp.part.contentLength with
        | none => exact (hrs.setMp _).ok
        | some n =>
            dsimp only
            split_ifs
            · obtain ⟨hend, hstatus⟩ := (hrs.setMp _).callEnd hh
              rw [hend.mp]
              exact ⟨hend.setMp _, hstatus⟩
            · exact (hrs.setMp _).ok
      · cases multipartProcessHeaderLine cfg.options s.mp.part (cstr s.mp.line) with
        | error e => exact hrs.fail _ _
        | ok part => exact (hrs.setMp _).ok
  | bodyLength => exact hrs.ok
  | bodyScan => exact hrs.ok
  | done => exact hrs.ok

theorem Alike.takeLineChar (cfg : MultipartConfig) (hrs : Alike told r s) (hh : h.Records told)
    (ch : Byte) :
    AlikeAt told (multipartTakeLineChar cfg h ch r) (multipartTakeLineChar cfg ticker ch s) := by
  rw [multipartTakeLineChar, multipartTakeLineChar, hrs.mp]
  split_ifs
  · exact (hrs.setMp _).ok
  · exact (hrs.processLine cfg hh).clearLine
  · cases byteAppendChar s.mp.line ch cfg.options.maxHeaderLineBytes with
    | error message => exact hrs.fail _ _
    | ok line => exact (hrs.setMp _).ok

theorem Alike.feedLineChar (cfg : MultipartConfig) (hrs : Alike told r s) (hh : h.Records told)
    (ch : Byte) :
    AlikeAt told (multipartFeedLineChar cfg h r ch) (multipartFeedLineChar cfg ticker s ch) := by
  rw [multipartFeedLineChar, multipartFeedLineChar, hrs.mp]
  by_cases hcr : s.mp.sawCr = true
  · rw [if_pos hcr, if_pos hcr]
    apply ((hrs.setMp _).processLine cfg hh).clearLine.andThenOk
    intro r s hrs
    split_ifs
    · exact hrs.ok
    · exact hrs.takeLineChar cfg hh ch
  · rw [if_neg hcr, if_neg hcr]
    exact hrs.takeLineChar cfg hh ch

theorem Alike.feedBodyScanChar (cfg : MultipartConfig) (hrs : Alike told r s)
    (hh : h.Records told) (ch : Byte) :
    AlikeAt told (multipartFeedBodyScanChar cfg h r ch)
      (multipartFeedBodyScanChar cfg ticker s ch) := by
  rw [multipartFeedBodyScanChar, multipartFeedBodyScanChar, hrs.mp]
  cases byteAppendChar s.mp.body ch cfg.options.maxPartBufferedBytes with
  | error message => exact hrs.fail _ _
  | ok body =>
      dsimp only
      rw [multipartProcessBodyBuffer, multipartProcessBodyBuffer]
      dsimp only [MultipartRun.setMp_mp]
      cases scanBody cfg [] body with
      | boundary closing emitLen consumeLen =>
          apply ((hrs.setMp _).callData hh _).andThenOk
          intro r s hrs
          rw [hrs.mp, multipartFinishBoundary, multipartFinishBoundary]
          apply ((hrs.setMp _).callEnd hh).andThenOk
          intro r s hrs
          rw [hrs.mp]
          split_ifs
          · exact (hrs.setMp _).ok
          · exact (hrs.setMp _).ok
      | hold keepFrom =>
          dsimp only
          split_ifs
          · apply ((hrs.setMp _).callData hh _).andThenOk
            intro r s hrs
            rw [hrs.mp]
            exact (hrs.setMp _).ok
          · exact (hrs.setMp _).ok

theorem Alike.feedChar (cfg : MultipartConfig) (hrs : Alike told r s) (hh : h.Records told)
    (ch : Byte) : AlikeAt told (multipartFeedChar cfg h r ch) (multipartFeedChar cfg ticker s ch) := by
  rw [multipartFeedChar, multipartFeedChar, hrs.mp]
  split_ifs
  · exact hrs.feedBodyScanChar cfg hh ch
  · exact hrs.feedLineChar cfg hh ch

theorem Alike.endCounted (hrs : Alike told r s) (hh : h.Records told) :
    AlikeAt told (multipartEndCounted h r) (multipartEndCounted ticker s) := by
  rw [multipartEndCounted, multipartEndCounted, hrs.mp]
  split_ifs
  · apply (hrs.callEnd hh).andThenOk
    intro r s hrs
    rw [hrs.mp]
    exact (hrs.setMp _).ok
  · exact hrs.ok

theorem Alike.feedBodyLength (hrs : Alike told r s) (hh : h.Records told) (chunk : Bytes) :
    AlikeAt told (multipartFeedBodyLength h r chunk) (multipartFeedBodyLength ticker s chunk) := by
  apply (hrs.callData hh chunk).andThenOk
  intro r s hrs
  rw [hrs.mp]
  exact (hrs.setMp _).endCounted hh

theorem Alike.feed (cfg : MultipartConfig) (hrs : Alike told r s) (hh : h.Records told) (fuel : ℕ)
    (bytes : Bytes) :
    AlikeAt told (multipartFeed cfg h fuel bytes r) (multipartFeed cfg ticker fuel bytes s) := by
  induction fuel generalizing bytes r s with
  | zero => cases bytes <;> exact ⟨hrs, rfl⟩
  | succ fuel ih =>
      cases bytes with
      | nil => exact hrs.ok
      | cons ch rest =>
          rw [multipartFeed, multipartFeed, hrs.mp]
          split_ifs
          · exact (hrs.feedBodyLength hh _).andThenOk fun r s hrs => ih hrs _
          · exact (hrs.feedChar cfg hh ch).andThenOk fun r s hrs => ih hrs _

theorem Alike.push (cfg : MultipartConfig) (hrs : Alike told r s) (hh : h.Records told)
    (bytes : Bytes) :
    AlikeAt told (multipartPush cfg h bytes r) (multipartPush cfg ticker bytes s) := by
  have hclear : Alike told { r with error := {} } { s with error := {} } := ⟨hrs.mp, hrs.user⟩
  rw [multipartPush, multipartPush]
  by_cases hclosed : s.mp.closed = true
  · rw [if_pos hclosed, if_pos (hrs.mp ▸ hclosed)]
    exact hrs.fail _ _
  · rw [if_neg hclosed, if_neg (hrs.mp ▸ hclosed)]
    exact hclear.feed cfg hh _ _

theorem Alike.pushAll (cfg : MultipartConfig) (hrs : Alike told r s) (hh : h.Records told)
    (chunks : List Bytes) :
    AlikeAt told (multipartPushAll cfg h chunks r) (multipartPushAll cfg ticker chunks s) := by
  induction chunks generalizing r s with
  | nil => exact hrs.ok
  | cons chunk chunks ih => exact (hrs.push cfg hh chunk).andThenOk fun r s hrs => ih hrs

theorem Alike.finish (hrs : Alike told r s) :
    AlikeAt told (multipartFinish r) (multipartFinish s) := by
  rw [multipartFinish, multipartFinish, hrs.mp]
  split_ifs
  · exact (hrs.setMp _).ok
  · exact hrs.fail _ _

/-- A run tells every reliable handler what it tells the ticker. -/
theorem multipartRun_alike (cfg : MultipartConfig) (hh : h.Records told) (chunks : List Bytes)
    {user : σ} (huser : told user = []) :
    AlikeAt told (multipartRun cfg h chunks user) (multipartRun cfg ticker chunks []) := by
  have hstart : Alike told { user : MultipartRun σ } { user := [] } := ⟨rfl, huser⟩
  exact (hstart.pushAll cfg hh chunks).andThenOk fun _ _ hrs => hrs.finish

end

/-! ## The ticker -/

/-- The ticks that are told next. -/
def MultipartRun.tell (r : MultipartRun (List PartTick)) (ticks : List PartTick) :
    MultipartRun (List PartTick) :=
  { r with user := r.user ++ ticks }

section

variable {r : MultipartRun (List PartTick)}

@[simp] theorem MultipartRun.tell_mp (ticks : List PartTick) : (r.tell ticks).mp = r.mp := rfl

@[simp] theorem MultipartRun.tell_user (ticks : List PartTick) :
    (r.tell ticks).user = r.user ++ ticks := rfl

@[simp] theorem MultipartRun.tell_nil : r.tell [] = r := by
  simp [MultipartRun.tell]

@[simp] theorem MultipartRun.tell_tell (ticks more : List PartTick) :
    (r.tell ticks).tell more = r.tell (ticks ++ more) := by
  simp [MultipartRun.tell]

@[simp] theorem MultipartRun.setMp_tell (mp : Multipart) (ticks : List PartTick) :
    (r.setMp mp).tell ticks = (r.tell ticks).setMp mp := rfl

@[simp] theorem MultipartRun.setMp_setMp (mp mp' : Multipart) :
    (r.setMp mp).setMp mp' = r.setMp mp' := rfl

theorem call_ticker (event : PartEvent) (message : String) :
    r.call ticker event message = (r.tell event.ticks, .ok) := rfl

@[simp] theorem callBegin_ticker :
    multipartCallBegin ticker r = (r.tell [.beginPart r.mp.part], .ok) := rfl

@[simp] theorem callData_ticker (bytes : Bytes) :
    multipartCallData ticker r bytes = (r.tell (bytes.map .byte), .ok) := by
  cases bytes with
  | nil => simp [multipartCallData]
  | cons b bytes => rfl

@[simp] theorem callEnd_ticker :
    multipartCallEnd ticker r = (r.tell [.endPart r.mp.part], .ok) := rfl

@[simp] theorem finishBoundary_ticker (closing : Bool) :
    multipartFinishBoundary ticker r closing =
      ((r.tell [.endPart r.mp.part]).setMp
        (if closing then { r.mp.resetPart with phase := .done, closed := true }
        else { r.mp.resetPart with phase := .headers }), .ok) := by
  cases closing <;> rfl

end

/-! ## Chunks and bytes -/

/-- A counted body is not at its end, and a parser is closed when it is done. -/
structure Multipart.Sound (mp : Multipart) : Prop where
  counting : mp.phase = .bodyLength → 0 < mp.remaining
  closed : mp.closed = true ↔ mp.phase = .done

/-- One byte, as a chunk of its own. -/
def multipartByte (cfg : MultipartConfig) (r : MultipartRun (List PartTick)) (ch : Byte) :
    MultipartRun (List PartTick) × Status :=
  if r.mp.phase = .bodyLength then multipartFeedBodyLength ticker r [ch]
  else multipartFeedChar cfg ticker r ch

/-- The bytes of a text one after another, up to the first that fails. -/
def multipartBytes (cfg : MultipartConfig) :
    Bytes → MultipartRun (List PartTick) → MultipartRun (List PartTick) × Status
  | [], r => (r, .ok)
  | ch :: rest, r => andThenOk (multipartByte cfg r ch) (multipartBytes cfg rest)

theorem multipartBytes_singleton (cfg : MultipartConfig) (ch : Byte)
    (r : MultipartRun (List PartTick)) : multipartBytes cfg [ch] r = multipartByte cfg r ch :=
  andThenOk_pure _

theorem multipartBytes_append (cfg : MultipartConfig) (s t : Bytes)
    (r : MultipartRun (List PartTick)) :
    multipartBytes cfg (s ++ t) r = andThenOk (multipartBytes cfg s r) (multipartBytes cfg t) := by
  induction s generalizing r with
  | nil => rfl
  | cons ch s ih =>
      rw [List.cons_append, multipartBytes, multipartBytes, andThenOk_assoc]
      congr 1
      funext r
      exact ih r

section

variable {cfg : MultipartConfig} {r : MultipartRun (List PartTick)}

theorem processLine_sound (hr : r.mp.Sound) : (multipartProcessLine cfg ticker r).1.mp.Sound := by
  obtain ⟨hcounting, hclosed⟩ := hr
  rw [multipartProcessLine]
  cases hphase : r.mp.phase with
  | expectBoundary =>
      have hopen : r.mp.closed = false := by simpa [hphase] using hclosed
      dsimp only
      split_ifs
      · exact ⟨hcounting, hclosed⟩
      · exact ⟨by simp, by simp [Multipart.resetPart, hopen]⟩
      · exact ⟨by simp, by simp⟩
      · exact ⟨hcounting, hclosed⟩
  | headers =>
      have hopen : r.mp.closed = false := by simpa [hphase] using hclosed
      dsimp only
      split_ifs
      · simp only [callBegin_ticker, andThenOk_ok, MultipartRun.tell_mp]
        cases r.mp.part.contentLength with
        | none => exact ⟨by simp, by simp [hopen]⟩
        | some n =>
            dsimp only
            split_ifs with hzero
            · exact ⟨by simp, by simp [Multipart.resetPart, hopen]⟩
            · exact ⟨fun _ => by simpa using Nat.pos_of_ne_zero hzero, by simp [hopen]⟩
      · cases multipartProcessHeaderLine cfg.options r.mp.part (cstr r.mp.line) with
        | error e => exact ⟨hcounting, hclosed⟩
        | ok part => exact ⟨hcounting, hclosed⟩
  | bodyLength => exact ⟨hcounting, hclosed⟩
  | bodyScan => exact ⟨hcounting, hclosed⟩
  | done => exact ⟨hcounting, hclosed⟩

theorem takeLineChar_sound (hr : r.mp.Sound) (ch : Byte) :
    (multipartTakeLineChar cfg ticker ch r).1.mp.Sound := by
  rw [multipartTakeLineChar]
  split_ifs
  · exact ⟨hr.counting, hr.closed⟩
  · have hline : (multipartProcessLine cfg ticker r).1.mp.Sound := processLine_sound hr
    exact ⟨hline.counting, hline.closed⟩
  · cases byteAppendChar r.mp.line ch cfg.options.maxHeaderLineBytes with
    | error message => exact hr
    | ok line => exact ⟨hr.counting, hr.closed⟩

theorem feedBodyScanChar_sound (hr : r.mp.Sound) (hphase : r.mp.phase = .bodyScan) (ch : Byte) :
    (multipartFeedBodyScanChar cfg ticker r ch).1.mp.Sound := by
  have hopen : r.mp.closed = false := by simpa [hphase] using hr.closed
  rw [multipartFeedBodyScanChar]
  cases byteAppendChar r.mp.body ch cfg.options.maxPartBufferedBytes with
  | error message => exact hr
  | ok body =>
      dsimp only
      rw [multipartProcessBodyBuffer]
      cases scanBody cfg [] (r.setMp { r.mp with body }).mp.body with
      | boundary closing emitLen consumeLen =>
          simp only [callData_ticker, andThenOk_ok, finishBoundary_ticker, MultipartRun.setMp_mp]
          cases closing
          · exact ⟨by simp, by simp [Multipart.resetPart, hopen]⟩
          · exact ⟨by simp, by simp⟩
      | hold keepFrom =>
          simp only [callData_ticker, andThenOk_ok]
          split_ifs
          · exact ⟨hr.counting, hr.closed⟩
          · exact ⟨hr.counting, hr.closed⟩

theorem multipartByte_sound (hr : r.mp.Sound) (ch : Byte) :
    (multipartByte cfg r ch).1.mp.Sound := by
  rw [multipartByte]
  split_ifs with hlength
  · have hopen : r.mp.closed = false := by simpa [hlength] using hr.closed
    simp only [multipartFeedBodyLength, callData_ticker, andThenOk_ok, multipartEndCounted]
    split_ifs with hzero
    · exact ⟨by simp, by simp [Multipart.resetPart, hopen]⟩
    · exact ⟨fun _ => Nat.pos_of_ne_zero hzero, hr.closed⟩
  · rw [multipartFeedChar]
    split_ifs with hscan
    · exact feedBodyScanChar_sound hr hscan ch
    · rw [multipartFeedLineChar]
      by_cases hcr : r.mp.sawCr = true
      · rw [if_pos hcr, andThenOk]
        have hline : (multipartProcessLine cfg ticker
            (r.setMp { r.mp with sawCr := false })).1.mp.Sound :=
          processLine_sound ⟨hr.counting, hr.closed⟩
        have hclear : (MultipartRun.clearLine (multipartProcessLine cfg ticker
            (r.setMp { r.mp with sawCr := false }))).1.mp.Sound :=
          ⟨hline.counting, hline.closed⟩
        split_ifs
        · exact hclear
        · exact takeLineChar_sound hclear ch
        · exact hclear
      · rw [if_neg hcr]
        exact takeLineChar_sound hr ch

theorem multipartBytes_sound (hr : r.mp.Sound) (bytes : Bytes) :
    (multipartBytes cfg bytes r).1.mp.Sound := by
  induction bytes generalizing r with
  | nil => exact hr
  | cons ch rest ih =>
      rw [multipartBytes, andThenOk]
      split_ifs
      · exact ih (multipartByte_sound hr ch)
      · exact multipartByte_sound hr ch

/-- A chunk of a counted body does what its bytes do. -/
theorem feedBodyLength_bytes (cfg : MultipartConfig) (hphase : r.mp.phase = .bodyLength) {chunk : Bytes}
    (hne : chunk ≠ []) (hlen : chunk.length ≤ r.mp.remaining) :
    multipartFeedBodyLength ticker r chunk = multipartBytes cfg chunk r := by
  induction chunk generalizing r with
  | nil => exact absurd rfl hne
  | cons ch rest ih =>
      have hstep : multipartFeedBodyLength ticker r [ch] =
          multipartEndCounted ticker ((r.tell [.byte ch]).setMp
            { r.mp with remaining := r.mp.remaining - 1 }) := by
        simp [multipartFeedBodyLength]
      rw [multipartBytes, multipartByte, if_pos hphase, hstep]
      cases rest with
      | nil =>
          rw [hstep, andThenOk]
          split_ifs with hok
          · exact Prod.ext rfl hok
          · rfl
      | cons c rest =>
          rw [List.length_cons, List.length_cons] at hlen
          -- more of the body follows, so this byte does not end it
          have hmore : r.mp.remaining - 1 ≠ 0 := by omega
          rw [multipartEndCounted, MultipartRun.setMp_mp, if_neg hmore, andThenOk_ok,
            ← ih (by exact hphase) (by simp) (by simpa using Nat.le_sub_one_of_lt hlen)]
          have hsub : r.mp.remaining - (rest.length + 1 + 1) =
              r.mp.remaining - 1 - (rest.length + 1) := by omega
          simp [multipartFeedBodyLength, hsub]

/-- A chunk does what its bytes do. -/
theorem multipartFeed_bytes (hr : r.mp.Sound) {fuel : ℕ} {bytes : Bytes}
    (hfuel : 2 * bytes.length ≤ fuel) :
    multipartFeed cfg ticker fuel bytes r = multipartBytes cfg bytes r := by
  induction fuel generalizing bytes r with
  | zero =>
      obtain rfl : bytes = [] := List.eq_nil_of_length_eq_zero (by omega)
      rfl
  | succ fuel ih =>
      cases bytes with
      | nil => rfl
      | cons ch rest =>
          rw [List.length_cons] at hfuel
          rw [multipartFeed]
          split_ifs with hphase
          · have hpos : 0 < r.mp.remaining := hr.counting hphase
            have hne : (ch :: rest).take r.mp.remaining ≠ [] := by
              simp [Nat.pos_iff_ne_zero.mp hpos]
            conv_rhs => rw [← List.take_append_drop r.mp.remaining (ch :: rest)]
            rw [multipartBytes_append,
              feedBodyLength_bytes cfg hphase hne (List.length_take_le _ _)]
            refine andThenOk_congr fun _ => ih (multipartBytes_sound hr _) ?_
            rw [List.length_drop, List.length_cons]
            omega
          · rw [multipartBytes, multipartByte, if_neg hphase]
            refine andThenOk_congr fun _ => ih ?_ (by omega)
            have : (multipartByte cfg r ch).1.mp.Sound := multipartByte_sound hr ch
            rwa [multipartByte, if_neg hphase] at this

/-- What a run comes to does not depend on the error record it starts with. -/
theorem Alike.bytes {s : MultipartRun (List PartTick)} (hrs : Alike id r s) (hr : r.mp.Sound)
    (text : Bytes) : AlikeAt id (multipartBytes cfg text r) (multipartBytes cfg text s) := by
  rw [← multipartFeed_bytes hr (le_refl _), ← multipartFeed_bytes (hrs.mp ▸ hr) (le_refl _)]
  exact hrs.feed cfg ticker_records _ _

theorem multipartPush_bytes (cfg : MultipartConfig) {s : MultipartRun (List PartTick)} (hrs : Alike id s r)
    (hr : r.mp.Sound) (hopen : r.mp.closed = false) (chunk : Bytes) :
    AlikeAt id (multipartPush cfg ticker chunk s) (multipartBytes cfg chunk r) := by
  have hclear : Alike id { s with error := {} } r := ⟨hrs.mp, hrs.user⟩
  rw [multipartPush, if_neg (by rw [hrs.mp, hopen]; simp),
    multipartFeed_bytes (by rw [hrs.mp]; exact hr) (le_refl _)]
  exact hclear.bytes (by rw [hrs.mp]; exact hr) chunk

/-! ## A parser that is done -/

/-- Behind the closing line nothing is told. -/
theorem multipartByte_done (cfg : MultipartConfig) (hdone : r.mp.phase = .done) (ch : Byte) :
    (multipartByte cfg r ch).1.mp.phase = .done ∧ (multipartByte cfg r ch).1.user = r.user := by
  have hline (r : MultipartRun (List PartTick)) (hdone : r.mp.phase = .done) :
      multipartProcessLine cfg ticker r = (r, .ok) := by
    rw [multipartProcessLine, hdone]
  have htake (r : MultipartRun (List PartTick)) (hdone : r.mp.phase = .done) :
      (multipartTakeLineChar cfg ticker ch r).1.mp.phase = .done ∧
        (multipartTakeLineChar cfg ticker ch r).1.user = r.user := by
    rw [multipartTakeLineChar, hline r hdone]
    split_ifs
    · exact ⟨hdone, rfl⟩
    · exact ⟨hdone, rfl⟩
    · cases byteAppendChar r.mp.line ch cfg.options.maxHeaderLineBytes with
      | error message => exact ⟨hdone, rfl⟩
      | ok line => exact ⟨hdone, rfl⟩
  rw [multipartByte, if_neg (by simp [hdone]), multipartFeedChar, if_neg (by simp [hdone]),
    multipartFeedLineChar]
  by_cases hcr : r.mp.sawCr = true
  · rw [if_pos hcr, hline (r.setMp { r.mp with sawCr := false }) hdone, MultipartRun.clearLine,
      andThenOk_ok]
    split_ifs
    · exact ⟨hdone, rfl⟩
    · exact htake _ hdone
  · rw [if_neg hcr]
    exact htake r hdone

theorem multipartBytes_done (cfg : MultipartConfig) (hdone : r.mp.phase = .done) (text : Bytes) :
    (multipartBytes cfg text r).1.mp.phase = .done ∧
      (multipartBytes cfg text r).1.user = r.user := by
  induction text generalizing r with
  | nil => exact ⟨hdone, rfl⟩
  | cons ch rest ih =>
      obtain ⟨hphase, huser⟩ := multipartByte_done cfg hdone ch
      rw [multipartBytes, andThenOk]
      split_ifs
      · rw [← huser]
        exact ih hphase
      · exact ⟨hphase, huser⟩

/-! ## The statuses of bytes -/

/-- Not the status of a misused parser. -/
def Fair (status : Status) : Prop := status ≠ .invalidArgument

theorem unquote_fair {limit : ℕ} {out p : Bytes} {e : MultipartError}
    (h : unquote limit out p = .error e) : Fair e.1 := by
  fun_induction unquote limit out p with
  | case1 =>
      cases h
      simp [Fair]
  | case2 => cases h
  | case3 =>
      cases h
      simp [Fair]
  | case4 _ _ _ _ _ ih => exact ih h
  | case5 =>
      cases h
      simp [Fair]
  | case6 _ _ _ _ _ _ _ ih => exact ih h

theorem dispositionName_fair {limit fuel : ℕ} {p : Bytes} {e : MultipartError}
    (h : dispositionName limit fuel p = .error e) : Fair e.1 := by
  induction fuel generalizing p with
  | zero => simp [dispositionName] at h
  | succ fuel ih =>
      rw [dispositionName.eq_def] at h
      split at h
      · next _ fuel' p hfuel =>
        obtain rfl := Nat.succ.inj hfuel
        dsimp only at h
        split at h
        · split at h
          · split at h
            · next hquote =>
              cases h
              exact unquote_fair hquote
            · split_ifs at h
              exact ih h
          · split_ifs at h
            exact ih h
        · exact ih h
      · cases h

theorem contentLengthDigits_fair {acc : ℕ} {value : Bytes} {e : MultipartError}
    (h : contentLengthDigits acc value = .error e) : Fair e.1 := by
  induction value generalizing acc with
  | nil => cases h
  | cons ch rest ih =>
      rw [contentLengthDigits] at h
      dsimp only at h
      split_ifs at h
      · cases h
        simp [Fair]
      · exact ih h
      · cases h
        simp [Fair]

theorem multipartProcessHeaderLine_fair {options : MultipartOptions} {part : MultipartPart}
    {line : Bytes} {e : MultipartError}
    (h : multipartProcessHeaderLine options part line = .error e) : Fair e.1 := by
  rw [multipartProcessHeaderLine] at h
  dsimp only at h
  split at h
  · cases h
    simp [Fair]
  · next rest _ =>
    generalize hadd : multipartAddHeader options part _ _ = x at h
    cases x with
    | error e' =>
        rw [multipartAddHeader] at hadd
        split_ifs at hadd
        cases hadd
        cases h
        simp [Fair]
    | ok part =>
        simp only [Except.bind] at h
        split_ifs at h
        · rw [multipartParseContentDisposition] at h
          split at h
          · next hname =>
            cases h
            exact dispositionName_fair hname
          · cases h
          · cases h
        · cases h
          simp [Fair]
        · generalize hdigits : contentLengthDigits 0 _ = x at h
          cases x with
          | error e' =>
              cases h
              exact contentLengthDigits_fair hdigits
          | ok n => cases h

theorem processLine_fair : Fair (multipartProcessLine cfg ticker r).2 := by
  rw [multipartProcessLine]
  cases r.mp.phase with
  | expectBoundary =>
      dsimp only
      split_ifs <;> simp [Fair, MultipartRun.fail]
  | headers =>
      dsimp only
      split_ifs
      · simp only [callBegin_ticker, andThenOk_ok, MultipartRun.tell_mp]
        cases r.mp.part.contentLength with
        | none => simp [Fair]
        | some n =>
            dsimp only
            split_ifs <;> simp [Fair]
      · cases hline : multipartProcessHeaderLine cfg.options r.mp.part (cstr r.mp.line) with
        | error e => exact multipartProcessHeaderLine_fair hline
        | ok part => simp [Fair]
  | bodyLength => simp [Fair]
  | bodyScan => simp [Fair]
  | done => simp [Fair]

theorem takeLineChar_fair (ch : Byte) : Fair (multipartTakeLineChar cfg ticker ch r).2 := by
  rw [multipartTakeLineChar]
  split_ifs
  · simp [Fair]
  · exact processLine_fair
  · cases byteAppendChar r.mp.line ch cfg.options.maxHeaderLineBytes <;>
      simp [Fair, MultipartRun.fail]

theorem multipartByte_fair (ch : Byte) : Fair (multipartByte cfg r ch).2 := by
  rw [multipartByte]
  split_ifs with hlength
  · simp only [multipartFeedBodyLength, callData_ticker, andThenOk_ok, multipartEndCounted]
    split_ifs <;> simp [Fair]
  · rw [multipartFeedChar]
    split_ifs with hscan
    · rw [multipartFeedBodyScanChar]
      cases byteAppendChar r.mp.body ch cfg.options.maxPartBufferedBytes with
      | error message => simp [Fair, MultipartRun.fail]
      | ok body =>
          dsimp only
          rw [multipartProcessBodyBuffer]
          cases scanBody cfg [] (r.setMp { r.mp with body }).mp.body with
          | boundary closing emitLen consumeLen => simp [Fair]
          | hold keepFrom =>
              simp only [callData_ticker, andThenOk_ok]
              split_ifs <;> simp [Fair]
    · rw [multipartFeedLineChar]
      by_cases hcr : r.mp.sawCr = true
      · rw [if_pos hcr, andThenOk]
        split_ifs
        · simp [Fair]
        · exact takeLineChar_fair ch
        · exact processLine_fair
      · rw [if_neg hcr]
        exact takeLineChar_fair ch

theorem multipartBytes_fair (text : Bytes) : Fair (multipartBytes cfg text r).2 := by
  induction text generalizing r with
  | nil => simp [Fair, multipartBytes]
  | cons ch rest ih =>
      rw [multipartBytes, andThenOk]
      split_ifs
      · exact ih
      · exact multipartByte_fair ch

/-! ## Pushes behind the closing line -/

/-- A push of the split finds the parser closed, when the pushes start from the run. -/
def LateFrom (cfg : MultipartConfig) (r : MultipartRun (List PartTick)) (chunks : List Bytes) :
    Prop :=
  ∃ k < chunks.length, (multipartBytes cfg (chunks.take k).flatten r).2 = .ok ∧
    (multipartBytes cfg (chunks.take k).flatten r).1.mp.closed = true

theorem lateFrom_cons (chunk : Bytes) (chunks : List Bytes) :
    LateFrom cfg r (chunk :: chunks) ↔ r.mp.closed = true ∨
      (multipartBytes cfg chunk r).2 = .ok ∧
        LateFrom cfg (multipartBytes cfg chunk r).1 chunks := by
  constructor
  · rintro ⟨k, hk, hok, hclosed⟩
    cases k with
    | zero => exact .inl hclosed
    | succ k =>
        rw [List.take_succ_cons, List.flatten_cons, multipartBytes_append, andThenOk] at hok hclosed
        split_ifs at hok hclosed with hfirst
        · exact .inr ⟨hfirst, k, by simpa using hk, hok, hclosed⟩
        · exact absurd hok hfirst
  · rintro (hclosed | ⟨hfirst, k, hk, hok, hclosed⟩)
    · exact ⟨0, by simp, rfl, hclosed⟩
    · refine ⟨k + 1, by simpa using hk, ?_⟩
      rw [List.take_succ_cons, List.flatten_cons, multipartBytes_append, andThenOk,
        if_pos hfirst]
      exact ⟨hok, hclosed⟩

/-- Pushes none of which finds the parser closed do what their bytes do. -/
theorem pushAll_timely {s : MultipartRun (List PartTick)} (hrs : Alike id s r) (hr : r.mp.Sound)
    {chunks : List Bytes} (htimely : ¬ LateFrom cfg r chunks) :
    AlikeAt id (multipartPushAll cfg ticker chunks s) (multipartBytes cfg chunks.flatten r) := by
  induction chunks generalizing r s with
  | nil => exact hrs.ok
  | cons chunk chunks ih =>
      rw [lateFrom_cons, not_or] at htimely
      obtain ⟨hopen, hlater⟩ := htimely
      have hpush := multipartPush_bytes cfg hrs hr (by simpa using hopen) chunk
      rw [multipartPushAll, List.flatten_cons, multipartBytes_append]
      obtain ⟨hrun, hstatus⟩ := hpush
      rw [andThenOk, andThenOk, hstatus]
      split_ifs with hok
      · exact ih hrun (multipartBytes_sound hr chunk) fun hlate => hlater ⟨hok, hlate⟩
      · exact ⟨hrun, hstatus⟩

/-- A push that finds the parser closed fails, and everything has been told before it. -/
theorem pushAll_late {s : MultipartRun (List PartTick)} (hrs : Alike id s r) (hr : r.mp.Sound)
    {chunks : List Bytes} (hlate : LateFrom cfg r chunks) :
    (multipartPushAll cfg ticker chunks s).2 = .invalidArgument ∧
      (multipartPushAll cfg ticker chunks s).1.mp.phase = .done ∧
      (multipartBytes cfg chunks.flatten r).1.mp.phase = .done ∧
      (multipartPushAll cfg ticker chunks s).1.user =
        (multipartBytes cfg chunks.flatten r).1.user := by
  induction chunks generalizing r s with
  | nil =>
      obtain ⟨k, hk, -⟩ := hlate
      simp at hk
  | cons chunk chunks ih =>
      rw [multipartPushAll]
      by_cases hclosed : r.mp.closed = true
      · have hdone := hr.closed.mp hclosed
        obtain ⟨hphase, huser⟩ :=
          multipartBytes_done cfg hdone (chunk :: chunks).flatten
        rw [multipartPush, hrs.mp, if_pos hclosed]
        exact ⟨rfl, (congrArg Multipart.phase hrs.mp).trans hdone, hphase,
          Eq.trans hrs.user huser.symm⟩
      · obtain ⟨hok, hlate⟩ := ((lateFrom_cons chunk chunks).mp hlate).resolve_left hclosed
        obtain ⟨hrun, hstatus⟩ :=
          multipartPush_bytes cfg hrs hr (by simpa using hclosed) chunk
        rw [List.flatten_cons, multipartBytes_append, andThenOk, andThenOk, hstatus, if_pos hok,
          if_pos hok]
        exact ih hrun (multipartBytes_sound hr chunk) hlate

end

/-! ## Two splits of a text -/

/-- The text, in one push, closes the parser: it contains the line of the closing boundary. -/
def ClosedBy (cfg : MultipartConfig) (text : Bytes) : Prop :=
  let x := multipartPush cfg ticker text { user := [] }
  x.2 = .ok ∧ x.1.mp.closed = true

instance (cfg : MultipartConfig) (text : Bytes) : Decidable (ClosedBy cfg text) :=
  inferInstanceAs (Decidable (_ ∧ _))

/-- Some push of the split starts behind the one that closed the parser. -/
def PushedLate (cfg : MultipartConfig) (chunks : List Bytes) : Prop :=
  ∃ k < chunks.length, ClosedBy cfg (chunks.take k).flatten

instance (cfg : MultipartConfig) (chunks : List Bytes) : Decidable (PushedLate cfg chunks) :=
  inferInstanceAs (Decidable (∃ k < chunks.length, _))

theorem start_sound {σ : Type} (user : σ) : ({ user } : MultipartRun σ).mp.Sound :=
  ⟨by simp, by simp⟩

theorem pushedLate_iff (cfg : MultipartConfig) (chunks : List Bytes) :
    PushedLate cfg chunks ↔ LateFrom cfg { user := [] } chunks := by
  have hpush (text : Bytes) : multipartPush cfg ticker text { user := [] } =
      multipartBytes cfg text { user := [] } := by
    rw [multipartPush, if_neg (by simp), multipartFeed_bytes (start_sound _) (le_refl _)]
  simp only [PushedLate, ClosedBy, LateFrom, hpush]

/-- What a split tells, and when it ends with the status of a misused parser. -/
theorem multipartRun_ticker (cfg : MultipartConfig) (chunks : List Bytes) :
    let y := multipartBytes cfg chunks.flatten { user := [] }
    (multipartRun cfg ticker chunks []).1.user = y.1.user ∧
      (multipartRun cfg ticker chunks []).2 =
        if PushedLate cfg chunks then .invalidArgument else (andThenOk y multipartFinish).2 := by
  dsimp only
  have hfinish (r : MultipartRun (List PartTick)) : (multipartFinish r).1.user = r.user := by
    rw [multipartFinish]
    split_ifs <;> rfl
  have hstart : Alike id ({ user := [] } : MultipartRun (List PartTick)) { user := [] } :=
    ⟨rfl, rfl⟩
  rw [multipartRun]
  split_ifs with hlate
  · obtain ⟨hstatus, -, -, huser⟩ :=
      pushAll_late hstart (start_sound _) ((pushedLate_iff cfg chunks).mp hlate)
    rw [andThenOk, if_neg (by simp [hstatus])]
    exact ⟨huser, hstatus⟩
  · have hall := pushAll_timely hstart (start_sound _)
      fun h => hlate ((pushedLate_iff cfg chunks).mpr h)
    obtain ⟨hrun, hstatus⟩ := hall.andThenOk fun _ _ hrs => hrs.finish
    refine ⟨?_, hstatus⟩
    have huser : (andThenOk (multipartPushAll cfg ticker chunks { user := [] })
        multipartFinish).1.user = (multipartPushAll cfg ticker chunks { user := [] }).1.user := by
      rw [andThenOk]
      split_ifs
      · exact hfinish _
      · rfl
    rw [huser]
    exact hall.1.user

/-- What a split tells, and whether it comes to the end, are up to its bytes. -/
theorem multipartPushAll_bytes (cfg : MultipartConfig) {h : MultipartHandler σ} (hh : h.Reliable)
    (user : σ) (chunks : List Bytes) :
    let x := (multipartPushAll cfg h.recording chunks { user := (user, []) }).1
    let y := (multipartBytes cfg chunks.flatten { user := [] }).1
    x.user.2 = y.user ∧ (x.mp.phase = .done ↔ y.mp.phase = .done) := by
  have hstart : Alike Prod.snd ({ user := (user, []) } : MultipartRun (σ × List PartTick))
    { user := [] } := ⟨rfl, rfl⟩
  have hticker : Alike id ({ user := [] } : MultipartRun (List PartTick)) { user := [] } :=
    ⟨rfl, rfl⟩
  obtain ⟨⟨hmp, huser⟩, -⟩ := hstart.pushAll cfg hh.recording chunks
  dsimp only
  rw [huser, hmp]
  by_cases hlate : LateFrom cfg { user := [] } chunks
  · obtain ⟨-, hdone, hdone', huser'⟩ := pushAll_late hticker (start_sound _) hlate
    exact ⟨huser', iff_of_true hdone hdone'⟩
  · obtain ⟨⟨hmp', huser'⟩, -⟩ := pushAll_timely hticker (start_sound _) hlate
    exact ⟨huser', by rw [hmp']⟩

/-- A handler that does nothing. -/
def idleHandler : MultipartHandler Unit := fun user _ error => (user, error, .ok)

theorem idleHandler_reliable : idleHandler.Reliable := fun _ _ _ => rfl

/-- The boundary `x`, with the default options. -/
def boundaryX : MultipartConfig := ⟨{}, [0x78], by simp, by simp⟩

end Lonejson
