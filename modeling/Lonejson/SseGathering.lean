import Lonejson.SseEvents

/-!
# Lines of a block in the reader

Callbacks that write down what they are told, and the reader that gathers the fields of a block
line by line, as long as its buffers have room.
-/

namespace Lonejson

/-! ## The fields of a block -/

/-- What the callbacks have been told: the data of the current event, and the events. -/
structure SseLog where
  current : Bytes := []
  events : List SseText := []
  deriving DecidableEq, Repr

/-- Callbacks that write down the data and the events. -/
def sseRecorder : SseHandler SseLog := fun log c error =>
  (match c with
    | .beginEvent _ => log
    | .dataChunk bytes => { log with current := log.current ++ bytes }
    | .endEvent e =>
      { current := []
        events := log.events ++
          [{ name := e.event
             id := e.id
             data := log.current
             dataLen := e.dataLen
             retry := if e.hasRetry then some e.retryMs.toNat else none }] },
    error, .ok)

/-- The reader holds the fields of the current block. -/
structure Gathered (allocated : Bool) (f : SseFields) (r : SseRun SseLog) : Prop where
  pending : r.sse.eventPending = f.event.isSome
  event : r.sse.event = f.names.getLast?.getD []
  id : r.sse.id = if allocated || f.freshId then some (f.ids.getLast?.getD []) else none
  seen : r.sse.dataSeen = true ↔ f.data ≠ []
  current : r.user.current = f.text
  dataLen : r.sse.eventDataLen = f.text.length
  retry : (if r.sse.hasRetry then some r.sse.retryMs.toNat else none) = f.retries.getLast?
  noNul : ∀ id ∈ f.ids, 0 ∉ id

section

variable {allocated : Bool} {f : SseFields} {r : SseRun SseLog} {options : SseOptions}

theorem SseFields.event_isSome :
    f.event.isSome = true ↔ ¬ (f.data = [] ∧ f.names = [] ∧ f.ids = [] ∧ f.retries = []) := by
  rw [SseFields.event]
  split_ifs with h
  · simp [h]
  · simp [h]

theorem intercalate_concat {α : Type} (sep x : List α) (xs : List (List α)) :
    sep.intercalate (xs ++ [x]) = if xs = [] then x else sep.intercalate xs ++ sep ++ x := by
  induction xs with
  | nil => simp [List.intercalate]
  | cons y ys ih =>
      cases ys with
      | nil => simp [List.intercalate]
      | cons z zs =>
          rw [if_neg (List.cons_ne_nil _ _)] at ih ⊢
          rw [List.cons_append] at ih
          rw [List.cons_append, List.cons_append, List.intercalate_cons_cons, ih,
            List.intercalate_cons_cons]
          simp only [List.append_assoc]

/-- The text with one more data line. -/
theorem SseFields.text_concat (f : SseFields) (value : Bytes) :
    ({ f with data := f.data ++ [value] } : SseFields).text =
      if f.data = [] then value else f.text ++ [LF] ++ value :=
  intercalate_concat [LF] value f.data

theorem SseRun.call_recorder (r : SseRun SseLog) (message : String) (c : SseCall) :
    r.call sseRecorder message c = .ok { r with user := (sseRecorder r.user c r.error).1 } :=
  rfl

/-- The state that a begun event leaves: nothing that the recorder sees. -/
theorem sseBeginIfNeeded_recorder (r : SseRun SseLog) :
    sseBeginIfNeeded sseRecorder r =
      .ok { r with sse := { r.sse with eventStarted := true } } := by
  rw [sseBeginIfNeeded]
  split_ifs with h
  · rw [← h]
  · rfl

/-- A call that leaves the line, the stream and the delivered events alone. -/
structure SameFrame (r r' : SseRun SseLog) : Prop where
  line : r'.sse.line = r.sse.line
  sawCr : r'.sse.sawCr = r.sse.sawCr
  closed : r'.sse.closed = r.sse.closed
  events : r'.user.events = r.user.events

/-- A data line, as the recorder sees it. -/
theorem sseEmitData_recorder {data : Bytes} (hfits : r.sse.eventDataLen +
      (data.length + if r.sse.dataSeen then 1 else 0) ≤ options.maxEventDataBytes) :
    sseEmitData options sseRecorder data r = .ok
      { r with
        sse := { r.sse with
          eventPending := true
          eventStarted := true
          eventDataLen := r.sse.eventDataLen + (if r.sse.dataSeen then 1 else 0) + data.length
          dataSeen := true }
        user := { r.user with
          current := r.user.current ++ (if r.sse.dataSeen then [LF] else []) ++ data } } := by
  rw [sseEmitData]
  dsimp only
  rw [if_neg (by omega), sseBeginIfNeeded_recorder]
  change (sseEmitNewline sseRecorder _).bind _ = _
  rw [sseEmitNewline]
  dsimp only
  by_cases hdata : data = []
  · cases r.sse.dataSeen <;>
      simp [hdata, SseRun.call_recorder, sseRecorder, Except.map, Except.bind]
  · cases r.sse.dataSeen <;>
      simp [hdata, SseRun.call_recorder, sseRecorder, Except.map, Except.bind]

theorem sseEmitData_gathered (h : Gathered allocated f r) {value : Bytes}
    (hfits : ({ f with data := f.data ++ [value] } : SseFields).text.length ≤
      options.maxEventDataBytes) :
    ∃ r', sseEmitData options sseRecorder value r = .ok r' ∧
      Gathered allocated { f with data := f.data ++ [value] } r' ∧ SameFrame r r' := by
  have hseen : r.sse.dataSeen = !decide (f.data = []) := by
    rw [Bool.eq_iff_iff, h.seen]
    simp
  have htext : ({ f with data := f.data ++ [value] } : SseFields).text =
      f.text ++ (if r.sse.dataSeen then [LF] else []) ++ value := by
    rw [f.text_concat value, hseen]
    by_cases hdata : f.data = []
    · simp [hdata, SseFields.text]
    · simp [hdata]
  have hlength : ({ f with data := f.data ++ [value] } : SseFields).text.length =
      r.sse.eventDataLen + (if r.sse.dataSeen then 1 else 0) + value.length := by
    rw [htext, List.length_append, List.length_append, h.dataLen]
    cases r.sse.dataSeen <;> rfl
  refine ⟨_, sseEmitData_recorder (by omega), ?_, ⟨rfl, rfl, rfl, rfl⟩⟩
  constructor
  · rw [eq_comm, SseFields.event_isSome]
    simp
  · exact h.event
  · exact h.id
  · simp
  · rw [htext, ← h.current]
  · exact hlength.symm
  · exact h.retry
  · exact h.noNul

/-- A buffer with the greatest limit takes nothing, because the limit with its NUL wraps. -/
theorem byteAppend_full {buffer data : Bytes} (hdata : data ≠ []) :
    ∃ message, byteAppend buffer data sizeMax = .error message := by
  have hlength : data.length ≠ 0 := fun h => hdata (List.eq_nil_of_length_eq_zero h)
  have hwrap : (sizeMax + 1) % (sizeMax + 1) = 0 := Nat.mod_self _
  rw [byteAppend, if_neg hlength]
  dsimp only
  split_ifs with h₁ h₂ h₃
  · exact ⟨_, rfl⟩
  · exact ⟨_, rfl⟩
  · exact ⟨_, rfl⟩
  · rw [hwrap] at h₃
    omega

theorem byteAppend_room {buffer data : Bytes} {limit : ℕ}
    (hlen : buffer.length + data.length ≤ limit) (hlimit : limit ≤ sizeMax)
    (hroom : limit ≠ sizeMax ∨ data = []) : byteAppend buffer data limit = .ok (buffer ++ data) := by
  rcases hroom with hne | rfl
  · exact byteAppend_of_room hlen (by omega)
  · rw [byteAppend, List.length_nil, if_pos rfl, List.append_nil]

/-- The value that a line puts into a buffer. -/
def sseRetained (line : Bytes) : Bytes :=
  match sseField line with
  | none => []
  | some (name, value) =>
    if name = ascii "event" then value
    else if name = ascii "id" ∧ 0 ∉ value then value
    else []

theorem sseSetEvent_gathered (h : Gathered allocated f r) {value : Bytes}
    (hlen : value.length ≤ options.maxBufferedBytes)
    (hsize : options.maxBufferedBytes ≤ sizeMax)
    (hroom : options.maxBufferedBytes ≠ sizeMax ∨ value = []) :
    ∃ r', sseSetEvent options value r = .ok r' ∧
      Gathered allocated { f with names := f.names ++ [value] } r' ∧ SameFrame r r' := by
  have happend : byteAppend [] value options.maxBufferedBytes = .ok value :=
    byteAppend_room (by simpa using hlen) hsize hroom
  rw [sseSetEvent]
  dsimp only
  rw [happend]
  refine ⟨_, rfl, ?_, ⟨rfl, rfl, rfl, rfl⟩⟩
  constructor
  · rw [eq_comm, SseFields.event_isSome]
    simp
  · simp
  · exact h.id
  · exact h.seen
  · exact h.current
  · exact h.dataLen
  · exact h.retry
  · exact h.noNul

theorem sseSetId_gathered (h : Gathered allocated f r) {value : Bytes} (hnul : 0 ∉ value)
    (hlen : value.length ≤ options.maxBufferedBytes)
    (hsize : options.maxBufferedBytes ≤ sizeMax)
    (hroom : options.maxBufferedBytes ≠ sizeMax ∨ value = []) :
    ∃ r', sseSetId options value r = .ok r' ∧
      Gathered allocated { f with ids := f.ids ++ [value] } r' ∧ SameFrame r r' := by
  have hempty : (r.sse.id.map fun _ => ([] : Bytes)).getD [] = [] := by
    cases r.sse.id <;> rfl
  have happend : byteAppend [] value options.maxBufferedBytes = .ok value :=
    byteAppend_room (by simpa using hlen) hsize hroom
  rw [sseSetId]
  dsimp only
  rw [hempty, happend]
  refine ⟨_, rfl, ?_, ⟨rfl, rfl, rfl, rfl⟩⟩
  constructor
  · rw [eq_comm, SseFields.event_isSome]
    simp
  · exact h.event
  · have hfresh : ({ f with ids := f.ids ++ [value] } : SseFields).freshId =
        (f.freshId || !decide (value = [])) := by
      simp [SseFields.freshId]
    rw [hfresh, h.id]
    by_cases hvalue : value = []
    · cases hhad : allocated || f.freshId <;> simp [hvalue, hhad]
    · simp [hvalue]
  · exact h.seen
  · exact h.current
  · exact h.dataLen
  · exact h.retry
  · intro id hid
    rcases List.mem_append.mp hid with hmem | hmem
    · exact h.noNul id hmem
    · rwa [List.mem_singleton.mp hmem]

theorem parseSseRetry_eq (value : Bytes) :
    (parseSseRetry value).map UInt64.toNat = retryValue value := by
  have hmax : maxU64.toNat = 2 ^ 64 - 1 := by decide
  have hreads (retry : UInt64) := @wordDigits_eq_some maxU64 (by decide) value retry 0 (by decide)
  rw [parseSseRetry, retryValue]
  by_cases hnil : value = []
  · simp [hnil]
  rw [if_neg hnil]
  by_cases hvalid : (∀ ch ∈ value, isDigit ch = true) ∧ digitsFrom 0 value < 2 ^ 64
  · have hword : (UInt64.ofNat (digitsFrom 0 value)).toNat = digitsFrom 0 value :=
      UInt64.toNat_ofNat_of_lt' hvalid.2
    rw [if_pos ⟨hnil, hvalid⟩, (hreads (UInt64.ofNat (digitsFrom 0 value))).mpr
      ⟨hvalid.1, hword.symm, by omega⟩, Option.map_some, hword]
  · rw [if_neg fun h => hvalid h.2]
    cases hparse : wordDigits maxU64 0 value with
    | none => rfl
    | some retry =>
        obtain ⟨hdigits, hvalue, hle⟩ := (hreads retry).mp hparse
        refine absurd ⟨hdigits, ?_⟩ hvalid
        change digitsFrom 0 value = _ at hvalue
        omega

theorem sseSetRetry_gathered (h : Gathered allocated f r) (value : Bytes) :
    Gathered allocated { f with retries := f.retries ++ (retryValue value).toList }
      (sseSetRetry value r) ∧ SameFrame r (sseSetRetry value r) := by
  rw [sseSetRetry, ← parseSseRetry_eq]
  cases parseSseRetry value with
  | none =>
      simp only [Option.map_none, Option.toList_none, List.append_nil]
      exact ⟨h, ⟨rfl, rfl, rfl, rfl⟩⟩
  | some retry =>
      refine ⟨?_, ⟨rfl, rfl, rfl, rfl⟩⟩
      constructor
      · rw [eq_comm, SseFields.event_isSome]
        simp
      · exact h.event
      · exact h.id
      · exact h.seen
      · exact h.current
      · exact h.dataLen
      · simp
      · exact h.noNul

theorem sseValue_eq (line : Bytes) :
    sseValue line = dropSpace (line.dropWhile (· != 0x3a)).tail := by
  have hdrop : line.drop (sseName line).length = line.dropWhile (· != 0x3a) := by
    have hsplit : sseName line ++ line.dropWhile (· != 0x3a) = line :=
      List.takeWhile_append_dropWhile
    calc line.drop (sseName line).length
        = (sseName line ++ line.dropWhile (· != 0x3a)).drop (sseName line).length := by rw [hsplit]
      _ = line.dropWhile (· != 0x3a) := List.drop_left
  rw [sseValue, hdrop]
  rcases line.dropWhile (· != 0x3a) with _ | ⟨colon, value⟩
  · rfl
  rw [List.tail_cons, dropSpace.eq_def]
  rcases value with _ | ⟨b, value⟩
  · rfl
  · by_cases hspace : b = 0x20
    · subst hspace
      rfl
    · split
      · simp_all
      · simp_all
      · next hother heq =>
          obtain ⟨-, rfl⟩ := List.cons.inj heq
          split
          · simp_all
          · rfl

/-- The line fits the limits, in the block that has the fields `f`. -/
structure LineFits (options : SseOptions) (f : SseFields) (line : Bytes) : Prop where
  data : (f.addLine line).text.length ≤ options.maxEventDataBytes
  value : (sseRetained line).length ≤ options.maxBufferedBytes

/-- The buffer for the value of the line has room for its NUL. -/
def LineRoom (options : SseOptions) (line : Bytes) : Prop :=
  options.maxBufferedBytes ≠ sizeMax ∨ sseRetained line = []

theorem sseProcessLine_gathered (h : Gathered allocated f r)
    (hsize : options.maxBufferedBytes ≤ sizeMax) (hline : r.sse.line ≠ [])
    (hfits : LineFits options f r.sse.line) (hroom : LineRoom options r.sse.line) :
    ∃ r', sseProcessLine options sseRecorder r = .ok r' ∧
      Gathered allocated (f.addLine r.sse.line) r' ∧ SameFrame r r' := by
  obtain ⟨hdata, hvalue⟩ := hfits
  have hname : sseName r.sse.line = r.sse.line.takeWhile (· != 0x3a) := rfl
  rw [sseProcessLine]
  dsimp only
  rw [if_neg hline]
  rw [SseFields.addLine] at hdata ⊢
  rw [LineRoom] at hroom
  rw [sseRetained] at hvalue hroom
  by_cases hcomment : r.sse.line.head? = some 0x3a
  · have hfield : sseField r.sse.line = none := if_pos hcomment
    rw [if_pos hcomment, hfield]
    exact ⟨r, rfl, h, ⟨rfl, rfl, rfl, rfl⟩⟩
  have hfield : sseField r.sse.line = some (sseName r.sse.line, sseValue r.sse.line) := by
    rw [sseValue_eq]
    exact if_neg hcomment
  rw [if_neg hcomment]
  rw [hfield] at hdata hvalue hroom ⊢
  generalize sseName r.sse.line = name at *
  generalize sseValue r.sse.line = value at *
  dsimp only at hdata hvalue hroom ⊢
  rw [SseFields.add] at hdata ⊢
  by_cases hdataName : name = ascii "data"
  · rw [if_pos hdataName] at hdata ⊢
    rw [if_pos hdataName]
    exact sseEmitData_gathered h hdata
  rw [if_neg hdataName, if_neg hdataName]
  by_cases hevent : name = ascii "event"
  · rw [if_pos hevent] at hvalue hroom
    rw [if_pos hevent, if_pos hevent]
    exact sseSetEvent_gathered h hvalue hsize hroom
  rw [if_neg hevent] at hvalue hroom
  rw [if_neg hevent, if_neg hevent]
  by_cases hid : name = ascii "id"
  · have hretry : name ≠ ascii "retry" := by
      rw [hid]
      decide
    rw [if_pos hid]
    by_cases hnul : 0 ∈ value
    · rw [if_neg fun h => h.2 hnul, if_neg hretry, if_pos hnul]
      exact ⟨r, rfl, h, ⟨rfl, rfl, rfl, rfl⟩⟩
    · rw [if_pos ⟨hid, hnul⟩] at hvalue hroom
      rw [if_pos ⟨hid, hnul⟩, if_neg hnul]
      exact sseSetId_gathered h hnul hvalue hsize hroom
  rw [if_neg fun h => hid h.1, if_neg hid]
  by_cases hretry : name = ascii "retry"
  · rw [if_pos hretry, if_pos hretry]
    exact ⟨_, rfl, sseSetRetry_gathered h value⟩
  · rw [if_neg hretry, if_neg hretry]
    exact ⟨r, rfl, h, ⟨rfl, rfl, rfl, rfl⟩⟩

/-- Without room the line fails. -/
theorem sseProcessLine_full (hline : r.sse.line ≠ []) (hroom : ¬ LineRoom options r.sse.line) :
    ∃ e, sseProcessLine options sseRecorder r = .error e := by
  rw [LineRoom, not_or, not_not] at hroom
  obtain ⟨hlimit, hvalue⟩ := hroom
  rw [sseRetained] at hvalue
  rw [sseProcessLine]
  dsimp only
  rw [if_neg hline]
  by_cases hcomment : r.sse.line.head? = some 0x3a
  · have hfield : sseField r.sse.line = none := if_pos hcomment
    rw [hfield] at hvalue
    exact absurd rfl hvalue
  have hfield : sseField r.sse.line = some (sseName r.sse.line, sseValue r.sse.line) := by
    rw [sseValue_eq]
    exact if_neg hcomment
  rw [hfield] at hvalue
  rw [if_neg hcomment]
  generalize sseName r.sse.line = name at *
  generalize sseValue r.sse.line = value at *
  dsimp only at hvalue
  by_cases hevent : name = ascii "event"
  · rw [if_pos hevent] at hvalue
    obtain ⟨message, hfull⟩ := @byteAppend_full [] value hvalue
    have hdataName : name ≠ ascii "data" := by
      rw [hevent]
      decide
    rw [if_neg hdataName, if_pos hevent, sseSetEvent, hlimit]
    dsimp only
    rw [hfull]
    exact ⟨_, rfl⟩
  rw [if_neg hevent] at hvalue
  by_cases hid : name = ascii "id" ∧ 0 ∉ value
  · rw [if_pos hid] at hvalue
    have hdataName : name ≠ ascii "data" := by
      rw [hid.1]
      decide
    rw [if_neg hdataName, if_neg hevent, if_pos hid, sseSetId, hlimit]
    dsimp only
    obtain ⟨message, hfull⟩ :=
      @byteAppend_full ((r.sse.id.map fun _ => ([] : Bytes)).getD []) value hvalue
    rw [hfull]
    exact ⟨_, rfl⟩
  · rw [if_neg hid] at hvalue
    exact absurd rfl hvalue

theorem cstr_last {ids : List Bytes} (h : ∀ id ∈ ids, 0 ∉ id) :
    cstr (ids.getLast?.getD []) = ids.getLast?.getD [] := by
  apply cstr_of_notMem
  cases hlast : ids.getLast? with
  | none => simp
  | some id => exact h id (List.mem_of_getLast? hlast)

/-- The end of a block. -/
theorem sseEmit_gathered (h : Gathered allocated f r) :
    ∃ r', sseEmit sseRecorder r = .ok r' ∧ Gathered (allocated || f.freshId) {} r' ∧
      r'.sse.line = r.sse.line ∧ r'.sse.sawCr = r.sse.sawCr ∧ r'.sse.closed = r.sse.closed ∧
      r'.user.events = r.user.events ++ deliverBlock allocated f := by
  rw [sseEmit]
  cases hevent : f.event with
  | none =>
      have hnone : ¬ f.event.isSome = true := by simp [hevent]
      rw [SseFields.event_isSome, not_not] at hnone
      have hempty : f = {} := by
        obtain ⟨data, names, ids, retries⟩ := f
        obtain ⟨rfl, rfl, rfl, rfl⟩ := hnone
        rfl
      have hpending : r.sse.eventPending = false := by rw [h.pending, hevent]; rfl
      rw [hpending]
      subst hempty
      refine ⟨r, rfl, ?_, rfl, rfl, rfl, by simp [deliverBlock, hevent]⟩
      have hfresh : ({} : SseFields).freshId = false := rfl
      rwa [hfresh, Bool.or_false]
  | some e =>
      have hpending : r.sse.eventPending = true := by rw [h.pending, hevent]; rfl
      have hsome : ¬ (f.data = [] ∧ f.names = [] ∧ f.ids = [] ∧ f.retries = []) := by
        rw [← SseFields.event_isSome, hevent]
        rfl
      have he : e = { name := f.names.getLast?.getD [], id := f.ids.getLast?, data := f.text,
                      dataLen := f.text.length, retry := f.retries.getLast? } := by
        rw [SseFields.event, if_neg hsome] at hevent
        exact (Option.some.inj hevent).symm
      rw [hpending, sseBeginIfNeeded_recorder]
      refine ⟨_, rfl, ?_, rfl, rfl, rfl, ?_⟩
      · constructor
        · rfl
        · rfl
        · change r.sse.id.map (fun _ => ([] : Bytes)) = _
          rw [h.id]
          cases allocated || f.freshId <;> simp [SseFields.freshId]
        · simp [Sse.resetEvent]
        · rfl
        · rfl
        · rfl
        · simp
      · change r.user.events ++ [_] = _
        rw [deliverBlock, hevent, he]
        change _ = r.user.events ++ [_]
        congr 2
        change SseText.mk (cstr r.sse.event) (r.sse.id.map cstr) r.user.current
          r.sse.eventDataLen (if r.sse.hasRetry then some r.sse.retryMs.toNat else none) = _
        rw [h.event, h.id, h.current, h.dataLen, h.retry]
        cases hhad : allocated || f.freshId
        · rfl
        · simp [SseText.carried, cstr_last h.noNul]

end

end Lonejson
