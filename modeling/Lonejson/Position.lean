import Lonejson.Registers
import Lonejson.Validator

/-!
# The position of the parser

How far the position of the error record moves with the bytes that are consumed.
-/

namespace Lonejson

variable {σ : Type}

/-! ## Passing a text -/

/-- The offset and the line move from one position to the other as over this text. -/
structure Pos.Passes (pos : Pos) (s : Bytes) (pos' : Pos) : Prop where
  offset : pos'.offset = pos.offset + s.length
  line : pos'.line = pos.line + s.count 0x0a

theorem Pos.Passes.refl (pos : Pos) : pos.Passes [] pos := ⟨rfl, rfl⟩

theorem Pos.Passes.trans {pos pos' pos'' : Pos} {s t : Bytes} (h : pos.Passes s pos')
    (h' : pos'.Passes t pos'') : pos.Passes (s ++ t) pos'' := by
  constructor
  · rw [h'.offset, h.offset, List.length_append, Nat.add_assoc]
  · rw [h'.line, h.line, List.count_append, Nat.add_assoc]

theorem Pos.passes_step (pos : Pos) (ch : Byte) : pos.Passes [ch] (pos.step ch) := by
  rw [Pos.step]
  by_cases hch : ch = 0x0a
  · rw [if_pos hch, hch]
    exact ⟨rfl, rfl⟩
  · rw [if_neg hch]
    exact ⟨rfl, by rw [List.count_eq_zero_of_not_mem (by simpa using Ne.symm hch)]; rfl⟩

theorem advance_passes (p : Parser σ) {s : Bytes} (hs : (0x0a : Byte) ∉ s) :
    p.pos.Passes s (p.advance s.length).pos :=
  ⟨rfl, by rw [List.count_eq_zero_of_not_mem hs]; rfl⟩

theorem advance_pos_add (p : Parser σ) (m n : ℕ) :
    ((p.advance m).advance n).pos = (p.advance (m + n)).pos := by
  simp only [Parser.advance, Nat.add_assoc]

theorem pos_of_registers {p q : Parser σ} (h : q.registers = p.registers) : q.pos = p.pos :=
  congrArg Registers.pos h

theorem lexMode_of_registers {p q : Parser σ} (h : q.registers = p.registers) :
    q.lexMode = p.lexMode :=
  congrArg Registers.lexMode h

theorem isPlain_ne_newline {b : Byte} (hb : isPlain b = true) : b ≠ 0x0a := by
  rintro rfl
  exact absurd hb (by decide)

/-! ## Callbacks that take text -/

/-- The callbacks that get a piece of the text of a string. -/
def Callback.isText : Callback → Bool
  | .sink _ _ | .stringArrayChunk _ _ => true
  | .visit _ (.keyChunk _) | .visit _ (.stringChunk _) => true
  | .pathVisit _ _ (.keyChunk _) | .pathVisit _ _ (.stringChunk _) => true
  | _ => false

/-- No callback answers a piece of text with `LONEJSON_STATUS_TRUNCATED`. -/
def Env.TakesText (env : Env σ) : Prop :=
  ∀ world cb error, cb.isText = true → (env.call world cb error).2.2 ≠ .truncated

section

variable {α : Type} {r : α × Status} {k : α → α × Status}

theorem ite_untruncated {c : Prop} [Decidable c] {r r' : α × Status} (hr : r.2 ≠ .truncated)
    (hr' : r'.2 ≠ .truncated) : (if c then r else r').2 ≠ .truncated := by
  split
  · exact hr
  · exact hr'

theorem andThenSoft_untruncated (hr : r.2 ≠ .truncated) (hk : ∀ c, (k c).2 ≠ .truncated) :
    (andThenSoft r k).2 ≠ .truncated := by
  rw [andThenSoft]
  split
  · exact hk _
  · exact hr

theorem andThenOk_untruncated (hr : r.2 ≠ .truncated) (hk : ∀ c, (k c).2 ≠ .truncated) :
    (andThenOk r k).2 ≠ .truncated := by
  rw [andThenOk]
  split
  · exact hk _
  · exact hr

end

section

variable {env : Env σ}

theorem call_untruncated (henv : env.TakesText) (c : Core σ) {cb : Callback} (hcb : cb.isText = true) :
    (c.call env cb).2 ≠ .truncated := henv _ _ _ hcb

theorem spooledAppendParse_untruncated (c : Core σ) (s : Spooled) (data : Bytes) :
    (spooledAppendParse env c s data).2.2 ≠ .truncated := by
  have hspill (c : Core σ) (s s' : Spooled) (copy : ℕ) :
      (if copy < data.length then (c, s, Status.ok) else (c, s', .ok)).2.2 ≠ .truncated := by
    split <;> exact Status.noConfusion
  rw [spooledAppendParse]
  split
  · exact Status.noConfusion
  split
  · exact Status.noConfusion
  dsimp only
  generalize (if data.length < _ then data.length else _ : ℕ) = copy
  by_cases hcopy : copy = 0
  · rw [if_pos hcopy]
    exact hspill _ _ _ _
  rw [if_neg hcopy]
  split
  · split
    · exact Status.noConfusion
    · exact hspill _ _ _ _
  · exact Status.noConfusion

theorem streamValueAppendDecoded_untruncated (c : Core σ) (data : Bytes) :
    (streamValueAppendDecoded env c data).2 ≠ .truncated := by
  rw [streamValueAppendDecoded]
  split
  · split
    · exact spooledAppendParse_untruncated _ _ _
    · exact Status.noConfusion
  · exact Status.noConfusion

theorem streamValueAppendBase64Char_untruncated (c : Core σ) (ch : Byte) :
    (streamValueAppendBase64Char env c ch).2 ≠ .truncated := by
  rw [streamValueAppendBase64Char]
  split
  · exact Status.noConfusion
  split
  · exact Status.noConfusion
  dsimp only
  split
  · split
    · exact Status.noConfusion
    · exact streamValueAppendDecoded_untruncated _ _
  · exact Status.noConfusion

theorem streamValueAppendBase64_untruncated (c : Core σ) (data : Bytes) :
    (streamValueAppendBase64 env c data).2 ≠ .truncated := by
  induction data generalizing c with
  | nil => exact Status.noConfusion
  | cons ch data ih => exact andThenOk_untruncated (streamValueAppendBase64Char_untruncated c ch) ih

theorem streamValueAppend_untruncated (henv : env.TakesText) (c : Core σ) (data : Bytes) :
    (streamValueAppend env c data).2 ≠ .truncated := by
  rw [streamValueAppend]
  split
  · split
    · split
      · exact call_untruncated henv _ rfl
      · exact Status.noConfusion
    · exact Status.noConfusion
  · exact streamValueAppendDecoded_untruncated _ _
  · exact streamValueAppendBase64_untruncated _ _

theorem captureAppend_untruncated (c : Core σ) (ptr : SlotPtr) (v : JsonValue) (data : Bytes) :
    (captureAppend env c ptr v data).2 ≠ .truncated := by
  rw [captureAppend]
  dsimp only
  split
  · split
    · exact Status.noConfusion
    · split
      · split <;> exact Status.noConfusion
      · exact Status.noConfusion
  · split <;> exact Status.noConfusion

theorem jsonTextSink_untruncated (henv : env.TakesText) (c : Core σ) (data : Bytes) :
    (jsonTextSink env c data).2 ≠ .truncated := by
  rw [jsonTextSink]
  split
  · exact Status.noConfusion
  · split
    · exact call_untruncated henv _ rfl
    · split
      · exact Status.noConfusion
      · exact captureAppend_untruncated _ _ _ _

theorem emitPieces_untruncated (henv : env.TakesText) (c : Core σ) (pieces : List Bytes) :
    (emitPieces (jsonTextSink env) c pieces).2 ≠ .truncated := by
  induction pieces generalizing c with
  | nil => exact Status.noConfusion
  | cons piece pieces ih => exact andThenSoft_untruncated (jsonTextSink_untruncated henv c piece) ih

theorem pathKeyAppend_untruncated (c : Core σ) (data : Bytes) :
    (pathKeyAppend env c data).2 ≠ .truncated := by
  rw [pathKeyAppend]
  split
  · split
    · exact Status.noConfusion
    split
    · exact Status.noConfusion
    dsimp only
    generalize (if _ = 0 then 64 else _ : ℕ) = cap
    split
    · split <;> exact Status.noConfusion
    · exact Status.noConfusion
  · exact Status.noConfusion

/-- The events of a piece of text. -/
def VisitEvent.isText : VisitEvent → Bool
  | .keyChunk _ | .stringChunk _ => true
  | _ => false

theorem visitEvent_untruncated (henv : env.TakesText) (c : Core σ) {event : VisitEvent}
    (hevent : event.isText = true) : (visitEvent env c event).2 ≠ .truncated := by
  rw [visitEvent]
  split
  · refine call_untruncated henv _ ?_
    cases event <;> first | rfl | exact hevent
  · exact Status.noConfusion

theorem pathEvent_untruncated (henv : env.TakesText) (c : Core σ) {event : VisitEvent}
    (hevent : event.isText = true) : (pathEvent env c event).2 ≠ .truncated := by
  rw [pathEvent]
  split
  · refine call_untruncated henv _ ?_
    cases event <;> first | rfl | exact hevent
  · exact Status.noConfusion

theorem visitChunkCount_untruncated (c : Core σ) (data : Bytes) (tokenBytes tokenLimit : ℕ)
    (message : String) :
    (visitChunkCount c data tokenBytes tokenLimit message).2 ≠ .truncated := by
  rw [visitChunkCount]
  split
  · exact Status.noConfusion
  · split <;> exact Status.noConfusion

theorem visitChunk_untruncated (henv : env.TakesText) (c : Core σ) {event : VisitEvent}
    (hevent : event.isText = true) (data : Bytes) (isText : Bool) (tokenLimit : ℕ)
    (message : String) :
    (visitChunk env c event data isText tokenLimit message).2 ≠ .truncated := by
  rw [visitChunk]
  split
  · exact Status.noConfusion
  dsimp only
  refine andThenOk_untruncated (visitChunkCount_untruncated _ _ _ _ _) fun c => ?_
  generalize (if isText = true then _ else c : Core σ) = c
  split
  · refine andThenSoft_untruncated ?_ fun c => ?_
    · split
      · exact pathKeyAppend_untruncated _ _
      · exact Status.noConfusion
    · exact andThenSoft_untruncated (visitEvent_untruncated henv _ hevent) fun c =>
        pathEvent_untruncated henv _ hevent
  · exact visitEvent_untruncated henv _ hevent

theorem jsonValueStringChunk_untruncated (henv : env.TakesText) (c : Core σ) (data : Bytes) :
    (jsonValueStringChunk env c data).2 ≠ .truncated := by
  rw [jsonValueStringChunk]
  dsimp only
  generalize (if c.json.textIsKey = true then _ else _ : ℕ) = limit
  split
  · generalize (if c.json.textIsKey = true then _ else _ : String) = message
    split
    · exact Status.noConfusion
    · exact emitPieces_untruncated henv _ _
  · refine visitChunk_untruncated henv _ ?_ _ _ _ _
    split <;> rfl

theorem directAppendDynamic_untruncated (c : Core σ) (data : Bytes) :
    (directAppendDynamic env c data).2 ≠ .truncated := by
  rw [directAppendDynamic]
  dsimp only
  split
  · split
    · exact Status.noConfusion
    split
    · exact Status.noConfusion
    split
    · refine ite_untruncated ?_ Status.noConfusion
      generalize ownedReallocParse _ _ _ _ = o
      obtain ⟨_ | _, _⟩ := o <;> exact Status.noConfusion
    · exact Status.noConfusion
  · exact Status.noConfusion

theorem directAppendFixed_untruncated (c : Core σ) (data : Bytes) :
    (directAppendFixed c data).2 ≠ .truncated := by
  rw [directAppendFixed]
  dsimp only
  split
  · exact Status.noConfusion
  generalize (if data.length < _ then data.length else _ : ℕ) = copyLen
  split
  · exact Status.noConfusion
  split <;> exact Status.noConfusion

theorem directStringAppendBytes_untruncated (c : Core σ) (data : Bytes) :
    (directStringAppendBytes env c data).2 ≠ .truncated := by
  rw [directStringAppendBytes]
  split
  · exact directAppendDynamic_untruncated _ _
  · exact directAppendFixed_untruncated _ _

end

/-! ## Strings -/

section

variable {env : Env σ} {p : Parser σ}

theorem appendUnicodeCodepoint_registers (cp : ℕ) :
    (appendUnicodeCodepoint env p cp).1.registers = p.registers := by
  rw [appendUnicodeCodepoint]
  split
  · refine orFull_registers _ fun q hq => ?_
    obtain ⟨data, -, hq⟩ := Option.bind_eq_some_iff.mp hq
    exact scratchAppendBytes_registers hq
  · split
    · rfl
    · split
      · rfl
      · split <;> rfl
  · split <;> rfl
  · split <;> rfl
  · split <;> rfl

theorem appendStringByte_registers (ch : Byte) :
    (appendStringByte env p ch).1.registers = p.registers := by
  rw [appendStringByte]
  split
  · exact orFull_registers _ fun q => scratchAppend_registers
  · split <;> rfl
  · rfl
  · rfl
  · rfl

theorem finishJsonString_registers : (finishJsonString env p).1.registers = p.registers := by
  rw [finishJsonString]
  refine andThenOk_registers rfl fun q hq => ?_
  rw [← hq]
  split
  · exact completeStreamedStringToken_registers
  · exact deliverToken_registers _

end

/-- A sink whose appends leave the lexer alone. -/
structure StringSink.Keeps (sink : StringSink σ) : Prop where
  run : ∀ p data, (sink.run p data).1.registers = p.registers
  byte : ∀ p ch, (sink.byte p ch).1.registers = p.registers
  codepoint : ∀ p cp, (sink.codepoint p cp).1.registers = p.registers

/-- A sink that leaves the lexer alone, and takes runs of plain bytes or fails. -/
structure StringSink.Steady (sink : StringSink σ) : Prop extends sink.Keeps where
  finish : ∀ p, (sink.finish p).1.registers = p.registers
  runs : ∀ p data, (sink.run p data).2 ≠ .truncated

theorem discardSink_steady (env : Env σ) : (discardSink env).Steady where
  run _ _ := rfl
  byte _ _ := appendStringByte_registers _
  codepoint _ _ := appendUnicodeCodepoint_registers _
  finish _ := deliverToken_registers _
  runs _ _ := Status.noConfusion

theorem directSink_steady (env : Env σ) : (directSink env).Steady where
  run _ _ := rfl
  byte _ _ := rfl
  codepoint _ _ := rfl
  finish p := by
    refine andThenOk_registers finishDirectString_registers fun q hq => ?_
    rw [← hq]
    exact deliverToken_registers _
  runs _ _ := directStringAppendBytes_untruncated _ _

theorem generalSink_keeps (env : Env σ) : (generalSink env).Keeps where
  run p data := by
    rw [generalSink]
    dsimp only
    split
    · exact orFull_registers _ fun q => scratchAppendBytes_registers
    · rfl
    · rfl
    · rfl
    · rfl
  byte _ _ := appendStringByte_registers _
  codepoint _ _ := appendUnicodeCodepoint_registers _

theorem generalSink_steady {env : Env σ} (henv : env.TakesText) : (generalSink env).Steady where
  toKeeps := generalSink_keeps env
  finish p := by
    rw [generalSink]
    dsimp only
    split
    · exact finishDirectString_registers
    · exact finishJsonString_registers
    · refine andThenOk_registers finishStreamValue_registers fun q hq => ?_
      rw [← hq]
      exact deliverToken_registers _
    · exact deliverToken_registers _
  runs p data := by
    rw [generalSink]
    dsimp only
    split
    · cases p.scratchAppendBytes data <;> exact Status.noConfusion
    · exact directStringAppendBytes_untruncated _ _
    · exact jsonValueStringChunk_untruncated henv _ _
    · exact streamValueAppend_untruncated henv _ _
    · exact Status.noConfusion

/-- A scan that goes on has moved over the bytes it used, none of which is a newline, and ends
the string only behind a byte. -/
def Moved (p : Parser σ) (bytes : Bytes) (pos : ℕ) (r : (Parser σ × Status) × ℕ) : Prop :=
  ∃ s, s <+: bytes ∧ r.2 = pos + s.length ∧ (0x0a : Byte) ∉ s ∧
    r.1.1.pos = (p.advance s.length).pos ∧
    (r.1.1.lexMode = p.lexMode ∨ r.1.1.lexMode = .none ∧ s ≠ [])

theorem Moved.of_registers {p q : Parser σ} {status : Status} {bytes : Bytes} {pos : ℕ}
    (h : q.registers = p.registers) : Moved p bytes pos ((q, status), pos) :=
  ⟨[], List.nil_prefix, rfl, List.not_mem_nil, pos_of_registers h, .inl (lexMode_of_registers h)⟩

theorem Moved.cons {p q : Parser σ} {s rest bytes : Bytes} {pos : ℕ} {r : (Parser σ × Status) × ℕ}
    (hbytes : s ++ rest = bytes) (hs : (0x0a : Byte) ∉ s) (hpos : q.pos = (p.advance s.length).pos)
    (hmode : q.lexMode = p.lexMode) (h : Moved q rest (pos + s.length) r) :
    Moved p bytes pos r := by
  subst hbytes
  obtain ⟨t, ht, hused, hnew, hmoved, hend⟩ := h
  refine ⟨s ++ t, (List.prefix_append_right_inj s).mpr ht, ?_, ?_, ?_, ?_⟩
  · rw [hused, List.length_append, Nat.add_assoc]
  · rw [List.mem_append]
    exact not_or.mpr ⟨hs, hnew⟩
  · rw [hmoved, List.length_append, ← advance_pos_add]
    simp only [Parser.advance, hpos]
  · rw [hmode] at hend
    exact hend.imp_right fun hbehind => ⟨hbehind.1, by simp [hbehind.2]⟩

theorem simpleEscape_newline : simpleEscape 0x0a = none := by decide

theorem hexValue_newline : hexValue 0x0a = none := by decide

theorem nextQuad_split {bytes : Bytes} {cp : ℕ} (h : nextQuad bytes = some cp) :
    ∃ s rest, bytes = s ++ rest ∧ s.length = 6 ∧ (0x0a : Byte) ∉ s := by
  unfold nextQuad at h
  split at h
  · rename_i a b c d rest
    obtain ⟨va, vb, vc, vd, ha, hb, hc, hd, -⟩ := decodeUnicodeQuad_eq_some.mp h
    refine ⟨[0x5c, 0x75, a, b, c, d], rest, rfl, rfl, fun hmem => ?_⟩
    simp only [List.mem_cons, List.not_mem_nil, or_false] at hmem
    rcases hmem with h | h | rfl | rfl | rfl | rfl
    · exact absurd h (by decide)
    · exact absurd h (by decide)
    all_goals simp_all [hexValue_newline]
  · cases h

section

variable {p : Parser σ} {bytes : Bytes} {pos : ℕ}

/-- An escape that is read at once, or left alone. -/
def Escapes (p : Parser σ) (bytes : Bytes) (r : (Parser σ × Status) × ℕ) : Prop :=
  ∃ s, s <+: bytes ∧ r.2 = s.length ∧ (0x0a : Byte) ∉ s ∧
    r.1.1.pos = (p.advance s.length).pos ∧ r.1.1.lexMode = p.lexMode

theorem Escapes.nothing {q : Parser σ} {status : Status} (h : q.registers = p.registers) :
    Escapes p bytes ((q, status), 0) :=
  ⟨[], List.nil_prefix, rfl, List.not_mem_nil, pos_of_registers h, lexMode_of_registers h⟩

theorem Escapes.reads {q : Parser σ} {status : Status} {n : ℕ} {s rest : Bytes}
    (hbytes : bytes = s ++ rest) (hlength : s.length = n) (hs : (0x0a : Byte) ∉ s)
    (hpos : q.pos = (p.advance n).pos) (hmode : q.lexMode = p.lexMode) :
    Escapes p bytes ((q, status), n) := by
  subst hlength hbytes
  exact ⟨s, List.prefix_append _ _, rfl, hs, hpos, hmode⟩

theorem Escapes.moved {r : (Parser σ × Status) × ℕ} (h : Escapes p bytes r) :
    Moved p bytes pos (r.1, pos + r.2) := by
  obtain ⟨s, hs, hused, hnew, hmoved, hmode⟩ := h
  exact ⟨s, hs, by rw [hused], hnew, hmoved, .inl hmode⟩

theorem consumeSimpleEscape_escapes {append : Parser σ → Byte → Parser σ × Status}
    (happend : ∀ p ch, (append p ch).1.registers = p.registers) :
    Escapes p bytes (consumeSimpleEscape append p bytes) ∧
      ((consumeSimpleEscape append p bytes).2 = 0 →
        (consumeSimpleEscape append p bytes).1 = (p, .ok)) := by
  unfold consumeSimpleEscape
  split
  · rename_i letter rest
    split
    · exact ⟨.nothing rfl, fun _ => rfl⟩
    · split
      · exact ⟨.nothing rfl, fun _ => rfl⟩
      · rename_i ch hch
        refine ⟨?_, fun h => by cases h⟩
        refine .reads (s := [0x5c, letter]) rfl rfl ?_ (pos_of_registers (happend _ ch))
          ((lexMode_of_registers (happend _ ch)).trans rfl)
        rintro (_ | ⟨_, _ | ⟨_, h⟩⟩)
        · rw [simpleEscape_newline] at hch
          cases hch
        · cases h
  · exact ⟨.nothing rfl, fun _ => rfl⟩

theorem consumeUnicodeEscape_escapes {append : Parser σ → ℕ → Parser σ × Status}
    (happend : ∀ p cp, (append p cp).1.registers = p.registers) :
    Escapes p bytes (consumeUnicodeEscape append p bytes) := by
  rw [consumeUnicodeEscape]
  split
  · exact .nothing rfl
  rename_i cp hcp
  obtain ⟨s, rest, hbytes, hlength, hs⟩ := nextQuad_split hcp
  split
  · split
    · exact .reads hbytes hlength hs ((pos_of_registers (happend _ _)).trans rfl)
        ((lexMode_of_registers (happend _ _)).trans rfl)
    · exact .nothing rfl
  split
  · split
    · exact .nothing rfl
    · rename_i low hlow
      obtain ⟨t, rest', hrest, hlength', ht⟩ := nextQuad_split hlow
      split
      · have hquads : bytes = (s ++ t) ++ rest' := by
          rw [hbytes, List.drop_left' hlength] at hrest
          rw [hbytes, hrest, List.append_assoc]
        exact .reads hquads (by simp [hlength, hlength']) (by simp [hs, ht])
          (pos_of_registers (happend _ _)) ((lexMode_of_registers (happend _ _)).trans rfl)
      · exact .nothing rfl
  split
  · exact .nothing rfl
  · exact .reads hbytes hlength hs (pos_of_registers (happend _ _))
      ((lexMode_of_registers (happend _ _)).trans rfl)

theorem consumeEscape_escapes {sink : StringSink σ} (hsink : sink.Keeps) :
    Escapes p bytes (consumeEscape sink p bytes) := by
  obtain ⟨hsimple, hnone⟩ := @consumeSimpleEscape_escapes _ p bytes _ hsink.byte
  rw [consumeEscape]
  split
  · exact hsimple
  · rename_i hcond
    push Not at hcond
    rw [hnone hcond.2]
    exact consumeUnicodeEscape_escapes hsink.codepoint

theorem stringLoop_moved {sink : StringSink σ} (hsink : sink.Steady) (fuel : ℕ)
    (h : (stringLoop sink fuel p bytes pos).1.2.soft = true) :
    Moved p bytes pos (stringLoop sink fuel p bytes pos) := by
  induction fuel generalizing p bytes pos with
  | zero => exact .of_registers rfl
  | succ fuel ih =>
      rw [stringLoop] at h ⊢
      split
      · exact .of_registers rfl
      rename_i hne
      rw [if_neg hne] at h
      dsimp only at h ⊢
      have hplain : (0x0a : Byte) ∉ bytes.takeWhile isPlain := fun hmem =>
        isPlain_ne_newline (List.all_eq_true.mp List.all_takeWhile _ hmem) rfl
      generalize hr : (if bytes.takeWhile isPlain = [] then (p, Status.ok)
        else sink.run p (bytes.takeWhile isPlain)) = r at h ⊢
      have hregisters : r.1.registers = p.registers := by
        rw [← hr]
        split
        · rfl
        · exact hsink.run _ _
      have huntruncated : r.2 ≠ .truncated := by
        rw [← hr]
        split
        · exact Status.noConfusion
        · exact hsink.runs _ _
      by_cases hok : r.2 = .ok
      swap
      · rw [if_pos hok] at h
        rcases (by simpa [Status.soft] using h : r.2 = .ok ∨ r.2 = .truncated) with hs | hs
        · exact absurd hs hok
        · exact absurd hs huntruncated
      rw [if_neg (not_not.mpr hok)] at h ⊢
      have hpos : (r.1.advance (bytes.takeWhile isPlain).length).pos =
          (p.advance (bytes.takeWhile isPlain).length).pos := by
        rw [Parser.advance, pos_of_registers hregisters]
        rfl
      have hmode : (r.1.advance (bytes.takeWhile isPlain).length).lexMode = p.lexMode :=
        (lexMode_of_registers hregisters :)
      refine Moved.cons List.takeWhile_append_dropWhile hplain hpos hmode ?_
      generalize r.1.advance (bytes.takeWhile isPlain).length = q at h ⊢
      generalize pos + (bytes.takeWhile isPlain).length = pos at h ⊢
      generalize bytes.dropWhile isPlain = rest at h ⊢
      cases rest with
      | nil => exact .of_registers rfl
      | cons ch rest =>
          dsimp only at h ⊢
          split
          · rename_i hquote
            rw [if_pos hquote] at h
            split
            · rename_i hpending
              rw [if_pos hpending] at h
              cases h
            · have hfinish := hsink.finish { q.advance 1 with lexMode := .none }
              refine ⟨[ch], ⟨rest, rfl⟩, rfl, ?_, (pos_of_registers hfinish).trans rfl,
                .inr ⟨(lexMode_of_registers hfinish).trans rfl, List.cons_ne_nil _ _⟩⟩
              rw [hquote]
              decide
          rename_i hquote
          rw [if_neg hquote] at h
          split
          swap
          · rename_i hescape
            rw [if_neg hescape] at h
            cases h
          rename_i hescape
          rw [if_pos hescape] at h
          have hescapes := @consumeEscape_escapes _ q (ch :: rest) _ hsink.toKeeps
          generalize consumeEscape sink q (ch :: rest) = e at h hescapes ⊢
          split
          · exact hescapes.moved
          rename_i hok
          rw [if_neg hok] at h
          split
          · rename_i hused
            rw [if_pos hused] at h
            obtain ⟨s, ⟨t, hst⟩, hlength, hs, hpos, hmode⟩ := hescapes
            rw [← hst, hlength, List.drop_left] at h ⊢
            exact (ih h).cons rfl hs hpos hmode
          · rename_i hused
            rw [not_not] at hused
            have hmoved : Moved q (ch :: rest) pos _ := hescapes.moved
            rwa [hused] at hmoved

theorem consumeStringFast_moved {env : Env σ} (henv : env.TakesText)
    (h : (consumeStringFast env p bytes).1.2.soft = true) :
    Moved p bytes 0 (consumeStringFast env p bytes) := by
  rw [consumeStringFast] at h ⊢
  split at h
  · exact stringLoop_moved (discardSink_steady env) _ h
  · exact stringLoop_moved (directSink_steady env) _ h
  · dsimp only at h ⊢
    split at h
    · rename_i hkey
      rw [if_pos hkey]
      obtain ⟨-, -, -, hquote⟩ := hkey
      have hplain : (0x0a : Byte) ∉ bytes.takeWhile isPlain := fun hmem =>
        isPlain_ne_newline (List.all_eq_true.mp List.all_takeWhile _ hmem) rfl
      obtain ⟨tail, htail⟩ : ∃ tail, bytes.dropWhile isPlain = 0x22 :: tail :=
        List.head?_eq_some_iff.mp hquote
      have hbytes : bytes = (bytes.takeWhile isPlain ++ [0x22]) ++ tail := by
        rw [List.append_assoc, List.singleton_append, ← htail, List.takeWhile_append_dropWhile]
      refine ⟨bytes.takeWhile isPlain ++ [0x22], ⟨tail, hbytes.symm⟩, ?_, ?_, ?_, .inr ⟨?_, ?_⟩⟩
      · rw [List.length_append, Nat.zero_add]
        rfl
      · rw [List.mem_append]
        exact not_or.mpr ⟨hplain, by decide⟩
      · rw [List.length_append]
        exact (pos_of_registers (deliverKeyText_registers _)).trans rfl
      · exact (lexMode_of_registers (deliverKeyText_registers _)).trans rfl
      · exact List.append_ne_nil_of_right_ne_nil _ (List.cons_ne_nil _ _)
    · rename_i hkey
      rw [if_neg hkey]
      exact stringLoop_moved (generalSink_steady henv) _ h

end

/-! ## One character -/

section

variable {env : Env σ} {p : Parser σ}

theorem beginStringLex_pos (isKey : Bool) : (beginStringLex env p isKey).1.pos = p.pos :=
  (congrArg Registers.pos (beginStringLex_registers isKey)).trans rfl

theorem beginStringValueLex_pos (ref : Option FieldRef) (ptr : SlotPtr) :
    (beginStringValueLex env p ref ptr).1.pos = p.pos := by
  rcases @beginStringValueLex_registers _ env p ref ptr with h | ⟨h, -⟩
  · exact (congrArg Registers.pos h).trans rfl
  · exact pos_of_registers h

theorem beginNumberLex_pos (ch : Byte) : (beginNumberLex env p ch).1.pos = p.pos :=
  (congrArg Registers.pos (beginNumberLex_registers ch)).trans rfl

theorem beginLiteralLex_pos (mode : LexMode) (ch : Byte) :
    (beginLiteralLex env p mode ch).1.pos = p.pos :=
  (congrArg Registers.pos (beginLiteralLex_registers mode ch)).trans rfl

theorem prepareToken_pos : (prepareToken env p).1.pos = p.pos :=
  pos_of_registers prepareToken_registers

theorem andThenOk_pos {w : Pos} {r : Parser σ × Status} {k : Parser σ → Parser σ × Status}
    (hr : r.1.pos = w) (hk : ∀ q : Parser σ, q.pos = w → (k q).1.pos = w) :
    (andThenOk r k).1.pos = w := by
  rw [andThenOk]
  split
  · exact hk _ hr
  · exact hr

theorem consumeHexDigit_pos (ch : Byte) : (consumeHexDigit env p ch).1.pos = p.pos := by
  rw [consumeHexDigit]
  split
  · rfl
  dsimp only
  split
  · rfl
  split
  · split
    · exact (pos_of_registers (appendUnicodeCodepoint_registers _)).trans rfl
    · rfl
  split
  · rfl
  split
  · rfl
  · exact (pos_of_registers (appendUnicodeCodepoint_registers _)).trans rfl

theorem finishStringChar_pos : (finishStringChar env p).1.pos = p.pos := by
  rw [finishStringChar]
  dsimp only
  split
  · rfl
  split
  · exact (pos_of_registers (deliverToken_registers _)).trans rfl
  · exact (pos_of_registers (deliverToken_registers _)).trans rfl
  · exact (pos_of_registers finishDirectString_registers).trans rfl
  · exact (pos_of_registers finishJsonString_registers).trans rfl
  · split
    · exact (pos_of_registers (deliverToken_registers _)).trans rfl
    · rfl

theorem consumeStringChar_pos (ch : Byte) : (consumeStringChar env p ch).1.pos = p.pos := by
  rw [consumeStringChar]
  split
  · exact consumeHexDigit_pos ch
  split
  · dsimp only
    split
    · exact (pos_of_registers (appendStringByte_registers _)).trans rfl
    · split <;> rfl
  split
  · rfl
  split
  · exact finishStringChar_pos
  split
  · rfl
  split
  · rfl
  · exact pos_of_registers (orFull_registers _ fun q => scratchAppend_registers)

theorem consumeLiteralChar_pos (literal : Bytes) (ch : Byte) :
    (consumeLiteralChar env p literal ch).1.pos = p.pos := by
  rw [consumeLiteralChar]
  split
  · split
    · rfl
    · rename_i hq
      have hpos := pos_of_registers (scratchAppend_registers hq)
      split
      · exact (pos_of_registers (deliverToken_registers _)).trans hpos
      · exact hpos
  · rfl

theorem beginScalar_pos {ch : Byte} {r : Parser σ × Status} (h : beginScalar env p ch = some r) :
    r.1.pos = p.pos := by
  rw [beginScalar] at h
  split at h
  · cases h
    exact beginNumberLex_pos ch
  split at h
  · cases h
    exact beginLiteralLex_pos _ ch
  · cases h

theorem getD_beginScalar_pos (ch : Byte) (message : String) :
    ((beginScalar env p ch).getD (p.setError .invalidJson message)).1.pos = p.pos := by
  cases h : beginScalar env p ch with
  | none => rfl
  | some r => exact beginScalar_pos h

theorem consumeRootChar_pos (ch : Byte) : (consumeRootChar env p ch).1.pos = p.pos := by
  have hnot {q : Parser σ} : (if env.validateOnly then (q, Status.ok)
      else q.setError .typeMismatch "root value must be an object").1.pos = q.pos := by
    split <;> rfl
  rw [consumeRootChar]
  dsimp only
  split
  · exact pos_of_registers beginObjectValue_registers
  split
  · exact pos_of_registers beginArrayValue_registers
  split
  · split
    · split
      · exact andThenOk_pos rfl fun q hq => hq
      · rfl
    · exact andThenOk_pos (prepareToken_pos.trans rfl) fun q hq => hq
  split
  · exact andThenOk_pos (beginNumberLex_pos ch) fun q hq => hnot.trans hq
  split
  · exact andThenOk_pos (beginLiteralLex_pos _ ch) fun q hq => hnot.trans hq
  split <;> rfl

theorem consumeComma_pos (next : FrameState) : (consumeComma env p next).1.pos = p.pos := by
  rw [consumeComma]
  refine andThenOk_pos ?_ fun q hq => hq
  split <;> rfl

theorem consumeMemberValue_pos (frame : Frame) (ch : Byte) :
    (consumeMemberValue env p frame ch).1.pos = p.pos := by
  rw [consumeMemberValue]
  dsimp only
  split
  · split
    · rfl
    · split
      · rfl
      · exact prepareToken_pos.trans rfl
  split
  · exact pos_of_registers beginObjectValue_registers
  split
  · exact pos_of_registers beginArrayValue_registers
  split
  · rw [beginTrueMember]
    refine andThenOk_pos (prepareToken_pos.trans rfl) fun q hq => ?_
    cases hfull : q.scratchAppend 0x74 with
    | none => exact hq
    | some q' => exact (pos_of_registers (scratchAppend_registers hfull)).trans hq
  · exact getD_beginScalar_pos ch _

theorem consumeItemValue_pos (frame : Frame) (ch : Byte) :
    (consumeItemValue env p frame ch).1.pos = p.pos := by
  rw [consumeItemValue]
  split
  · split
    · rfl
    · exact pos_of_registers finalizeArray_registers
  dsimp only
  split
  · exact (beginStringValueLex_pos _ _).trans rfl
  split
  · exact (pos_of_registers beginObjectValue_registers).trans rfl
  split
  · exact (pos_of_registers beginArrayValue_registers).trans rfl
  · exact (getD_beginScalar_pos ch _).trans rfl

theorem consumeFrameChar_pos (frame : Frame) (ch : Byte) :
    (consumeFrameChar env p frame ch).1.pos = p.pos := by
  unfold consumeFrameChar
  split
  · split
    · split
      · rfl
      · exact pos_of_registers finalizeObject_registers
    split
    · rfl
    · exact prepareToken_pos.trans rfl
  · split <;> rfl
  · exact consumeMemberValue_pos frame ch
  · split
    · exact consumeComma_pos _
    split
    · exact pos_of_registers finalizeObject_registers
    · rfl
  · rfl
  · exact consumeItemValue_pos frame ch
  · split
    · exact consumeComma_pos _
    split
    · exact pos_of_registers finalizeArray_registers
    · rfl
  · rfl

theorem consumeStructuralChar_pos (ch : Byte) :
    (consumeStructuralChar env p ch).1.pos = p.pos.step ch := by
  rw [consumeStructuralChar]
  dsimp only
  split
  · rfl
  split
  · exact (consumeRootChar_pos ch).trans rfl
  split
  · rfl
  · exact (consumeFrameChar_pos _ ch).trans rfl

/-- The parser as it is when a number ends in front of this character. -/
def Parser.endNumber (p : Parser σ) (ch : Byte) : Parser σ :=
  { p with pos := p.pos.step ch, lexMode := .none }

/-- The character is counted a second time: it ends a number in
`lonejson__parser_consume_char`, which calls itself for it. -/
def countsTwice (env : Env σ) (p : Parser σ) (ch : Byte) : Prop :=
  p.lexMode = .number ∧ isNumberByte ch = false ∧ (deliverToken env (p.endNumber ch) .number).2 = .ok

theorem consumeChar_pos (ch : Byte) (h : ¬ countsTwice env p ch) :
    (consumeChar env p ch).1.pos = p.pos.step ch := by
  unfold consumeChar
  dsimp only
  split
  · exact (consumeStringChar_pos ch).trans rfl
  · rename_i hmode
    rw [consumeNumberChar]
    split
    · exact (pos_of_registers (orFull_registers _ fun q => scratchAppend_registers)).trans rfl
    · rename_i hbyte
      have hfails : ¬ (deliverToken env (p.endNumber ch) .number).2 = .ok := fun hok =>
        h ⟨hmode, by simpa using hbyte, hok⟩
      dsimp only
      split
      · exact (pos_of_registers (deliverToken_registers _)).trans rfl
      · rename_i hok
        exact absurd (not_not.mp hok) hfails
  · exact (consumeLiteralChar_pos _ ch).trans rfl
  · exact (consumeLiteralChar_pos _ ch).trans rfl
  · exact (consumeLiteralChar_pos _ ch).trans rfl
  · exact consumeStructuralChar_pos ch

theorem consumeChar_pos_twice (ch : Byte) (h : countsTwice env p ch) :
    (consumeChar env p ch).1.pos = (p.pos.step ch).step ch := by
  obtain ⟨hmode, hbyte, hok⟩ := h
  unfold consumeChar
  dsimp only
  rw [hmode]
  dsimp only
  rw [consumeNumberChar, if_neg (by simp [hbyte])]
  dsimp only
  split
  · rename_i hfails
    exact absurd hok hfails
  · rw [consumeStructuralChar_pos]
    exact congrArg (·.step ch) ((pos_of_registers (deliverToken_registers _)).trans rfl)

end

/-! ## One turn -/

/-- The bytes that a turn uses without failing. -/
def Turn.used? : Turn → Option ℕ
  | .next used => some used
  | .stop status consumed => if status.soft then some consumed else none

/-- A turn that does not fail moves the position over the bytes it uses, and further when the byte it
starts with is counted twice. -/
def TurnMoves (env : Env σ) (p : Parser σ) (ch : Byte) (rest : Bytes) (r : Parser σ × Turn) : Prop :=
  ∀ used, r.2.used? = some used → ∃ s, s <+: ch :: rest ∧ used = s.length ∧
    (¬ countsTwice env p ch → p.pos.Passes s r.1.pos) ∧
    (countsTwice env p ch → r.1.pos.offset = p.pos.offset + s.length + 1)

section

variable {env : Env σ} {p : Parser σ} {ch : Byte} {rest : Bytes}

theorem not_countsTwice (h : p.lexMode ≠ .number) : ¬ countsTwice env p ch := fun htwice =>
  h htwice.1

theorem TurnMoves.of_passes {r : Parser σ × Turn} (htwice : ¬ countsTwice env p ch)
    (h : ∀ used, r.2.used? = some used → ∃ s, s <+: ch :: rest ∧ used = s.length ∧
      p.pos.Passes s r.1.pos) : TurnMoves env p ch rest r := by
  intro used hused
  obtain ⟨s, hs, hlength, hpasses⟩ := h used hused
  exact ⟨s, hs, hlength, fun _ => hpasses, fun h => absurd h htwice⟩

theorem turnSoft_used {r : Parser σ × Status} {n used : ℕ}
    (h : (turnSoft r n).2.used? = some used) : used = n ∧ (turnSoft r n).1 = r.1 := by
  rw [turnSoft] at h ⊢
  split at h
  · rename_i hsoft
    cases h
    rw [if_pos hsoft]
    exact ⟨rfl, rfl⟩
  · rename_i hhard
    rw [Turn.used?, if_neg hhard] at h
    cases h

theorem turnOk_used {r : Parser σ × Status} {n used : ℕ}
    (h : (turnOk r n).2.used? = some used) : used = n ∧ (turnOk r n).1 = r.1 := by
  rw [turnOk] at h ⊢
  split at h
  · rename_i hok
    cases h
    rw [if_pos hok]
    exact ⟨rfl, rfl⟩
  · rename_i hfails
    rw [if_neg hfails]
    rw [Turn.used?] at h
    split at h
    · cases h
      exact ⟨rfl, rfl⟩
    · cases h

theorem charTurn_moves : TurnMoves env p ch rest (charTurn env p ch) := by
  intro used hused
  obtain ⟨rfl, hparser⟩ := turnSoft_used hused
  refine ⟨[ch], ⟨rest, rfl⟩, rfl, fun htwice => ?_, fun htwice => ?_⟩
  · rw [charTurn, hparser, consumeChar_pos ch htwice]
    exact p.pos.passes_step ch
  · rw [charTurn, hparser, consumeChar_pos_twice ch htwice, ((p.pos.step ch).passes_step ch).offset,
      (p.pos.passes_step ch).offset]
    rfl

/-- A turn of one byte that is not a newline. -/
theorem passes_byte {q : Parser σ} (hch : ch ≠ 0x0a) (hpos : q.pos = (p.advance 1).pos) :
    p.pos.Passes [ch] q.pos := by
  rw [hpos]
  exact advance_passes p (s := [ch]) (by simpa using hch.symm)

theorem turnSoft_moves {r : Parser σ × Status} (hmode : p.lexMode ≠ .number) (hch : ch ≠ 0x0a)
    (hpos : r.1.pos = (p.advance 1).pos) : TurnMoves env p ch rest (turnSoft r 1) := by
  refine .of_passes (not_countsTwice hmode) fun used hused => ?_
  obtain ⟨rfl, hparser⟩ := turnSoft_used hused
  exact ⟨[ch], ⟨rest, rfl⟩, rfl, hparser ▸ passes_byte hch hpos⟩

theorem turnOk_moves {r : Parser σ × Status} (hmode : p.lexMode ≠ .number) (hch : ch ≠ 0x0a)
    (hpos : r.1.pos = (p.advance 1).pos) : TurnMoves env p ch rest (turnOk r 1) := by
  refine .of_passes (not_countsTwice hmode) fun used hused => ?_
  obtain ⟨rfl, hparser⟩ := turnOk_used hused
  exact ⟨[ch], ⟨rest, rfl⟩, rfl, hparser ▸ passes_byte hch hpos⟩

theorem stringTurn_moves (henv : env.TakesText) (hmode : p.lexMode = .string) :
    TurnMoves env p ch rest (stringTurn env p ch rest) := by
  have htwice : ¬ countsTwice env p ch := not_countsTwice (by rw [hmode]; decide)
  refine .of_passes htwice ?_
  rw [stringTurn]
  split
  · rename_i hhard
    have hhard : ¬ (consumeStringFast env p (ch :: rest)).1.2.soft = true := by simpa using hhard
    intro used hused
    simp only [Turn.used?, if_neg hhard] at hused
    cases hused
  rename_i hsoft
  obtain ⟨s, hs, hlength, hnew, hpos, hend⟩ := consumeStringFast_moved henv (by simpa using hsoft)
  rw [Nat.zero_add] at hlength
  split
  · rintro used ⟨⟩
    refine ⟨s, hs, hlength, ?_⟩
    rw [hpos]
    exact advance_passes p hnew
  · rename_i hstays
    push Not at hstays
    -- nothing was used: the byte is read as a character of the string
    have hempty : s = [] := List.length_eq_zero_iff.mp (hlength ▸ hstays.2)
    have hstring : (consumeStringFast env p (ch :: rest)).1.1.lexMode = .string :=
      (hend.resolve_right fun h => hstays.1 h.1).trans hmode
    intro used hused
    obtain ⟨s', hs', hlength', hpasses, -⟩ := @charTurn_moves _ _ _ _ rest used hused
    have hpasses := hpasses (not_countsTwice (by rw [hstring]; decide))
    rw [hpos, hempty] at hpasses
    exact ⟨s', hs', hlength', hpasses⟩

theorem isNumberByte_ne_newline {b : Byte} (hb : isNumberByte b = true) : b ≠ 0x0a := by
  rintro rfl
  exact absurd hb (by decide)

theorem numberTurn_moves : TurnMoves env p ch rest (numberTurn env p ch rest) := by
  rw [numberTurn]
  dsimp only
  split
  · exact charTurn_moves
  rename_i hrun
  have hbyte : isNumberByte ch = true := by
    by_contra hbyte
    exact hrun (List.takeWhile_cons_of_neg hbyte)
  have htwice : ¬ countsTwice env p ch := fun h => by
    rw [h.2.1] at hbyte
    cases hbyte
  have hnew : (0x0a : Byte) ∉ (ch :: rest).takeWhile isNumberByte := fun hmem =>
    isNumberByte_ne_newline (List.all_eq_true.mp List.all_takeWhile _ hmem) rfl
  refine .of_passes htwice ?_
  split
  · rintro used ⟨⟩
  rename_i q hq
  have hregisters := scratchAppendBytes_registers hq
  split
  · rename_i hall
    rintro used ⟨⟩
    refine ⟨_, List.takeWhile_prefix _, rfl, ?_⟩
    exact (pos_of_registers hregisters ▸ advance_passes q hnew :)
  · intro used hused
    obtain ⟨rfl, hparser⟩ := turnSoft_used hused
    refine ⟨_, List.takeWhile_prefix _, rfl, ?_⟩
    rw [hparser, pos_of_registers (deliverToken_registers _)]
    exact (pos_of_registers hregisters ▸ advance_passes q hnew :)

theorem beginScalar_ne_newline {r : Parser σ × Status} (h : beginScalar env p ch = some r) :
    ch ≠ 0x0a := by
  rintro rfl
  cases h

theorem frameTurn_moves (hmode : p.lexMode ≠ .number) (active : Frame) :
    TurnMoves env p ch rest (frameTurn env p active ch) := by
  unfold frameTurn
  dsimp only
  split
  · split
    · rename_i hch
      exact turnSoft_moves hmode (by rw [hch]; decide) (beginStringLex_pos _)
    · exact charTurn_moves
  · split
    · rename_i hch
      refine .of_passes (not_countsTwice hmode) ?_
      rintro used ⟨⟩
      exact ⟨[ch], ⟨rest, rfl⟩, rfl, passes_byte (by rw [hch]; decide) rfl⟩
    · exact charTurn_moves
  · split
    · rename_i hch
      split
      · rintro used ⟨⟩
      · exact turnSoft_moves hmode (by rw [hch]; decide) (beginStringValueLex_pos _ _)
    · split
      · rename_i hr
        exact turnSoft_moves hmode (beginScalar_ne_newline hr) (beginScalar_pos hr)
      · exact charTurn_moves
  · split
    · rename_i hch
      exact turnOk_moves hmode (by rw [hch]; decide) (consumeComma_pos _)
    split
    · rename_i hch
      exact turnSoft_moves hmode (by rw [hch]; decide) (pos_of_registers finalizeObject_registers)
    · exact charTurn_moves
  · split
    · rename_i hch
      exact turnSoft_moves hmode (by rw [hch]; decide) (beginStringValueLex_pos _ _)
    · split
      · rename_i hr
        exact turnSoft_moves hmode (beginScalar_ne_newline hr) (beginScalar_pos hr)
      · exact charTurn_moves
  · split
    · rename_i hch
      exact turnOk_moves hmode (by rw [hch]; decide) (consumeComma_pos _)
    split
    · rename_i hch
      exact turnSoft_moves hmode (by rw [hch]; decide) (pos_of_registers finalizeArray_registers)
    · exact charTurn_moves
  · exact charTurn_moves

theorem feedTurn_moves (henv : env.TakesText) : TurnMoves env p ch rest (feedTurn env p ch rest) := by
  rw [feedTurn]
  split
  · rename_i hstring
    exact stringTurn_moves henv hstring.1
  split
  · exact numberTurn_moves
  rename_i hmode
  split
  · exact frameTurn_moves hmode _
  · exact charTurn_moves

end

/-! ## Runs -/

/-- Calls of `lonejson__parser_feed_bytes`, one after another: the parser and the bytes that
were consumed, unless a call fails. -/
def feedAll (env : Env σ) (stopAtRoot : Bool) : Parser σ → List Bytes → Option (Parser σ × Bytes)
  | p, [] => some (p, [])
  | p, chunk :: rest =>
    let r := feedBytes env stopAtRoot p chunk
    if r.1.2.soft then
      (feedAll env stopAtRoot r.1.1 rest).map fun q => (q.1, chunk.take r.2 ++ q.2)
    else none

/-- No turn of the loop counts a byte twice. -/
def LoopCountsOnce (env : Env σ) (stopAtRoot : Bool) : ℕ → Parser σ → Bytes → Prop
  | _, _, [] => True
  | 0, _, _ => True
  | fuel + 1, p, ch :: rest =>
    (stopAtRoot && rootComplete p) = true ∨
      ¬ countsTwice env p ch ∧
        match feedTurn env p ch rest with
        | (q, .next used) => LoopCountsOnce env stopAtRoot fuel q ((ch :: rest).drop used)
        | (_, .stop _ _) => True

/-- No turn of the calls counts a byte twice. -/
def CountsOnce (env : Env σ) (stopAtRoot : Bool) : Parser σ → List Bytes → Prop
  | _, [] => True
  | p, chunk :: rest =>
    (p.core.failed = true ∨ LoopCountsOnce env stopAtRoot chunk.length p chunk) ∧
      CountsOnce env stopAtRoot (feedBytes env stopAtRoot p chunk).1.1 rest

/-- The offset is that of a text exactly when no byte was counted twice, and so is the line then;
otherwise the offset is ahead. -/
structure Pos.Counts (pos : Pos) (s : Bytes) (pos' : Pos) (once : Prop) : Prop where
  passes : once → pos.Passes s pos'
  ahead : ¬ once → pos.offset + s.length < pos'.offset

theorem Pos.Counts.le {pos pos' : Pos} {s : Bytes} {once : Prop} (h : pos.Counts s pos' once) :
    pos.offset + s.length ≤ pos'.offset := by
  by_cases honce : once
  · exact (h.passes honce).offset.ge
  · exact (h.ahead honce).le

theorem Pos.Counts.trans {pos pos' pos'' : Pos} {s t : Bytes} {once once' : Prop}
    (h : pos.Counts s pos' once) (h' : pos'.Counts t pos'' once') :
    pos.Counts (s ++ t) pos'' (once ∧ once') := by
  constructor
  · rintro ⟨honce, honce'⟩
    exact (h.passes honce).trans (h'.passes honce')
  · intro hnot
    rw [List.length_append]
    rcases not_and_or.mp hnot with hahead | hahead
    · have hlt := h.ahead hahead
      have hle := h'.le
      omega
    · have hle := h.le
      have hlt := h'.ahead hahead
      omega

theorem Pos.Counts.refl (pos : Pos) {once : Prop} (honce : once) : pos.Counts [] pos once :=
  ⟨fun _ => .refl pos, fun h => absurd honce h⟩

theorem Pos.Counts.congr {pos pos' : Pos} {s : Bytes} {once once' : Prop}
    (h : pos.Counts s pos' once) (hiff : once ↔ once') : pos.Counts s pos' once' :=
  propext hiff ▸ h

theorem TurnMoves.counts {env : Env σ} {p : Parser σ} {ch : Byte} {rest : Bytes}
    {r : Parser σ × Turn} (h : TurnMoves env p ch rest r) {used : ℕ} (hused : r.2.used? = some used) :
    ∃ s, s <+: ch :: rest ∧ used = s.length ∧ p.pos.Counts s r.1.pos (¬ countsTwice env p ch) := by
  obtain ⟨s, hs, hlength, honce, htwice⟩ := h used hused
  refine ⟨s, hs, hlength, honce, fun h => ?_⟩
  rw [htwice (not_not.mp h)]
  exact Nat.lt_succ_self _

section

variable {env : Env σ} {stopAtRoot : Bool}

theorem feedLoop_counts (henv : env.TakesText) (fuel : ℕ) (p : Parser σ) (bytes : Bytes) (i : ℕ)
    (hsoft : (feedLoop env stopAtRoot fuel p bytes i).1.2.soft = true) :
    ∃ s, s <+: bytes ∧ (feedLoop env stopAtRoot fuel p bytes i).2 = i + s.length ∧
      p.pos.Counts s (feedLoop env stopAtRoot fuel p bytes i).1.1.pos
        (LoopCountsOnce env stopAtRoot fuel p bytes) := by
  induction fuel generalizing p bytes i with
  | zero =>
      cases bytes with
      | nil => exact ⟨[], List.nil_prefix, rfl, .refl _ trivial⟩
      | cons ch rest => exact ⟨[], List.nil_prefix, rfl, .refl _ trivial⟩
  | succ fuel ih =>
      cases bytes with
      | nil => exact ⟨[], List.nil_prefix, rfl, .refl _ trivial⟩
      | cons ch rest =>
          rw [feedLoop] at hsoft ⊢
          rw [LoopCountsOnce]
          split
          · rename_i hroot
            exact ⟨[], List.nil_prefix, rfl, .refl _ (.inl hroot)⟩
          rename_i hroot
          rw [if_neg hroot] at hsoft
          have hmoves := @feedTurn_moves _ _ p ch rest henv
          generalize feedTurn env p ch rest = turn at hsoft hmoves ⊢
          obtain ⟨q, used | ⟨status, consumed⟩⟩ := turn
          · obtain ⟨s, ⟨t, hst⟩, rfl, hcounts⟩ := hmoves.counts rfl
            dsimp only at hsoft ⊢
            rw [← hst, List.drop_left] at hsoft ⊢
            obtain ⟨s', hs', hused, hcounts'⟩ := ih q t _ hsoft
            refine ⟨s ++ s', (List.prefix_append_right_inj s).mpr hs', ?_, ?_⟩
            · rw [hused, List.length_append, Nat.add_assoc]
            · exact (hcounts.trans hcounts').congr (by simp [hroot])
          · obtain ⟨s, hs, rfl, hcounts⟩ := hmoves.counts (if_pos hsoft)
            exact ⟨s, hs, rfl, hcounts.congr (by simp [hroot])⟩

theorem feedBytes_counts (henv : env.TakesText) (p : Parser σ) (bytes : Bytes)
    (hsoft : (feedBytes env stopAtRoot p bytes).1.2.soft = true) :
    ∃ s, s <+: bytes ∧ (feedBytes env stopAtRoot p bytes).2 = s.length ∧
      p.pos.Counts s (feedBytes env stopAtRoot p bytes).1.1.pos
        (p.core.failed = true ∨ LoopCountsOnce env stopAtRoot bytes.length p bytes) := by
  rw [feedBytes] at hsoft ⊢
  split
  · rename_i hfailed
    exact ⟨[], List.nil_prefix, rfl, .refl _ (.inl hfailed)⟩
  · rename_i hfailed
    rw [if_neg hfailed] at hsoft
    obtain ⟨s, hs, hused, hcounts⟩ := feedLoop_counts henv _ p bytes 0 hsoft
    exact ⟨s, hs, hused.trans (Nat.zero_add _), hcounts.congr (by simp [hfailed])⟩

theorem feedAll_counts (henv : env.TakesText) (chunks : List Bytes) (p : Parser σ) {q : Parser σ}
    {text : Bytes} (h : feedAll env stopAtRoot p chunks = some (q, text)) :
    p.pos.Counts text q.pos (CountsOnce env stopAtRoot p chunks) := by
  induction chunks generalizing p text with
  | nil =>
      cases h
      exact .refl _ trivial
  | cons chunk chunks ih =>
      rw [feedAll] at h
      split at h
      swap
      · cases h
      rename_i hsoft
      obtain ⟨⟨q', text'⟩, hrest, heq⟩ := Option.map_eq_some_iff.mp h
      cases heq
      obtain ⟨s, ⟨t, hst⟩, hused, hcounts⟩ := feedBytes_counts henv p chunk hsoft
      rw [hused]
      have htake : chunk.take s.length = s := by
        rw [← hst, List.take_left]
      rw [htake]
      exact hcounts.trans (ih _ hrest)

end

theorem bare_takesText : Env.bare.validating.TakesText := fun _ _ _ _ => Status.noConfusion

end Lonejson
