import Lonejson.Base64
import Lonejson.Pull
import Lonejson.Writer

/-!
# Base64 members that are written in chunks

The three writers of a base64 member: the serializer's loops over a spooled value and over
a source, and the generator's frame. Each reads its content a chunk at a time and keeps up
to two bytes that do not fill a group; the text between the quotes is the encoder's.
-/

namespace Lonejson

open Json (Holds)

/-! ## Reading -/

/-- What opening or rewinding a cursor leads to: a message, or the results of the reads. -/
abbrev Cursor := Except String (List ReadResult)

/-- The reads return a content: none of them is empty but the one that reports the end,
which may carry bytes. -/
inductive Delivers : List ReadResult → Bytes → Prop where
  | last (data : Bytes) (more : List ReadResult) :
      Delivers ({ bytes := data, eof := true } :: more) data
  | chunk {data content : Bytes} {reads : List ReadResult} (hdata : data ≠ [])
      (hreads : Delivers reads content) : Delivers ({ bytes := data } :: reads) (data ++ content)

variable {τ : Type}

/-! ## The serializer -/

/-- The loop of `lonejson_base64_encode_sink`, which ends at the first status but OK. -/
def base64EmitPieces (sink : Sink τ) : JsonIo τ → List Bytes → JsonIo τ
  | io, [] => io.done
  | io, piece :: pieces =>
    let io := io.call sink piece
    if io.status = .ok then base64EmitPieces sink io pieces else io

/-- `lonejson_base64_encode_sink`. -/
def base64EncodeSink (sink : Sink τ) (variant : Base64Variant) (data : Bytes) (io : JsonIo τ) :
    JsonIo τ :=
  base64EmitPieces sink { io with error := {} } (base64Pieces variant data)

/-- `lonejson__emit_base64_bytes`, and a return unless the status is one to go on with. -/
def emitBase64Bytes (sink : Sink τ) (io : JsonIo τ) (data : Bytes) :
    Except (JsonIo τ) (JsonIo τ) :=
  let io := base64EncodeSink sink .standard data io
  if io.status.soft then .ok io else .error io

/-- The groups of a chunk, and the bytes behind the last of them. -/
def serializeGroups (sink : Sink τ) : Bytes → JsonIo τ → Except (JsonIo τ) (Bytes × JsonIo τ)
  | a :: b :: c :: rest, io => (emitBase64Bytes sink io [a, b, c]).bind (serializeGroups sink rest)
  | rest, io => .ok (rest, io)

/-- A chunk behind the bytes that are carried. -/
def serializeChunk (sink : Sink τ) (carry data : Bytes) (io : JsonIo τ) :
    Except (JsonIo τ) (Bytes × JsonIo τ) :=
  if carry ≠ [] then
    let taken := data.take (3 - carry.length)
    let data := data.drop (3 - carry.length)
    let carry := carry ++ taken
    if carry.length = 3 then (emitBase64Bytes sink io carry).bind (serializeGroups sink data)
    else (serializeGroups sink data io).map fun x => (carry ++ x.1, x.2)
  else serializeGroups sink data io

/-- The loop over the chunks, up to the one that reports the end. -/
def serializeChunks (sink : Sink τ) (message : String) :
    List ReadResult → Bytes → JsonIo τ → Except (JsonIo τ) (Bytes × JsonIo τ)
  | [], carry, io => .ok (carry, io)
  | chunk :: reads, carry, io =>
    if chunk.errorCode ≠ 0 then .error (io.fail .ioError message)
    else
      (serializeChunk sink carry chunk.bytes io).bind fun x =>
        if chunk.eof then .ok x else serializeChunks sink message reads x.1 x.2

/-- Behind the loop: the bytes that are left, and the quote. -/
def serializeBase64Tail (sink : Sink τ) (x : Bytes × JsonIo τ) : Except (JsonIo τ) (JsonIo τ) :=
  if x.1 ≠ [] then (emitBase64Bytes sink x.2 x.1).bind fun io => io.emit sink [0x22]
  else x.2.emit sink [0x22]

/-- `lonejson__serialize_spooled_base64`; the cursor is the rewound value. -/
def serializeSpooledBase64 (sink : Sink τ) (cursor : Cursor) (io : JsonIo τ) :
    Except (JsonIo τ) (JsonIo τ) :=
  (io.emit sink [0x22]).bind fun io =>
    match cursor with
    | .error message => .error (io.fail .ioError message)
    | .ok reads =>
      (serializeChunks sink "failed to read spooled bytes" reads [] io).bind
        (serializeBase64Tail sink)

/-- `lonejson__serialize_source_base64`; `none` is a source of kind NONE. -/
def serializeSourceBase64 (sink : Sink τ) (source : Option Cursor) (io : JsonIo τ) :
    Except (JsonIo τ) (JsonIo τ) :=
  match source with
  | none => io.emit sink Json.nullText
  | some (.error message) => .error (io.fail .ioError message)
  | some (.ok reads) =>
    (io.emit sink [0x22]).bind fun io =>
      (serializeChunks sink "failed to read source bytes" reads [] io).bind
        (serializeBase64Tail sink)

/-! ## Groups that are carried -/

/-- A text of whole groups is written on. -/
theorem base64Text_append {variant : Base64Variant} {done : Bytes} (hdone : done.length % 3 = 0)
    (data : Bytes) :
    base64Text variant (done ++ data) = base64Text variant done ++ base64Text variant data := by
  induction done using base64Pieces.induct with
  | case1 a b c rest ih =>
    have hrest : rest.length % 3 = 0 := by
      simp only [List.length_cons] at hdone
      omega
    rw [List.cons_append, List.cons_append, List.cons_append, base64Text_cons, base64Text_cons,
      ih hrest, List.append_assoc]
  | case2 => rfl
  | case3 rest hthree hnil =>
    rcases rest with _ | ⟨a, _ | ⟨b, _ | ⟨c, rest⟩⟩⟩
    · exact (hnil rfl).elim
    · cases hdone
    · cases hdone
    · exact (hthree a b c rest rfl).elim

theorem length_lt_three {rest : Bytes}
    (h : ∀ (a b c : Byte) (more : Bytes), rest = a :: b :: c :: more → False) :
    rest.length < 3 := by
  match rest with
  | [] => exact Nat.zero_lt_succ _
  | [a] => exact Nat.lt_of_sub_eq_succ rfl
  | [a, b] => exact Nat.lt_succ_self _
  | a :: b :: c :: more => exact (h a b c more rfl).elim

/-- Of the bytes read so far all but the carried ones have been written, in whole groups. -/
structure Carried (text base content carry : Bytes) : Prop where
  short : carry.length < 3
  written : ∃ done, content = done ++ carry ∧ done.length % 3 = 0 ∧
    text = base ++ base64Text .standard done

theorem carried_start (base : Bytes) : Carried base base [] [] :=
  ⟨by decide, [], rfl, rfl, (List.append_nil base).symm⟩

section

variable {sink : Sink τ} {text : τ → Bytes} (happends : sink.Appends text)
  (hreliable : sink.Reliable)
include happends hreliable

theorem emit_reliable (io : JsonIo τ) (data : Bytes) :
    ∃ io', io.emit sink data = .ok io' ∧ text io'.out = text io.out ++ data := by
  refine ⟨io.call sink data, ?_, happends _ _ _ (hreliable _ _ _)⟩
  rw [JsonIo.emit]
  exact if_pos (hreliable _ _ _)

/-- A group is one call of the sink, so that it is written whatever the status is. -/
theorem emitBase64Bytes_group (io : JsonIo τ) {data : Bytes} (hpos : data ≠ [])
    (hlen : data.length ≤ 3) :
    ∃ io', emitBase64Bytes sink io data = .ok io' ∧
      text io'.out = text io.out ++ base64Text .standard data := by
  have hpiece : base64Pieces .standard data = [base64Text .standard data] := by
    match data with
    | [] => exact (hpos rfl).elim
    | [a] => rfl
    | [a, b] => rfl
    | [a, b, c] => rfl
    | a :: b :: c :: d :: rest =>
      simp only [List.length_cons] at hlen
      omega
  have hcall := hreliable io.out (base64Text .standard data) {}
  have htext := happends io.out (base64Text .standard data) {} hcall
  rw [emitBase64Bytes, base64EncodeSink, hpiece, base64EmitPieces]
  by_cases hok : (sink io.out (base64Text .standard data) {}).2.2 = .ok
  · refine ⟨_, if_pos ?_, ?_⟩
    · rw [if_pos (show (JsonIo.call sink { io with error := {} } _).status = .ok from hok)]
      rfl
    · rw [if_pos (show (JsonIo.call sink { io with error := {} } _).status = .ok from hok)]
      exact htext
  · refine ⟨_, if_pos ?_, ?_⟩
    · rw [if_neg (show ¬ (JsonIo.call sink { io with error := {} } _).status = .ok from hok)]
      exact hcall
    · rw [if_neg (show ¬ (JsonIo.call sink { io with error := {} } _).status = .ok from hok)]
      exact htext

theorem serializeGroups_carried {base content : Bytes} (data : Bytes) {io : JsonIo τ}
    (h : Carried (text io.out) base content []) :
    ∃ rest io', serializeGroups sink data io = .ok (rest, io') ∧
      Carried (text io'.out) base (content ++ data) rest := by
  induction data using base64Pieces.induct generalizing content io with
  | case1 a b c rest ih =>
    obtain ⟨done, hcontent, hdone, htext⟩ := h.written
    rw [List.append_nil] at hcontent
    subst hcontent
    obtain ⟨io', hemit, hout⟩ := emitBase64Bytes_group happends hreliable io
      (List.cons_ne_nil a [b, c]) le_rfl
    have hcarried : Carried (text io'.out) base (content ++ [a, b, c]) [] := by
      refine ⟨by decide, content ++ [a, b, c], by simp, ?_, ?_⟩
      · rw [List.length_append]
        simp only [List.length_cons, List.length_nil]
        omega
      · rw [hout, htext, base64Text_append hdone, List.append_assoc]
    obtain ⟨left, io'', hgroups, hleft⟩ := ih hcarried
    refine ⟨left, io'', ?_, ?_⟩
    · rw [serializeGroups, hemit]
      exact hgroups
    · rw [List.append_assoc] at hleft
      exact hleft
  | case2 =>
    refine ⟨[], io, rfl, ?_⟩
    rw [List.append_nil]
    exact h
  | case3 rest hthree hnil =>
    obtain ⟨done, hcontent, hdone, htext⟩ := h.written
    rw [List.append_nil] at hcontent
    subst hcontent
    refine ⟨rest, io, ?_, length_lt_three hthree, content, rfl, hdone, htext⟩
    rw [serializeGroups]
    exact hthree

theorem serializeChunk_carried {base content carry : Bytes} (data : Bytes) {io : JsonIo τ}
    (h : Carried (text io.out) base content carry) :
    ∃ rest io', serializeChunk sink carry data io = .ok (rest, io') ∧
      Carried (text io'.out) base (content ++ data) rest := by
  rw [serializeChunk]
  by_cases hempty : carry = []
  · subst hempty
    rw [if_neg (by simp)]
    exact serializeGroups_carried happends hreliable data h
  · obtain ⟨done, rfl, hdone, htext⟩ := h.written
    have hshort := h.short
    rw [if_pos hempty]
    dsimp only
    by_cases hfull : (carry ++ data.take (3 - carry.length)).length = 3
    · obtain ⟨io', hemit, hout⟩ := emitBase64Bytes_group happends hreliable io
        (by simp [hempty] : carry ++ data.take (3 - carry.length) ≠ []) hfull.le
      have hcarried : Carried (text io'.out) base
          (done ++ carry ++ data.take (3 - carry.length)) [] := by
        refine ⟨by decide, done ++ carry ++ data.take (3 - carry.length), by simp, ?_, ?_⟩
        · rw [List.append_assoc, List.length_append, hfull]
          omega
        · rw [hout, htext, List.append_assoc done, base64Text_append hdone, List.append_assoc]
      obtain ⟨rest, io'', hgroups, hrest⟩ :=
        serializeGroups_carried happends hreliable (data.drop (3 - carry.length)) hcarried
      rw [List.append_assoc _ (data.take _), List.take_append_drop] at hrest
      refine ⟨rest, io'', ?_, hrest⟩
      rw [if_pos hfull, hemit]
      exact hgroups
    · -- the whole chunk fits behind what is carried
      have hlen : data.length < 3 - carry.length := by
        rw [List.length_append, List.length_take] at hfull
        omega
      rw [if_neg hfull, List.take_of_length_le hlen.le, List.drop_of_length_le hlen.le]
      refine ⟨carry ++ data, io, ?_, ?_, done, by simp, hdone, htext⟩
      · rw [serializeGroups]
        · change Except.ok (carry ++ data ++ [], io) = _
          rw [List.append_nil]
        · intro a b c rest h
          cases h
      · rw [List.length_append]
        omega

/-- The loop writes the groups of the content and keeps what does not fill one. -/
theorem serializeChunks_carried (message : String) {base content : Bytes} {reads : List ReadResult}
    {rest : Bytes} (hreads : Delivers reads rest) {carry : Bytes} {io : JsonIo τ}
    (h : Carried (text io.out) base content carry) :
    ∃ left io', serializeChunks sink message reads carry io = .ok (left, io') ∧
      Carried (text io'.out) base (content ++ rest) left := by
  induction hreads generalizing content carry io with
  | last data more =>
    obtain ⟨left, io', hchunk, hleft⟩ := serializeChunk_carried happends hreliable data h
    refine ⟨left, io', ?_, hleft⟩
    rw [serializeChunks, if_neg (by simp), hchunk]
    rfl
  | @chunk data rest reads hdata hreads ih =>
    obtain ⟨left, io', hchunk, hleft⟩ := serializeChunk_carried happends hreliable data h
    obtain ⟨left', io'', hchunks, hleft'⟩ := ih hleft
    refine ⟨left', io'', ?_, ?_⟩
    · rw [serializeChunks, if_neg (by simp), hchunk]
      exact hchunks
    · rw [List.append_assoc] at hleft'
      exact hleft'

/-- What is carried behind the last chunk is the last group. -/
theorem serializeBase64Tail_text {base content carry : Bytes} {io : JsonIo τ}
    (h : Carried (text io.out) base content carry) :
    ∃ io', serializeBase64Tail sink (carry, io) = .ok io' ∧
      text io'.out = base ++ base64Text .standard content ++ [0x22] := by
  obtain ⟨done, rfl, hdone, htext⟩ := h.written
  have hshort := h.short
  rw [serializeBase64Tail]
  by_cases hempty : carry = []
  · subst hempty
    obtain ⟨io', hemit, hout⟩ := emit_reliable happends hreliable io [0x22]
    refine ⟨io', ?_, ?_⟩
    · rw [if_neg (by simp)]
      exact hemit
    · rw [hout, htext, List.append_nil]
  · obtain ⟨io', hemit, hout⟩ := emitBase64Bytes_group happends hreliable io hempty (by omega)
    obtain ⟨io'', hquote, hout'⟩ := emit_reliable happends hreliable io' [0x22]
    refine ⟨io'', ?_, ?_⟩
    · rw [if_pos hempty, hemit]
      exact hquote
    · rw [hout', hout, htext, base64Text_append hdone, List.append_assoc base]

/-- Behind the opening quote. -/
theorem serializeBase64_text (message : String) {reads : List ReadResult} {content : Bytes}
    (hreads : Delivers reads content) (io : JsonIo τ) :
    ∃ io', ((serializeChunks sink message reads [] io).bind (serializeBase64Tail sink)) = .ok io' ∧
      text io'.out = text io.out ++ base64Text .standard content ++ [0x22] := by
  obtain ⟨left, io', hchunks, hleft⟩ :=
    serializeChunks_carried happends hreliable message hreads (carried_start (text io.out))
  obtain ⟨io'', htail, hout⟩ := serializeBase64Tail_text happends hreliable hleft
  refine ⟨io'', ?_, hout⟩
  rw [hchunks]
  exact htail

end

/-! ## The generator -/

/-- What ends a generator: an error, or a read behind the end of the io buffer. -/
inductive GeneratorFault where
  | error (code : Status) (message : String)
  | strayByte
  deriving DecidableEq

/-- A frame of `LONEJSON__GEN_FRAME_SOURCE_BASE64` or `_SPOOLED_BASE64`: its phase, what its
cursor is opened to, the reads that are left once it is open, and the carried bytes. -/
structure Base64Frame where
  isSource : Bool
  phase : ℕ := 0
  cursor : Cursor
  opened : Option (List ReadResult) := none
  carry : Bytes := []

/-- A frame of the stack; `φ` is the type of the frames of another kind. -/
inductive GeneratorFrame (φ : Type) where
  | base64 (frame : Base64Frame)
  | other (frame : φ)

/-- The members of `lonejson__generator_state` that these steps use: the frames from the top
on, the pending bytes, the unread bytes of the io buffer, and whose they are. -/
structure Generator (φ : Type) where
  frames : List (GeneratorFrame φ)
  pending : Bytes := []
  ioBuffer : Bytes := []
  ioEof : Bool := false
  ioOwner : Option ℕ := none
  finished : Bool := false

namespace Generator

open Pull (Outcome Producer)

variable {φ : Type}

abbrev Step (φ : Type) := Outcome (Generator φ) GeneratorFault

/-- `lonejson__generator_prepare_stream_owner`. -/
def prepareStreamOwner (g : Generator φ) (ownerIndex : ℕ) : Generator φ :=
  if g.ioOwner = some ownerIndex then g
  else { g with ioOwner := some ownerIndex, ioBuffer := [], ioEof := false }

/-- `lonejson__generator_pop_frame`, for a frame above `below`. -/
def popFrame (g : Generator φ) (below : List (GeneratorFrame φ)) : Generator φ :=
  if ∃ index ∈ g.ioOwner, below.length ≤ index then
    { g with frames := below, ioOwner := none, ioBuffer := [], ioEof := false }
  else { g with frames := below }

/-- `lonejson__generator_stream_refill_source` and `_spooled`; a cursor whose reads have
all been made stays at its end. -/
def refill (g : Generator φ) (frame : Base64Frame) :
    Except GeneratorFault (Generator φ × Base64Frame) :=
  match frame.opened, frame.cursor with
  | none, .error message => .error (.error .ioError message)
  | none, .ok reads => refillFrom g frame reads
  | some reads, _ => refillFrom g frame reads
where
  refillFrom (g : Generator φ) (frame : Base64Frame) :
      List ReadResult → Except GeneratorFault (Generator φ × Base64Frame)
    | [] => .ok ({ g with ioBuffer := [], ioEof := true }, { frame with opened := some [] })
    | chunk :: reads =>
      if chunk.errorCode ≠ 0 then
        .error (.error .ioError
          (if frame.isSource then "failed to read source data" else "failed to read spooled data"))
      else
        .ok ({ g with ioBuffer := chunk.bytes, ioEof := chunk.eof },
          { frame with opened := some reads })

/-- The loop that fills the carried group, one byte a turn. -/
def fillCarry : ℕ → Generator φ → Base64Frame → Except GeneratorFault (Generator φ × Base64Frame)
  | 0, g, frame => .ok (g, frame)
  | n + 1, g, frame =>
    let take (g : Generator φ) (frame : Base64Frame) :=
      match g.ioBuffer with
      | [] => .error .strayByte
      | ch :: rest =>
        fillCarry n { g with ioBuffer := rest } { frame with carry := frame.carry ++ [ch] }
    if g.ioBuffer = [] then
      if g.ioEof then .ok (g, frame)
      else
        match refill g frame with
        | .error fault => .error fault
        | .ok (g, frame) => if g.ioBuffer = [] ∧ g.ioEof then .ok (g, frame) else take g frame
    else take g frame

/-- `lonejson__generator_emit_base64_quad`. -/
def emitBase64Quad (data : Bytes) : Bytes :=
  let at_ (i : ℕ) : ℕ := (data.getD i 0).toNat
  [base64StdAlphabet.getD ((at_ 0 >>> 2) &&& 0x3f) 0,
    base64StdAlphabet.getD
      (((at_ 0 &&& 0x03) <<< 4) ||| ((if data.length > 1 then at_ 1 else 0) >>> 4)) 0,
    if data.length > 1 then
      base64StdAlphabet.getD
        (((at_ 1 &&& 0x0f) <<< 2) ||| ((if data.length > 2 then at_ 2 else 0) >>> 6)) 0
    else 0x3d,
    if data.length > 2 then base64StdAlphabet.getD (at_ 2 &&& 0x3f) 0 else 0x3d]

/-- `lonejson__generator_step_stream_base64`, for a frame above `below`. -/
def stepStreamBase64 (g : Generator φ) (frame : Base64Frame) (below : List (GeneratorFrame φ)) :
    Step φ :=
  let g := g.prepareStreamOwner below.length
  if frame.phase = 0 then
    .next { g with frames := .base64 { frame with phase := 1 } :: below, pending := [0x22] }
  else if frame.phase = 2 then .next { popFrame g below with pending := [0x22] }
  else
    match fillCarry (3 - frame.carry.length) g frame with
    | .error fault => .fail g fault
    | .ok (g, frame) =>
      if frame.carry.length = 3 ∨ (g.ioEof ∧ frame.carry ≠ []) then
        .next { g with
          frames := .base64 { frame with carry := [] } :: below
          pending := emitBase64Quad frame.carry }
      else if g.ioEof then .next { g with frames := .base64 { frame with phase := 2 } :: below }
      else .next { g with frames := .base64 frame :: below }

/-- `lonejson__generator_step_frame`, given the steps of the other frames. -/
def stepFrame (stepOther : φ → Generator φ → Step φ) (g : Generator φ) : Step φ :=
  if g.finished then .finish g
  else
    match g.frames with
    | [] => .finish { g with finished := true }
    | .base64 frame :: below => stepStreamBase64 g frame below
    | .other frame :: _ => stepOther frame g

/-- `lonejson_generator_read` makes these steps. -/
def producer (stepOther : φ → Generator φ → Step φ) : Producer (Generator φ) GeneratorFault where
  pending := pending
  flush g bytes := { g with pending := bytes }
  step := stepFrame stepOther
  ended g := g.finished || g.frames.isEmpty

/-! ## What the generator writes -/

/-- The reads a frame has before it. -/
def HasReads (frame : Base64Frame) (reads : List ReadResult) : Prop :=
  frame.opened = some reads ∨ frame.opened = none ∧ frame.cursor = .ok reads

/-- What is left of a content: the unread bytes of the io buffer, and the reads to come. -/
def Left (g : Generator φ) (frame : Base64Frame) (content : Bytes) : Prop :=
  (g.ioEof = true ∧ content = g.ioBuffer) ∨
  (g.ioEof = false ∧ ∃ rest reads, content = g.ioBuffer ++ rest ∧ HasReads frame reads ∧
    Delivers reads rest)

/-- One state of the frame to another, with only the io members changed. -/
def Fills (g : Generator φ) (frame : Base64Frame) (g' : Generator φ) (frame' : Base64Frame) :
    Prop :=
  g'.frames = g.frames ∧ g'.pending = g.pending ∧ g'.ioOwner = g.ioOwner ∧
    g'.finished = g.finished ∧ frame'.phase = frame.phase

theorem refill_left {g : Generator φ} {frame : Base64Frame} {content : Bytes}
    (h : Left g frame content) (hbuffer : g.ioBuffer = []) (heof : g.ioEof = false) :
    ∃ g' frame', refill g frame = .ok (g', frame') ∧ Left g' frame' content ∧
      Fills g frame g' frame' ∧ frame'.carry = frame.carry ∧
      (g'.ioBuffer = [] ↔ content = []) ∧ (content = [] → g'.ioEof = true) := by
  rcases h with ⟨htrue, -⟩ | ⟨-, rest, reads, rfl, hreads, hdelivers⟩
  · rw [htrue] at heof
    cases heof
  · rw [hbuffer, List.nil_append]
    have hrefill : refill g frame = refill.refillFrom g frame reads := by
      rw [refill]
      rcases hreads with hopened | ⟨hopened, hcursor⟩
      · rw [hopened]
      · rw [hopened, hcursor]
    rw [hrefill]
    cases hdelivers with
    | last data more =>
      refine ⟨{ g with ioBuffer := rest, ioEof := true }, { frame with opened := some more }, ?_,
        .inl ⟨rfl, rfl⟩, ⟨rfl, rfl, rfl, rfl, rfl⟩, rfl, Iff.rfl, fun _ => rfl⟩
      rw [refill.refillFrom, if_neg (by simp)]
    | @chunk data rest reads hdata hdelivers =>
      refine ⟨{ g with ioBuffer := data, ioEof := false }, { frame with opened := some reads }, ?_,
        .inr ⟨rfl, rest, reads, rfl, .inl rfl, hdelivers⟩, ⟨rfl, rfl, rfl, rfl, rfl⟩, rfl, ?_, ?_⟩
      · rw [refill.refillFrom, if_neg (by simp)]
      · simp [hdata]
      · intro h
        simp [hdata] at h

/-- The loop takes the next bytes of the content, and fewer at its end only. -/
theorem fillCarry_left {n : ℕ} : ∀ {g : Generator φ} {frame : Base64Frame} {content : Bytes},
    Left g frame content →
    ∃ g' frame', fillCarry n g frame = .ok (g', frame') ∧ Fills g frame g' frame' ∧
      frame'.carry = frame.carry ++ content.take n ∧ Left g' frame' (content.drop n) ∧
      (content.length < n → g'.ioEof = true ∧ g'.ioBuffer = []) := by
  induction n with
  | zero =>
    intro g frame content h
    refine ⟨g, frame, rfl, ⟨rfl, rfl, rfl, rfl, rfl⟩, by simp, h, ?_⟩
    intro hlen
    omega
  | succ n ih =>
    -- a byte of the io buffer is taken
    have htake {g : Generator φ} {frame : Base64Frame} {content : Bytes} (h : Left g frame content)
        (hbuffer : g.ioBuffer ≠ []) :
        ∃ ch rest more, g.ioBuffer = ch :: rest ∧ content = ch :: more ∧
          Left { g with ioBuffer := rest } { frame with carry := frame.carry ++ [ch] } more := by
      obtain ⟨ch, rest, hcons⟩ := List.exists_cons_of_ne_nil hbuffer
      rcases h with ⟨heof, rfl⟩ | ⟨heof, tail, reads, rfl, hreads, hdelivers⟩
      · exact ⟨ch, rest, rest, hcons, hcons, .inl ⟨heof, rfl⟩⟩
      · refine ⟨ch, rest, rest ++ tail, hcons, ?_, .inr ⟨heof, tail, reads, rfl, hreads, hdelivers⟩⟩
        rw [hcons, List.cons_append]
    intro g frame content h
    -- a turn with an unread byte
    have hturn {g : Generator φ} {frame : Base64Frame} {content : Bytes} (h : Left g frame content)
        (hbuffer : g.ioBuffer ≠ []) :
        ∃ g' frame', (match g.ioBuffer with
            | [] => .error .strayByte
            | ch :: rest => fillCarry n { g with ioBuffer := rest }
                { frame with carry := frame.carry ++ [ch] }) = Except.ok (g', frame') ∧
          Fills g frame g' frame' ∧ frame'.carry = frame.carry ++ content.take (n + 1) ∧
          Left g' frame' (content.drop (n + 1)) ∧
          (content.length < n + 1 → g'.ioEof = true ∧ g'.ioBuffer = []) := by
      obtain ⟨ch, rest, more, hcons, rfl, hmore⟩ := htake h hbuffer
      obtain ⟨g', frame', hfill, hfills, hcarry, hleft, hend⟩ := ih hmore
      refine ⟨g', frame', ?_, hfills, ?_, hleft, ?_⟩
      · rw [hcons]
        exact hfill
      · rw [hcarry, List.take_succ_cons, List.append_assoc]
        rfl
      · intro hlen
        exact hend (Nat.lt_of_succ_lt_succ hlen)
    rw [fillCarry]
    dsimp only
    by_cases hbuffer : g.ioBuffer = []
    · rw [if_pos hbuffer]
      cases heof : g.ioEof with
      | true =>
        rcases h with ⟨-, rfl⟩ | ⟨hfalse, -⟩
        · refine ⟨g, frame, rfl, ⟨rfl, rfl, rfl, rfl, rfl⟩, ?_, .inl ⟨heof, ?_⟩,
            fun _ => ⟨heof, hbuffer⟩⟩
          · rw [hbuffer, List.take_nil, List.append_nil]
          · rw [hbuffer, List.drop_nil]
        · rw [heof] at hfalse
          cases hfalse
      | false =>
        obtain ⟨g', frame', hrefill, hleft, hfills, hcarry, hnil, hend⟩ :=
          refill_left h hbuffer heof
        rw [if_neg Bool.false_ne_true, hrefill]
        dsimp only
        by_cases hcontent : content = []
        · have hbuffer' := hnil.mpr hcontent
          have heof' := hend hcontent
          subst hcontent
          rw [if_pos ⟨hbuffer', heof'⟩]
          refine ⟨g', frame', rfl, hfills, ?_, hleft, fun _ => ⟨heof', hbuffer'⟩⟩
          rw [hcarry, List.take_nil, List.append_nil]
        · have hbuffer' : g'.ioBuffer ≠ [] := fun h => hcontent (hnil.mp h)
          rw [if_neg (fun h => hbuffer' h.1)]
          obtain ⟨g'', frame'', hfill, hfills', hcarry', hleft', hend'⟩ := hturn hleft hbuffer'
          obtain ⟨hframes, hpending, howner, hfinished, hphase⟩ := hfills
          obtain ⟨hframes', hpending', howner', hfinished', hphase'⟩ := hfills'
          have hfills : Fills g frame g'' frame'' := ⟨hframes'.trans hframes,
            hpending'.trans hpending, howner'.trans howner, hfinished'.trans hfinished,
            hphase'.trans hphase⟩
          refine ⟨g'', frame'', hfill, hfills, ?_, hleft', hend'⟩
          rw [hcarry', hcarry]
    · rw [if_neg hbuffer]
      exact hturn h hbuffer

/-- The frame has written its opening quote and some groups; `content` is left. -/
def Streams (below : List (GeneratorFrame φ)) (content : Bytes) (g : Generator φ) : Prop :=
  ∃ frame, g.frames = .base64 frame :: below ∧ frame.phase = 1 ∧ frame.carry = [] ∧
    g.ioOwner = some below.length ∧ g.finished = false ∧ Left g frame content

/-- The frame has written its content. -/
def Closes (below : List (GeneratorFrame φ)) (g : Generator φ) : Prop :=
  ∃ frame, g.frames = .base64 frame :: below ∧ frame.phase = 2 ∧
    g.ioOwner = some below.length ∧ g.finished = false

/-- The frame has been popped, and the io buffer is nobody's. -/
def Popped (below : List (GeneratorFrame φ)) (g : Generator φ) : Prop :=
  g.frames = below ∧ g.ioOwner = none ∧ g.ioBuffer = [] ∧ g.ioEof = false ∧ g.finished = false

/-- The frame has been pushed; the owner of the io buffer is a frame below. -/
def Pushed (frame : Base64Frame) (below : List (GeneratorFrame φ)) (g : Generator φ) : Prop :=
  g.frames = .base64 frame :: below ∧ (∀ index ∈ g.ioOwner, index < below.length) ∧
    g.finished = false

variable {stepOther : φ → Generator φ → Step φ} {below : List (GeneratorFrame φ)}

theorem prepareStreamOwner_own {g : Generator φ} {index : ℕ} (h : g.ioOwner = some index) :
    g.prepareStreamOwner index = g := by
  rw [prepareStreamOwner, if_pos h]

theorem emitBase64Quad_eq {data : Bytes} (hpos : data ≠ []) (hlen : data.length ≤ 3) :
    emitBase64Quad data = base64Text .standard data := by
  match data with
  | [] => exact (hpos rfl).elim
  | [a] => rfl
  | [a, b] => rfl
  | [a, b, c] => rfl
  | a :: b :: c :: d :: rest =>
    simp only [List.length_cons] at hlen
    omega

theorem stepFrame_base64 {g : Generator φ} {frame : Base64Frame}
    (hframes : g.frames = .base64 frame :: below) (hfinished : g.finished = false) :
    stepFrame stepOther g = stepStreamBase64 g frame below := by
  rw [stepFrame, if_neg (by simp [hfinished]), hframes]

/-- A step of a frame that streams: the next group, the last one, or the end. -/
theorem step_streams {content : Bytes} {g : Generator φ} (h : Streams below content g) :
    ∃ g', stepFrame stepOther { g with pending := [] } = .next g' ∧
      g'.pending = base64Text .standard (content.take 3) ∧
      if content = [] then Closes below g' else Streams below (content.drop 3) g' := by
  obtain ⟨frame, hframes, hphase, hcarry, howner, hfinished, hleft⟩ := h
  have hleft' : Left { g with pending := [] } frame content := hleft
  obtain ⟨g', frame', hfill, hfills, hcarry', hleft'', hend⟩ := fillCarry_left (n := 3) hleft'
  obtain ⟨hframes', hpending', howner', hfinished', hphase'⟩ := hfills
  rw [hcarry, List.nil_append] at hcarry'
  have hstep : stepFrame stepOther { g with pending := [] } =
      stepStreamBase64 { g with pending := [] } frame below := stepFrame_base64 hframes hfinished
  have hfill' : fillCarry (3 - frame.carry.length) { g with pending := [] } frame =
      .ok (g', frame') := by
    rw [hcarry]
    exact hfill
  have hown := @prepareStreamOwner_own _ { g with pending := [] } _ howner
  rw [hstep, stepStreamBase64, hown, if_neg (by simp [hphase]),
    if_neg (by simp [hphase]), hfill']
  dsimp only
  by_cases hcontent : content = []
  · subst hcontent
    obtain ⟨heof, hbuffer⟩ := hend (by decide)
    rw [List.take_nil] at hcarry'
    rw [hcarry', if_neg (by simp), if_pos heof]
    refine ⟨_, rfl, hpending', ?_⟩
    rw [if_pos rfl]
    exact ⟨_, rfl, rfl, howner'.trans howner, hfinished'.trans hfinished⟩
  · have hgroup : frame'.carry.length = 3 ∨ (g'.ioEof = true ∧ frame'.carry ≠ []) := by
      rw [hcarry', List.length_take]
      by_cases hlen : content.length < 3
      · refine .inr ⟨(hend hlen).1, ?_⟩
        rw [List.take_of_length_le hlen.le]
        exact hcontent
      · exact .inl (by omega)
    rw [if_pos hgroup]
    refine ⟨_, rfl, ?_, ?_⟩
    · change emitBase64Quad frame'.carry = _
      rw [hcarry', emitBase64Quad_eq]
      · simpa using hcontent
      · rw [List.length_take]
        omega
    · rw [if_neg hcontent]
      exact ⟨_, rfl, hphase'.trans hphase, rfl, howner'.trans howner, hfinished'.trans hfinished,
        hleft''⟩

theorem step_closes {g : Generator φ} (h : Closes below g) :
    ∃ g', stepFrame stepOther { g with pending := [] } = .next g' ∧ g'.pending = [0x22] ∧
      Popped below g' := by
  obtain ⟨frame, hframes, hphase, howner, hfinished⟩ := h
  have hown := @prepareStreamOwner_own _ { g with pending := [] } _ howner
  have hstep : stepFrame stepOther { g with pending := [] } =
      stepStreamBase64 { g with pending := [] } frame below := stepFrame_base64 hframes hfinished
  have hpop : popFrame { g with pending := [] } below = { g with
      frames := below, pending := [], ioOwner := none, ioBuffer := [], ioEof := false } := by
    rw [popFrame, if_pos]
    exact ⟨below.length, howner, le_rfl⟩
  refine ⟨{ popFrame { g with pending := [] } below with pending := [0x22] }, ?_, rfl, ?_⟩
  · rw [hstep, stepStreamBase64, hown, if_neg (by simp [hphase]), if_pos hphase]
  · rw [hpop]
    exact ⟨rfl, rfl, rfl, rfl, hfinished⟩

theorem step_pushed {frame : Base64Frame} {reads : List ReadResult} {content : Bytes}
    (hphase : frame.phase = 0) (hcarry : frame.carry = []) (hreads : HasReads frame reads)
    (hdelivers : Delivers reads content) {g : Generator φ} (h : Pushed frame below g) :
    ∃ g', stepFrame stepOther { g with pending := [] } = .next g' ∧ g'.pending = [0x22] ∧
      Streams below content g' := by
  obtain ⟨hframes, howner, hfinished⟩ := h
  have hstep : stepFrame stepOther { g with pending := [] } =
      stepStreamBase64 { g with pending := [] } frame below := stepFrame_base64 hframes hfinished
  have hprepare : prepareStreamOwner { g with pending := [] } below.length =
      { g with pending := [], ioOwner := some below.length, ioBuffer := [], ioEof := false } := by
    rw [prepareStreamOwner, if_neg]
    intro hsome
    exact lt_irrefl _ (howner _ hsome)
  refine ⟨{ g with
    frames := .base64 { frame with phase := 1 } :: below
    pending := [0x22], ioOwner := some below.length, ioBuffer := [], ioEof := false }, ?_, rfl,
    _, rfl, rfl, hcarry, rfl, hfinished, .inr ⟨rfl, content, reads, rfl, hreads, hdelivers⟩⟩
  rw [hstep, stepStreamBase64, hprepare, if_pos hphase]

theorem producer_lawful : (producer stepOther).Lawful where
  pending_flush _ _ := rfl
  flush_flush _ _ _ := rfl
  flush_pending _ := rfl

/-- The frame writes the encoder's text and its closing quote. -/
theorem writes_streams {n : ℕ} {t : Bytes} (ht : (producer stepOther).Writes n (Popped below) t)
    (content : Bytes) :
    ∃ m, (producer stepOther).Writes m (Streams below content)
      (base64Text .standard content ++ 0x22 :: t) := by
  have hended {g : Generator φ} {content : Bytes} (h : Streams below content g) :
      (producer stepOther).ended ((producer stepOther).flush g []) = false := by
    obtain ⟨frame, hframes, -, -, -, hfinished, -⟩ := h
    change (g.finished || g.frames.isEmpty) = false
    rw [hfinished, hframes]
    rfl
  induction hlen : content.length using Nat.strong_induction_on generalizing content with
  | _ len ih =>
    by_cases hcontent : content = []
    · subst hcontent
      have hclose : (producer stepOther).Writes (n + 1) (Closes below) ([0x22] ++ t) := by
        apply ht.step
        intro g h
        obtain ⟨frame, hframes, -, -, hfinished⟩ := id h
        refine ⟨?_, step_closes h⟩
        change (g.finished || g.frames.isEmpty) = false
        rw [hfinished, hframes]
        rfl
      refine ⟨n + 1 + 1, hclose.step fun g h => ⟨hended h, ?_⟩⟩
      obtain ⟨g', hstep, hpending, hnext⟩ := @step_streams _ stepOther _ _ _ h
      rw [if_pos rfl] at hnext
      exact ⟨g', hstep, hpending, hnext⟩
    · have hpos := List.length_pos_of_ne_nil hcontent
      obtain ⟨m, hrest⟩ := ih (content.drop 3).length (by rw [List.length_drop]; omega)
        (content.drop 3) rfl
      refine ⟨m + 1, ?_⟩
      have hnext := @Producer.Writes.step _ _ _ _ (Streams below content) _ _
        (base64Text .standard (content.take 3)) hrest fun g h => ⟨hended h, by
          obtain ⟨g', hstep, hpending, hnext⟩ := @step_streams _ stepOther _ _ _ h
          rw [if_neg hcontent] at hnext
          exact ⟨g', hstep, hpending, hnext⟩⟩
      rw [← List.append_assoc] at hnext
      have htext : base64Text .standard (content.take 3) ++ base64Text .standard (content.drop 3) =
          base64Text .standard content := by
        by_cases hthree : content.length < 3
        · rw [List.take_of_length_le hthree.le, List.drop_of_length_le hthree.le]
          exact List.append_nil _
        · rw [← base64Text_append, List.take_append_drop]
          rw [List.length_take]
          omega
      rw [htext] at hnext
      exact hnext

/-- The whole member, from the state in which its frame has been pushed. -/
theorem writes_pushed {n : ℕ} {t : Bytes} (ht : (producer stepOther).Writes n (Popped below) t)
    {frame : Base64Frame} {reads : List ReadResult} {content : Bytes} (hphase : frame.phase = 0)
    (hcarry : frame.carry = []) (hreads : HasReads frame reads)
    (hdelivers : Delivers reads content) :
    ∃ m, (producer stepOther).Writes m (Pushed frame below)
      (0x22 :: (base64Text .standard content ++ 0x22 :: t)) := by
  obtain ⟨m, hstreams⟩ := writes_streams ht content
  refine ⟨m + 1, @Producer.Writes.step _ _ _ _ _ _ _ [0x22] hstreams fun g h =>
    ⟨?_, step_pushed hphase hcarry hreads hdelivers h⟩⟩
  obtain ⟨hframes, -, hfinished⟩ := h
  change (g.finished || g.frames.isEmpty) = false
  rw [hfinished, hframes]
  rfl

end Generator

/-! ## Chunks and one call -/

/-- However the reads cut a content, the serializer and the generator write what one call of
the encoder writes for all of it, between quotes: the serializer into every sink that takes
its text, the generator in front of whatever its other frames write. -/
theorem base64_fields_chunked {reads : List ReadResult} {content : Bytes}
    (h : Delivers reads content) :
    ((base64Text .standard content).length ≤ sizeMax →
      ∀ capacity, (base64Text .standard content).length ≤ capacity →
        (base64Encode content .standard capacity).out = .ok (base64Text .standard content)) ∧
    (∀ {τ : Type} (sink : Sink τ) (text : τ → Bytes) (io : JsonIo τ),
      sink.Appends text → sink.Reliable →
      (∃ io', serializeSpooledBase64 sink (.ok reads) io = .ok io' ∧
        text io'.out = text io.out ++ 0x22 :: (base64Text .standard content ++ [0x22])) ∧
      ∃ io', serializeSourceBase64 sink (some (.ok reads)) io = .ok io' ∧
        text io'.out = text io.out ++ 0x22 :: (base64Text .standard content ++ [0x22])) ∧
    ∀ {φ : Type} (stepOther : φ → Generator φ → Generator.Step φ)
      (below : List (GeneratorFrame φ)) (isSource : Bool) (n : ℕ) (behind : Bytes),
      (Generator.producer stepOther).Writes n (Generator.Popped below) behind →
      ∃ fuel, ∀ g, Generator.Pushed { isSource, cursor := .ok reads } below g →
        ∀ rooms : List ℕ, (∀ room ∈ rooms, 0 < room) →
        let text := g.pending ++ 0x22 :: (base64Text .standard content ++ 0x22 :: behind)
        ∃ g', (Generator.producer stepOther).readAll fuel rooms g =
            some ⟨g', text.take rooms.sum, none⟩ ∧
          (text.length < rooms.sum → (Generator.producer stepOther).eof g' = true) := by
  refine ⟨?_, ?_, ?_⟩
  · intro hfits capacity hroom
    rw [base64Encode_call hfits hroom]
  · intro τ sink text io happends hreliable
    obtain ⟨io', hquote, hout⟩ := emit_reliable happends hreliable io [0x22]
    refine ⟨?_, ?_⟩
    · obtain ⟨io'', hrun, htext⟩ :=
        serializeBase64_text happends hreliable "failed to read spooled bytes" h io'
      refine ⟨io'', ?_, ?_⟩
      · rw [serializeSpooledBase64, hquote]
        exact hrun
      · rw [htext, hout, List.append_assoc, List.append_assoc]
        rfl
    · obtain ⟨io'', hrun, htext⟩ :=
        serializeBase64_text happends hreliable "failed to read source bytes" h io'
      refine ⟨io'', ?_, ?_⟩
      · rw [serializeSourceBase64, hquote]
        exact hrun
      · rw [htext, hout, List.append_assoc, List.append_assoc]
        rfl
  · intro φ stepOther below isSource n behind hbelow
    obtain ⟨m, hwrites⟩ := @Generator.writes_pushed φ stepOther below n behind hbelow
      { isSource, cursor := .ok reads } reads content rfl rfl (.inr ⟨rfl, rfl⟩) h
    refine ⟨m + 1, ?_⟩
    intro g hg rooms hrooms
    obtain ⟨⟨g', bytes, error⟩, hread, hgives⟩ := (hwrites g hg).readAll
      Generator.producer_lawful (Nat.lt_succ_self m) hrooms
    obtain rfl : bytes = _ := hgives.bytes
    obtain rfl : error = none := hgives.error.trans (ite_self none)
    exact ⟨g', hread, hgives.eof rfl⟩

/-- Three bytes in two reads. -/
theorem base64_fields_chunked_abc :
    let reads : List ReadResult := [{ bytes := [0x61, 0x62] }, { bytes := [0x63], eof := true }]
    ∃ io', serializeSpooledBase64 collectSink (.ok reads) ⟨[], {}, .ok⟩ = .ok io' ∧
      io'.out = [0x22, 0x59, 0x57, 0x4a, 0x6a, 0x22] := by
  have h := base64_fields_chunked (.chunk (List.cons_ne_nil 0x61 [0x62]) (.last [0x63] []))
  obtain ⟨-, hserializer, -⟩ := h
  exact (hserializer collectSink id ⟨[], {}, .ok⟩ (fun _ _ _ _ => rfl) (fun _ _ _ => rfl)).1

end Lonejson
