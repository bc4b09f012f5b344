import Lonejson.Emission
import Lonejson.Serializer

/-!
# Serializing into a fixed buffer

Both serializers hand on the pieces of one text, up to the piece that their sink gives up at,
so that the buffer holds what there is room for of the text that is collected.
-/

namespace Lonejson

open Json (Holds)

variable {τ : Type}

/-! ## Base64 members -/

/-- Behind a piece of the encoder. -/
def JsonIo.goneOn (io : JsonIo τ) : JsonIo τ := if io.status = .ok then io.done else io

theorem goneOn_soft {io : JsonIo τ} (h : io.status.soft = true) :
    io.goneOn.status.soft = true := by
  rw [JsonIo.goneOn]
  split
  · rfl
  · exact h

theorem emitBase64Bytes_call (sink : Sink τ) (io : JsonIo τ) {data piece : Bytes}
    (hpieces : base64Pieces .standard data = [piece]) :
    emitBase64Bytes sink io data =
      (JsonIo.emit sink { io with error := {} } piece).bind fun io => .ok io.goneOn := by
  rw [emitBase64Bytes, base64EncodeSink, hpieces, base64EmitPieces, JsonIo.emit]
  generalize JsonIo.call sink { io with error := {} } piece = c
  change (if (if c.status = .ok then c.done else c).status.soft = true then
    Except.ok (if c.status = .ok then c.done else c)
    else Except.error (if c.status = .ok then c.done else c)) = _
  by_cases hok : c.status = .ok
  · have hsoft : c.status.soft = true := by
      rw [hok]
      rfl
    rw [if_pos hok, if_pos hsoft]
    change Except.ok c.done = Except.ok c.goneOn
    rw [JsonIo.goneOn, if_pos hok]
  · rw [if_neg hok]
    split
    · change Except.ok c = Except.ok c.goneOn
      rw [JsonIo.goneOn, if_neg hok]
    · rfl

section

variable {sink : Sink τ} (hsteady : sink.Steady)
include hsteady

/-- A group is one call of the sink, so that the early return of the encoder leaves none out. -/
theorem emitBase64Bytes_mirrors (io : JsonIo τ) (io' : JsonIo Bytes) {data : Bytes}
    (hlen : data.length ≤ 3) :
    Mirrors sink io.out io'.out (emitBase64Bytes sink io data)
      (emitBase64Bytes collectSink io' data) := by
  have hcall (piece : Bytes) (hpieces : base64Pieces .standard data = [piece]) :
      Mirrors sink io.out io'.out (emitBase64Bytes sink io data)
        (emitBase64Bytes collectSink io' data) := by
    rw [emitBase64Bytes_call sink io hpieces, emitBase64Bytes_call collectSink io' hpieces]
    have hemit := emit_mirrors hsteady { io with error := {} } { io' with error := {} } piece
    apply hemit.bind
    intro b b' _ hsoft hsoft'
    have hout {υ : Type} (b : JsonIo υ) : b.out = b.goneOn.out := by
      rw [JsonIo.goneOn]
      split <;> rfl
    change Mirrors sink b.out b'.out _ _
    rw [hout b, hout b']
    exact @Mirrors.pure τ _ _ _ sink _ _ trivial (goneOn_soft hsoft) (goneOn_soft hsoft')
  match data with
  | [] =>
      exact @Mirrors.pure τ _ _ _ sink (JsonIo.done { io with error := {} })
        (JsonIo.done { io' with error := {} }) trivial rfl rfl
  | [a] => exact hcall _ rfl
  | [a, b] => exact hcall _ rfl
  | [a, b, c] => exact hcall _ rfl
  | a :: b :: c :: d :: rest =>
      simp only [List.length_cons] at hlen
      omega

theorem serializeGroups_mirrors (data : Bytes) : ∀ (io : JsonIo τ) (io' : JsonIo Bytes),
    io.status.soft = true → io'.status.soft = true →
    Mirrors sink io.out io'.out (serializeGroups sink data io)
      (serializeGroups collectSink data io') := by
  induction data using base64Pieces.induct with
  | case1 a b c rest ih =>
      intro io io' _ _
      rw [serializeGroups, serializeGroups]
      exact (emitBase64Bytes_mirrors hsteady io io' le_rfl).bind fun b b' _ => ih b b'
  | case2 =>
      exact fun io io' hsoft hsoft' =>
        @Mirrors.pure τ _ _ _ sink ([], io) ([], io') rfl hsoft hsoft'
  | case3 rest hthree _ =>
      intro io io' hsoft hsoft'
      rw [serializeGroups.eq_2 _ _ _ hthree, serializeGroups.eq_2 _ _ _ hthree]
      exact @Mirrors.pure τ _ _ _ sink (rest, io) (rest, io') rfl hsoft hsoft'

end

theorem serializeGroups_short {sink : Sink τ} (data : Bytes) : ∀ {io : JsonIo τ}
    {x : Bytes × JsonIo τ}, serializeGroups sink data io = .ok x →
    x.1.length < 3 ∧ x.1.length ≤ data.length := by
  induction data using base64Pieces.induct with
  | case1 a b c rest ih =>
      intro io x h
      rw [serializeGroups] at h
      cases hemit : emitBase64Bytes sink io [a, b, c] with
      | error e =>
          rw [hemit] at h
          cases h
      | ok io' =>
          rw [hemit] at h
          obtain ⟨hshort, hle⟩ := ih h
          simp only [List.length_cons]
          exact ⟨hshort, by omega⟩
  | case2 =>
      rintro io x ⟨⟩
      exact ⟨Nat.zero_lt_succ _, le_rfl⟩
  | case3 rest hthree _ =>
      intro io x h
      rw [serializeGroups.eq_2 _ _ _ hthree] at h
      cases h
      exact ⟨length_lt_three hthree, le_rfl⟩

theorem serializeChunk_short {sink : Sink τ} {carry : Bytes} (hcarry : carry.length < 3)
    (data : Bytes) {io : JsonIo τ} {x : Bytes × JsonIo τ}
    (h : serializeChunk sink carry data io = .ok x) : x.1.length < 3 := by
  rw [serializeChunk] at h
  split at h
  · dsimp only at h
    split at h
    · cases hemit : emitBase64Bytes sink io (carry ++ data.take (3 - carry.length)) with
      | error e =>
          rw [hemit] at h
          cases h
      | ok io' =>
          rw [hemit] at h
          exact (serializeGroups_short _ h).1
    · next hfull =>
      rw [List.length_append, List.length_take] at hfull
      cases hgroups : serializeGroups sink (data.drop (3 - carry.length)) io with
      | error e =>
          rw [hgroups] at h
          cases h
      | ok y =>
          rw [hgroups] at h
          cases h
          have hle := (serializeGroups_short _ hgroups).2
          rw [List.length_drop] at hle
          change (carry ++ data.take (3 - carry.length) ++ y.1).length < 3
          rw [List.length_append, List.length_append, List.length_take]
          omega
  · exact (serializeGroups_short _ h).1

theorem serializeChunks_short {sink : Sink τ} (message : String) (reads : List ReadResult) :
    ∀ {carry : Bytes}, carry.length < 3 → ∀ {io : JsonIo τ} {x : Bytes × JsonIo τ},
    serializeChunks sink message reads carry io = .ok x → x.1.length < 3 := by
  induction reads with
  | nil =>
      rintro carry hcarry io x ⟨⟩
      exact hcarry
  | cons chunk reads ih =>
      intro carry hcarry io x h
      rw [serializeChunks] at h
      split at h
      · cases h
      · cases hchunk : serializeChunk sink carry chunk.bytes io with
        | error e =>
            rw [hchunk] at h
            cases h
        | ok y =>
            rw [hchunk] at h
            change (if chunk.eof then _ else _) = _ at h
            have hshort := serializeChunk_short hcarry _ hchunk
            split at h
            · cases h
              exact hshort
            · exact ih hshort h

section

variable {sink : Sink τ} (hsteady : sink.Steady)
include hsteady

theorem serializeChunk_mirrors (carry data : Bytes) (io : JsonIo τ) (io' : JsonIo Bytes)
    (hsoft : io.status.soft = true) (hsoft' : io'.status.soft = true) :
    Mirrors sink io.out io'.out (serializeChunk sink carry data io)
      (serializeChunk collectSink carry data io') := by
  rw [serializeChunk, serializeChunk]
  split
  · dsimp only
    split
    · next hfull =>
      exact (emitBase64Bytes_mirrors hsteady io io' hfull.le).bind fun b b' _ =>
        serializeGroups_mirrors hsteady _ b b'
    · apply (serializeGroups_mirrors hsteady _ io io' hsoft hsoft').map
      · rintro ⟨rest, b⟩ ⟨rest', b'⟩ hsame
        obtain rfl : rest = rest' := hsame
        rfl
      · exact fun _ => rfl
      · exact fun _ => rfl
  · exact serializeGroups_mirrors hsteady data io io' hsoft hsoft'

theorem serializeChunks_mirrors (message : String) (reads : List ReadResult) :
    ∀ (carry : Bytes) (io : JsonIo τ) (io' : JsonIo Bytes),
    io.status.soft = true → io'.status.soft = true →
    Mirrors sink io.out io'.out (serializeChunks sink message reads carry io)
      (serializeChunks collectSink message reads carry io') := by
  induction reads with
  | nil =>
      exact fun carry io io' hsoft hsoft' =>
        @Mirrors.pure τ _ _ _ sink (carry, io) (carry, io') rfl hsoft hsoft'
  | cons chunk reads ih =>
      intro carry io io' hsoft hsoft'
      rw [serializeChunks, serializeChunks]
      split
      · exact .fault io io' rfl _
      · apply (serializeChunk_mirrors hsteady carry chunk.bytes io io' hsoft hsoft').bind
        rintro ⟨rest, b⟩ ⟨rest', b'⟩ hsame hb hb'
        obtain rfl : rest = rest' := hsame
        split
        · exact @Mirrors.pure τ _ _ _ sink (rest, b) (rest, b') rfl hb hb'
        · exact ih rest b b' hb hb'

theorem serializeBase64Tail_mirrors {carry : Bytes} (hcarry : carry.length < 3) (io : JsonIo τ)
    (io' : JsonIo Bytes) :
    Mirrors sink io.out io'.out (serializeBase64Tail sink (carry, io))
      (serializeBase64Tail collectSink (carry, io')) := by
  rw [serializeBase64Tail, serializeBase64Tail]
  split
  · exact (emitBase64Bytes_mirrors hsteady io io' hcarry.le).bind fun b b' _ _ _ =>
      emit_mirrors hsteady b b' [0x22]
  · exact emit_mirrors hsteady io io' [0x22]

theorem serializeBase64_mirrors (message : String) (reads : List ReadResult) (io : JsonIo τ)
    (io' : JsonIo Bytes) (hsoft : io.status.soft = true) (hsoft' : io'.status.soft = true) :
    Mirrors sink io.out io'.out
      ((serializeChunks sink message reads [] io).bind (serializeBase64Tail sink))
      ((serializeChunks collectSink message reads [] io').bind
        (serializeBase64Tail collectSink)) := by
  apply (serializeChunks_mirrors hsteady message reads [] io io' hsoft hsoft').bind_eq
  rintro ⟨carry, b⟩ ⟨carry', b'⟩ heq hsame _ _
  obtain rfl : carry = carry' := hsame
  have hnil : ([] : Bytes).length < 3 := Nat.zero_lt_succ _
  have hshort : carry.length < 3 := serializeChunks_short message reads hnil heq
  exact serializeBase64Tail_mirrors hsteady hshort b b'

theorem serializeSpooledBase64_mirrors (cursor : Cursor) (io : JsonIo τ) (io' : JsonIo Bytes) :
    Mirrors sink io.out io'.out (serializeSpooledBase64 sink cursor io)
      (serializeSpooledBase64 collectSink cursor io') := by
  apply (emit_mirrors hsteady io io' [0x22]).bind
  intro b b' _ hb hb'
  cases cursor with
  | error message => exact .fault b b' rfl message
  | ok reads => exact serializeBase64_mirrors hsteady _ reads b b' hb hb'

theorem serializeSourceBase64_mirrors (source : Option Cursor) (io : JsonIo τ)
    (io' : JsonIo Bytes) :
    Mirrors sink io.out io'.out (serializeSourceBase64 sink source io)
      (serializeSourceBase64 collectSink source io') := by
  match source with
  | none => exact emit_mirrors hsteady io io' _
  | some (.error message) => exact .fault io io' rfl message
  | some (.ok reads) =>
      exact (emit_mirrors hsteady io io' [0x22]).bind fun b b' _ =>
        serializeBase64_mirrors hsteady _ reads b b'

/-! ## Texts that are read in chunks -/

theorem serializeTextChunks_mirrors (message : String) (reads : List ReadResult) :
    ∀ (io : JsonIo τ) (io' : JsonIo Bytes), io.status.soft = true → io'.status.soft = true →
    Mirrors sink io.out io'.out (serializeTextChunks sink message reads io)
      (serializeTextChunks collectSink message reads io') := by
  induction reads with
  | nil => exact fun io io' hsoft hsoft' => @Mirrors.pure τ _ _ _ sink io io' trivial hsoft hsoft'
  | cons chunk reads ih =>
      intro io io' hsoft hsoft'
      rw [serializeTextChunks, serializeTextChunks]
      split
      · exact .fault io io' rfl _
      · have htext : Mirrors sink io.out io'.out
            (if chunk.bytes ≠ [] then io.emitAll sink (escapedPieces [] chunk.bytes) else .ok io)
            (if chunk.bytes ≠ [] then io'.emitAll collectSink (escapedPieces [] chunk.bytes)
              else .ok io') := by
          split
          · exact emitAll_mirrors hsteady _ io io' hsoft hsoft'
          · exact @Mirrors.pure τ _ _ _ sink io io' trivial hsoft hsoft'
        apply htext.bind
        intro b b' _ hb hb'
        split
        · exact @Mirrors.pure τ _ _ _ sink b b' trivial hb hb'
        · exact ih b b' hb hb'

theorem serializeText_mirrors (message : String) (reads : List ReadResult) (io : JsonIo τ)
    (io' : JsonIo Bytes) :
    Mirrors sink io.out io'.out
      ((io.emit sink [0x22]).bind fun io =>
        (serializeTextChunks sink message reads io).bind fun io => io.emit sink [0x22])
      ((io'.emit collectSink [0x22]).bind fun io =>
        (serializeTextChunks collectSink message reads io).bind fun io =>
          io.emit collectSink [0x22]) := by
  apply (emit_mirrors hsteady io io' [0x22]).bind
  intro b b' _ hb hb'
  exact (serializeTextChunks_mirrors hsteady message reads b b' hb hb').bind fun c c' _ _ _ =>
    emit_mirrors hsteady c c' [0x22]

theorem serializeSpooledText_mirrors (cursor : Cursor) (io : JsonIo τ) (io' : JsonIo Bytes) :
    Mirrors sink io.out io'.out (serializeSpooledText sink cursor io)
      (serializeSpooledText collectSink cursor io') := by
  cases cursor with
  | error message =>
      exact (emit_mirrors hsteady io io' [0x22]).bind fun b b' _ _ _ => .fault b b' rfl message
  | ok reads => exact serializeText_mirrors hsteady _ reads io io'

theorem serializeSourceText_mirrors (source : Option Cursor) (io : JsonIo τ)
    (io' : JsonIo Bytes) :
    Mirrors sink io.out io'.out (serializeSourceText sink source io)
      (serializeSourceText collectSink source io') := by
  match source with
  | none => exact emit_mirrors hsteady io io' _
  | some (.error message) => exact .fault io io' rfl message
  | some (.ok reads) => exact serializeText_mirrors hsteady _ reads io io'

end

/-! ## Values -/

/-- What a serializer emits with does what the functions do that emit into its sink. -/
structure EmitOps.Emits (ops : EmitOps τ) : Prop where
  steady : ops.sink.Steady
  emit : ∀ io io' data, Mirrors ops.sink io.out io'.out (ops.emit io data)
    ((sinkOps collectSink).emit io' data)
  escaped : ∀ io io' text, Mirrors ops.sink io.out io'.out (ops.escaped io text)
    ((sinkOps collectSink).escaped io' text)
  u64 : ops.u64 = emitU64Value
  i64 : ops.i64 = emitI64Value

theorem emitBytes_mirrors {sink : Sink τ} (hsteady : sink.Steady) (io : JsonIo τ)
    (io' : JsonIo Bytes) (data : Bytes) :
    Mirrors sink io.out io'.out (io.emitBytes sink data) (io'.emitBytes collectSink data) := by
  rw [JsonIo.emitBytes, JsonIo.emitBytes]
  split
  · exact @Mirrors.pure τ _ _ _ sink io.done io'.done trivial rfl rfl
  · exact emit_mirrors hsteady io io' data

theorem emitEscapedBytes_mirrors {sink : Sink τ} (hsteady : sink.Steady) (io : JsonIo τ)
    (io' : JsonIo Bytes) (text : Bytes) :
    Mirrors sink io.out io'.out (io.emitEscapedBytes sink text)
      (io'.emitEscapedBytes collectSink text) := by
  apply (emitBytes_mirrors hsteady io io' [0x22]).bind
  intro b b' _ hb hb'
  have htext : Mirrors sink b.out b'.out
      (if text.all isPlain then b.emitBytes sink text
        else b.emitAll sink (escapedPieces [] text))
      (if text.all isPlain then b'.emitBytes collectSink text
        else b'.emitAll collectSink (escapedPieces [] text)) := by
    split
    · exact emitBytes_mirrors hsteady b b' text
    · exact emitAll_mirrors hsteady _ b b' hb hb'
  exact htext.bind fun c c' _ _ _ => emitBytes_mirrors hsteady c c' [0x22]

theorem sinkOps_emits {sink : Sink τ} (hsteady : sink.Steady) : (sinkOps sink).Emits where
  steady := hsteady
  emit := emitBytes_mirrors hsteady
  escaped := emitEscapedBytes_mirrors hsteady
  u64 := rfl
  i64 := rfl

section

variable {ops : EmitOps τ} (hops : ops.Emits) (env : SerializeEnv) (pretty : Bool)
include hops

theorem serializeEach_mirrors (pieces : List Bytes) : ∀ (io : JsonIo τ) (io' : JsonIo Bytes),
    io.status.soft = true → io'.status.soft = true →
    Mirrors ops.sink io.out io'.out (serializeEach ops io pieces)
      (serializeEach (sinkOps collectSink) io' pieces) := by
  induction pieces with
  | nil =>
      exact fun io io' hsoft hsoft' => @Mirrors.pure τ _ _ _ ops.sink io io' trivial hsoft hsoft'
  | cons piece pieces ih =>
      exact fun io io' _ _ => (hops.emit io io' piece).bind fun b b' _ => ih b b'

omit hops in
theorem failHere_mirrors {sink : Sink τ} (io : JsonIo τ) (io' : JsonIo Bytes) {code : Status}
    (hcode : code.soft = false) (message : String) (messageArg : Bytes) :
    @Mirrors τ (JsonIo τ) _ _ sink io.out io'.out
      (.error (io.failHere code message messageArg))
      (.error (io'.failHere code message messageArg)) :=
  @Mirrors.fail τ _ _ _ sink io.out io'.out [] _ _ rfl rfl ⟨(List.append_nil _).symm, hcode⟩

theorem serializeDigits_mirrors (pieces : Option (List Bytes)) (io : JsonIo τ)
    (io' : JsonIo Bytes) (hsoft : io.status.soft = true) (hsoft' : io'.status.soft = true) :
    Mirrors ops.sink io.out io'.out (serializeDigits ops pieces io)
      (serializeDigits (sinkOps collectSink) pieces io') := by
  cases pieces with
  | none => exact failHere_mirrors io io' rfl _ _
  | some pieces => exact serializeEach_mirrors hops pieces io io' hsoft hsoft'

theorem serializeF64_mirrors (message : String) (bits : UInt64) (io : JsonIo τ)
    (io' : JsonIo Bytes) :
    Mirrors ops.sink io.out io'.out (serializeF64 env ops message bits io)
      (serializeF64 env (sinkOps collectSink) message bits io') := by
  rw [serializeF64, serializeF64]
  split
  · exact failHere_mirrors io io' rfl _ _
  · split
    · exact failHere_mirrors io io' rfl _ _
    · exact hops.emit io io' _

theorem serializeBool_mirrors (value : Bool) (io : JsonIo τ) (io' : JsonIo Bytes) :
    Mirrors ops.sink io.out io'.out (serializeBool ops value io)
      (serializeBool (sinkOps collectSink) value io') :=
  hops.emit io io' _

theorem serializeIndent_mirrors (depth : ℕ) (io : JsonIo τ) (io' : JsonIo Bytes)
    (hsoft : io.status.soft = true) (hsoft' : io'.status.soft = true) :
    Mirrors ops.sink io.out io'.out (serializeIndent ops pretty depth io)
      (serializeIndent (sinkOps collectSink) pretty depth io') := by
  rw [serializeIndent, serializeIndent]
  split
  · exact emitIndent_mirrors hops.steady depth io io' hsoft hsoft'
  · exact @Mirrors.pure τ _ _ _ ops.sink io io' trivial hsoft hsoft'

theorem serializeSeparator_mirrors (first : Bool) (depth : ℕ) (io : JsonIo τ)
    (io' : JsonIo Bytes) (hsoft : io.status.soft = true) (hsoft' : io'.status.soft = true) :
    Mirrors ops.sink io.out io'.out (serializeSeparator ops pretty first depth io)
      (serializeSeparator (sinkOps collectSink) pretty first depth io') := by
  have hcomma : Mirrors ops.sink io.out io'.out (if first then .ok io else ops.emit io [0x2c])
      (if first then .ok io' else (sinkOps collectSink).emit io' [0x2c]) := by
    split
    · exact @Mirrors.pure τ _ _ _ ops.sink io io' trivial hsoft hsoft'
    · exact hops.emit io io' [0x2c]
  exact hcomma.bind fun b b' _ => serializeIndent_mirrors hops pretty (depth + 1) b b'

theorem serializeBrackets_mirrors (depth : ℕ) (empty : Bool)
    {elements : JsonIo τ → Except (JsonIo τ) (JsonIo τ)}
    {elements' : JsonIo Bytes → Except (JsonIo Bytes) (JsonIo Bytes)}
    (helements : ∀ io io', io.status.soft = true → io'.status.soft = true →
      Mirrors ops.sink io.out io'.out (elements io) (elements' io'))
    (io : JsonIo τ) (io' : JsonIo Bytes) :
    Mirrors ops.sink io.out io'.out (serializeBrackets ops pretty depth empty elements io)
      (serializeBrackets (sinkOps collectSink) pretty depth empty elements' io') := by
  apply (hops.emit io io' [0x5b]).bind
  intro b b' _ hb hb'
  split
  · exact hops.emit b b' [0x5d]
  · apply (helements b b' hb hb').bind
    intro c c' _ hc hc'
    exact (serializeIndent_mirrors hops pretty depth c c' hc hc').bind fun d d' _ _ _ =>
      hops.emit d d' [0x5d]

theorem serializeElements_mirrors {α : Type}
    {write : α → JsonIo τ → Except (JsonIo τ) (JsonIo τ)}
    {write' : α → JsonIo Bytes → Except (JsonIo Bytes) (JsonIo Bytes)}
    (hwrite : ∀ a io io', io.status.soft = true → io'.status.soft = true →
      Mirrors ops.sink io.out io'.out (write a io) (write' a io'))
    (depth : ℕ) (items : List α) : ∀ (first : Bool) (io : JsonIo τ) (io' : JsonIo Bytes),
    io.status.soft = true → io'.status.soft = true →
    Mirrors ops.sink io.out io'.out (serializeElements ops pretty write depth first items io)
      (serializeElements (sinkOps collectSink) pretty write' depth first items io') := by
  induction items with
  | nil =>
      exact fun _ io io' hsoft hsoft' =>
        @Mirrors.pure τ _ _ _ ops.sink io io' trivial hsoft hsoft'
  | cons item items ih =>
      intro first io io' hsoft hsoft'
      apply (serializeSeparator_mirrors hops pretty first depth io io' hsoft hsoft').bind
      intro b b' _ hb hb'
      exact (hwrite item b b' hb hb').bind fun c c' _ => ih false c c'

theorem serializeArray_mirrors {α : Type}
    {write : α → JsonIo τ → Except (JsonIo τ) (JsonIo τ)}
    {write' : α → JsonIo Bytes → Except (JsonIo Bytes) (JsonIo Bytes)}
    (hwrite : ∀ a io io', io.status.soft = true → io'.status.soft = true →
      Mirrors ops.sink io.out io'.out (write a io) (write' a io'))
    (depth : ℕ) (items : List α) (io : JsonIo τ) (io' : JsonIo Bytes) :
    Mirrors ops.sink io.out io'.out (serializeArray ops pretty write depth items io)
      (serializeArray (sinkOps collectSink) pretty write' depth items io') :=
  serializeBrackets_mirrors hops pretty depth items.isEmpty
    (serializeElements_mirrors hops pretty hwrite depth items true) io io'

theorem serializeKey_mirrors (first : Bool) (depth : ℕ) (key : Bytes) (io : JsonIo τ)
    (io' : JsonIo Bytes) (hsoft : io.status.soft = true) (hsoft' : io'.status.soft = true) :
    Mirrors ops.sink io.out io'.out (serializeKey ops pretty first depth key io)
      (serializeKey (sinkOps collectSink) pretty first depth key io') := by
  apply (serializeSeparator_mirrors hops pretty first depth io io' hsoft hsoft').bind
  intro b b' _ _ _
  exact (hops.escaped b b' key).bind fun c c' _ _ _ => hops.emit c c' _

/-- An object up to its closing brace. -/
theorem serializeBraces_mirrors (depth : ℕ)
    {members : JsonIo τ → Except (JsonIo τ) (Bool × JsonIo τ)}
    {members' : JsonIo Bytes → Except (JsonIo Bytes) (Bool × JsonIo Bytes)}
    (hmembers : ∀ io io', io.status.soft = true → io'.status.soft = true →
      Mirrors ops.sink io.out io'.out (members io) (members' io'))
    (io : JsonIo τ) (io' : JsonIo Bytes) :
    Mirrors ops.sink io.out io'.out (serializeBraces ops pretty depth members io)
      (serializeBraces (sinkOps collectSink) pretty depth members' io') := by
  apply (hops.emit io io' [0x7b]).bind
  intro b b' _ hb hb'
  apply (hmembers b b' hb hb').bind
  rintro ⟨written, c⟩ ⟨written', c'⟩ hsame hc hc'
  obtain rfl : written = written' := hsame
  have hindent : Mirrors ops.sink c.out c'.out
      (if written then serializeIndent ops pretty depth c else .ok c)
      (if written then serializeIndent (sinkOps collectSink) pretty depth c' else .ok c') := by
    split
    · exact serializeIndent_mirrors hops pretty depth c c' hc hc'
    · exact @Mirrors.pure τ _ _ _ ops.sink c c' trivial hc hc'
  exact hindent.bind fun d d' _ _ _ => hops.emit d d' [0x7d]

mutual

theorem serializeValue_mirrors (field : Field) (depth : ℕ) : ∀ (v : Value) (io : JsonIo τ)
    (io' : JsonIo Bytes), io.status.soft = true → io'.status.soft = true →
    Mirrors ops.sink io.out io'.out (serializeValue env ops pretty field depth v io)
      (serializeValue env (sinkOps collectSink) pretty field depth v io')
  | .string none, io, io', _, _ => hops.emit io io' _
  | .string (some text), io, io', _, _ => hops.escaped io io' _
  | .fixedString buffer, io, io', _, _ => hops.escaped io io' _
  | .spooled s, io, io', _, _ => by
      rw [serializeValue, serializeValue]
      split
      · exact serializeSpooledBase64_mirrors hops.steady _ io io'
      · exact serializeSpooledText_mirrors hops.steady _ io io'
  | .source s, io, io', _, _ => by
      rw [serializeValue, serializeValue]
      split
      · exact serializeSourceBase64_mirrors hops.steady _ io io'
      · exact serializeSourceText_mirrors hops.steady _ io io'
  | .jsonValue v, io, io', _, _ => jsonTranscode_mirrors hops.steady v _ _ pretty _ io io'
  | .i64 value, io, io', hsoft, hsoft' => by
      rw [serializeValue, serializeValue, hops.i64]
      exact serializeDigits_mirrors hops _ io io' hsoft hsoft'
  | .u64 value, io, io', hsoft, hsoft' => by
      rw [serializeValue, serializeValue, hops.u64]
      exact serializeDigits_mirrors hops _ io io' hsoft hsoft'
  | .f64 bits, io, io', _, _ => serializeF64_mirrors hops env _ bits io io'
  | .bool value, io, io', _, _ => serializeBool_mirrors hops value io io'
  | .object members, io, io', _, _ => by
      rw [serializeValue, serializeValue]
      split
      · exact failHere_mirrors io io' rfl _ _
      · exact serializeBraces_mirrors hops pretty depth
          (serializeMembers_mirrors depth _ members true) io io'
  | .stringArray items _, io, io', _, _ =>
      serializeArray_mirrors hops pretty
        (fun item b b' _ _ => hops.escaped b b' (item.elim [] fun text => cString text.data))
        depth items io io'
  | .i64Array items _, io, io', _, _ => by
      rw [serializeValue, serializeValue, hops.i64]
      exact serializeArray_mirrors hops pretty (fun _ => serializeDigits_mirrors hops _) depth items
        io io'
  | .u64Array items _, io, io', _, _ => by
      rw [serializeValue, serializeValue, hops.u64]
      exact serializeArray_mirrors hops pretty (fun _ => serializeDigits_mirrors hops _) depth items
        io io'
  | .f64Array items _, io, io', _, _ =>
      serializeArray_mirrors hops pretty
        (fun bits b b' _ _ => serializeF64_mirrors hops env _ bits b b') depth items io io'
  | .boolArray items _, io, io', _, _ =>
      serializeArray_mirrors hops pretty
        (fun value b b' _ _ => serializeBool_mirrors hops value b b') depth items io io'
  | .objectArray items _, io, io', _, _ => by
      rw [serializeValue, serializeValue]
      split
      · exact failHere_mirrors io io' rfl _ _
      · exact serializeBrackets_mirrors hops pretty depth _
          (serializeRecords_mirrors depth _ items true) io io'
  | .stringArrayStream _, io, io', _, _ => failHere_mirrors io io' rfl _ _
  | .mappedArrayStream _ _, io, io', _, _ => failHere_mirrors io io' rfl _ _

theorem serializeMembers_mirrors (depth : ℕ) : ∀ (fields : List Field)
    (members : List (Value × Bool)) (first : Bool) (io : JsonIo τ) (io' : JsonIo Bytes),
    io.status.soft = true → io'.status.soft = true →
    Mirrors ops.sink io.out io'.out (serializeMembers env ops pretty depth fields members first io)
      (serializeMembers env (sinkOps collectSink) pretty depth fields members first io')
  | field :: fields, (v, present) :: members, first, io, io', hsoft, hsoft' => by
      rw [serializeMembers, serializeMembers]
      split
      · exact serializeMembers_mirrors depth fields members first io io' hsoft hsoft'
      · apply (serializeKey_mirrors hops pretty first depth _ io io' hsoft hsoft').bind
        intro b b' _ hb hb'
        apply (serializeValue_mirrors field (depth + 1) v b b' hb hb').bind
        intro c c' _ hc hc'
        exact serializeMembers_mirrors depth fields members false c c' hc hc'
  | [], [], first, io, io', hsoft, hsoft'
  | [], _ :: _, first, io, io', hsoft, hsoft'
  | _ :: _, [], first, io, io', hsoft, hsoft' =>
      @Mirrors.pure τ _ _ _ ops.sink (!first, io) (!first, io') rfl hsoft hsoft'

theorem serializeRecords_mirrors (depth : ℕ) (fields : List Field) :
    ∀ (records : List (List (Value × Bool))) (first : Bool) (io : JsonIo τ) (io' : JsonIo Bytes),
    io.status.soft = true → io'.status.soft = true →
    Mirrors ops.sink io.out io'.out (serializeRecords env ops pretty depth fields records first io)
      (serializeRecords env (sinkOps collectSink) pretty depth fields records first io')
  | [], _, io, io', hsoft, hsoft' =>
      @Mirrors.pure τ _ _ _ ops.sink io io' trivial hsoft hsoft'
  | record :: records, first, io, io', hsoft, hsoft' => by
      rw [serializeRecords, serializeRecords]
      apply (serializeSeparator_mirrors hops pretty first depth io io' hsoft hsoft').bind
      intro b b' _ hb hb'
      apply (serializeBraces_mirrors hops pretty (depth + 1)
        (serializeMembers_mirrors (depth + 1) fields record true) b b').bind
      intro c c' _ hc hc'
      exact serializeRecords_mirrors depth fields records false c c' hc hc'

end

end

/-! ## Sinks with room for a text -/

/-- A sink with room for so many bytes gives up at the piece that there is no room for, so that a
run succeeds where there is room for the text that is collected. -/
theorem Mirrors.within {sink : Sink τ} {s : τ} {room : ℕ} {held : Bytes → τ → Prop}
    {x : Except (JsonIo τ) (JsonIo τ)} {y : Except (JsonIo Bytes) (JsonIo Bytes)}
    (h : Mirrors sink s [] x y)
    (hfeed : ∀ pieces : List Bytes,
      if pieces.flatten.length ≤ room then
        ∃ s', sink.feed s pieces = .ok s' ∧ held pieces.flatten s'
      else ∃ e, sink.feed s pieces = .error e) :
    ((∃ io, x = .ok io) ↔ (∃ io', y = .ok io') ∧ (JsonIo.returned y).out.length ≤ room) ∧
    ((∃ io, x = .ok io) → held (JsonIo.returned y).out (JsonIo.returned x).out) := by
  cases h with
  | @ok pieces b b' _ hfed _ hcollects =>
      obtain ⟨hout, -⟩ := hcollects
      have hroom := hfeed pieces
      rw [List.nil_append] at hout
      rw [hfed, ← hout] at hroom
      split at hroom
      · next hle =>
        obtain ⟨s', hs, hheld⟩ := hroom
        cases hs
        exact ⟨⟨fun _ => ⟨⟨b', rfl⟩, hle⟩, fun _ => ⟨b, rfl⟩⟩, fun _ => hheld⟩
      · obtain ⟨e, hs⟩ := hroom
        cases hs
  | fail _ _ _ =>
      refine ⟨⟨?_, ?_⟩, ?_⟩
      · rintro ⟨_, ⟨⟩⟩
      · rintro ⟨⟨_, ⟨⟩⟩, _⟩
      · rintro ⟨_, ⟨⟩⟩
  | @stop pieces io _ hfed hcollects =>
      refine ⟨⟨?_, ?_⟩, ?_⟩
      · rintro ⟨_, ⟨⟩⟩
      · rintro ⟨⟨io', rfl⟩, hle⟩
        obtain ⟨more, hout, -⟩ := hcollects
        change io'.out = _ at hout
        change io'.out.length ≤ _ at hle
        rw [hout, List.flatten_append, List.nil_append, List.length_append] at hle
        have hroom := hfeed pieces
        rw [hfed, if_pos (by omega)] at hroom
        obtain ⟨s', hs, -⟩ := hroom
        cases hs
      · rintro ⟨_, ⟨⟩⟩

/-! ## What the sinks keep -/

/-- The buffer holds what there is room for of a text, in front of the bytes that it held. -/
structure HeldText (memory text : Bytes) (s : BufferSink) : Prop where
  buffer : s.buffer =
    text.take (memory.length - 1) ++ memory.drop (min text.length (memory.length - 1))
  length : s.length = min text.length (memory.length - 1)
  needed : s.needed = text.length % (sizeMax + 1)
  truncated : s.truncated = decide (memory.length - 1 < text.length)

section

variable {memory text : Bytes} {s : BufferSink} (hmemory : memory ≠ [])
include hmemory

omit hmemory in
theorem kept_start (policy : OverflowPolicy) : HeldText memory [] { buffer := memory, policy } := by
  refine ⟨?_, ?_, rfl, rfl⟩
  · rw [List.take_nil, List.nil_append, List.length_nil, Nat.zero_min, List.drop_zero]
  · rw [List.length_nil, Nat.zero_min]

theorem HeldText.capacity (h : HeldText memory text s) : s.capacity = memory.length := by
  have hpos := List.length_pos_of_ne_nil hmemory
  rw [BufferSink.capacity, h.buffer, List.length_append, List.length_take, List.length_drop]
  omega

theorem HeldText.available (h : HeldText memory text s) :
    s.available = memory.length - min text.length (memory.length - 1) := by
  have hpos := List.length_pos_of_ne_nil hmemory
  rw [BufferSink.available, h.capacity hmemory, h.length, if_pos (by omega)]

theorem HeldText.writable (h : HeldText memory text s) :
    s.writable = memory.length - 1 - text.length := by
  have hpos := List.length_pos_of_ne_nil hmemory
  rw [BufferSink.writable, h.available hmemory, if_pos (by omega)]
  omega

/-- A piece that is stored up to what there is room for. -/
theorem HeldText.store (h : HeldText memory text s) (data : Bytes) :
    ((s.store (data.take s.writable)).buffer =
        (text ++ data).take (memory.length - 1) ++
          memory.drop (min (text ++ data).length (memory.length - 1))) ∧
      (s.store (data.take s.writable)).length =
        min (text ++ data).length (memory.length - 1) := by
  have hpos := List.length_pos_of_ne_nil hmemory
  have hlength : (text.take (memory.length - 1)).length = min text.length (memory.length - 1) := by
    rw [List.length_take]
    omega
  rw [h.writable hmemory]
  constructor
  · change s.buffer.take s.length ++ _ ++ s.buffer.drop (s.length + _) = _
    rw [h.buffer, h.length, List.take_left' hlength, ← List.drop_drop, List.drop_left' hlength,
      List.drop_drop, List.take_append, List.length_take, List.length_append]
    congr 2
    omega
  · change s.length + _ = _
    rw [h.length, List.length_take, List.length_append]
    omega

omit hmemory in
theorem HeldText.needed_add (h : HeldText memory text s) (data : Bytes) :
    sizeAdd s.needed data.length = (text ++ data).length % (sizeMax + 1) := by
  rw [sizeAdd, h.needed, Nat.mod_add_mod, List.length_append]

omit hmemory in
theorem BufferSink.store_nil (s : BufferSink) : s.store [] = s := by
  rw [BufferSink.store, List.append_nil, List.length_nil, Nat.add_zero, List.take_append_drop]

/-- A call stores what there is room for, and goes on. -/
theorem sinkBuffer_eq (h : HeldText memory text s) (hpolicy : s.policy ≠ .fail) (data : Bytes)
    (error : ErrorInfo) :
    sinkBuffer s data error =
      if data.length > s.writable then
        ({ s.store (data.take s.writable) with
            needed := sizeAdd s.needed data.length, truncated := true }, error,
          if s.policy = .truncate then .truncated else .ok)
      else
        ({ s.store (data.take s.writable) with needed := sizeAdd s.needed data.length }, error,
          .ok) := by
  have hpos := List.length_pos_of_ne_nil hmemory
  have havailable : s.available > 0 := by
    rw [h.available hmemory]
    omega
  have hstore : (if s.available > 0 then
        if (data.take s.writable).length > 0 then
          BufferSink.store { s with needed := sizeAdd s.needed data.length }
            (data.take s.writable)
        else { s with needed := sizeAdd s.needed data.length }
      else { s with needed := sizeAdd s.needed data.length }) =
      { s.store (data.take s.writable) with needed := sizeAdd s.needed data.length } := by
    rw [if_pos havailable]
    split
    · rfl
    · next hempty =>
      rw [List.eq_nil_of_length_eq_zero (by omega : (data.take s.writable).length = 0),
        BufferSink.store_nil]
  rw [sinkBuffer.eq_def]
  dsimp only
  rw [hstore]
  split
  · exact if_neg hpolicy
  · rfl

theorem sinkBuffer_keeps (h : HeldText memory text s) (hpolicy : s.policy ≠ .fail) (data : Bytes)
    (error : ErrorInfo) :
    HeldText memory (text ++ data) (sinkBuffer s data error).1 ∧
      (sinkBuffer s data error).1.policy = s.policy ∧
      ((sinkBuffer s data error).2.2 = .ok ∨ (sinkBuffer s data error).2.2 = .truncated ∧
        (sinkBuffer s data error).1.truncated = true) := by
  obtain ⟨hbuffer, hlength⟩ := h.store hmemory data
  have hwritable := h.writable hmemory
  rw [sinkBuffer_eq hmemory h hpolicy]
  split
  · next hlong =>
    refine ⟨⟨hbuffer, hlength, h.needed_add data, ?_⟩, rfl, ?_⟩
    · rw [List.length_append]
      exact (decide_eq_true (by omega)).symm
    · dsimp only
      split
      · exact .inr ⟨rfl, rfl⟩
      · exact .inl rfl
  · next hshort =>
    refine ⟨⟨hbuffer, hlength, h.needed_add data, ?_⟩, rfl, .inl rfl⟩
    change s.truncated = _
    rw [h.truncated, List.length_append, decide_eq_decide]
    omega

theorem feed_sinkBuffer (pieces : List Bytes) : ∀ {text : Bytes} {s : BufferSink},
    HeldText memory text s → s.policy ≠ .fail →
    ∃ s', sinkBuffer.feed s pieces = .ok s' ∧ HeldText memory (text ++ pieces.flatten) s' ∧
      s'.policy = s.policy := by
  induction pieces with
  | nil =>
      intro text s h _
      rw [List.flatten_nil, List.append_nil]
      exact ⟨s, rfl, h, rfl⟩
  | cons piece pieces ih =>
      intro text s h hpolicy
      obtain ⟨hkept, hkeeps, hstatus⟩ := sinkBuffer_keeps hmemory h hpolicy piece {}
      have hsoft : (sinkBuffer s piece {}).2.2.soft = true := by
        rcases hstatus with hok | ⟨htruncated, -⟩
        · rw [hok]
          rfl
        · rw [htruncated]
          rfl
      have hpolicy' : (sinkBuffer s piece {}).1.policy ≠ .fail := by
        rw [hkeeps]
        exact hpolicy
      obtain ⟨s', hfed, hkept', hkeeps'⟩ := ih hkept hpolicy'
      refine ⟨s', ?_, ?_, hkeeps'.trans hkeeps⟩
      · rw [Sink.feed]
        exact (if_pos hsoft).trans hfed
      · rw [List.flatten_cons, ← List.append_assoc]
        exact hkept'

/-- The exact sink stores a piece for which there is room. -/
theorem sinkBufferExact_keeps (h : HeldText memory text s) (data : Bytes) (error : ErrorInfo)
    (hfits : (text ++ data).length ≤ memory.length - 1) :
    HeldText memory (text ++ data) (sinkBufferExact s data error).1 ∧
      (sinkBufferExact s data error).2.2 = .ok := by
  obtain ⟨hbuffer, hlength⟩ := h.store hmemory data
  have hwritable := h.writable hmemory
  have hfits' := hfits
  rw [List.length_append] at hfits'
  have hroom : data.length ≤ s.writable := by omega
  rw [List.take_of_length_le hroom] at hbuffer hlength
  have hnot : ¬ s.writable < data.length := Nat.not_lt.mpr hroom
  have htruncated : s.truncated = decide (memory.length - 1 < (text ++ data).length) := by
    rw [h.truncated, List.length_append, decide_eq_decide]
    omega
  rw [sinkBufferExact.eq_def]
  dsimp only
  rw [if_neg hnot]
  split
  · exact ⟨⟨hbuffer, hlength, h.needed_add data, htruncated⟩, rfl⟩
  · next hempty =>
    have hnil : data = [] := List.eq_nil_of_length_eq_zero (not_not.mp hempty)
    subst hnil
    rw [BufferSink.store_nil] at hbuffer hlength
    exact ⟨⟨hbuffer, hlength, h.needed_add [], htruncated⟩, rfl⟩

/-- The exact sink gives up at a piece for which there is none. -/
theorem sinkBufferExact_overflow (h : HeldText memory text s) (data : Bytes) (error : ErrorInfo)
    (hfits : text.length ≤ memory.length - 1)
    (hlong : memory.length - 1 < (text ++ data).length) :
    (sinkBufferExact s data error).2.2 = .overflow := by
  have hwritable := h.writable hmemory
  rw [List.length_append] at hlong
  have hroom : s.writable < data.length := by omega
  rw [sinkBufferExact.eq_def]
  dsimp only
  rw [if_pos hroom]

theorem feed_sinkBufferExact (pieces : List Bytes) : ∀ {text : Bytes} {s : BufferSink},
    HeldText memory text s → text.length ≤ memory.length - 1 →
    if (text ++ pieces.flatten).length ≤ memory.length - 1 then
      ∃ s', sinkBufferExact.feed s pieces = .ok s' ∧ HeldText memory (text ++ pieces.flatten) s'
    else ∃ s', sinkBufferExact.feed s pieces = .error (s', .overflow) := by
  induction pieces with
  | nil =>
      intro text s h hfits
      rw [List.flatten_nil, List.append_nil, if_pos hfits]
      exact ⟨s, rfl, h⟩
  | cons piece pieces ih =>
      intro text s h hfits
      rw [List.flatten_cons, ← List.append_assoc, Sink.feed]
      by_cases hpiece : (text ++ piece).length ≤ memory.length - 1
      · obtain ⟨hkept, hok⟩ := sinkBufferExact_keeps hmemory h piece {} hpiece
        have hsoft : (sinkBufferExact s piece {}).2.2.soft = true := by
          rw [hok]
          rfl
        rw [if_pos hsoft]
        exact ih hkept hpiece
      · have hcode := sinkBufferExact_overflow hmemory h piece {} hfits (not_le.mp hpiece)
        have hlong : ¬ (text ++ piece ++ pieces.flatten).length ≤ memory.length - 1 := by
          rw [List.length_append]
          omega
        rw [if_neg hlong]
        have hhard : ¬ (sinkBufferExact s piece {}).2.2.soft = true := by
          rw [hcode]
          decide
        rw [if_neg hhard, hcode]
        exact ⟨_, rfl⟩

/-- A run that cuts goes as the one that collects. -/
theorem Mirrors.cut {x : Except (JsonIo BufferSink) (JsonIo BufferSink)}
    {y : Except (JsonIo Bytes) (JsonIo Bytes)} (h : Mirrors sinkBuffer s [] x y)
    (hkept : HeldText memory [] s) (hpolicy : s.policy ≠ .fail) :
    HeldText memory (JsonIo.returned y).out (JsonIo.returned x).out ∧
      (JsonIo.returned x).out.policy = s.policy ∧
      ((∃ io io', x = .ok io ∧ y = .ok io') ∨
        ∃ io io', x = .error io ∧ y = .error io' ∧ io.status = io'.status ∧
          io'.status.soft = false) := by
  cases h with
  | @ok pieces b b' _ hfed _ hcollects =>
      obtain ⟨hout, -⟩ := hcollects
      obtain ⟨s', hfed', hkept', hkeeps⟩ := feed_sinkBuffer hmemory pieces hkept hpolicy
      rw [hfed] at hfed'
      cases hfed'
      rw [← hout] at hkept'
      exact ⟨hkept', hkeeps, .inl ⟨b, b', rfl, rfl⟩⟩
  | @fail pieces io io' hfed hstatus hcollects =>
      obtain ⟨hout, hhard⟩ := hcollects
      obtain ⟨s', hfed', hkept', hkeeps⟩ := feed_sinkBuffer hmemory pieces hkept hpolicy
      rw [hfed] at hfed'
      cases hfed'
      rw [← hout] at hkept'
      exact ⟨hkept', hkeeps, .inr ⟨io, io', rfl, rfl, hstatus, hhard⟩⟩
  | @stop pieces io _ hfed _ =>
      obtain ⟨s', hfed', -⟩ := feed_sinkBuffer hmemory pieces hkept hpolicy
      rw [hfed] at hfed'
      cases hfed'

end

/-! ## The two serializers -/

theorem sinkBuffer_steady : sinkBuffer.Steady := by
  intro s data error
  rw [sinkBuffer.eq_def, sinkBuffer.eq_def]
  dsimp only
  generalize (if s.available > 0 then _ else _ : BufferSink) = t
  split
  · split
    · exact ⟨rfl, rfl⟩
    · exact ⟨rfl, rfl⟩
  · exact ⟨rfl, rfl⟩

theorem sinkBufferExact_steady : sinkBufferExact.Steady := by
  intro s data error
  rw [sinkBufferExact.eq_def, sinkBufferExact.eq_def]
  dsimp only
  split
  · exact ⟨rfl, rfl⟩
  · split
    · exact ⟨rfl, rfl⟩
    · exact ⟨rfl, rfl⟩

/-- The exact sink takes a piece or overflows, so that its status is soft only where it is OK. -/
theorem sinkBufferExact_soft (s : BufferSink) (data : Bytes) (error : ErrorInfo) :
    (sinkBufferExact s data error).2.2.soft = true ↔ (sinkBufferExact s data error).2.2 = .ok := by
  rw [sinkBufferExact.eq_def]
  dsimp only
  split
  · exact ⟨nofun, nofun⟩
  · split
    · exact ⟨fun _ => rfl, fun _ => rfl⟩
    · exact ⟨fun _ => rfl, fun _ => rfl⟩

theorem bufferEmitExact_eq (io : JsonIo BufferSink) (data : Bytes) :
    io.bufferEmitExact data = io.emit sinkBufferExact data := by
  rw [JsonIo.bufferEmitExact, JsonIo.emit]
  exact if_congr (sinkBufferExact_soft _ _ _).symm rfl rfl

theorem bufferEmitAllExact_eq (pieces : List Bytes) : ∀ io : JsonIo BufferSink,
    io.bufferEmitAllExact pieces = io.emitAll sinkBufferExact pieces := by
  induction pieces with
  | nil => exact fun _ => rfl
  | cons piece pieces ih =>
      intro io
      rw [JsonIo.bufferEmitAllExact, JsonIo.emitAll, bufferEmitExact_eq]
      congr 1
      exact funext ih

theorem emitBytes_collect (io : JsonIo Bytes) (data : Bytes) :
    io.emitBytes collectSink data = io.emit collectSink data := by
  rw [JsonIo.emitBytes]
  split
  · next hnil =>
    rw [hnil]
    have hout : (JsonIo.call collectSink io []) = io.done := by
      rw [JsonIo.call, collectSink, List.append_nil]
      rfl
    rw [JsonIo.emit, hout]
    rfl
  · rfl

theorem escapedPieces_plain {text : Bytes} (h : text.all isPlain = true) : ∀ run : Bytes,
    escapedPieces run text = plainRun (run ++ text) := by
  induction text with
  | nil =>
      intro run
      rw [escapedPieces, List.append_nil]
  | cons ch rest ih =>
      intro run
      rw [List.all_cons, Bool.and_eq_true] at h
      rw [escapedPieces, if_pos h.1, ih h.2, List.append_assoc, List.singleton_append]

/-- A text that is written in quotes is written in the pieces of its escaping. -/
theorem emitEscapedBytes_collect (io : JsonIo Bytes) (text : Bytes) :
    io.emitEscapedBytes collectSink text =
      (io.emit collectSink [0x22]).bind fun io =>
        (io.emitAll collectSink (escapedPieces [] text)).bind fun io =>
          io.emit collectSink [0x22] := by
  rw [JsonIo.emitEscapedBytes, emitBytes_collect]
  change (if text.all isPlain = true
    then (io.call collectSink [0x22]).emitBytes collectSink text
    else (io.call collectSink [0x22]).emitAll collectSink (escapedPieces [] text)).bind _ =
      ((io.call collectSink [0x22]).emitAll collectSink (escapedPieces [] text)).bind _
  generalize hquote : io.call collectSink [0x22] = c
  have hdone : c.done = c := by
    rw [← hquote]
    rfl
  have htext : (if text.all isPlain = true then c.emitBytes collectSink text
      else c.emitAll collectSink (escapedPieces [] text)) =
      c.emitAll collectSink (escapedPieces [] text) := by
    split
    · next hplain =>
      rw [escapedPieces_plain hplain, List.nil_append, plainRun, JsonIo.emitBytes]
      split
      · rw [hdone]
        rfl
      · rfl
    · rfl
  rw [htext]
  congr 1

theorem bufferEmitExact_mirrors (io : JsonIo BufferSink) (io' : JsonIo Bytes) (data : Bytes) :
    Mirrors sinkBufferExact io.out io'.out (io.bufferEmitExact data)
      (io'.emitBytes collectSink data) := by
  rw [bufferEmitExact_eq, emitBytes_collect]
  exact emit_mirrors sinkBufferExact_steady io io' data

theorem exactOps_emits : exactOps.Emits where
  steady := sinkBufferExact_steady
  emit := bufferEmitExact_mirrors
  escaped io io' text := by
    change Mirrors sinkBufferExact _ _ (io.bufferEmitEscapedBytesExact text)
      (io'.emitEscapedBytes collectSink text)
    rw [emitEscapedBytes_collect, JsonIo.bufferEmitEscapedBytesExact, bufferEmitExact_eq]
    apply (emit_mirrors sinkBufferExact_steady io io' [0x22]).bind
    intro b b' _ hb hb'
    rw [bufferEmitAllExact_eq]
    apply (emitAll_mirrors sinkBufferExact_steady _ b b' hb hb').bind
    intro c c' _ _ _
    rw [bufferEmitExact_eq]
    exact emit_mirrors sinkBufferExact_steady c c' [0x22]
  u64 := rfl
  i64 := rfl

section

variable {ops : EmitOps τ} (env : SerializeEnv) (pretty : Bool)

theorem serializeMap_mirrors (hops : ops.Emits) (map : MapId) (src : Record) (depth : ℕ)
    (io : JsonIo τ) (io' : JsonIo Bytes) :
    Mirrors ops.sink io.out io'.out (serializeMap env ops pretty map src depth io)
      (serializeMap env (sinkOps collectSink) pretty map src depth io') :=
  serializeBraces_mirrors hops pretty depth
    (serializeMembers_mirrors hops env pretty depth _ src true) io io'

/-- The last piece of a record is its closing brace. -/
theorem serializeMap_last {map : MapId} {src : Record} {depth : ℕ} {io x : JsonIo τ}
    (h : serializeMap env ops pretty map src depth io = .ok x) :
    ∃ c, ops.emit c [0x7d] = .ok x := by
  rw [serializeMap, serializeBraces] at h
  cases hopen : ops.emit io [0x7b] with
  | error e =>
      rw [hopen] at h
      cases h
  | ok a =>
      rw [hopen] at h
      change (serializeMembers _ _ _ _ _ _ _ a).bind _ = _ at h
      cases hmembers : serializeMembers env ops pretty depth (env.maps map).fields src true a with
      | error e =>
          rw [hmembers] at h
          cases h
      | ok y =>
          rw [hmembers] at h
          change (if y.1 = true then _ else _ : Except _ _).bind _ = _ at h
          generalize (if y.1 = true then _ else _ : Except _ _) = z at h
          cases z with
          | error e => cases h
          | ok c => exact ⟨c, h⟩

end

theorem sinkOps_emit_ok {sink : Sink τ} {c x : JsonIo τ}
    (h : (sinkOps sink).emit c [0x7d] = .ok x) :
    x = c.call sink [0x7d] ∧ x.status.soft = true := by
  change (if (c.call sink [0x7d]).status.soft = true then Except.ok (c.call sink [0x7d])
    else Except.error (c.call sink [0x7d])) = .ok x at h
  split at h
  · next hsoft =>
    cases h
    exact ⟨rfl, hsoft⟩
  · cases h

section

variable (env : SerializeEnv) {map : MapId} {src : Record}

theorem serializeMap_collected {pretty : Bool} {io x : JsonIo Bytes}
    (h : serializeMap env (sinkOps collectSink) pretty map src 0 io = .ok x) : x.status = .ok := by
  obtain ⟨c, hlast⟩ := serializeMap_last env pretty h
  obtain ⟨rfl, -⟩ := sinkOps_emit_ok hlast
  rfl

theorem sinkBuffer_truncated {s : BufferSink} {data : Bytes} {error : ErrorInfo}
    (h : (sinkBuffer s data error).2.2 = .truncated) :
    (sinkBuffer s data error).1.truncated = true ∧
      (sinkBuffer s data error).1.policy = .truncate := by
  rw [sinkBuffer.eq_def] at h ⊢
  dsimp only at h ⊢
  generalize (if s.available > 0 then _ else _ : BufferSink) = t at h ⊢
  split at h
  · next hlong =>
    rw [if_pos hlong]
    split at h
    · cases h
    · next hfail =>
      rw [if_neg hfail]
      dsimp only at h
      split at h
      · next htruncate => exact ⟨rfl, htruncate⟩
      · cases h
  · cases h

theorem serializeMap_cut {pretty : Bool} {io x : JsonIo BufferSink}
    (h : serializeMap env (sinkOps sinkBuffer) pretty map src 0 io = .ok x) :
    x.status = .ok ∨
      x.status = .truncated ∧ x.out.truncated = true ∧ x.out.policy = .truncate := by
  obtain ⟨c, hlast⟩ := serializeMap_last env pretty h
  obtain ⟨rfl, hsoft⟩ := sinkOps_emit_ok hlast
  rw [Status.soft, Bool.or_eq_true, beq_iff_eq, beq_iff_eq] at hsoft
  rcases hsoft with hok | htruncated
  · exact .inl hok
  · exact .inr ⟨htruncated, sinkBuffer_truncated htruncated⟩

theorem serializeMap_exact {pretty : Bool} {io x : JsonIo BufferSink}
    (h : serializeMap env (sinkOps sinkBufferExact) pretty map src 0 io = .ok x) :
    x.status = .ok := by
  obtain ⟨c, hlast⟩ := serializeMap_last env pretty h
  obtain ⟨rfl, hsoft⟩ := sinkOps_emit_ok hlast
  exact (sinkBufferExact_soft _ _ _).mp hsoft

theorem serializeMap_bufferExact {io x : JsonIo BufferSink}
    (h : serializeMapCompactBufferExact env map src io = .ok x) : x.status = .ok := by
  obtain ⟨c, hlast⟩ := serializeMap_last env false h
  change c.bufferEmitExact [0x7d] = .ok x at hlast
  rw [JsonIo.bufferEmitExact] at hlast
  split at hlast
  · next hok =>
    cases hlast
    exact hok
  · cases hlast

end

/-! ## The calls -/

/-- The run of `lonejson_serialize_sink` into a sink that collects. -/
def serialized (env : SerializeEnv) (map : Option MapId) (src : Option Record)
    (options : WriteOptions) : JsonIo Bytes :=
  serializeSinkWithOptions env map src collectSink options { out := [] }

section

variable (env : SerializeEnv) {memory : Bytes} {s : BufferSink} (hmemory : memory ≠ [])

theorem serializeSinkWithOptions_map (map : MapId) (src : Record) (sink : Sink τ)
    (options : WriteOptions) (io : JsonIo τ) (hlayout : env.layoutIsValid map = true) :
    serializeSinkWithOptions env (some map) (some src) sink options io =
      JsonIo.returned
        (serializeMap env (sinkOps sink) options.pretty map src 0 { io with error := {} }) := by
  rw [serializeSinkWithOptions, if_neg (by simp [hlayout])]
  cases hpretty : options.pretty with
  | true => exact if_pos rfl
  | false => exact if_neg Bool.false_ne_true

include hmemory

/-- The call for a policy other than FAIL. -/
theorem serializeSink_cut (hkept : HeldText memory [] s) (hpolicy : s.policy ≠ .fail)
    (map : Option MapId) (src : Option Record) (options : WriteOptions) (error : ErrorInfo) :
    let x := serializeSinkWithOptions env map src sinkBuffer options { out := s, error }
    let run := serialized env map src options
    HeldText memory run.out x.out ∧
      (run.status = .ok ∧ (x.status = .ok ∨
          x.status = .truncated ∧ x.out.truncated = true ∧ s.policy = .truncate) ∨
        run.status.soft = false ∧ x.status = run.status) := by
  match map, src with
  | none, _ => exact ⟨hkept, .inr ⟨rfl, rfl⟩⟩
  | some _, none => exact ⟨hkept, .inr ⟨rfl, rfl⟩⟩
  | some map, some src =>
      cases hlayout : env.layoutIsValid map with
      | false =>
          have hfail {υ : Type} (sink : Sink υ) (io : JsonIo υ) :
              serializeSinkWithOptions env (some map) (some src) sink options io =
                io.fail .invalidArgument "invalid map layout" := if_pos (by simp [hlayout])
          dsimp only
          rw [serialized, hfail, hfail]
          exact ⟨hkept, .inr ⟨rfl, rfl⟩⟩
      | true =>
          dsimp only
          rw [serialized, serializeSinkWithOptions_map env _ _ _ _ _ hlayout,
            serializeSinkWithOptions_map env _ _ _ _ _ hlayout]
          have hruns := serializeMap_mirrors env options.pretty (sinkOps_emits sinkBuffer_steady)
            map src 0 { out := s } { out := [] }
          obtain ⟨hcut, hkeeps, hends⟩ := hruns.cut hmemory hkept hpolicy
          refine ⟨hcut, ?_⟩
          rcases hends with ⟨io, io', hx, hy⟩ | ⟨io, io', hx, hy, hstatus, hhard⟩
          · have hok := serializeMap_collected env hy
            have hends := serializeMap_cut env hx
            rw [hx] at hkeeps ⊢
            rw [hy, ← hkeeps]
            exact .inl ⟨hok, hends⟩
          · rw [hx, hy]
            exact .inr ⟨hhard, hstatus⟩

omit hmemory in
theorem returned_ok {x : Except (JsonIo τ) (JsonIo τ)} (hok : ∀ io, x = .ok io → io.status = .ok)
    (hhard : ∀ io, x = .error io → io.status.soft = false) :
    (JsonIo.returned x).status = .ok ↔ ∃ io, x = .ok io := by
  cases x with
  | ok io => exact ⟨fun _ => ⟨io, rfl⟩, fun _ => hok io rfl⟩
  | error io =>
      constructor
      · intro h
        have hsoft := hhard io rfl
        rw [show io.status = .ok from h] at hsoft
        cases hsoft
      · rintro ⟨_, ⟨⟩⟩

omit hmemory in
/-- A serializer whose sink has room for so many bytes. -/
theorem serializeMap_within {ops : EmitOps τ} (hops : ops.Emits) {s : τ} {room : ℕ}
    {held : Bytes → τ → Prop} (pretty : Bool) (map : MapId) (src : Record)
    (hfeed : ∀ pieces : List Bytes,
      if pieces.flatten.length ≤ room then
        ∃ s', ops.sink.feed s pieces = .ok s' ∧ held pieces.flatten s'
      else ∃ e, ops.sink.feed s pieces = .error e)
    (hok : ∀ io, serializeMap env ops pretty map src 0 { out := s } = .ok io → io.status = .ok) :
    let x := JsonIo.returned (serializeMap env ops pretty map src 0 { out := s })
    let run :=
      JsonIo.returned (serializeMap env (sinkOps collectSink) pretty map src 0 { out := [] })
    (x.status = .ok ↔ run.status = .ok ∧ run.out.length ≤ room) ∧
      (x.status = .ok → held run.out x.out) := by
  have hruns := serializeMap_mirrors env pretty hops map src 0 { out := s } { out := [] }
  obtain ⟨hhard, hhard'⟩ := hruns.hard
  obtain ⟨hiff, hkeeps⟩ := hruns.within hfeed
  dsimp only
  rw [returned_ok hok hhard, returned_ok (fun _ => serializeMap_collected env) hhard']
  exact ⟨hiff, hkeeps⟩

/-- The serializers for the policy FAIL. -/
theorem serializeMap_fits {ops : EmitOps BufferSink} (hops : ops.Emits)
    (hsink : ops.sink = sinkBufferExact) (hkept : HeldText memory [] s) (pretty : Bool) (map : MapId)
    (src : Record)
    (hok : ∀ io, serializeMap env ops pretty map src 0 { out := s } = .ok io → io.status = .ok) :
    let x := JsonIo.returned (serializeMap env ops pretty map src 0 { out := s })
    let run :=
      JsonIo.returned (serializeMap env (sinkOps collectSink) pretty map src 0 { out := [] })
    (x.status = .ok ↔ run.status = .ok ∧ run.out.length ≤ memory.length - 1) ∧
      (x.status = .ok → HeldText memory run.out x.out) := by
  refine serializeMap_within env hops pretty map src (fun pieces => ?_) hok
  have hfeed := feed_sinkBufferExact hmemory pieces hkept (Nat.zero_le _)
  rw [List.nil_append] at hfeed
  rw [hsink]
  split at hfeed
  · next hle =>
    rw [if_pos hle]
    exact hfeed
  · next hlong =>
    rw [if_neg hlong]
    obtain ⟨s', hs⟩ := hfeed
    exact ⟨_, hs⟩

/-- The call for the policy FAIL. -/
theorem serializeBuffer_fits (hkept : HeldText memory [] s) (map : Option MapId)
    (src : Option Record) (options : WriteOptions) (error : ErrorInfo) :
    let io : JsonIo BufferSink := { out := s, error }
    let x :=
      if options.pretty then serializeSinkWithOptions env map src sinkBufferExact options io
      else serializeBufferExact env map src io
    let run := serialized env map src options
    (x.status = .ok ↔ run.status = .ok ∧ run.out.length ≤ memory.length - 1) ∧
      (x.status = .ok → HeldText memory run.out x.out) := by
  -- the arguments are checked in the same words
  have hrefused {x : JsonIo BufferSink} {run : JsonIo Bytes} (hx : x.status = .invalidArgument)
      (hrun : run.status = .invalidArgument) :
      (x.status = .ok ↔ run.status = .ok ∧ run.out.length ≤ memory.length - 1) ∧
        (x.status = .ok → HeldText memory run.out x.out) := by
    rw [hx, hrun]
    exact ⟨⟨nofun, fun h => nomatch h.1⟩, nofun⟩
  match map, src with
  | none, _ =>
      refine hrefused ?_ rfl
      split <;> rfl
  | some _, none =>
      refine hrefused ?_ rfl
      split <;> rfl
  | some map, some src =>
      cases hlayout : env.layoutIsValid map with
      | false =>
          have hnot : (!env.layoutIsValid map) = true := by simp [hlayout]
          have hfail {υ : Type} (sink : Sink υ) (io : JsonIo υ) :
              serializeSinkWithOptions env (some map) (some src) sink options io =
                io.fail .invalidArgument "invalid map layout" := if_pos hnot
          have hfailExact (io : JsonIo BufferSink) :
              serializeBufferExact env (some map) (some src) io =
                io.fail .invalidArgument "invalid map layout" := if_pos hnot
          dsimp only
          rw [serialized, hfail, hfail, hfailExact]
          refine hrefused ?_ rfl
          split <;> rfl
      | true =>
          dsimp only
          rw [serialized, serializeSinkWithOptions_map env _ _ _ _ _ hlayout,
            serializeSinkWithOptions_map env _ _ _ _ _ hlayout]
          split
          · next hpretty =>
            exact serializeMap_fits env hmemory (sinkOps_emits sinkBufferExact_steady) rfl hkept _
              map src fun io h => serializeMap_exact env h
          · next hcompact =>
            rw [Bool.not_eq_true] at hcompact
            rw [serializeBufferExact, if_neg (by simp [hlayout]), hcompact]
            exact serializeMap_fits env hmemory exactOps_emits rfl hkept false map src fun io h =>
              serializeMap_bufferExact env h

end

/-- The NUL behind what is kept. -/
theorem HeldText.terminated {buffer text : Bytes} {s : BufferSink} (hbuffer : buffer ≠ [])
    (h : HeldText (buffer.set 0 0) text s) :
    s.buffer.set (if s.length < s.capacity then s.length else s.capacity - 1) 0 =
      text.take (buffer.length - 1) ++
        0 :: buffer.drop (min text.length (buffer.length - 1) + 1) := by
  have hpos := List.length_pos_of_ne_nil hbuffer
  have hmemory : buffer.set 0 0 ≠ [] := by
    intro hnil
    rw [List.set_eq_nil_iff] at hnil
    exact hbuffer hnil
  have hcapacity := h.capacity hmemory
  have hlength := h.length
  have hstored := h.buffer
  rw [List.length_set] at hcapacity hlength hstored
  generalize hm : min text.length (buffer.length - 1) = m at *
  have htake : (text.take (buffer.length - 1)).length = m := by
    rw [List.length_take, ← hm]
    omega
  have hroom : m < (buffer.set 0 0).length := by
    rw [List.length_set]
    omega
  rw [hcapacity, hlength, if_pos (by omega), hstored, List.set_append_right _ _ htake.le, htake,
    Nat.sub_self, List.drop_eq_getElem_cons hroom, List.set_cons_zero]
  congr 2
  exact List.drop_set_of_lt (Nat.succ_pos m)

/-- The status of a call that has cut the text, or has not. -/
theorem cut_status {x : JsonIo BufferSink} {policy : OverflowPolicy} {n room : ℕ}
    (hsoft : x.status = .ok ∨
      x.status = .truncated ∧ x.out.truncated = true ∧ policy = .truncate)
    (htruncated : x.out.truncated = decide (room < n)) :
    ((if x.status = .ok ∧ x.out.truncated = true ∧ policy = .truncate then .truncated
        else x.status) = Status.truncated ↔ policy = .truncate ∧ n > room) ∧
      ((if x.status = .ok ∧ x.out.truncated = true ∧ policy = .truncate then .truncated
        else x.status) = .ok ∨
      (if x.status = .ok ∧ x.out.truncated = true ∧ policy = .truncate then .truncated
        else x.status) = Status.truncated) := by
  have hlong : x.out.truncated = true ↔ n > room := by
    rw [htruncated]
    exact decide_eq_true_iff
  rcases hsoft with hok | ⟨hcut, hflag, hpolicy⟩
  · by_cases h : x.out.truncated = true ∧ policy = .truncate
    · rw [if_pos ⟨hok, h⟩]
      exact ⟨⟨fun _ => ⟨h.2, hlong.mp h.1⟩, fun _ => rfl⟩, .inr rfl⟩
    · rw [if_neg fun hall => h hall.2, hok]
      exact ⟨⟨nofun, fun hall => absurd ⟨hlong.mpr hall.2, hall.1⟩ h⟩, .inl rfl⟩
  · rw [if_neg (by simp [hcut]), hcut]
    exact ⟨⟨fun _ => ⟨hpolicy, hlong.mp hflag⟩, fun _ => rfl⟩, .inr rfl⟩

/-- A call leaves in the buffer what there is room for of the text of `lonejson_serialize_sink`,
and a NUL behind it; for the policy FAIL it succeeds where there is room for the text. -/
theorem serializeBuffer_truncates (env : SerializeEnv) (map : Option MapId) (src : Option Record)
    (buffer : Bytes) (hcapacity : buffer ≠ []) (options : WriteOptions) (error : ErrorInfo) :
    let run := serialized env map src options
    let n := run.out.length
    let c := buffer.length
    let r := serializeBufferWithOptions env map src buffer options error
    (options.overflowPolicy ≠ .fail →
      r.buffer = run.out.take (c - 1) ++ 0 :: buffer.drop (min n (c - 1) + 1) ∧
      r.needed = some (n % (sizeMax + 1)) ∧
      (run.status = .ok →
        (r.status = .truncated ↔ options.overflowPolicy = .truncate ∧ n > c - 1) ∧
        (r.status = .ok ∨ r.status = .truncated)) ∧
      (run.status ≠ .ok → r.status = run.status)) ∧
    (options.overflowPolicy = .fail →
      (r.status = .ok ↔ run.status = .ok ∧ n ≤ c - 1) ∧
      (r.status = .ok →
        r.buffer = run.out ++ 0 :: buffer.drop (n + 1) ∧ r.needed = some (n % (sizeMax + 1)))) := by
  have hmemory : buffer.set 0 0 ≠ [] := by
    intro hnil
    rw [List.set_eq_nil_iff] at hnil
    exact hcapacity hnil
  have hkept : HeldText (buffer.set 0 0) []
      { buffer := buffer.set 0 0, policy := options.overflowPolicy } := kept_start _
  dsimp only
  rw [serializeBufferWithOptions, if_neg hcapacity]
  dsimp only
  constructor
  · intro hpolicy
    obtain ⟨hcut, hends⟩ := serializeSink_cut env hmemory hkept hpolicy map src options error
    rw [if_neg (by simp [hpolicy]), if_neg hpolicy]
    have htruncated := hcut.truncated
    rw [List.length_set] at htruncated
    refine ⟨hcut.terminated hcapacity, congrArg some hcut.needed, ?_, ?_⟩
    · intro hrun
      rcases hends with ⟨-, hsoft⟩ | ⟨hhard, -⟩
      · exact cut_status hsoft htruncated
      · rw [hrun] at hhard
        cases hhard
    · intro hrun
      rcases hends with ⟨hok, -⟩ | ⟨-, hstatus⟩
      · exact absurd hok hrun
      · rw [if_neg (by simp [hstatus, hrun])]
        exact hstatus
  · intro hpolicy
    have hfits := serializeBuffer_fits env hmemory hkept map src options error
    have hcalls : (if options.overflowPolicy = .fail ∧ (!options.pretty) = true then
          serializeBufferExact env map src
            { out := { buffer := buffer.set 0 0, policy := options.overflowPolicy }, error }
        else
          serializeSinkWithOptions env map src
            (if options.overflowPolicy = .fail then sinkBufferExact else sinkBuffer) options
            { out := { buffer := buffer.set 0 0, policy := options.overflowPolicy }, error }) =
        if options.pretty then
          serializeSinkWithOptions env map src sinkBufferExact options
            { out := { buffer := buffer.set 0 0, policy := options.overflowPolicy }, error }
        else
          serializeBufferExact env map src
            { out := { buffer := buffer.set 0 0, policy := options.overflowPolicy }, error } := by
      cases options.pretty with
      | true =>
          rw [if_neg (by simp), if_pos hpolicy]
          rfl
      | false => exact if_pos ⟨hpolicy, rfl⟩
    rw [hcalls]
    dsimp only at hfits
    generalize (if options.pretty = true then _ else _ : JsonIo BufferSink) = x at hfits ⊢
    obtain ⟨hiff, hkeeps⟩ := hfits
    rw [List.length_set] at hiff
    rw [if_neg (by simp [hpolicy])]
    refine ⟨hiff, fun hok => ?_⟩
    have hroom := (hiff.mp hok).2
    have hleft := (hkeeps hok).terminated hcapacity
    rw [List.take_of_length_le hroom, Nat.min_eq_left hroom] at hleft
    exact ⟨hleft, congrArg some (hkeeps hok).needed⟩

/-- One map, with a flag. -/
def flagEnv : SerializeEnv where
  maps _ := ⟨[{ jsonKey := [0x6b], kind := .bool }]⟩
  layoutIsValid _ := true
  spooled _ := .ok []
  source _ := .ok []
  json _ := ([], id)
  formatF64 _ := none

theorem serializeBuffer_truncates_flag :
    (serializeBufferWithOptions flagEnv (some 0) (some [(.bool true, true)])
      [0x2a, 0x2a, 0x2a, 0x2a, 0x2a, 0x2a] { overflowPolicy := .truncate } {}).status =
        .truncated ∧
    (serializeBufferWithOptions flagEnv (some 0) (some [(.bool true, true)])
      [0x2a, 0x2a, 0x2a, 0x2a, 0x2a, 0x2a] { overflowPolicy := .truncate } {}).buffer =
        [0x7b, 0x22, 0x6b, 0x22, 0x3a, 0] := by
  obtain ⟨hbuffer, -, hstatus, -⟩ := (serializeBuffer_truncates flagEnv (some 0)
    (some [(.bool true, true)]) [0x2a, 0x2a, 0x2a, 0x2a, 0x2a, 0x2a] (by decide)
    { overflowPolicy := .truncate } {}).1 (by decide)
  exact ⟨(hstatus (by decide)).1.mpr ⟨rfl, by decide⟩, hbuffer.trans (by decide)⟩

end Lonejson
