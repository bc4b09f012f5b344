import Lonejson.GeneratorValues
import Lonejson.SerializerOwned

/-!
# Reading a generator

`lonejson_generator_read` returns, whatever the capacities are, the text of
`lonejson_serialize_sink` for the record, and `lonejson_generator_measure` its length.
-/

namespace Lonejson

open Json (Tree)
open JsonPull (Paired Buffered)
open Pull (Producer)

namespace Generator

/-! ## JSON members -/

/-- No container of the tree has a child. -/
def lineless : Tree → Bool
  | .array items => items.isEmpty
  | .object members => members.isEmpty
  | _ => true

theorem laid_lineless {t : Tree} (h : lineless t = true) (Y Y' : Json.Layout) (d : ℕ) :
    t.laid Y id d = t.laid Y' id d := by
  cases t with
  | array items =>
      obtain rfl := List.isEmpty_iff.mp h
      rfl
  | object members =>
      obtain rfl := List.isEmpty_iff.mp h
      rfl
  | _ => rfl

theorem fits_lineless {t : Tree} (h : lineless t = true) (fits : ℕ → Bool) (d : ℕ) :
    t.linesFit fits d = true := by
  cases t with
  | array items =>
      obtain rfl := List.isEmpty_iff.mp h
      rfl
  | object members =>
      obtain rfl := List.isEmpty_iff.mp h
      rfl
  | _ => rfl

section

variable {env : SerializeEnv} {pretty : Bool} {value : JsonValue}

/-- A JSON value that the reader of a generator copies as the transcoder does: its tokens are those
that the reader takes, no limit is in its way, a text in memory is compact, and a text that is
indented has no lines of its own, since the two count its depth from different levels. -/
structure JsonKept (env : SerializeEnv) (pretty : Bool) (value : JsonValue) : Prop where
  room : JsonPull.totalLimit value ≠ 0 → (env.json value).1.length ≤ JsonPull.totalLimit value
  buffer : value.kind = .buffer →
    (env.json value).1 = value.text ∧ Json.compact value.text = value.text
  tree : ∃ t : Tree, t.SpelledBy rawLexis (env.json value).1 ∧ t.EachToken Paired Buffered ∧
    (pretty = true → lineless t = true)

/-- What is asked of the JSON values of a record. -/
def JsonAsked (env : SerializeEnv) (pretty : Bool) (value : JsonValue) (_ : ℕ) : Prop :=
  value.kind ≠ .null → JsonKept env pretty value

theorem prints_laid (hkind : value.kind ≠ .null) (h : JsonKept env pretty value) (depth : ℕ)
    {t : Tree} (ht : t.SpelledBy rawLexis (env.json value).1)
    (htokens : t.EachToken Paired Buffered) : ∃ n,
      JsonPull.producer.Prints n (JsonPull.init value (env.json value).1 pretty depth)
        (t.laid (transcodeLayout pretty depth) id 0) none := by
  obtain ⟨hi, hv, hr⟩ := ht
  have hwaits : JsonPull.Waits [] := fun _ h => by cases h
  have hends : NumberEnds [] := fun _ h => by cases h
  obtain ⟨n, hprints⟩ := @JsonPull.yields_value (pretty, depth) t [] _ _ _ _ _ hwaits htokens hi
    (numberEnds_space hr hends) hv (JsonPull.yields_rest hr)
  have hstart := hprints _ (JsonPull.init_at hkind h.room)
  have hpending : JsonPull.producer.pending
      (JsonPull.init value (env.json value).1 pretty depth) = [] := JsonPull.init_pending hkind
  rw [hpending, List.append_nil] at hstart
  exact ⟨n, hstart⟩

theorem laid_base {t : Tree} (hlines : pretty = true → lineless t = true) (depth : ℕ) :
    t.laid (transcodeLayout pretty (if pretty then depth + 1 else 0)) id 0 =
      t.laid (transcodeLayout pretty depth) id 0 := by
  cases pretty with
  | false => rfl
  | true => exact laid_lineless (hlines rfl) _ _ _

theorem emits_cursor (ahead : Ahead) (depth : ℕ) {t : Tree} {v : Json.Text}
    (ht : t.SpelledBy rawLexis v) (hlines : pretty = true → lineless t = true) :
    Emits (fun io => (jsonTranscodeCursor collectSink ahead pretty
      (if pretty then depth + 1 else 0) v io).checked) (t.laid (transcodeLayout pretty depth) id 0) := by
  intro io
  have hfit : t.linesFit (indentFits pretty (if pretty then depth + 1 else 0)) 0 = true := by
    cases pretty with
    | false => exact linesFit_all 0 t
    | true => exact fits_lineless (hlines rfl) _ _
  rcases @transcode_lays _ collectSink id collectSink_appends collectSink_reliable ahead pretty
    (if pretty then depth + 1 else 0) t v ht io with ⟨-, hsoft, hout⟩ | ⟨hno, -⟩
  · rw [laid_base hlines] at hout
    exact ⟨_, if_pos hsoft, hout⟩
  · rw [hfit] at hno
    cases hno

theorem emits_laid (h : JsonKept env pretty value) (hkind : value.kind ≠ .null) (depth : ℕ)
    {t : Tree} (ht : t.SpelledBy rawLexis (env.json value).1)
    (hlines : pretty = true → lineless t = true) :
    Emits (fun io => (jsonTranscode collectSink value (env.json value).1 (env.json value).2 pretty
      (if pretty then depth + 1 else 0) io).checked) (t.laid (transcodeLayout pretty depth) id 0) := by
  by_cases hbuffer : value.kind = .buffer
  · obtain ⟨hsource, hcompact⟩ := h.buffer hbuffer
    rw [hsource] at ht
    cases hpretty : pretty with
    | true =>
        rw [hpretty] at hlines
        have hcursor := @emits_cursor true id depth t value.text ht hlines
        simpa only [jsonTranscode, hbuffer, if_true] using hcursor
    | false =>
        have hlaid : t.laid (transcodeLayout false depth) id 0 = value.text := by
          rw [← hcompact, ht.compact_eq rawLexis_solid]
          exact t.laid_none id 0
        intro io
        refine ⟨io.call collectSink value.text, ?_, by rw [hlaid]; rfl⟩
        simp only [jsonTranscode, hbuffer]
        rfl
  · have hcursor := emits_cursor (env.json value).2 depth ht hlines
    have htranscode (io : JsonIo Bytes) : jsonTranscode collectSink value (env.json value).1
        (env.json value).2 pretty (if pretty then depth + 1 else 0) io =
        jsonTranscodeCursor collectSink (env.json value).2 pretty
          (if pretty then depth + 1 else 0) (env.json value).1 io := by
      rw [jsonTranscode]
      split
      · next hnull => exact absurd hnull hkind
      · next hkept => exact absurd hkept hbuffer
      · rfl
    simpa only [htranscode] using hcursor

theorem jsonAsked_serves : JsonServes env pretty (JsonAsked env pretty) := by
  intro value depth h
  by_cases hnull : value.kind = .null
  · -- what is pending from the start is all there is
    refine ⟨1, 0, Json.nullText, none, Nat.zero_lt_one, ?_, .inl ⟨rfl, fun io => ?_⟩⟩
    · have hinit : ∃ s : JsonPull, JsonPull.init value (env.json value).1 pretty depth = s ∧
          s.pending = Json.nullText ∧ s.lex = .none ∧ s.rootFinished = true ∧ s.frames = [] ∧
          s.syntheticNull = true := by
        rw [JsonPull.init, if_pos hnull]
        exact ⟨_, rfl, rfl, rfl, rfl, rfl, rfl⟩
      obtain ⟨s, hs, hpending, hlex, hroot, hframes, hsynthetic⟩ := hinit
      rw [hs, ← hpending]
      have hend (s : JsonPull) (hlex : s.lex = .none) (hroot : s.rootFinished = true)
          (hframes : s.frames = []) (hsynthetic : s.syntheticNull = true) :
          JsonPull.step s = .finish { s with finished := true } := by
        simp [JsonPull.step, JsonPull.stepEnd, hlex, hroot, hframes, hsynthetic]
      refine .finish (hend _ hlex hroot hframes hsynthetic) ⟨rfl, ?_⟩
      exact hend _ hlex hroot hframes hsynthetic
    · refine ⟨io.call collectSink Json.nullText, ?_, rfl⟩
      simp only [jsonTranscode, hnull]
      rfl
  · have hkept := h hnull
    obtain ⟨t, ht, htokens, hlines⟩ := hkept.tree
    obtain ⟨n, hprints⟩ := prints_laid hnull hkept depth ht htokens
    exact ⟨n + 1, n, _, none, Nat.lt_succ_self n, hprints,
      .inl ⟨rfl, emits_laid hkept hnull depth ht hlines⟩⟩

end

end Generator

/-! ## Measuring -/

/-- `lonejson__measure_sink`. -/
def measureSink : Sink ℕ := fun total data error =>
  if sizeMax - total < data.length then
    (total, error.set .overflow "serialized output is too large to measure", .overflow)
  else (total + data.length, error, .ok)

/-- Whether the file or the descriptor of a source or of a JSON value can be sought. -/
structure Seeks where
  source : Source → Bool
  json : JsonValue → Bool

/-- `lonejson_source_is_rewindable`. -/
def sourceIsRewindable (seeks : Seeks) (s : Source) : Bool :=
  match s.kind with
  | .none | .path => true
  | .file | .fd => seeks.source s

/-- `lonejson_json_value_is_rewindable`. -/
def jsonValueIsRewindable (seeks : Seeks) (value : JsonValue) : Bool :=
  match value.kind with
  | .null | .buffer | .path => true
  | .reader => false
  | .file | .fd => seeks.json value

mutual

/-- `lonejson__field_is_rewindable_for_serialize`. -/
def fieldIsRewindable (maps : MapTable) (seeks : Seeks) (field : Field) : Value → Bool
  | .source s => sourceIsRewindable seeks s
  | .jsonValue value => jsonValueIsRewindable seeks value
  | .object members =>
    match field.submap with
    | none => false
    | some map => membersAreRewindable maps seeks (maps map).fields members
  | .objectArray items _ =>
    match field.submap with
    | none => items.isEmpty
    | some map => recordsAreRewindable maps seeks (maps map).fields items
  | _ => true

/-- The loop of `lonejson__map_is_rewindable_for_serialize`. -/
def membersAreRewindable (maps : MapTable) (seeks : Seeks) :
    List Field → List (Value × Bool) → Bool
  | field :: fields, (v, present) :: members =>
    if fieldShouldOmit maps field v present then membersAreRewindable maps seeks fields members
    else fieldIsRewindable maps seeks field v && membersAreRewindable maps seeks fields members
  | _, _ => true

/-- The loop over the elements of an array of objects. -/
def recordsAreRewindable (maps : MapTable) (seeks : Seeks) (fields : List Field) :
    List (List (Value × Bool)) → Bool
  | [] => true
  | record :: records =>
    membersAreRewindable maps seeks fields record && recordsAreRewindable maps seeks fields records

end

/-- `lonejson__map_is_rewindable_for_serialize`. -/
def mapIsRewindable (maps : MapTable) (seeks : Seeks) (map : MapId) (src : Record) : Bool :=
  membersAreRewindable maps seeks (maps map).fields src

/-- What a measurement leaves: the length where it is set, the error record and the status. -/
structure MeasureResult where
  outLen : Option ℕ
  error : ErrorInfo
  status : Status
  deriving DecidableEq, Repr

/-- `lonejson__generator_measure_with_options`; `none` is NULL. -/
def generatorMeasure (env : SerializeEnv) (seeks : Seeks) (map : Option MapId)
    (src : Option Record) (options : WriteOptions) (error : ErrorInfo) : MeasureResult :=
  let fail (message : String) : MeasureResult :=
    { outLen := none, error := error.set .invalidArgument message, status := .invalidArgument }
  match map, src with
  | some map, some src =>
    if !env.layoutIsValid map then fail "invalid map layout"
    else if !mapIsRewindable env.maps seeks map src then
      fail "cannot measure non-rewindable JSON document"
    else
      let io := serializeSinkWithOptions env (some map) (some src) measureSink options
        { out := 0, error }
      { outLen := if io.status.soft then some io.out else none
        error := io.error
        status := io.status }
  | _, _ => fail "map, source, and output length are required"

theorem measureSink_steady : measureSink.Steady := by
  intro total data error
  simp only [measureSink]
  split_ifs <;> exact ⟨rfl, rfl⟩

/-- A measurement adds up the lengths of the pieces, up to what a `size_t` holds. -/
theorem feed_measureSink (pieces : List Bytes) : ∀ {total : ℕ}, total ≤ sizeMax →
    if total + pieces.flatten.length ≤ sizeMax then
      measureSink.feed total pieces = .ok (total + pieces.flatten.length)
    else ∃ e, measureSink.feed total pieces = .error e := by
  induction pieces with
  | nil =>
      intro total htotal
      rw [List.flatten_nil, List.length_nil, Nat.add_zero, if_pos htotal]
      rfl
  | cons piece pieces ih =>
      intro total htotal
      rw [List.flatten_cons, List.length_append, Sink.feed]
      by_cases hfull : sizeMax - total < piece.length
      · have hcall : measureSink total piece {} = (total,
            ErrorInfo.set {} .overflow "serialized output is too large to measure", .overflow) :=
          if_pos hfull
        rw [hcall, if_neg (by omega)]
        exact ⟨_, rfl⟩
      · have hcall : measureSink total piece {} = (total + piece.length, {}, .ok) := if_neg hfull
        have hrest := @ih (total + piece.length) (by omega)
        rw [Nat.add_assoc] at hrest
        rw [hcall]
        exact hrest

theorem serializeMap_measured {env : SerializeEnv} {pretty : Bool} {map : MapId} {src : Record}
    {io x : JsonIo ℕ} (h : serializeMap env (sinkOps measureSink) pretty map src 0 io = .ok x) :
    x.status = .ok := by
  obtain ⟨c, hlast⟩ := serializeMap_last env pretty h
  obtain ⟨rfl, hsoft⟩ := sinkOps_emit_ok hlast
  change (measureSink c.out [0x7d] c.error).2.2.soft = true at hsoft
  change (measureSink c.out [0x7d] c.error).2.2 = .ok
  rw [measureSink] at hsoft ⊢
  split_ifs at hsoft ⊢
  · cases hsoft
  · rfl

/-- What is measured of a record that can be read again is the length of its text. -/
theorem generatorMeasure_length {env : SerializeEnv} {seeks : Seeks} {map : MapId} {src : Record}
    (options : WriteOptions) (error : ErrorInfo) (hlayout : env.layoutIsValid map = true)
    (hrewinds : mapIsRewindable env.maps seeks map src = true) :
    ((generatorMeasure env seeks (some map) (some src) options error).status = .ok ↔
      (serialized env (some map) (some src) options).status = .ok ∧
        (serialized env (some map) (some src) options).out.length ≤ sizeMax) ∧
    ((generatorMeasure env seeks (some map) (some src) options error).status = .ok →
      (generatorMeasure env seeks (some map) (some src) options error).outLen =
        some (serialized env (some map) (some src) options).out.length) := by
  have hmeasure : generatorMeasure env seeks (some map) (some src) options error =
      { outLen :=
          if (serializeSinkWithOptions env (some map) (some src) measureSink options
            { out := 0, error }).status.soft then
            some (serializeSinkWithOptions env (some map) (some src) measureSink options
              { out := 0, error }).out else none
        error := (serializeSinkWithOptions env (some map) (some src) measureSink options
          { out := 0, error }).error
        status := (serializeSinkWithOptions env (some map) (some src) measureSink options
          { out := 0, error }).status } := by
    rw [generatorMeasure]
    dsimp only
    rw [if_neg (by simp [hlayout]), if_neg (by simp [hrewinds])]
  rw [hmeasure, serialized, serializeSinkWithOptions_map env _ _ _ _ _ hlayout,
    serializeSinkWithOptions_map env _ _ _ _ _ hlayout]
  dsimp only
  obtain ⟨hstatus, hheld⟩ := @serializeMap_within _ env (sinkOps measureSink)
    (sinkOps_emits measureSink_steady) 0 sizeMax (fun text n => n = text.length) options.pretty map
    src (fun pieces => by
      have hfeed := feed_measureSink pieces (Nat.zero_le sizeMax)
      rw [Nat.zero_add] at hfeed
      split_ifs at hfeed ⊢
      · exact ⟨_, hfeed, rfl⟩
      · exact hfeed) fun io => serializeMap_measured
  refine ⟨hstatus, fun hok => ?_⟩
  rw [if_pos (by rw [hok]; rfl), hheld hok]

/-! ## Reading -/

theorem generatorInit_ok {env : SerializeEnv} {map : MapId} {src : Record} {g : RecordGenerator}
    (h : generatorInit env (some map) (some src) = .ok g) :
    env.layoutIsValid map = true ∧ Generator.start map src = g := by
  rw [generatorInit] at h
  split_ifs at h with hlayout
  · exact ⟨hlayout, Except.ok.inj h⟩

/-- An integer, a source that is read in two chunks, and a number that a reader holds. -/
def partsEnv : SerializeEnv where
  maps _ := { fields := [
    { jsonKey := ascii "n", kind := .i64 },
    { jsonKey := ascii "b", kind := .base64Source },
    { jsonKey := ascii "j", kind := .jsonValue }] }
  layoutIsValid _ := true
  spooled _ := .ok []
  source _ := .ok [{ bytes := ascii "ab" }, { bytes := ascii "c", eof := true }]
  json _ := (ascii "1", id)
  formatF64 _ := none

def partsRecord : Record :=
  [(.i64 (-5), true), (.source { kind := .path }, true), (.jsonValue { kind := .path }, true)]

theorem partsRecord_served : Generator.ServedMembers partsEnv false
    (Generator.JsonAsked partsEnv false) 0 (partsEnv.maps 0).fields partsRecord := by
  have hnumber : JsonNumber (ascii "1") := (isValidJsonNumber_iff _).mp (by decide +kernel)
  have hspells : (Tree.number (ascii "1")).SpelledBy rawLexis (ascii "1") :=
    .mk .done (@Json.Spells.number rawLexis (ascii "1") [] hnumber) .done
  have hkept : Generator.JsonKept partsEnv false { kind := .path } := by
    refine ⟨fun h => absurd rfl h, (fun h => by cases h), Tree.number (ascii "1"), hspells, ?_,
      (fun h => by cases h)⟩
    rw [Tree.EachToken, Buffered]
    decide +kernel
  have hsource : Cursor.Steady (partsEnv.source { kind := .path }) := by
    rintro reads ⟨⟩
    exact .inl ⟨_, .chunk (by decide +kernel) (.last _ [])⟩
  exact ⟨fun _ => ⟨by decide +kernel, trivial⟩, fun _ => ⟨by decide +kernel, fun _ _ => hsource⟩,
    fun _ => ⟨by decide +kernel, fun _ => hkept⟩, trivial⟩

theorem partsRecord_serialized :
    (serialized partsEnv (some 0) (some partsRecord) {}).status = .ok ∧
      (serialized partsEnv (some 0) (some partsRecord) {}).out =
        ascii "\x7b\"n\":-5,\"b\":\"YWJj\",\"j\":1\x7d" := by decide +kernel

end Lonejson
