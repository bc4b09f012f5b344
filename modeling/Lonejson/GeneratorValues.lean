import Lonejson.GeneratorStreams

/-!
# The generator writes what the serializer writes

A frame for every kind of value, by recursion over the record: the reads of a generator return the
text that the serializer hands to a sink that takes everything, and a generator fails where the
serializer does.
-/

namespace Lonejson

open Pull (Outcome Producer)

namespace Generator

section

variable {fuel : ℕ} {env : SerializeEnv} {pretty : Bool}
  {below : List (GeneratorFrame RecordFrame)}

/-! ## JSON values -/

/-- The reader of a JSON value returns what the transcoder writes, in fewer turns than the fuel, and
fails where it fails. -/
def JsonFollows (fuel : ℕ) (env : SerializeEnv) (pretty : Bool) (value : JsonValue) (depth : ℕ) :
    Prop :=
  ∃ n out e, n < fuel ∧
    JsonPull.producer.Prints n (JsonPull.init value (env.json value).1 pretty depth) out e ∧
    ((e = none ∧ Emits (fun io => (jsonTranscode collectSink value (env.json value).1
        (env.json value).2 pretty (if pretty then depth + 1 else 0) io).checked) out) ∨
      (e ≠ none ∧ ∀ io, ∃ io', (jsonTranscode collectSink value (env.json value).1
        (env.json value).2 pretty (if pretty then depth + 1 else 0) io).checked = .error io'))

theorem stepJsonValue_read {frame : JsonFrame} {g : RecordGenerator} {s : JsonPull}
    {r : Pull.Read JsonPull Status}
    (hprepare : prepareJsonOwner env pretty frame g.frames.tail.length = s)
    (hread : JsonPull.producer.read fuel ioBufferSize s = some r) :
    (∀ code, r.error = some code → stepJsonValue fuel env pretty frame g =
      fail (g.putTop (.json { frame with pull := some r.state })) code r.state.error.message) ∧
    (r.error = none → r.bytes ≠ [] → stepJsonValue fuel env pretty frame g =
      (g.putTop (.json { frame with pull := some r.state })).setPending r.bytes) ∧
    (r.error = none → r.bytes = [] → JsonPull.producer.eof r.state = true → g.ioOwner = none →
      stepJsonValue fuel env pretty frame g = .next { g with frames := g.frames.tail }) := by
  rw [stepJsonValue, hprepare, hread]
  refine ⟨fun code hcode => ?_, fun hnone hbytes => ?_, fun hnone hbytes heof howner => ?_⟩
  · dsimp only
    rw [hcode]
  · dsimp only
    rw [hnone]
    exact if_pos hbytes
  · dsimp only
    rw [hnone]
    have hpop : popFrame (g.putTop (.json { frame with pull := some r.state })) g.frames.tail =
        { g with frames := g.frames.tail } := by
      have howner' : (g.putTop (.json { frame with pull := some r.state })).ioOwner = none := howner
      rw [popFrame_at howner']
      rfl
    rw [if_neg (not_not_intro hbytes), if_pos heof]
    exact congrArg _ hpop

/-- The reads of a JSON value go on to its end. -/
theorem runs_json {n : ℕ} (hn : n < fuel) (text : Bytes) : ∀ (frame : JsonFrame) (s : JsonPull),
    prepareJsonOwner env pretty frame below.length = s →
    JsonPull.producer.Prints n s text none → (recordProducer fuel env pretty).Runs
      (At (.other (.json frame) :: below)) text (At below) := by
  induction hlen : text.length using Nat.strong_induction_on generalizing text with
  | _ len ih =>
      intro frame s hprepare hprints
      obtain ⟨r, hread, hgives⟩ := hprints.read JsonPull.producer_lawful hn
        (by decide : 0 < ioBufferSize)
      have hnone : r.error = none := hgives.error.trans (ite_self none)
      have htail {g : RecordGenerator} (hg : At (.other (.json frame) :: below) g) :
          g.frames.tail = below := congrArg List.tail hg.1
      by_cases hempty : text = []
      · subst hempty
        have hbytes : r.bytes = [] := hgives.bytes.trans List.take_nil
        have heof := hgives.eof hnone (by decide)
        refine .step fun g hg => ⟨(step_at hg).1, _, (step_at hg).2.trans
          ((stepJsonValue_read (by rwa [htail hg]) hread).2.2 hnone hbytes heof hg.2.1), rfl,
          htail hg, hg.2⟩
      · have hbytes : r.bytes ≠ [] := by
          rw [hgives.bytes]
          simpa [ioBufferSize] using hempty
        have hrest := ih (text.drop ioBufferSize).length (by
          have hpos := List.length_pos_of_ne_nil hempty
          have hsize : ioBufferSize = 4096 := rfl
          rw [List.length_drop]
          omega) (text.drop ioBufferSize) rfl { frame with pull := some r.state } r.state rfl
          (hgives.rest hnone)
        have hstep : (recordProducer fuel env pretty).Runs (At (.other (.json frame) :: below))
            (text.take ioBufferSize)
            (At (.other (.json { frame with pull := some r.state }) :: below)) := by
          refine .step fun g hg => ⟨(step_at hg).1, _, (step_at hg).2.trans
            ((stepJsonValue_read (by rwa [htail hg]) hread).2.1 hnone hbytes), hgives.bytes, ?_⟩
          exact ⟨congrArg (GeneratorFrame.other _ :: ·) (htail hg), hg.2⟩
        have hall := hstep.trans hrest
        rwa [List.take_append_drop] at hall

/-- The reads of a JSON value go on to its error. -/
theorem yields_json {n : ℕ} (hn : n < fuel) {code : Status} (text : Bytes) :
    ∀ (frame : JsonFrame) (s : JsonPull), prepareJsonOwner env pretty frame below.length = s →
    JsonPull.producer.Prints n s text (some code) → ∃ text' e,
      (recordProducer fuel env pretty).Yields (At (.other (.json frame) :: below)) text'
        (some e) := by
  induction hlen : text.length using Nat.strong_induction_on generalizing text with
  | _ len ih =>
      intro frame s hprepare hprints
      obtain ⟨r, hread, hgives⟩ := hprints.read JsonPull.producer_lawful hn
        (by decide : 0 < ioBufferSize)
      have htail {g : RecordGenerator} (hg : At (.other (.json frame) :: below) g) :
          g.frames.tail = below := congrArg List.tail hg.1
      by_cases hshort : text.length < ioBufferSize
      · have herror : r.error = some code := hgives.error.trans (if_pos hshort)
        exact ⟨[], _, .fail fun g hg => ⟨_, (step_at hg).2.trans
          ((stepJsonValue_read (by rwa [htail hg]) hread).1 code herror)⟩⟩
      · have hnone : r.error = none := hgives.error.trans (if_neg hshort)
        have hsize : ioBufferSize = 4096 := rfl
        have hbytes : r.bytes ≠ [] := by
          intro hnil
          have htake := hgives.bytes.symm.trans hnil
          rw [List.take_eq_nil_iff] at htake
          rcases htake with htake | rfl
          · omega
          · exact hshort (by decide)
        obtain ⟨text', e, hrest⟩ := ih (text.drop ioBufferSize).length (by
          rw [List.length_drop]
          omega) (text.drop ioBufferSize) rfl { frame with pull := some r.state } r.state rfl
          (hgives.rest hnone)
        refine ⟨r.bytes ++ text', e, hrest.step fun g hg => ⟨(step_at hg).1, _,
          (step_at hg).2.trans
            ((stepJsonValue_read (by rwa [htail hg]) hread).2.1 hnone hbytes), rfl, ?_⟩⟩
        exact ⟨congrArg (GeneratorFrame.other _ :: ·) (htail hg), hg.2⟩

theorem echoes_json {value : JsonValue} {depth : ℕ} (hbelow : below ≠ [])
    (h : JsonFollows fuel env pretty value depth) : Echoes (recordProducer fuel env pretty)
      (fun io => (jsonTranscode collectSink value (env.json value).1 (env.json value).2 pretty
        (if pretty then depth + 1 else 0) io).checked)
      (At (.other (.json { value, depth }) :: below)) (At below) := by
  obtain ⟨n, out, e, hn, hprints, hwrites⟩ := h
  have hprepare : prepareJsonOwner env pretty { value, depth } below.length =
      JsonPull.init value (env.json value).1 pretty depth := by
    have hlength : below.length ≠ 0 := fun hzero => hbelow (List.length_eq_zero_iff.mp hzero)
    rw [prepareJsonOwner, if_neg hlength]
    rfl
  rcases hwrites with ⟨rfl, hemits⟩ | ⟨hsome, hfails⟩
  · exact echoes_runs hemits (runs_json hn out _ _ hprepare hprints)
  · obtain ⟨code, rfl⟩ := Option.ne_none_iff_exists'.mp hsome
    intro io
    obtain ⟨io', hio⟩ := hfails io
    dsimp only
    rw [hio]
    exact yields_json hn out _ _ hprepare hprints

/-! ## Scalars -/

variable {frames : List (GeneratorFrame RecordFrame)}

theorem answers_frame {frame : GeneratorFrame RecordFrame}
    {write : JsonIo Bytes → Except (JsonIo Bytes) (JsonIo Bytes)}
    (h : Echoes (recordProducer fuel env pretty) write (At (frame :: frames)) (At frames)) :
    Answers (recordProducer fuel env pretty) (fun g => .next (g.push frame)) frames write :=
  answers_push h (fun _ => rfl) fun _ => rfl

theorem answers_text (text : Bytes) : Answers (recordProducer fuel env pretty)
    (fun g => g.setPending text) frames (fun io => (sinkOps collectSink).emit io text) :=
  answers_pending (emits_emitBytes text) (fun _ => rfl) fun _ _ => rfl

theorem answers_string (text : Bytes) : Answers (recordProducer fuel env pretty)
    (fun g => g.pushString text) frames
    (fun io => (sinkOps collectSink).escaped io (cString text)) :=
  answers_push (echoes_string (cString text)) (fun _ => rfl) fun _ => rfl

theorem answers_digits {digits : Option Bytes} {pieces : Option (List Bytes)} {text : Bytes}
    (hdigits : digits = some text) (hpieces : pieces.map List.flatten = some text) :
    Answers (recordProducer fuel env pretty) (fun g => g.setDigits digits) frames
      (serializeDigits (sinkOps collectSink) pieces) := by
  subst hdigits
  exact answers_pending (emits_digits hpieces) (fun _ => rfl) fun _ _ => rfl

theorem answers_i64 (value : ℤ) : Answers (recordProducer fuel env pretty)
    (fun g => g.setDigits (generatorFormatI64 (Int64.ofInt value))) frames
    (serializeDigits (sinkOps collectSink) ((sinkOps collectSink).i64 (Int64.ofInt value))) :=
  answers_digits (emitI64Value_eq _).2.2 (emitI64Value_eq _).1

theorem answers_u64 (value : ℕ) : Answers (recordProducer fuel env pretty)
    (fun g => g.setDigits (generatorFormatU64 (UInt64.ofNat value))) frames
    (serializeDigits (sinkOps collectSink) ((sinkOps collectSink).u64 (UInt64.ofNat value))) := by
  refine answers_digits (emitU64Value_eq _).2.2 ?_
  change (emitU64Value _).map List.flatten = _
  rw [(emitU64Value_eq _).1, Option.map_some, List.flatten_singleton]

theorem answers_f64 (message : String) (bits : UInt64) : Answers (recordProducer fuel env pretty)
    (fun g => formatF64 env g bits) frames
    (serializeF64 env (sinkOps collectSink) message bits) := by
  cases hfinite : isFiniteF64 bits with
  | false =>
      refine answers_fail (.error .typeMismatch "non-finite double cannot be serialized")
        (fun io => ⟨_, if_pos (by rw [hfinite]; rfl)⟩) fun g => ⟨g, ?_⟩
      exact if_pos (by rw [hfinite]; rfl)
  | true =>
      cases hformat : env.formatF64 bits with
      | none =>
          refine answers_fail (.error .internalError "failed to format number")
            (fun io => ⟨io.failHere .internalError "failed to format number" [], ?_⟩)
            fun g => ⟨g, ?_⟩
          · rw [serializeF64, hfinite, hformat]
            rfl
          · rw [formatF64, hfinite, hformat]
            rfl
      | some text =>
          have hemits : Emits (serializeF64 env (sinkOps collectSink) message bits) text := by
            intro io
            rw [serializeF64, hfinite, hformat]
            exact emits_emitBytes text io
          refine answers_pending hemits (fun g => ?_) fun _ _ => rfl
          rw [formatF64, hfinite, hformat]
          rfl

theorem answers_bool (value : Bool) : Answers (recordProducer fuel env pretty)
    (fun g => g.setBool value) frames (serializeBool (sinkOps collectSink) value) :=
  answers_text _

/-! ## Arrays -/

theorem answers_array {α : Type} {arr : GeneratorArray} {items : List α} {depth : ℕ}
    {call : α → RecordGenerator → Step RecordFrame}
    {write : α → JsonIo Bytes → Except (JsonIo Bytes) (JsonIo Bytes)}
    (h : ArrayHolds fuel env pretty arr items depth call)
    (hdepth : pretty = true → depth + 1 ≤ sizeMax / 2)
    (hitems : ∀ item ∈ items, ∀ frames, frames ≠ [] →
      Answers (recordProducer fuel env pretty) (call item) frames (write item)) :
    Answers (recordProducer fuel env pretty) (fun g => .next (g.push (.other (.array { arr, depth }))))
      frames (serializeArray (sinkOps collectSink) pretty write depth items) :=
  answers_frame (echoes_array h hdepth hitems)

/-- The records of an array are elements that are objects. -/
theorem serializeRecords_eq (depth : ℕ) (fields : List Field) (records : List Record) :
    ∀ (first : Bool) (io : JsonIo Bytes),
      serializeRecords env (sinkOps collectSink) pretty depth fields records first io =
        serializeElements (sinkOps collectSink) pretty
          (fun record => serializeBraces (sinkOps collectSink) pretty (depth + 1)
            fun io => serializeMembers env (sinkOps collectSink) pretty (depth + 1) fields record
              true io) depth first records io := by
  induction records with
  | nil => exact fun first io => rfl
  | cons record records ih =>
      intro first io
      rw [serializeRecords, serializeElements]
      simp only [ih]

end

/-! ## Records -/

/-- The lines at a depth are not too long. -/
def LineFits (pretty : Bool) (depth : ℕ) : Prop := pretty = true → depth ≤ sizeMax / 2

mutual

/-- What is asked of a value: its lines are not too long, the reads of its base64 members come to
their end, and its JSON values are as asked. -/
def Served (env : SerializeEnv) (pretty : Bool) (json : JsonValue → ℕ → Prop) (field : Field)
    (depth : ℕ) : Value → Prop
  | .spooled s => field.kind = .base64Stream → (env.spooled s).Steady
  | .source s => s.kind ≠ .none → field.kind = .base64Source → (env.source s).Steady
  | .jsonValue value => json value depth
  | .object members =>
    LineFits pretty (depth + 1) ∧ ∀ map, field.submap = some map →
      ServedMembers env pretty json depth (env.maps map).fields members
  | .stringArray _ _ => LineFits pretty (depth + 1)
  | .i64Array _ _ => LineFits pretty (depth + 1)
  | .u64Array _ _ => LineFits pretty (depth + 1)
  | .f64Array _ _ => LineFits pretty (depth + 1)
  | .boolArray _ _ => LineFits pretty (depth + 1)
  | .objectArray items _ =>
    LineFits pretty (depth + 2) ∧ ∀ map, field.submap = some map →
      ServedRecords env pretty json depth (env.maps map).fields items
  | _ => True

/-- Of the members those that are written matter, and their keys are strings. -/
def ServedMembers (env : SerializeEnv) (pretty : Bool) (json : JsonValue → ℕ → Prop) (depth : ℕ) :
    List Field → List (Value × Bool) → Prop
  | field :: fields, (v, present) :: members =>
    (fieldShouldOmit env.maps field v present = false →
      0 ∉ field.jsonKey ∧ Served env pretty json field (depth + 1) v) ∧
    ServedMembers env pretty json depth fields members
  | _, _ => True

def ServedRecords (env : SerializeEnv) (pretty : Bool) (json : JsonValue → ℕ → Prop) (depth : ℕ)
    (fields : List Field) : List (List (Value × Bool)) → Prop
  | [] => True
  | record :: records =>
    ServedMembers env pretty json (depth + 1) fields record ∧
    ServedRecords env pretty json depth fields records

end

section

variable {fuel : ℕ} {env : SerializeEnv} {pretty : Bool} {map : MapId} {src : Record}

mutual

theorem answers_value (field : Field) (depth : ℕ) : ∀ v : Value,
    Served env pretty (JsonFollows fuel env pretty) field depth v →
    ∀ frames, frames ≠ [] → Answers (recordProducer fuel env pretty)
      (fun g => g.pushValueFromField env field depth v) frames
      (serializeValue env (sinkOps collectSink) pretty field depth v)
  | .string none, _, frames, _ => answers_text _
  | .string (some text), _, frames, _ => answers_string _
  | .fixedString buffer, _, frames, _ => answers_string _
  | .spooled s, h, frames, _ => by
      by_cases hkind : field.kind = .base64Stream
      · refine (answers_frame (echoes_spooledBase64 (h hkind))).congr (fun g => ?_) fun io => ?_
        · rw [pushValueFromField, if_pos hkind]
        · rw [serializeValue, if_pos hkind]
          rfl
      · refine (answers_frame (echoes_spooledText (env.spooled s))).congr (fun g => ?_) fun io => ?_
        · rw [pushValueFromField, if_neg hkind]
        · rw [serializeValue, if_neg hkind]
          rfl
  | .source s, h, frames, _ => by
      by_cases hnone : s.kind = .none
      · refine (answers_text Json.nullText).congr (fun g => ?_) fun io => ?_
        · rw [pushValueFromField, if_pos hnone]
        · rw [serializeValue, SerializeEnv.cursor, if_pos hnone, serializeSourceBase64,
            serializeSourceText]
          split <;> exact (emitBytes_collect io Json.nullText).symm
      · by_cases hkind : field.kind = .base64Source
        · refine (answers_frame (echoes_sourceBase64 (h hnone hkind))).congr (fun g => ?_)
            fun io => ?_
          · rw [pushValueFromField, if_neg hnone]
            dsimp only
            rw [if_pos hkind]
          · rw [serializeValue, SerializeEnv.cursor, if_neg hnone, if_pos hkind]
            rfl
        · refine (answers_frame (echoes_sourceText (env.source s))).congr (fun g => ?_) fun io => ?_
          · rw [pushValueFromField, if_neg hnone]
            dsimp only
            rw [if_neg hkind]
          · rw [serializeValue, SerializeEnv.cursor, if_neg hnone, if_neg hkind]
            rfl
  | .jsonValue v, h, frames, hframes =>
      answers_frame (echoes_json hframes h)
  | .i64 value, _, frames, _ => answers_i64 value
  | .u64 value, _, frames, _ => answers_u64 value
  | .f64 bits, _, frames, _ => answers_f64 _ bits
  | .bool value, _, frames, _ => answers_bool value
  | .object members, h, frames, _ => by
      rw [Served] at h
      cases hmap : field.submap with
      | none =>
          refine answers_fail (.error .internalError "unsupported field kind")
            (fun io => ⟨io.failHere .internalError "unsupported field kind" [], ?_⟩)
            fun g => ⟨g, ?_⟩
          · rw [serializeValue, hmap]
          · rw [pushValueFromField, hmap]
            rfl
      | some map =>
          refine (answers_frame (echoes_map h.1
            (answered_members depth _ members (h.2 map hmap)))).congr (fun g => ?_) fun io => ?_
          · rw [pushValueFromField, hmap]
          · rw [serializeValue, hmap]
            rfl
  | .stringArray items _, h, frames, _ => by
      refine answers_array ⟨rfl, fun _ _ _ _ => ⟨_, rfl⟩⟩ h fun item _ _ _ => ?_
      cases item <;> exact answers_string _
  | .i64Array items _, h, frames, _ =>
      answers_array ⟨rfl, fun _ _ _ _ => ⟨_, rfl⟩⟩ h fun item _ _ _ => answers_i64 item
  | .u64Array items _, h, frames, _ =>
      answers_array ⟨rfl, fun _ _ _ _ => ⟨_, rfl⟩⟩ h fun item _ _ _ => answers_u64 item
  | .f64Array items _, h, frames, _ =>
      answers_array ⟨rfl, fun _ _ _ _ => ⟨_, rfl⟩⟩ h fun item _ _ _ => answers_f64 _ item
  | .boolArray items _, h, frames, _ =>
      answers_array ⟨rfl, fun _ _ _ _ => ⟨_, rfl⟩⟩ h fun item _ _ _ => answers_bool item
  | .objectArray items _, h, frames, _ => by
      rw [Served] at h
      cases hmap : field.submap with
      | none =>
          refine answers_fail (.error .internalError "unsupported field kind")
            (fun io => ⟨io.failHere .internalError "unsupported field kind" [], ?_⟩)
            fun g => ⟨g, ?_⟩
          · rw [serializeValue, hmap]
          · rw [pushValueFromField, hmap]
            rfl
      | some map =>
          have hholds : ArrayHolds fuel env pretty (.object map items) items depth fun item g =>
              .next (g.push (.other (.map { map, src := item, depth := depth + 1 }))) :=
            ⟨rfl, fun _ _ _ _ => ⟨_, rfl⟩⟩
          refine (answers_array hholds (fun hpretty => Nat.le_of_succ_le (h.1 hpretty))
            fun item hitem frames _ =>
              answers_records depth map h.1 items (h.2 map hmap) item hitem frames).congr
            (fun g => ?_) fun io => ?_
          · rw [pushValueFromField, hmap]
          · rw [serializeValue, hmap, serializeArray]
            simp only [serializeRecords_eq]
            rfl
  | .stringArrayStream _, _, frames, _ =>
      answers_fail _ (fun _ => ⟨_, rfl⟩) fun g => ⟨g, rfl⟩
  | .mappedArrayStream _ _, _, frames, _ =>
      answers_fail _ (fun _ => ⟨_, rfl⟩) fun g => ⟨g, rfl⟩

theorem answered_members (depth : ℕ) : ∀ (fields : List Field) (members : List (Value × Bool)),
    ServedMembers env pretty (JsonFollows fuel env pretty) depth fields members →
    ∀ row ∈ fields.zip members, Answered fuel env pretty depth row
  | field :: fields, (v, present) :: members, h, row, hrow => by
      rw [ServedMembers] at h
      rw [List.zip_cons_cons, List.mem_cons] at hrow
      rcases hrow with rfl | hrow
      · intro homit
        exact ⟨(h.1 homit).1, answers_value field (depth + 1) v (h.1 homit).2⟩
      · exact answered_members depth fields members h.2 row hrow
  | [], [], _, row, hrow
  | [], _ :: _, _, row, hrow
  | _ :: _, [], _, row, hrow => by cases hrow

theorem answers_records (depth : ℕ) (map : MapId) (hdepth : LineFits pretty (depth + 2)) :
    ∀ items : List (List (Value × Bool)),
    ServedRecords env pretty (JsonFollows fuel env pretty) depth (env.maps map).fields items →
    ∀ item ∈ items, ∀ frames, Answers (recordProducer fuel env pretty)
      (fun g => .next (g.push (.other (.map { map, src := item, depth := depth + 1 })))) frames
      (serializeMap env (sinkOps collectSink) pretty map item (depth + 1))
  | [], _, item, hitem, frames => by cases hitem
  | record :: records, h, item, hitem, frames => by
      rw [ServedRecords] at h
      rw [List.mem_cons] at hitem
      rcases hitem with rfl | hitem
      · exact answers_frame (echoes_map hdepth (answered_members (depth + 1) _ item h.1))
      · exact answers_records depth map hdepth records h.2 item hitem frames

end

/-! ## Fuel -/

theorem JsonFollows.mono {fuel more : ℕ} {value : JsonValue} {depth : ℕ} (hfuel : fuel ≤ more)
    (h : JsonFollows fuel env pretty value depth) : JsonFollows more env pretty value depth := by
  obtain ⟨n, out, e, hn, hprints, hwrites⟩ := h
  exact ⟨n, out, e, Nat.lt_of_lt_of_le hn hfuel, hprints, hwrites⟩

/-- For every JSON value that is as asked there is a fuel that does. -/
def JsonServes (env : SerializeEnv) (pretty : Bool) (json : JsonValue → ℕ → Prop) : Prop :=
  ∀ value depth, json value depth → ∃ fuel, JsonFollows fuel env pretty value depth

variable {json : JsonValue → ℕ → Prop}

mutual

/-- A record has finitely many JSON values. -/
theorem served_fuel (hjson : JsonServes env pretty json) (field : Field) (depth : ℕ) :
    ∀ v : Value, Served env pretty json field depth v →
    ∃ fuel, ∀ more, fuel ≤ more → Served env pretty (JsonFollows more env pretty) field depth v
  | .string _, _ => ⟨0, fun _ _ => trivial⟩
  | .fixedString _, _ => ⟨0, fun _ _ => trivial⟩
  | .spooled _, h => ⟨0, fun _ _ => h⟩
  | .source _, h => ⟨0, fun _ _ => h⟩
  | .jsonValue value, h => by
      obtain ⟨fuel, hfollows⟩ := hjson value depth h
      exact ⟨fuel, fun _ hmore => hfollows.mono hmore⟩
  | .i64 _, _ => ⟨0, fun _ _ => trivial⟩
  | .u64 _, _ => ⟨0, fun _ _ => trivial⟩
  | .f64 _, _ => ⟨0, fun _ _ => trivial⟩
  | .bool _, _ => ⟨0, fun _ _ => trivial⟩
  | .object members, h => by
      rw [Served] at h
      cases hmap : field.submap with
      | none => exact ⟨0, fun _ _ => ⟨h.1, fun map hsome => by rw [hmap] at hsome; cases hsome⟩⟩
      | some map =>
          obtain ⟨fuel, hmembers⟩ := served_members_fuel hjson depth _ members (h.2 map hmap)
          refine ⟨fuel, fun more hmore => ⟨h.1, fun map' hsome => ?_⟩⟩
          obtain rfl : map = map' := Option.some.inj (hmap.symm.trans hsome)
          exact hmembers more hmore
  | .stringArray _ _, h => ⟨0, fun _ _ => h⟩
  | .i64Array _ _, h => ⟨0, fun _ _ => h⟩
  | .u64Array _ _, h => ⟨0, fun _ _ => h⟩
  | .f64Array _ _, h => ⟨0, fun _ _ => h⟩
  | .boolArray _ _, h => ⟨0, fun _ _ => h⟩
  | .objectArray items _, h => by
      rw [Served] at h
      cases hmap : field.submap with
      | none => exact ⟨0, fun _ _ => ⟨h.1, fun map hsome => by rw [hmap] at hsome; cases hsome⟩⟩
      | some map =>
          obtain ⟨fuel, hitems⟩ := served_records_fuel hjson depth _ items (h.2 map hmap)
          refine ⟨fuel, fun more hmore => ⟨h.1, fun map' hsome => ?_⟩⟩
          obtain rfl : map = map' := Option.some.inj (hmap.symm.trans hsome)
          exact hitems more hmore
  | .stringArrayStream _, _ => ⟨0, fun _ _ => trivial⟩
  | .mappedArrayStream _ _, _ => ⟨0, fun _ _ => trivial⟩

theorem served_members_fuel (hjson : JsonServes env pretty json) (depth : ℕ) :
    ∀ (fields : List Field) (members : List (Value × Bool)),
    ServedMembers env pretty json depth fields members →
    ∃ fuel, ∀ more, fuel ≤ more →
      ServedMembers env pretty (JsonFollows more env pretty) depth fields members
  | field :: fields, (v, present) :: members, h => by
      rw [ServedMembers] at h
      obtain ⟨fuel', hrest⟩ := served_members_fuel hjson depth fields members h.2
      cases homit : fieldShouldOmit env.maps field v present with
      | true =>
          refine ⟨fuel', fun more hmore => ⟨fun hwritten => ?_, hrest more hmore⟩⟩
          rw [homit] at hwritten
          cases hwritten
      | false =>
          obtain ⟨hkey, hserved⟩ := h.1 homit
          obtain ⟨fuel, hvalue⟩ := served_fuel hjson field (depth + 1) v hserved
          exact ⟨max fuel fuel', fun more hmore =>
            ⟨fun _ => ⟨hkey, hvalue more (Nat.le_trans (Nat.le_max_left _ _) hmore)⟩,
              hrest more (Nat.le_trans (Nat.le_max_right _ _) hmore)⟩⟩
  | [], [], _ => ⟨0, fun _ _ => trivial⟩
  | [], _ :: _, _ => ⟨0, fun _ _ => trivial⟩
  | _ :: _, [], _ => ⟨0, fun _ _ => trivial⟩

theorem served_records_fuel (hjson : JsonServes env pretty json) (depth : ℕ)
    (fields : List Field) :
    ∀ records : List (List (Value × Bool)),
    ServedRecords env pretty json depth fields records →
    ∃ fuel, ∀ more, fuel ≤ more →
      ServedRecords env pretty (JsonFollows more env pretty) depth fields records
  | [], _ => ⟨0, fun _ _ => trivial⟩
  | record :: records, h => by
      rw [ServedRecords] at h
      obtain ⟨fuel, hrecord⟩ := served_members_fuel hjson (depth + 1) fields record h.1
      obtain ⟨fuel', hrest⟩ := served_records_fuel hjson depth fields records h.2
      exact ⟨max fuel fuel', fun more hmore =>
        ⟨hrecord more (Nat.le_trans (Nat.le_max_left _ _) hmore),
          hrest more (Nat.le_trans (Nat.le_max_right _ _) hmore)⟩⟩

end

/-! ## A whole record -/

/-- A generator without frames is at its end. -/
theorem yields_done : (recordProducer fuel env pretty).Yields (At []) [] none := by
  refine .finish fun g hg => ⟨{ g with pending := [], finished := true }, ?_, ?_, ?_⟩
  · change stepFrame _ { g with pending := [] } = _
    rw [stepFrame, if_neg (by simp [hg.2.2]), show g.frames = [] from hg.1]
  · rfl
  · rfl

/-- From its start a generator prints what the serializer emits, or fails where that fails. -/
theorem start_prints (hjson : JsonServes env pretty json) (hdepth : LineFits pretty 1)
    (h : ServedMembers env pretty json 0 (env.maps map).fields src) : ∃ fuel, ∀ more, fuel ≤ more →
    (∀ io, serializeMap env (sinkOps collectSink) pretty map src 0 { out := [] } = .ok io →
      ∃ n, (recordProducer more env pretty).Prints n (start map src) io.out none) ∧
    (∀ io, serializeMap env (sinkOps collectSink) pretty map src 0 { out := [] } = .error io →
      ∃ n text e, (recordProducer more env pretty).Prints n (start map src) text (some e)) := by
  obtain ⟨fuel, hserved⟩ := served_members_fuel hjson 0 _ src h
  refine ⟨fuel, fun more hmore => ?_⟩
  have hechoes : Echoes (recordProducer more env pretty)
      (serializeMap env (sinkOps collectSink) pretty map src 0)
      (At [.other (.map { map, src, depth := 0 })]) (At []) :=
    echoes_map hdepth (answered_members 0 _ src (hserved more hmore))
  have hstart : At [.other (.map { map, src, depth := 0 })] (start map src) := ⟨rfl, rfl, rfl⟩
  have hrun := hechoes { out := [] }
  refine ⟨fun io hio => ?_, fun io hio => ?_⟩
  · rw [hio] at hrun
    obtain ⟨text, hout, hruns⟩ := hrun
    obtain ⟨n, hprints⟩ := hruns [] none yields_done
    rw [List.append_nil] at hprints
    rw [hout]
    exact ⟨n, hprints _ hstart⟩
  · rw [hio] at hrun
    obtain ⟨text, e, n, hprints⟩ := hrun
    exact ⟨n, text, e, hprints _ hstart⟩

end

end Generator

end Lonejson
