import Lonejson.Generated
import Lonejson.WriterDescriptions

/-!
# Mapped records inside a writer

The calls of `lonejson_writer_mapped`, whose nested generators are the generators of records. What a
writer generator gives of them is what the serializer writes.
-/

namespace Lonejson

open Json (Tree)

variable {ω γ : Type}

/-- The status of a read that fails. -/
def GeneratorFault.status : GeneratorFault → Status
  | .error code _ => code
  | .strayByte => .internalError

/-- The nested generators of `lonejson_writer_mapped`; `steps` bounds the steps of a frame, `turns`
those of a read, and `length` the text. -/
def recordNest (env : SerializeEnv) (pretty : Bool) (steps turns length : ℕ) :
    WriterNest RecordGenerator where
  canGrow _ := true
  childInit root error :=
    match root with
    | .map map src => .ok (Generator.start map src)
    -- the roots of the other calls, whose generators are left out here
    | _ => .error (error.set .allocationFailed "failed to allocate writer child generator")
  childRead g room :=
    match (Generator.recordProducer steps env pretty).read turns room g with
    | none => { generator := g, bytes := [], eof := false, status := .internalError, error := {} }
    | some r =>
      { generator := r.state
        bytes := r.bytes
        eof := (Generator.recordProducer steps env pretty).eof r.state
        status := r.error.elim .ok GeneratorFault.status
        error := {} }
  childFuel _ := length

/-- A generator of a record is to print a text. -/
def RecordHolds (env : SerializeEnv) (pretty : Bool) (steps turns length : ℕ) (g : RecordGenerator)
    (text : Bytes) : Prop :=
  text.length < length ∧
    ∃ n, n < turns ∧ (Generator.recordProducer steps env pretty).Prints n g text none

theorem recordNest_gives (env : SerializeEnv) (pretty : Bool) (steps turns length : ℕ) :
    (recordNest env pretty steps turns length).Gives (RecordHolds env pretty steps turns length) where
  read {g text room} h hroom := by
    obtain ⟨hlength, n, hn, hprints⟩ := h
    obtain ⟨r, hread, hgives⟩ := hprints.read Generator.producer_lawful hn hroom
    have hnone : r.error = none := by
      rw [hgives.error]
      split_ifs <;> rfl
    have hrest := hgives.rest hnone
    have hread' : (Generator.recordProducer steps env pretty).read turns room g = some r := hread
    rw [recordNest]
    dsimp only
    rw [hread']
    refine ⟨congrArg (Option.elim · .ok GeneratorFault.status) hnone, hgives.bytes,
      fun heof => ?_, hgives.eof hnone, ?_, n, hn, hrest⟩
    · exact List.drop_eq_nil_iff.mp (hrest.eof Generator.producer_lawful heof)
    · rw [List.length_drop]
      omega
  fuel h := h.1
  fails {root error e} h := by
    cases root with
    | map map src => cases h
    | jsonValue value source => cases h; exact fun h => by cases h
    | spooledText value => cases h; exact fun h => by cases h
    | spooledBase64 value => cases h; exact fun h => by cases h
    | sourceText value source => cases h; exact fun h => by cases h
    | sourceBase64 value source => cases h; exact fun h => by cases h

/-- A call of `lonejson_writer_mapped`: the two pointers, and what is behind them. -/
structure MappedCall where
  mapPointer : ℕ
  srcPointer : ℕ
  map : MapId
  src : Record

namespace MappedCall

def call (m : MappedCall) : WriterCall ω := .child m.mapPointer m.srcPointer 6 (.map m.map m.src)

theorem outlet_call_run (m : MappedCall) (env : WriterEnv (WriterOutlet ω) γ)
    (w : Writer (WriterOutlet ω) γ) :
    (m.call : WriterCall ω).outlet.run env w = w.mapped env m.mapPointer m.srcPointer m.map m.src :=
  rfl

/-- What the serializer writes for the record. -/
def text (env : SerializeEnv) (m : MappedCall) : Bytes :=
  (serialized env (some m.map) (some m.src) {}).out

/-- The record serializes, and a generator of it can be made. -/
structure Serves (env : SerializeEnv) (m : MappedCall) : Prop where
  layout : env.layoutIsValid m.map = true
  members : Generator.ServedMembers env false (Generator.JsonAsked env false) 0
    (env.maps m.map).fields m.src
  ok : (serialized env (some m.map) (some m.src) {}).status = .ok

variable {env : SerializeEnv} {m : MappedCall}

theorem Serves.serializes (h : m.Serves env) :
    ∃ io, serializeMap env (sinkOps collectSink) false m.map m.src 0 { out := [] } = .ok io ∧
      io.out = m.text env := by
  have hok := h.ok
  rw [text]
  rw [serialized, serializeSinkWithOptions_map env _ _ _ _ _ h.layout] at hok ⊢
  dsimp only at hok ⊢
  cases hrun : serializeMap env (sinkOps collectSink) false m.map m.src 0 { out := [] } with
  | ok io => exact ⟨io, rfl, rfl⟩
  | error io =>
      rw [hrun] at hok
      have hruns := serializeMap_mirrors env false
        (@sinkOps_emits _ collectSink fun _ _ _ => ⟨rfl, rfl⟩) m.map m.src 0 { out := [] } { out := [] }
      have hhard := hruns.hard.2 io hrun
      rw [show io.status = .ok from hok] at hhard
      cases hhard

/-- A record that serializes is described by one call. -/
theorem Serves.describes (h : m.Serves env) :
    ∃ fuel, ∀ steps, fuel ≤ steps → ∃ n, ∀ turns, n < turns → ∀ length,
      (m.text env).length < length → ∀ limit, (WriterPart.value (.raw (m.text env))).Describes
        (recordNest env false steps turns length) (RecordHolds env false steps turns length) limit
        [(m.call : WriterCall ω)] := by
  obtain ⟨io, hrun, hout⟩ := h.serializes
  obtain ⟨fuel, hall⟩ := Generator.start_prints Generator.jsonAsked_serves
    (fun hpretty => by cases hpretty) h.members
  refine ⟨fuel, fun steps hsteps => ?_⟩
  obtain ⟨n, hprints⟩ := (hall steps hsteps).1 io hrun
  rw [hout] at hprints
  refine ⟨n, fun turns hturns length hlength limit => ?_⟩
  exact .child m.mapPointer m.srcPointer 6 (fun _ => rfl) ⟨hlength, n, hturns, hprints⟩

theorem describes_items {ms : List MappedCall} (h : ∀ m ∈ ms, m.Serves env) :
    ∃ fuel, ∀ steps, fuel ≤ steps → ∃ n, ∀ turns, n < turns → ∀ length,
      (∀ m ∈ ms, (m.text env).length < length) → ∀ limit,
        (WriterPart.items (ms.map fun m => .raw (m.text env))).Describes
          (recordNest env false steps turns length) (RecordHolds env false steps turns length) limit
          (ms.map (call : MappedCall → WriterCall ω)) := by
  induction ms with
  | nil => exact ⟨0, fun _ _ => ⟨0, fun _ _ _ _ _ => .noItems⟩⟩
  | cons m ms ih =>
      obtain ⟨fuel, hone⟩ := @Serves.describes ω env m (h m List.mem_cons_self)
      obtain ⟨fuel', hrest⟩ := ih fun m' hm' => h m' (List.mem_cons_of_mem _ hm')
      refine ⟨max fuel fuel', fun steps hsteps => ?_⟩
      obtain ⟨n, hone⟩ := hone steps (le_trans (le_max_left _ _) hsteps)
      obtain ⟨n', hrest⟩ := hrest steps (le_trans (le_max_right _ _) hsteps)
      refine ⟨max n n', fun turns hturns length hlength limit => ?_⟩
      exact .item (hone turns (lt_of_le_of_lt (le_max_left _ _) hturns) length
        (hlength m List.mem_cons_self) limit)
        (hrest turns (lt_of_le_of_lt (le_max_right _ _) hturns) length
          (fun m' hm' => hlength m' (List.mem_cons_of_mem _ hm')) limit)

end MappedCall

def partsCall (srcPointer : ℕ) : MappedCall :=
  { mapPointer := 1, srcPointer, map := 0, src := partsRecord }

theorem partsCall_serves (srcPointer : ℕ) : (partsCall srcPointer).Serves partsEnv :=
  ⟨rfl, partsRecord_served, partsRecord_serialized.1⟩

theorem partsCall_text (srcPointer : ℕ) : (partsCall srcPointer).text partsEnv =
    ascii "\x7b\"n\":-5,\"b\":\"YWJj\",\"j\":1\x7d" := partsRecord_serialized.2

theorem partsCalls_text :
    (Tree.array ([partsCall 2, partsCall 3].map fun m => .raw (m.text partsEnv))).text escapeText =
      ascii "[\x7b\"n\":-5,\"b\":\"YWJj\",\"j\":1\x7d,\x7b\"n\":-5,\"b\":\"YWJj\",\"j\":1\x7d]" := by
  rw [List.map_cons, List.map_cons, List.map_nil, partsCall_text, partsCall_text]
  decide +kernel

end Lonejson
