import Lonejson.Pull
import Lonejson.Resuming
import Lonejson.WriterCalls

/-!
# The writer inside a generator

A writer whose sink is the buffer of a read. What does not fit is held back until the next read,
and a call that would write behind it returns `LONEJSON_STATUS_TRUNCATED`, to be issued again. The
producer that is modelled issues a list of calls in order and the interrupted call again.
-/

namespace Lonejson

variable {ω γ π : Type}

/-- `lonejson__writer_generator_state` without the writer and the producer, in the world of the
caller. `given` are the bytes in the buffer of the read. -/
structure WriterOutlet (ω : Type) where
  world : ω
  capacity : ℕ := 0
  given : Bytes := []
  pending : Bytes := []
  pendingAlloc : ℕ := 0
  blocked : Bool := false

namespace WriterOutlet

/-- `out_capacity - out_length`. -/
def room (o : WriterOutlet ω) : ℕ := o.capacity - o.given.length

/-- `lonejson__writer_generator_flush_pending`. -/
def flushPending (o : WriterOutlet ω) : WriterOutlet ω :=
  { o with given := o.given ++ o.pending.take o.room, pending := o.pending.drop o.room }

/-- `lonejson__writer_generator_set_pending`; `canHold` tells for which sizes memory is left. -/
def setPending (canHold : ℕ → Bool) (o : WriterOutlet ω) (data : Bytes) (error : ErrorInfo) :
    WriterOutlet ω × ErrorInfo × Status :=
  if data = [] then (o, error, .ok)
  else if o.pendingAlloc < data.length ∧ canHold data.length = false then
    (o, error.set .allocationFailed "failed to allocate writer pending output", .allocationFailed)
  else
    ({ o with
        pending := data
        pendingAlloc := max o.pendingAlloc data.length
        blocked := true }, error, .ok)

/-- `lonejson__writer_generator_output_blocked`. -/
def outputBlocked (o : WriterOutlet ω) : Bool :=
  o.blocked || decide (o.pending ≠ []) || decide (o.capacity ≤ o.given.length)

/-- `lonejson__writer_generator_output_available`. -/
def outputAvailable (o : WriterOutlet ω) : ℕ := if o.outputBlocked then 0 else o.room

/-- What `lonejson__writer_generator_sink` does once nothing is held back. -/
def accept (canHold : ℕ → Bool) (o : WriterOutlet ω) (data : Bytes) (error : ErrorInfo) :
    WriterOutlet ω × ErrorInfo × Status :=
  if data = [] then (o, error, .ok)
  else setPending canHold { o with given := o.given ++ data.take o.room } (data.drop o.room) error

/-- `lonejson__writer_generator_sink`. -/
def sink (canHold : ℕ → Bool) : Sink (WriterOutlet ω) := fun o data error =>
  if o.blocked then
    let o := o.flushPending
    if o.pending ≠ [] ∨ o.capacity ≤ o.given.length then (o, error, .truncated)
    else accept canHold { o with blocked := false } data error
  else accept canHold o data error

end WriterOutlet

/-- What a writer into a sink that takes everything has written, in the world of the caller. -/
structure WriterTape (ω : Type) where
  out : Bytes := []
  world : ω

def WriterOutlet.inWorld (o : WriterOutlet ω) (world : ω) : WriterOutlet ω := { o with world }

def WriterTape.inWorld (o : WriterTape ω) (world : ω) : WriterTape ω := { o with world }

/-- The memory of the frame stack and the nested generators, which do not depend on where a writer
writes to. -/
structure WriterNest (γ : Type) where
  canGrow : ℕ → Bool
  childInit : GeneratorRoot → ErrorInfo → Except ErrorInfo γ
  childRead : γ → ℕ → GeneratorRead γ
  childFuel : γ → ℕ

/-- The environment of a writer of `lonejson_writer_generator_init`. -/
def WriterNest.generatorEnv (nest : WriterNest γ) (canHold : ℕ → Bool) :
    WriterEnv (WriterOutlet ω) γ where
  sink := WriterOutlet.sink canHold
  blocked := WriterOutlet.outputBlocked
  available o := some o.outputAvailable
  canGrow _ := nest.canGrow
  childInit _ := nest.childInit
  childRead := nest.childRead
  childFuel := nest.childFuel

/-- The environment of a writer into a sink that takes everything. -/
def WriterNest.tapeEnv (nest : WriterNest γ) : WriterEnv (WriterTape ω) γ where
  sink o data error := ({ o with out := o.out ++ data }, error, .ok)
  blocked _ := false
  available _ := none
  canGrow _ := nest.canGrow
  childInit _ := nest.childInit
  childRead := nest.childRead
  childFuel := nest.childFuel

/-- A reader of the caller, where the caller's world is a part of another one. -/
def readWithin {σ : Type} (get : σ → ω) (put : σ → ω → σ) (reader : ω → ℕ → ω × ReadResult) (s : σ)
    (room : ℕ) : σ × ReadResult :=
  let r := reader (get s) room
  (put s r.1, r.2)

/-- A call of the caller, where the caller's world is a part of another one. -/
def WriterCall.within {σ : Type} (get : σ → ω) (put : σ → ω → σ) : WriterCall ω → WriterCall σ
  | .beginObject => .beginObject
  | .endObject => .endObject
  | .beginArray => .beginArray
  | .endArray => .endArray
  | .key k => .key k
  | .string data => .string data
  | .stringBegin => .stringBegin
  | .stringChunk data => .stringChunk data
  | .stringEnd => .stringEnd
  | .stringReader id fuel reader => .stringReader id fuel (readWithin get put reader)
  | .numberText data => .numberText data
  | .numberBegin => .numberBegin
  | .numberChunk data => .numberChunk data
  | .numberEnd => .numberEnd
  | .i64 value => .i64 value
  | .u64 value => .u64 value
  | .f64 finite text => .f64 finite text
  | .bool value => .bool value
  | .null => .null
  | .nullSource => .nullSource
  | .child arg0 arg1 tag root => .child arg0 arg1 tag root
  | .valueStreamOpen => .valueStreamOpen
  | .valueStreamPush pieces status => .valueStreamPush pieces status
  | .valueStreamClose pieces status => .valueStreamClose pieces status
  | .valueStreamCleanup => .valueStreamCleanup
  | .arrayItems items status => .arrayItems items status
  | .finish => .finish

/-- A call of the producer, on the writer of a generator. -/
def WriterCall.outlet : WriterCall ω → WriterCall (WriterOutlet ω) :=
  WriterCall.within WriterOutlet.world WriterOutlet.inWorld

/-- The same call on a writer into a sink. -/
def WriterCall.tape : WriterCall ω → WriterCall (WriterTape ω) :=
  WriterCall.within WriterTape.world WriterTape.inWorld

/-- A producer and its user pointer, whose state is handed on. -/
abbrev WriterProducer (ω γ π : Type) :=
  π → Writer (WriterOutlet ω) γ → (π × Writer (WriterOutlet ω) γ) × Status

/-- The producer that issues the calls of a list, and the interrupted call again. -/
def WriterNest.producer (nest : WriterNest γ) (canHold : ℕ → Bool) :
    WriterProducer ω γ (List (WriterCall ω)) :=
  Resuming.issue .ok fun call => call.outlet.run (nest.generatorEnv canHold)

/-- The generator of `lonejson_writer_generator_init`. -/
structure WriterGenerator (ω γ π : Type) where
  writer : Writer (WriterOutlet ω) γ
  user : π
  producerDone : Bool := false
  eof : Bool := false

namespace WriterGenerator

def outlet (g : WriterGenerator ω γ π) : WriterOutlet ω := g.writer.out

def withOutlet (g : WriterGenerator ω γ π) (out : WriterOutlet ω) : WriterGenerator ω γ π :=
  { g with writer := { g.writer with out } }

/-- `lonejson__writer_generator_init_with_options`. -/
def init (world : ω) (maxNumberBytes : ℕ) (user : π) : WriterGenerator ω γ π :=
  { writer := { out := { world }, maxNumberBytes }, user }

/-- The flush at the start of a turn. -/
def flush (g : WriterGenerator ω γ π) : WriterGenerator ω γ π :=
  let o := g.outlet.flushPending
  g.withOutlet (if o.pending = [] then { o with blocked := false } else o)

/-- The loop of `lonejson__writer_generator_read`; `fuel` bounds its turns. -/
def readLoop (producer : WriterProducer ω γ π) :
    ℕ → WriterGenerator ω γ π → Option (WriterGenerator ω γ π × Status)
  | 0, _ => none
  | fuel + 1, g =>
    if g.outlet.capacity ≤ g.outlet.given.length then some (g, .ok)
    else
      let g := g.flush
      if g.outlet.pending ≠ [] ∨ g.outlet.given.length = g.outlet.capacity then some (g, .ok)
      else if g.producerDone then some (g, .ok)
      else
        let r := producer g.user g.writer
        let g := { g with user := r.1.1, writer := r.1.2 }
        if r.2 = .truncated then readLoop producer fuel g
        else if r.2 ≠ .ok then some (g, r.2)
        else
          let r := g.writer.finish
          let g := { g with writer := r.1 }
          if r.2 ≠ .ok then some (g, r.2)
          else readLoop producer fuel { g with producerDone := true }

/-- `lonejson__writer_generator_read`, with the bytes that the caller is given. -/
def read (producer : WriterProducer ω γ π) (fuel capacity : ℕ) (g : WriterGenerator ω γ π) :
    Option (Pull.Read (WriterGenerator ω γ π) Status) :=
  (readLoop producer fuel (g.withOutlet { g.outlet with capacity, given := [] })).map fun r =>
    if r.2 ≠ .ok then ⟨r.1, [], some r.2⟩
    else
      let o := r.1.outlet
      ⟨{ r.1 with eof := r.1.producerDone && decide (o.pending = []) }, o.given, none⟩

/-- Reads of some capacities, up to one that fails. -/
def readAll (producer : WriterProducer ω γ π) (fuel : ℕ) :
    List ℕ → WriterGenerator ω γ π → Option (Pull.Read (WriterGenerator ω γ π) Status)
  | [], g => some ⟨g, [], none⟩
  | capacity :: capacities, g =>
    (read producer fuel capacity g).bind fun r =>
      if r.error.isSome then some r
      else (readAll producer fuel capacities r.state).map (Pull.Read.prepend r.bytes)

end WriterGenerator

end Lonejson
