import Lonejson.ResumedCalls

/-!
# Strings that are read

The call of a writer that loops over the reads of a callback. Where it is interrupted, the bytes that
were read are kept and the loop begins again with them.
-/

namespace Lonejson

open Resuming (Setting)

variable {ω γ : Type} {nest : WriterNest γ} {canHold : ℕ → Bool} {before : ReadsBefore}
  {G : Option γ → Prop} {core : Writer Unit Unit} {phases : ℕ → Prop}

/-! ## Strings that are read -/

/-- What a read of a string reader leaves. -/
def Writer.restocked {σ : Type} (w : Writer σ γ) (out : σ) (r : ReadResult) : Writer σ γ :=
  { w with out, stringReader := { w.stringReader with buffer := r.bytes, eof := r.eof } }

/-- What a string reader does when its buffer is empty, with the result of a read. -/
def Writer.restock {σ : Type} (next : Writer σ γ → Writer σ γ × Status) (w : Writer σ γ)
    (r : σ × ReadResult) : Writer σ γ × Status :=
  if r.2.errorCode ≠ 0 then
    Writer.setError { w with out := r.1 } .ioError "failed to read JSON string source"
  else if r.2.wouldBlock then
    Writer.setError { w with out := r.1 } .callbackFailed "string reader would block"
  else next (w.restocked r.1 r.2)

/-- What a string reader does when its buffer is empty. -/
def Writer.refill {σ : Type} (reader : σ → ℕ → σ × ReadResult)
    (next : Writer σ γ → Writer σ γ × Status) (w : Writer σ γ) : Writer σ γ × Status :=
  w.restock next (reader w.out 4096)

/-- What a string reader does at the end. -/
def Writer.endReader {σ : Type} (env : WriterEnv σ γ) (w : Writer σ γ) : Writer σ γ × Status :=
  andThenOk (w.unblocked env) fun w =>
    andThenOk (w.stringEnd env) fun w => ({ w with stringReader := {} }, .ok)

/-- A turn of a string reader behind its buffer. -/
def Writer.turnReader {σ : Type} (env : WriterEnv σ γ) (reader : σ → ℕ → σ × ReadResult)
    (next : Writer σ γ → Writer σ γ × Status) (w : Writer σ γ) : Writer σ γ × Status :=
  if w.stringReader.eof then w.endReader env
  else andThenOk (w.unblocked env) (Writer.refill reader next)

/-- The bytes that a string reader has read are written. -/
def Writer.drain {σ : Type} (env : WriterEnv σ γ) (w : Writer σ γ) : Writer σ γ × Status :=
  Writer.drainReader env w.stringReader.buffer w

theorem readString_succ {σ : Type} (env : WriterEnv σ γ) (reader : σ → ℕ → σ × ReadResult) (n : ℕ)
    (w : Writer σ γ) : Writer.readString env reader (n + 1) w =
      andThenOk (w.drain env) (Writer.turnReader env reader (Writer.readString env reader n)) := by
  rw [Writer.readString]
  rfl

theorem restock_congr {σ : Type} {next next' : Writer σ γ → Writer σ γ × Status} {w : Writer σ γ}
    (h : ∀ w, (next w).2 ≠ .internalError → next' w = next w) {r : σ × ReadResult}
    (hw : (w.restock next r).2 ≠ .internalError) : w.restock next' r = w.restock next r := by
  rw [Writer.restock] at hw ⊢
  rw [Writer.restock]
  split_ifs at hw ⊢
  · rfl
  · rfl
  · exact h _ hw

/-- More turns change nothing where the turns suffice. -/
theorem readString_mono {σ : Type} (env : WriterEnv σ γ) (reader : σ → ℕ → σ × ReadResult) (n : ℕ) :
    ∀ w : Writer σ γ, (Writer.readString env reader n w).2 ≠ .internalError →
      Writer.readString env reader (n + 1) w = Writer.readString env reader n w := by
  induction n with
  | zero => exact fun _ hw => absurd rfl hw
  | succ n ih =>
      intro w hw
      rw [readString_succ] at hw
      rw [readString_succ, readString_succ env reader n]
      refine andThenOk_congr fun hdrain => ?_
      rw [andThenOk, if_pos hdrain] at hw
      rw [Writer.turnReader] at hw ⊢
      rw [Writer.turnReader]
      split_ifs at hw ⊢
      · rfl
      · refine andThenOk_congr fun hopen => ?_
        rw [andThenOk, if_pos hopen] at hw
        exact restock_congr ih hw

def Writer.withBuffer {σ : Type} (w : Writer σ γ) (buffer : Bytes) : Writer σ γ :=
  { w with stringReader := { w.stringReader with buffer } }

theorem drain_nil {σ : Type} (env : WriterEnv σ γ) {w : Writer σ γ}
    (h : w.stringReader.buffer = []) : w.drain env = (w, .ok) := by
  rw [Writer.drain, h]
  rfl

theorem drain_cons {σ : Type} (env : WriterEnv σ γ) {w : Writer σ γ} {b : Byte} {rest : Bytes}
    (h : w.stringReader.buffer = b :: rest) : w.drain env =
      andThenOk (w.unblocked env) fun w => andThenOk (w.emit env (writtenByte b)) fun w =>
        Writer.drain env (w.withBuffer rest) := by
  rw [Writer.drain, h]
  rfl

theorem told_drain (b : Writer (WriterTape ω) γ) :
    b.out.out <+: (b.drain nest.tapeEnv).1.out.out := by
  induction hbuffer : b.stringReader.buffer generalizing b with
  | nil => rw [drain_nil _ hbuffer]
  | cons ch rest ih =>
      have hone : b.out.out <+: (b.emit nest.tapeEnv (writtenByte ch)).1.out.out := told_emit _ b
      rw [drain_cons _ hbuffer, unblocked_tape, andThenOk_ok, andThenOk]
      split_ifs
      · exact hone.trans (ih ((b.emit nest.tapeEnv (writtenByte ch)).1.withBuffer rest) rfl)
      · exact hone

theorem replays_drain (hold : ∀ n, canHold n = true) {P : Writer (WriterOutlet ω) γ → Prop}
    (hP : ∀ w out buffer, P w → P (Writer.withBuffer { w with out } buffer)) :
    (outletSetting before).Replays P (Writer.drain (nest.generatorEnv canHold))
      (Writer.drain nest.tapeEnv) (fun w => P w ∧ w.stringReader.buffer = []) P := by
  refine .loop told_drain (fun w => w.stringReader.buffer.length) fun w hfits hw => ?_
  rw [show (outletSetting before).see w = w.taped before from rfl]
  cases hbuffer : w.stringReader.buffer with
  | nil => exact .inl ⟨drain_nil _ hbuffer, drain_nil _ hbuffer, hw, rfl⟩
  | cons ch rest =>
      cases hblocked : w.out.outputBlocked with
      | true =>
          refine .inr (.inl ⟨?_, WriterOutlet.Fits.full_of_blocked hfits hblocked⟩)
          rw [drain_cons _ hbuffer, unblocked_shut hblocked]
          rfl
      | false =>
          have hopen : w.Open := hblocked
          obtain ⟨o, htakes, hf, hg⟩ := @emit_free _ _ nest _ before hold w hfits hopen.free
            (writtenByte ch)
          refine .inr (.inr ⟨Writer.withBuffer { w with out := o } rest, htakes.fits, hP w o rest hw,
            Nat.lt_succ_self rest.length, ?_, ?_⟩)
          · rw [drain_cons _ hbuffer, unblocked_open hopen, andThenOk_ok, hf]
            rfl
          · rw [drain_cons _ (show (w.taped before).stringReader.buffer = ch :: rest from hbuffer),
              unblocked_tape, andThenOk_ok, hg]
            rfl

theorem replays_endReader (hold : ∀ n, canHold n = true) :
    (outletSetting before).Replays (@Writer.Inside ω γ G core phases)
      (Writer.endReader (nest.generatorEnv canHold)) (Writer.endReader nest.tapeEnv)
      (fun w => G w.event.child) (Writer.Inside G core phases) := by
  have hreset : Aside (fun w : Writer (WriterOutlet ω) γ => ({ w with stringReader := {} }, .ok))
      (fun b => ({ b with stringReader := {} }, .ok)) :=
    aside_update .ok (fun _ _ => rfl) (fun _ => rfl) fun _ => rfl
  refine replays_unblocked (fun _ hw => hw) (Setting.Replays.andThen_firm ?_
    (hreset.replays fun _ (hw : G _) _ => hw))
  exact (replays_stringEnd hold).imp (fun _ hw => hw.2) (fun _ hw => hw) fun _ hw => hw

theorem Writer.reader_of_core {σ τ : Type} {w : Writer σ γ} {b : Writer τ γ}
    (h : b.core = w.core) : b.stringReader = w.stringReader :=
  congrArg (fun c : Writer Unit Unit => c.stringReader) h

/-- In the middle of a string reader. -/
structure Writer.Reads (G : Option γ → Prop) (id : ℕ) (w : Writer (WriterOutlet ω) γ) : Prop where
  child : G w.event.child
  active : w.stringReader.active = true
  reader : w.stringReader.reader = id

/-- A reader of the producer, on the writer of a generator and on one into a sink. -/
def outletReader (reader : ω → ℕ → ω × ReadResult) : WriterOutlet ω → ℕ → WriterOutlet ω × ReadResult :=
  readWithin WriterOutlet.world WriterOutlet.inWorld reader

def tapeReader (reader : ω → ℕ → ω × ReadResult) : WriterTape ω → ℕ → WriterTape ω × ReadResult :=
  readWithin WriterTape.world WriterTape.inWorld reader

section

variable {reader : ω → ℕ → ω × ReadResult} {id n : ℕ}

theorem told_turnReader {next : Writer (WriterTape ω) γ → Writer (WriterTape ω) γ × Status}
    (hnext : ∀ b, b.out.out <+: (next b).1.out.out) (b : Writer (WriterTape ω) γ) :
    b.out.out <+: (b.turnReader nest.tapeEnv (tapeReader reader) next).1.out.out := by
  rw [Writer.turnReader]
  split_ifs
  · exact (@replays_endReader ω γ nest (fun _ => true) ({} : ReadsBefore) (fun _ => True) { out := () }
      (fun _ => True) fun _ => rfl).grows b
  · rw [unblocked_tape, andThenOk_ok, Writer.refill, Writer.restock]
    split_ifs
    · exact List.prefix_rfl
    · exact List.prefix_rfl
    · exact hnext (b.restocked (tapeReader reader b.out 4096).1 (tapeReader reader b.out 4096).2)

theorem told_readString (n : ℕ) (b : Writer (WriterTape ω) γ) :
    b.out.out <+: (Writer.readString nest.tapeEnv (tapeReader reader) n b).1.out.out := by
  induction n generalizing b with
  | zero => exact List.prefix_rfl
  | succ n ih =>
      have hdrain : b.out.out <+: (b.drain nest.tapeEnv).1.out.out := told_drain b
      rw [readString_succ, andThenOk]
      split_ifs
      · exact hdrain.trans (told_turnReader ih _)
      · exact hdrain

/-- A turn at the end of the reader. -/
theorem turnReader_end {σ : Type} (env : WriterEnv σ γ) (reader : σ → ℕ → σ × ReadResult)
    (next : Writer σ γ → Writer σ γ × Status) {w : Writer σ γ} (h : w.stringReader.eof = true) :
    w.turnReader env reader next = w.endReader env := if_pos h

theorem turnReader_more {σ : Type} (env : WriterEnv σ γ) (reader : σ → ℕ → σ × ReadResult)
    (next : Writer σ γ → Writer σ γ × Status) {w : Writer σ γ} (h : w.stringReader.eof = false) :
    w.turnReader env reader next = andThenOk (w.unblocked env) (Writer.refill reader next) := by
  rw [Writer.turnReader, h]
  rfl

/-- The loop begins with the turn where the buffer is empty. -/
theorem readString_turn {σ : Type} (env : WriterEnv σ γ) (reader : σ → ℕ → σ × ReadResult) (n : ℕ)
    {w : Writer σ γ} (h : w.stringReader.buffer = []) : Writer.readString env reader (n + 1) w =
      w.turnReader env reader (Writer.readString env reader n) := by
  rw [readString_succ, drain_nil env h, andThenOk_ok]

/-- What a string reader that may be interrupted comes to, and the loop behind the interruption. -/
def Writer.Meets (before : ReadsBefore) (again : Writer (WriterTape ω) γ → Writer (WriterTape ω) γ × Status)
    (Q R : Writer (WriterOutlet ω) γ → Prop) (r : Writer (WriterOutlet ω) γ × Status)
    (r' : Writer (WriterTape ω) γ × Status) : Prop :=
  r.1.out.Fits before.capacity ∧ (r' = (r.1.taped before, r.2) ∧ (r.2 = .ok → Q r.1) ∨
    r.2 = .truncated ∧ r.1.out.capacity ≤ r.1.out.given.length ∧ R r.1 ∧ again (r.1.taped before) = r')

theorem meets_refill (ih : (outletSetting before).Replays (Writer.Reads G id)
      (Writer.readString (nest.generatorEnv canHold) (outletReader reader) n)
      (Writer.readString nest.tapeEnv (tapeReader reader) n) (fun w => G w.event.child)
      (Writer.Reads G id)) {w : Writer (WriterOutlet ω) γ} (hfits : w.out.Fits before.capacity) (hw : w.Reads G id)
    (hlost : ((w.taped before).refill (tapeReader reader)
      (Writer.readString nest.tapeEnv (tapeReader reader) n)).2 ≠ .internalError) :
    Writer.Meets before (Writer.readString nest.tapeEnv (tapeReader reader) (n + 1))
      (fun w => G w.event.child) (Writer.Reads G id)
      (w.refill (outletReader reader)
        (Writer.readString (nest.generatorEnv canHold) (outletReader reader) n))
      ((w.taped before).refill (tapeReader reader)
        (Writer.readString nest.tapeEnv (tapeReader reader) n)) := by
  obtain ⟨⟨world, r⟩, hread⟩ : ∃ r, reader w.out.world 4096 = r := ⟨_, rfl⟩
  have hmine : outletReader reader w.out 4096 = (w.out.inWorld world, r) := by
    rw [outletReader, readWithin, hread]
  have htheirs : tapeReader reader (w.taped before).out 4096 =
      ((w.taped before).out.inWorld world, r) := by
    rw [tapeReader, readWithin, show (w.taped before).out.world = w.out.world from rfl, hread]
  have hfits' : (w.out.inWorld world).Fits before.capacity :=
    ⟨hfits.capacity, hfits.blocked, hfits.full, hfits.within⟩
  rw [Writer.refill, htheirs, Writer.restock] at hlost
  rw [Writer.refill, Writer.refill, hmine, htheirs, Writer.restock, Writer.restock]
  split_ifs at hlost ⊢
  · exact ⟨hfits', .inl ⟨rfl, fun h => by cases h⟩⟩
  · exact ⟨hfits', .inl ⟨rfl, fun h => by cases h⟩⟩
  · have hnext := ih.step (w.restocked (w.out.inWorld world) r) hfits'
      ⟨hw.child, hw.active, hw.reader⟩ hlost
    refine ⟨hnext.1, hnext.2.imp_right fun hpause => ⟨hpause.1, hpause.2.1, hpause.2.2.1, ?_⟩⟩
    -- the interruption is in a later turn, and the turns that are left suffice
    have hagain := hpause.2.2.2
    have hlast : (Writer.readString nest.tapeEnv (tapeReader reader) n ((outletSetting before).see
        (w.restocked (w.out.inWorld world) r))).2 ≠ .internalError := hlost
    rw [← hagain] at hlast
    exact (readString_mono _ _ _ _ hlast).trans hagain

theorem meets_turn (hold : ∀ n, canHold n = true)
    (ih : (outletSetting before).Replays (Writer.Reads G id)
      (Writer.readString (nest.generatorEnv canHold) (outletReader reader) n)
      (Writer.readString nest.tapeEnv (tapeReader reader) n) (fun w => G w.event.child)
      (Writer.Reads G id)) {w : Writer (WriterOutlet ω) γ} (hfits : w.out.Fits before.capacity) (hw : w.Reads G id)
    (hbuffer : w.stringReader.buffer = [])
    (hlost : ((w.taped before).turnReader nest.tapeEnv (tapeReader reader)
      (Writer.readString nest.tapeEnv (tapeReader reader) n)).2 ≠ .internalError) :
    Writer.Meets before (Writer.readString nest.tapeEnv (tapeReader reader) (n + 1))
      (fun w => G w.event.child) (Writer.Reads G id)
      (w.turnReader (nest.generatorEnv canHold) (outletReader reader)
        (Writer.readString (nest.generatorEnv canHold) (outletReader reader) n))
      ((w.taped before).turnReader nest.tapeEnv (tapeReader reader)
        (Writer.readString nest.tapeEnv (tapeReader reader) n)) := by
  cases heof : w.stringReader.eof with
  | true =>
      have hseen : (w.taped before).stringReader.eof = true := heof
      rw [turnReader_end _ _ _ hseen] at hlost ⊢
      rw [turnReader_end _ _ _ heof]
      obtain ⟨hfits', hend⟩ := (@replays_endReader _ _ nest _ before G w.core (fun _ => True)
        hold).step w hfits ⟨rfl, trivial, hw.child⟩ hlost
      refine ⟨hfits', hend.imp_right fun hpause => ?_⟩
      obtain ⟨hpaused, hstuck, hinside, hsame⟩ := hpause
      have hreader := Writer.reader_of_core hinside.core
      refine ⟨hpaused, hstuck, ⟨hinside.child, ?_, ?_⟩, ?_⟩
      · rw [hreader, hw.active]
      · rw [hreader, hw.reader]
      · have hempty : (Writer.taped before
            (w.endReader (nest.generatorEnv canHold)).1).stringReader.buffer = [] :=
          (congrArg WriterStringReader.buffer hreader).trans hbuffer
        have hdone : (Writer.taped before
            (w.endReader (nest.generatorEnv canHold)).1).stringReader.eof = true :=
          (congrArg WriterStringReader.eof hreader).trans heof
        rw [readString_turn _ _ _ hempty, turnReader_end _ _ _ hdone]
        exact hsame
  | false =>
      have hseen : (w.taped before).stringReader.eof = false := heof
      have hempty : (w.taped before).stringReader.buffer = [] := hbuffer
      have hagain := readString_turn nest.tapeEnv (tapeReader reader) n hempty
      rw [turnReader_more _ _ _ hseen, unblocked_tape, andThenOk_ok] at hlost hagain ⊢
      rw [turnReader_more _ _ _ heof]
      cases hblocked : w.out.outputBlocked with
      | true =>
          rw [unblocked_shut hblocked]
          exact ⟨hfits, .inr ⟨rfl, WriterOutlet.Fits.full_of_blocked hfits hblocked, hw, hagain⟩⟩
      | false =>
          rw [unblocked_open hblocked, andThenOk_ok]
          exact meets_refill ih hfits hw hlost

/-- `lonejson_writer_string_reader`, behind its start. -/
theorem replays_readString (hold : ∀ n, canHold n = true) (n : ℕ) :
    (outletSetting before).Replays (Writer.Reads G id)
      (Writer.readString (nest.generatorEnv canHold) (outletReader reader) n)
      (Writer.readString nest.tapeEnv (tapeReader reader) n) (fun w => G w.event.child)
      (Writer.Reads G id) := by
  induction n with
  | zero => exact ⟨told_readString 0, fun _ _ _ hlost => absurd rfl hlost⟩
  | succ n ih =>
      refine ⟨told_readString (n + 1), fun w hfits hw hlost => ?_⟩
      have hfirst := (@replays_drain _ _ nest _ before hold (Writer.Reads G id)
        fun _ _ _ hw => ⟨hw.child, hw.active, hw.reader⟩).step w hfits hw
      change (Writer.readString nest.tapeEnv (tapeReader reader) (n + 1) (w.taped before)).2 ≠
        .internalError at hlost
      change Writer.Meets before (Writer.readString nest.tapeEnv (tapeReader reader) (n + 1))
        (fun w => G w.event.child) (Writer.Reads G id)
        (Writer.readString (nest.generatorEnv canHold) (outletReader reader) (n + 1) w)
        (Writer.readString nest.tapeEnv (tapeReader reader) (n + 1) (w.taped before))
      have hmine := readString_succ (nest.generatorEnv canHold) (outletReader reader) n w
      have htheirs := readString_succ nest.tapeEnv (tapeReader reader) n (w.taped before)
      rw [htheirs] at hlost ⊢
      rw [hmine]
      have hfirst : ((w.taped before).drain nest.tapeEnv).2 ≠ .internalError := by
        intro hdrain
        rw [andThenOk, if_neg (by rw [hdrain]; decide)] at hlost
        exact hlost hdrain
      obtain ⟨hfits', ⟨hsame, hdone⟩ | ⟨hpaused, hstuck, hreads, hsame⟩⟩ :=
        (@replays_drain _ _ nest _ before hold (Writer.Reads G id)
          fun _ _ _ hw => ⟨hw.child, hw.active, hw.reader⟩).step w hfits hw hfirst
      · rw [show (w.taped before).drain nest.tapeEnv = _ from hsame] at hlost ⊢
        by_cases hok : (w.drain (nest.generatorEnv canHold)).2 = .ok
        · rw [andThenOk, if_pos hok] at hlost ⊢
          rw [andThenOk, if_pos hok]
          obtain ⟨hreads, hbuffer⟩ := hdone hok
          exact meets_turn hold ih hfits' hreads hbuffer hlost
        · rw [andThenOk, if_neg hok, andThenOk, if_neg hok]
          exact ⟨hfits', .inl ⟨rfl, fun h => absurd h hok⟩⟩
      · have hstop : (w.drain (nest.generatorEnv canHold)).2 ≠ .ok := by
          rw [hpaused]
          exact (outletSetting before).paused_ne
        rw [andThenOk, if_neg hstop]
        refine ⟨hfits', .inr ⟨hpaused, hstuck, hreads, ?_⟩⟩
        rw [readString_succ]
        exact congrArg (andThenOk · _) hsame

/-- A string reader is resumed with its own reader. -/
def Writer.sameReader {σ : Type} (id : ℕ) (w : Writer σ γ) : Writer σ γ × Status :=
  w.check (w.stringReader.reader ≠ id)
    "active string reader must be resumed with the same reader" .invalidArgument

def Writer.openReader {σ : Type} (id : ℕ) (w : Writer σ γ) : Writer σ γ × Status :=
  ({ w with stringReader := { active := true, reader := id } }, .ok)

/-- How `lonejson_writer_string_reader` begins. -/
def Writer.startReader {σ : Type} (env : WriterEnv σ γ) (id : ℕ) (w : Writer σ γ) :
    Writer σ γ × Status :=
  if w.stringReader.active then w.sameReader id
  else andThenOk (w.stringBegin env) (Writer.openReader id)

theorem told_startReader (id : ℕ) (b : Writer (WriterTape ω) γ) :
    b.out.out <+: (b.startReader nest.tapeEnv id).1.out.out := by
  rw [Writer.startReader]
  split_ifs
  · rw [Writer.sameReader, Writer.check]
    split_ifs <;> exact List.prefix_rfl
  · have hbegin := (@replays_stringBegin ω γ nest (fun _ => true) ({} : ReadsBefore) (fun _ => True) { out := () }
      (fun _ => True) fun _ => rfl).grows b
    rw [andThenOk]
    split_ifs <;> exact hbegin

theorem replays_startReader (hold : ∀ n, canHold n = true) (id : ℕ) :
    (outletSetting before).Replays (fun w : Writer (WriterOutlet ω) γ => G w.event.child)
      (Writer.startReader (nest.generatorEnv canHold) id) (Writer.startReader nest.tapeEnv id)
      (Writer.Reads G id) (fun w => G w.event.child) := by
  refine .read Writer.core { out := () } fun core => ?_
  have hactive {w : Writer (WriterOutlet ω) γ} (hw : w.core = core) :
      w.stringReader.active = core.stringReader.active :=
    congrArg (fun c : Writer Unit Unit => c.stringReader.active) hw
  by_cases h : core.stringReader.active = true
  · have hcheck : @Aside ω γ (Writer.sameReader id) (Writer.sameReader id) :=
      aside_check _ _ fun _ _ => rfl
    have hreplays : (outletSetting before).Replays
        (fun w : Writer (WriterOutlet ω) γ => G w.event.child ∧ w.core = core)
        (Writer.sameReader id) (Writer.sameReader id) (Writer.Reads G id) fun _ => False := by
      refine hcheck.replays fun w hw hok => ?_
      rw [Writer.sameReader, Writer.check] at hok ⊢
      split_ifs at hok ⊢ with hbad
      · cases hok
      · exact ⟨hw.1, (hactive hw.2).trans h, by simpa using hbad⟩
    exact (hreplays.congr (told_startReader id) (fun w hw => if_pos ((hactive hw.2).trans h))
      fun w hw => if_pos ((hactive (hw.elim And.right False.elim)).trans h)).imp (fun _ hw => hw)
      (fun _ hw => hw) fun _ hnever => hnever.elim
  · have hset : @Aside ω γ (Writer.openReader id) (Writer.openReader id) :=
      aside_update .ok (fun _ _ => rfl) (fun _ => rfl) fun _ => rfl
    have hopen : (outletSetting before).Replays
        (fun w : Writer (WriterOutlet ω) γ => G w.event.child) (Writer.openReader id)
        (Writer.openReader id) (Writer.Reads G id) fun _ => False :=
      hset.replays fun w hw _ => ⟨hw, rfl, rfl⟩
    have hidle {w : Writer (WriterOutlet ω) γ} (hw : w.core = core) :
        ¬ w.stringReader.active = true := by rwa [hactive hw]
    have hreplays := (@replays_stringBegin ω γ nest canHold before G core (fun _ => True)
      hold).andThen_firm hopen
    refine (hreplays.congr (told_startReader id) (fun w hw => if_neg (hidle hw.core))
      fun w hw => if_neg (hidle (hw.elim Writer.Inside.core Writer.Inside.core))).imp
      (fun _ hw => ⟨hw.2, trivial, hw.1⟩) (fun _ hw => hw) fun _ hw => hw.child

/-- `lonejson_writer_string_reader`. -/
theorem resumes_stringFromReader (hold : ∀ n, canHold n = true) (id fuel : ℕ) :
    Resumes before G
      (fun w => w.stringFromReader (nest.generatorEnv canHold) id fuel (outletReader reader))
      (fun b => b.stringFromReader nest.tapeEnv id fuel (tapeReader reader)) := by
  refine (replays_startReader hold id).andThen (replays_readString hold fuel) (fun _ hr => hr)
    fun _ w _ _ hw => ⟨hw.child, ?_⟩
  have hactive : (w.taped before).stringReader.active = true := hw.active
  have hsame : (w.taped before).stringReader.reader = id := hw.reader
  change (w.taped before).startReader nest.tapeEnv id = (w.taped before, .ok)
  rw [Writer.startReader, if_pos hactive, Writer.sameReader, hsame]
  simp [Writer.check]

end

end Lonejson
