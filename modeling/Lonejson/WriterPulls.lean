import Lonejson.ResumedChildren

/-!
# The reads of a writer generator

The producer of a writer generator beside the same calls on a writer into a sink. Whatever the
capacities of the reads, what they give together is what the calls write into the sink.
-/

namespace Lonejson

open Resuming (Setting)

variable {ω γ : Type} {nest : WriterNest γ} {canHold : ℕ → Bool} {Text : γ → Bytes → Prop}

/-! ## Calls -/

/-- The calls that take the same bytes whenever they are issued: all but those that splice what a
stream reads. -/
def WriterCall.Resumable (nest : WriterNest γ) (Text : γ → Bytes → Prop) : WriterCall ω → Prop
  | .child _ _ _ root => nest.Serves Text root
  | .valueStreamOpen | .valueStreamPush _ _ | .valueStreamClose _ _ | .valueStreamCleanup => False
  | .arrayItems _ _ => False
  | _ => True

theorem resumes_run {before : ReadsBefore} (h : nest.Gives Text) (hold : ∀ n, canHold n = true)
    {call : WriterCall ω} (hcall : call.Resumable nest Text) :
    Resumes before (WriterNest.Holds Text) (call.outlet.run (nest.generatorEnv canHold))
      (call.tape.run nest.tapeEnv) := by
  have hG : WriterNest.Holds Text (none : Option γ) := fun _ hnone => by cases hnone
  cases call with
  | beginObject => exact resumes_beginContainer hold .object 0x7b
  | endObject => exact resumes_endObject hold
  | beginArray => exact resumes_beginContainer hold .array 0x5b
  | endArray => exact resumes_endArray hold
  | key k => exact resumes_key hold hG k
  | string data => exact resumes_string hold hG data
  | stringBegin => exact resumes_stringBegin hold
  | stringChunk data => exact resumes_stringChunk hold hG data
  | stringEnd => exact resumes_stringEnd hold
  | stringReader id fuel reader => exact resumes_stringFromReader hold id fuel
  | numberText data => exact resumes_numberText hold hG data
  | numberBegin => exact resumes_numberBegin hold
  | numberChunk data => exact resumes_numberChunk data
  | numberEnd => exact resumes_numberEnd hold hG
  | i64 value => exact resumes_scalarBytes hold hG _
  | u64 value => exact resumes_scalarBytes hold hG _
  | f64 finite text => exact resumes_f64 hold hG finite text
  | bool value => exact resumes_scalarBytes hold hG _
  | null => exact resumes_scalarBytes hold hG _
  | nullSource => exact resumes_nullSource hold
  | child arg0 arg1 tag root => exact resumes_childEvent h hold (.caller arg0) arg1 tag hcall
  | valueStreamOpen => exact hcall.elim
  | valueStreamPush pieces status => exact hcall.elim
  | valueStreamClose pieces status => exact hcall.elim
  | valueStreamCleanup => exact hcall.elim
  | arrayItems items status => exact hcall.elim
  | finish => exact resumes_finish

/-- The calls of a producer on a writer into a sink, up to one that fails, and
`lonejson_writer_finish`. -/
def WriterNest.sinkRun (nest : WriterNest γ) (calls : List (WriterCall ω))
    (b : Writer (WriterTape ω) γ) : Writer (WriterTape ω) γ × Status :=
  let r := Resuming.issue .ok (fun call => call.tape.run nest.tapeEnv) calls b
  andThenOk (r.1.2, r.2) Writer.finish

/-- What the producer and the end of a writer still write: a text, and the status behind it. -/
structure Writer.Yields (nest : WriterNest γ) (Text : γ → Bytes → Prop) (before : ReadsBefore)
    (text : Bytes) (status : Status) (calls : List (WriterCall ω))
    (w : Writer (WriterOutlet ω) γ) : Prop where
  child : WriterNest.Holds Text w.event.child
  resumable : ∀ call ∈ calls, call.Resumable nest Text
  sink : ∃ b, nest.sinkRun calls (w.taped before) = (b, status) ∧
    b.out.out = before.given ++ text

section

variable {before : ReadsBefore} {text : Bytes} {status : Status} {calls : List (WriterCall ω)}
  {w : Writer (WriterOutlet ω) γ}

theorem told_run (h : nest.Gives Text) {call : WriterCall ω} (hcall : call.Resumable nest Text)
    (b : Writer (WriterTape ω) γ) : b.out.out <+: (call.tape.run nest.tapeEnv b).1.out.out :=
  (@resumes_run ω γ nest (fun _ => true) Text {} h (fun _ => rfl) call hcall).grows b

theorem told_sinkRun (h : nest.Gives Text) (hcalls : ∀ call ∈ calls, call.Resumable nest Text)
    (b : Writer (WriterTape ω) γ) : b.out.out <+: (nest.sinkRun calls b).1.out.out := by
  have hissue := @Setting.issue_grows _ _ _ _ _ (@outletSetting ω γ {}) _
    (fun call : WriterCall ω => call.tape.run nest.tapeEnv) calls
    (fun call hcall b => told_run h (hcalls call hcall) b) b
  rw [WriterNest.sinkRun, andThenOk]
  split_ifs
  · rw [aside_finish.tape]
    exact hissue
  · exact hissue

/-- What has been written already is the start of the text. -/
theorem Writer.Yields.started (h : nest.Gives Text) (hw : w.Yields nest Text before text status calls) :
    ∃ rest, text = w.out.written ++ rest := by
  obtain ⟨b, hrun, hout⟩ := hw.sink
  have hprefix := told_sinkRun h hw.resumable (w.taped before)
  rw [hrun, hout] at hprefix
  obtain ⟨rest, hrest⟩ := (List.prefix_append_right_inj before.given).mp hprefix
  exact ⟨rest, hrest.symm⟩

/-- What a producer comes to in a read. -/
inductive Writer.Produces (nest : WriterNest γ) (Text : γ → Bytes → Prop) (before : ReadsBefore)
    (text : Bytes) (status : Status) :
    (List (WriterCall ω) × Writer (WriterOutlet ω) γ) × Status → Prop where
  /-- The buffer of the read is full. -/
  | pause {calls : List (WriterCall ω)} {w : Writer (WriterOutlet ω) γ}
      (hfull : w.out.capacity ≤ w.out.given.length)
      (hw : w.Yields nest Text before text status calls) :
      Produces nest Text before text status ((calls, w), .truncated)
  | fail {calls : List (WriterCall ω)} {w : Writer (WriterOutlet ω) γ} (hfail : status ≠ .ok) :
      Produces nest Text before text status ((calls, w), status)
  | done {calls : List (WriterCall ω)} {w : Writer (WriterOutlet ω) γ}
      (hfinish : w.finish.2 = status) (hout : w.finish.1.out = w.out)
      (hwritten : text = w.out.written) :
      Produces nest Text before text status ((calls, w), .ok)

theorem producer_produces (h : nest.Gives Text) (hold : ∀ n, canHold n = true)
    (hfits : w.out.Fits before.capacity) (hw : w.Yields nest Text before text status calls)
    (hlost : status ≠ .internalError) :
    (nest.producer canHold calls w).1.2.out.Fits before.capacity ∧
      Writer.Produces nest Text before text status (nest.producer canHold calls w) := by
  have hcalls : ∀ call ∈ calls, (outletSetting before).Replays
      (fun w : Writer (WriterOutlet ω) γ => WriterNest.Holds Text w.event.child)
      (call.outlet.run (nest.generatorEnv canHold)) (call.tape.run nest.tapeEnv)
      (fun w => WriterNest.Holds Text w.event.child)
      fun w => WriterNest.Holds Text w.event.child :=
    fun call hcall => resumes_run h hold (hw.resumable call hcall)
  obtain ⟨b, hrun, hout⟩ := hw.sink
  obtain ⟨r, hsink⟩ : ∃ r, Resuming.issue .ok (fun call : WriterCall ω => call.tape.run nest.tapeEnv)
    calls (w.taped before) = r := ⟨_, rfl⟩
  rw [WriterNest.sinkRun, hsink] at hrun
  have hfirst : r.2 ≠ .internalError := by
    intro hr
    rw [andThenOk, if_neg (by rw [hr]; decide)] at hrun
    exact hlost ((congrArg Prod.snd hrun).symm.trans hr)
  obtain ⟨hfits', hleft, hissue⟩ := Setting.issue_replays hcalls hfits hw.child (hsink ▸ hfirst)
  have hmeets : r = (((nest.producer canHold calls w).1.1,
        (nest.producer canHold calls w).1.2.taped before), (nest.producer canHold calls w).2) ∨
      (nest.producer canHold calls w).2 = .truncated ∧
        (nest.producer canHold calls w).1.2.out.capacity ≤
          (nest.producer canHold calls w).1.2.out.given.length ∧
        WriterNest.Holds Text (nest.producer canHold calls w).1.2.event.child ∧
        Resuming.issue .ok (fun call : WriterCall ω => call.tape.run nest.tapeEnv)
          (nest.producer canHold calls w).1.1 ((nest.producer canHold calls w).1.2.taped before) = r :=
    hsink ▸ hissue
  have hsuffix : (nest.producer canHold calls w).1.1 <:+ calls := hleft
  refine ⟨hfits', ?_⟩
  clear hfits' hissue hleft
  generalize nest.producer canHold calls w = produced at hmeets hsuffix ⊢
  obtain ⟨⟨calls', w'⟩, s⟩ := produced
  obtain heq | ⟨hpaused, hfull, hchild, hsame⟩ := hmeets
  · rw [heq] at hrun
    by_cases hs : s = .ok
    · rw [hs, andThenOk_ok] at hrun
      have hfinish := aside_finish.see before w'
      rw [hrun] at hfinish
      have hlast : b.out.out = before.given ++ w'.finish.1.out.written :=
        congrArg (fun r => r.1.out.out) hfinish
      rw [aside_finish.out, hout] at hlast
      rw [hs]
      exact .done (congrArg Prod.snd hfinish).symm (aside_finish.out w')
        (List.append_cancel_left hlast)
    · rw [andThenOk, if_neg hs] at hrun
      have hstatus : s = status := congrArg Prod.snd hrun
      rw [hstatus] at hs ⊢
      exact .fail hs
  · have hs : s = .truncated := hpaused
    rw [hs]
    have hleft : ∀ call ∈ calls', call.Resumable nest Text :=
      fun call hcall => hw.resumable call (hsuffix.subset hcall)
    refine .pause hfull ⟨hchild, hleft, b, ?_, hout⟩
    rw [WriterNest.sinkRun, hsame]
    exact hrun

end

/-! ## Reads -/

namespace WriterGenerator

/-- A read begins. -/
def starting (capacity : ℕ) (g : WriterGenerator ω γ (List (WriterCall ω))) :
    WriterGenerator ω γ (List (WriterCall ω)) :=
  g.withOutlet { g.outlet with capacity, given := [] }

/-- What is left to be read: a text, and the status behind it. -/
structure Owes (nest : WriterNest γ) (Text : γ → Bytes → Prop) (text : Bytes) (status : Status)
    (g : WriterGenerator ω γ (List (WriterCall ω))) : Prop where
  held : g.outlet.blocked = true ↔ g.outlet.pending ≠ []
  done : g.producerDone = true → g.outlet.pending = text ∧ status = .ok
  more : g.producerDone = false → ∃ given, ∀ capacity,
    (g.starting capacity).writer.Yields nest Text { given, capacity } text status g.user

/-- What a read comes to. -/
inductive Serves (nest : WriterNest γ) (Text : γ → Bytes → Prop) (text : Bytes) (status : Status)
    (capacity : ℕ) : WriterGenerator ω γ (List (WriterCall ω)) × Status → Prop where
  | ok {g : WriterGenerator ω γ (List (WriterCall ω))} (hgiven : g.outlet.given = text.take capacity)
      (hrest : g.Owes nest Text (text.drop capacity) status)
      (hend : text.length < capacity → g.producerDone = true) :
      Serves nest Text text status capacity (g, .ok)
  | fail {g : WriterGenerator ω γ (List (WriterCall ω))} (hfail : status ≠ .ok) :
      Serves nest Text text status capacity (g, status)

section

variable {capacity : ℕ} {text : Bytes} {status : Status}
  {g : WriterGenerator ω γ (List (WriterCall ω))}

theorem flush_starting (held : g.outlet.blocked = true ↔ g.outlet.pending ≠ []) :
    ∃ o : WriterOutlet ω, (g.starting capacity).flush = g.withOutlet o ∧ o.Fits capacity ∧
      o.written = g.outlet.pending ∧ o.world = g.outlet.world := by
  obtain ⟨o, ho⟩ : ∃ o, WriterOutlet.flushPending { g.outlet with capacity, given := [] } = o :=
    ⟨_, rfl⟩
  have hflush : (g.starting capacity).flush =
      g.withOutlet (if o.pending = [] then { o with blocked := false } else o) := by
    rw [← ho]
    rfl
  have hgiven : o.given = g.outlet.pending.take capacity := by
    rw [← ho]
    simp [WriterOutlet.flushPending, WriterOutlet.room]
  have hpending : o.pending = g.outlet.pending.drop capacity := by
    rw [← ho]
    simp [WriterOutlet.flushPending, WriterOutlet.room]
  have hcapacity : o.capacity = capacity := by rw [← ho]; rfl
  have hblocked : o.blocked = g.outlet.blocked := by rw [← ho]; rfl
  have hworld : o.world = g.outlet.world := by rw [← ho]; rfl
  have hwritten : o.given ++ o.pending = g.outlet.pending := by
    rw [hgiven, hpending, List.take_append_drop]
  have hwithin : o.given.length ≤ o.capacity := by
    rw [hgiven, hcapacity, List.length_take]
    exact Nat.min_le_left _ _
  refine ⟨_, hflush, ?_⟩
  split_ifs with hempty
  · exact ⟨⟨hcapacity, by simp [hempty], fun h => absurd hempty h, hwithin⟩, hwritten, hworld⟩
  · refine ⟨⟨hcapacity, ?_, fun _ => ?_, hwithin⟩, hwritten, hworld⟩
    · have hheld : g.outlet.pending ≠ [] := fun h => hempty (by rw [hpending, h, List.drop_nil])
      exact iff_of_true (hblocked.trans (held.mpr hheld)) hempty
    · rw [hpending, List.drop_eq_nil_iff, not_le] at hempty
      rw [hgiven, hcapacity, List.length_take]
      omega

theorem flush_idle (hblocked : g.outlet.blocked = false) (hpending : g.outlet.pending = []) :
    g.flush = g := by
  have hoff : g.outlet.flushPending = g.outlet := by
    rw [WriterOutlet.flushPending, hpending, List.take_nil, List.drop_nil, List.append_nil, ← hpending]
  have hsame : ({ g.outlet with blocked := false } : WriterOutlet ω) = g.outlet := by rw [← hblocked]
  rw [flush, hoff, if_pos hpending, hsame]
  rfl

end

end WriterGenerator

/-- A read that is full has given the start of the text. -/
theorem WriterOutlet.Fits.full_split {o : WriterOutlet ω} {capacity : ℕ} {text rest : Bytes}
    (hfits : o.Fits capacity) (hfull : capacity ≤ o.given.length) (htext : text = o.written ++ rest) :
    o.given = text.take capacity ∧ o.pending ++ rest = text.drop capacity ∧
      ¬ text.length < capacity := by
  have hlength : o.given.length = capacity := le_antisymm (hfits.capacity ▸ hfits.within) hfull
  rw [htext, written, List.append_assoc]
  refine ⟨(List.take_left' hlength).symm, (List.drop_left' hlength).symm, ?_⟩
  rw [List.length_append]
  omega

theorem Writer.Yields.next {given text : Bytes} {capacity : ℕ} {status : Status}
    {calls : List (WriterCall ω)} {w : Writer (WriterOutlet ω) γ}
    (hw : w.Yields nest Text { given, capacity } text status calls)
    (hgiven : w.out.given = text.take capacity) (capacity' : ℕ) :
    Writer.Yields nest Text { given := given ++ w.out.given, capacity := capacity' }
      (text.drop capacity) status calls
      { w with out := { w.out with capacity := capacity', given := [] } } := by
  obtain ⟨b, hrun, hout⟩ := hw.sink
  refine ⟨hw.child, hw.resumable, b, ?_, ?_⟩
  · have hbytes : (given ++ w.out.given) ++ ([] ++ w.out.pending) = given ++ w.out.written := by
      rw [List.nil_append, List.append_assoc]
      rfl
    have hsame : Writer.taped { given := given ++ w.out.given, capacity := capacity' }
        { w with out := { w.out with capacity := capacity', given := [] } } =
          w.taped { given, capacity } :=
      congrArg (fun out => ({ w with out := { out, world := w.out.world } } : Writer (WriterTape ω) γ))
        hbytes
    rw [hsame]
    exact hrun
  · rw [hout, hgiven, List.append_assoc, List.take_append_drop]

namespace WriterGenerator

section

variable {capacity : ℕ} {text : Bytes} {status : Status}
  {g : WriterGenerator ω γ (List (WriterCall ω))}

/-- A read that ends with a buffer that is full, where the producer has more to write. -/
theorem serves_full {given : Bytes} (hgives : nest.Gives Text) (hnot : g.producerDone = false)
    (hfits : g.outlet.Fits capacity) (hfull : capacity ≤ g.outlet.given.length)
    (hw : g.writer.Yields nest Text { given, capacity } text status g.user) :
    Serves nest Text text status capacity (g, .ok) := by
  obtain ⟨rest, hrest⟩ := hw.started hgives
  obtain ⟨htaken, -, hlong⟩ := hfits.full_split hfull hrest
  refine .ok htaken ⟨hfits.blocked, fun hdone => ?_, fun _ => ?_⟩ fun hlt => absurd hlt hlong
  · rw [hnot] at hdone
    cases hdone
  · exact ⟨given ++ g.outlet.given, fun capacity' => hw.next htaken capacity'⟩

/-- A read behind the end of the producer. -/
theorem serves_ended (hdone : g.producerDone = true) (hfits : g.outlet.Fits capacity)
    (htext : text = g.outlet.written) (hstatus : status = .ok) :
    Serves nest Text text status capacity (g, .ok) := by
  have howes (h : g.outlet.pending = text.drop capacity) : g.Owes nest Text (text.drop capacity) status :=
    ⟨hfits.blocked, fun _ => ⟨h, hstatus⟩, fun hnot => by rw [hdone] at hnot; cases hnot⟩
  by_cases hfull : capacity ≤ g.outlet.given.length
  · have hsplit : text = g.outlet.written ++ [] := by rw [List.append_nil, htext]
    obtain ⟨htaken, hdropped, -⟩ := hfits.full_split hfull hsplit
    rw [List.append_nil] at hdropped
    exact .ok htaken (howes hdropped) fun _ => hdone
  · have hpending : g.outlet.pending = [] := by
      by_contra h
      exact hfull (hfits.capacity ▸ hfits.full h)
    have hall : text = g.outlet.given := by
      rw [htext, WriterOutlet.written, hpending, List.append_nil]
    refine .ok ?_ (howes ?_) fun _ => hdone
    · rw [hall, List.take_of_length_le (by omega)]
    · rw [hpending, hall, List.drop_eq_nil_of_le (by omega)]

/-- A flush leaves what there is to be read. -/
theorem yields_flushed {before : ReadsBefore} {o : WriterOutlet ω}
    (hworld : o.world = g.outlet.world) (hwritten : o.written = g.outlet.pending)
    (hw : (g.starting capacity).writer.Yields nest Text before text status g.user) :
    (g.withOutlet o).writer.Yields nest Text before text status g.user := by
  have hsame : (g.withOutlet o).writer.taped before = (g.starting capacity).writer.taped before := by
    change ({ g.writer with out := { out := before.given ++ o.written, world := o.world } } :
      Writer (WriterTape ω) γ) = _
    rw [hwritten, hworld]
    rfl
  exact ⟨hw.child, hw.resumable, hsame ▸ hw.sink⟩

/-- A read that ends where it begins. -/
theorem readLoop_full {producer : WriterProducer ω γ (List (WriterCall ω))} {fuel : ℕ}
    (hfull : g.outlet.capacity ≤ g.outlet.given.length) :
    readLoop producer (fuel + 1) g = some (g, .ok) := if_pos hfull

/-- A turn that flushes, and is through. -/
theorem readLoop_flushed {producer : WriterProducer ω γ (List (WriterCall ω))} {fuel : ℕ}
    (hroom : ¬ g.outlet.capacity ≤ g.outlet.given.length)
    (hend : (g.flush.outlet.pending ≠ [] ∨ g.flush.outlet.given.length = g.flush.outlet.capacity) ∨
      g.flush.producerDone = true) :
    readLoop producer (fuel + 1) g = some (g.flush, .ok) := by
  rw [readLoop, if_neg hroom]
  dsimp only
  by_cases hfull : g.flush.outlet.pending ≠ [] ∨ g.flush.outlet.given.length = g.flush.outlet.capacity
  · rw [if_pos hfull]
  · rw [if_neg hfull, if_pos (hend.resolve_left hfull)]

/-- What a turn makes of the result of the producer. -/
def resume (producer : WriterProducer ω γ (List (WriterCall ω))) (fuel : ℕ)
    (g : WriterGenerator ω γ (List (WriterCall ω)))
    (r : (List (WriterCall ω) × Writer (WriterOutlet ω) γ) × Status) :
    Option (WriterGenerator ω γ (List (WriterCall ω)) × Status) :=
  let g := { g with user := r.1.1, writer := r.1.2 }
  if r.2 = .truncated then readLoop producer fuel g
  else if r.2 ≠ .ok then some (g, r.2)
  else
    let r := g.writer.finish
    let g := { g with writer := r.1 }
    if r.2 ≠ .ok then some (g, r.2)
    else readLoop producer fuel { g with producerDone := true }

theorem readLoop_resume {producer : WriterProducer ω γ (List (WriterCall ω))} {fuel : ℕ}
    (hroom : ¬ g.outlet.capacity ≤ g.outlet.given.length)
    (hopen : ¬ (g.flush.outlet.pending ≠ [] ∨
      g.flush.outlet.given.length = g.flush.outlet.capacity))
    (hnot : g.flush.producerDone = false) :
    readLoop producer (fuel + 1) g =
      resume producer fuel g.flush (producer g.flush.user g.flush.writer) := by
  rw [readLoop, if_neg hroom]
  dsimp only
  rw [if_neg hopen, if_neg (Bool.eq_false_iff.mp hnot)]
  rfl

/-- The turns behind the producer. -/
theorem resume_serves (hgives : nest.Gives Text) (hwhole : status ≠ .truncated) {given : Bytes}
    {producer : WriterProducer ω γ (List (WriterCall ω))} (hnot : g.producerDone = false)
    {r : (List (WriterCall ω) × Writer (WriterOutlet ω) γ) × Status}
    (hfits : r.1.2.out.Fits capacity)
    (h : Writer.Produces nest Text { given, capacity } text status r) (fuel : ℕ) :
    ∃ r', resume producer (fuel + 1) g r = some r' ∧ Serves nest Text text status capacity r' := by
  cases h with
  | @pause calls w hfull hw =>
      have hread := @readLoop_full _ _ { g with user := calls, writer := w } producer fuel hfull
      have hfits' : w.out.Fits capacity := hfits
      have hserves : Serves nest Text text status capacity
          ({ g with user := calls, writer := w }, .ok) :=
        serves_full hgives hnot hfits' (hfits'.capacity ▸ hfull) hw
      refine ⟨_, ?_, hserves⟩
      rw [resume, if_pos rfl]
      exact hread
  | @fail calls w hfail =>
      refine ⟨({ g with user := calls, writer := w }, status), ?_, .fail hfail⟩
      rw [resume, if_neg hwhole, if_pos hfail]
  | @done calls w hfinish hout hwritten =>
      rw [resume, if_neg (fun h => by cases h), if_neg (not_not.mpr rfl)]
      dsimp only
      by_cases hok : status = .ok
      · rw [if_neg (not_not.mpr (hfinish.trans hok))]
        obtain ⟨g', hg'⟩ : ∃ g' : WriterGenerator ω γ (List (WriterCall ω)),
          { g with user := calls, writer := w.finish.1, producerDone := true } = g' := ⟨_, rfl⟩
        have houtlet : g'.outlet = w.out := by rw [← hg']; exact hout
        have hdone : g'.producerDone = true := by rw [← hg']
        have hfits' : g'.outlet.Fits capacity := houtlet ▸ hfits
        have hserves : Serves nest Text text status capacity (g', .ok) :=
          serves_ended hdone hfits' (houtlet ▸ hwritten) hok
        refine ⟨(g', .ok), ?_, hserves⟩
        rw [hg']
        by_cases hfull : g'.outlet.capacity ≤ g'.outlet.given.length
        · exact readLoop_full hfull
        · have hpending : g'.outlet.pending = [] := by
            by_contra h
            exact hfull (hfits'.full h)
          have hblocked : g'.outlet.blocked = false := by
            rw [Bool.eq_false_iff, ne_eq, hfits'.blocked, not_not]
            exact hpending
          have hidle := flush_idle hblocked hpending
          rw [readLoop_flushed hfull (.inr (by rw [hidle, hdone])), hidle]
      · rw [if_pos (fun h => hok (hfinish.symm.trans h)), hfinish]
        exact ⟨_, rfl, .fail hok⟩

/-- The loop of a read. -/
theorem readLoop_serves (hgives : nest.Gives Text) (hold : ∀ n, canHold n = true)
    (hg : g.Owes nest Text text status) (hcapacity : 0 < capacity)
    (hlost : status ≠ .internalError) (hwhole : status ≠ .truncated) (fuel : ℕ) :
    ∃ r, readLoop (nest.producer canHold) (fuel + 2) (g.starting capacity) = some r ∧
      Serves nest Text text status capacity r := by
  obtain ⟨o, hflush, hfits, hwritten, hworld⟩ := @flush_starting _ _ capacity g hg.held
  have hroom : ¬ (g.starting capacity).outlet.capacity ≤ (g.starting capacity).outlet.given.length :=
    Nat.not_le.mpr hcapacity
  have hended (hdone : g.producerDone = true) :
      Serves nest Text text status capacity (g.withOutlet o, .ok) :=
    serves_ended hdone hfits ((hg.done hdone).1.symm.trans hwritten.symm) (hg.done hdone).2
  by_cases hstop : o.pending ≠ [] ∨ o.given.length = o.capacity
  · refine ⟨_, readLoop_flushed hroom (.inl (by rw [hflush]; exact hstop)), ?_⟩
    rw [hflush]
    have hfull : capacity ≤ o.given.length :=
      hfits.capacity ▸ hstop.elim hfits.full fun h => h.ge
    cases hdone : g.producerDone with
    | true => exact hended hdone
    | false =>
        obtain ⟨given, hmore⟩ := hg.more hdone
        have hw := yields_flushed hworld hwritten (hmore capacity)
        exact serves_full hgives hdone hfits hfull hw
  · cases hdone : g.producerDone with
    | true =>
        refine ⟨_, readLoop_flushed hroom (.inr (by rw [hflush]; exact hdone)), ?_⟩
        rw [hflush]
        exact hended hdone
    | false =>
        obtain ⟨given, hmore⟩ := hg.more hdone
        have hw := yields_flushed hworld hwritten (hmore capacity)
        obtain ⟨hfits', hproduces⟩ := producer_produces hgives hold hfits hw hlost
        obtain ⟨r, hresume, hserves⟩ := resume_serves hgives hwhole (g := g.withOutlet o) hdone hfits'
          hproduces fuel
        refine ⟨r, ?_, hserves⟩
        rw [readLoop_resume hroom (by rw [hflush]; exact hstop) (by rw [hflush]; exact hdone), hflush]
        exact hresume

/-- What is given by reads with some room between them. -/
inductive Delivers (nest : WriterNest γ) (Text : γ → Bytes → Prop) (text : Bytes) (status : Status)
    (room : ℕ) : Pull.Read (WriterGenerator ω γ (List (WriterCall ω))) Status → Prop where
  | ok {g : WriterGenerator ω γ (List (WriterCall ω))}
      (hrest : g.Owes nest Text (text.drop room) status)
      (hwhole : g.eof = true → text.length ≤ room)
      (heof : text.length < room → g.eof = true ∧ status = .ok) :
      Delivers nest Text text status room ⟨g, text.take room, none⟩
  | fail {g : WriterGenerator ω γ (List (WriterCall ω))} {bytes : Bytes} (hfail : status ≠ .ok)
      (hbytes : bytes <+: text) : Delivers nest Text text status room ⟨g, bytes, some status⟩

theorem read_delivers (hgives : nest.Gives Text) (hold : ∀ n, canHold n = true)
    (hg : g.Owes nest Text text status) (hcapacity : 0 < capacity)
    (hlost : status ≠ .internalError) (hwhole : status ≠ .truncated) (fuel : ℕ) :
    ∃ r, read (nest.producer canHold) (fuel + 2) capacity g = some r ∧
      Delivers nest Text text status capacity r := by
  obtain ⟨r, hloop, hserves⟩ := readLoop_serves hgives hold hg hcapacity hlost hwhole fuel
  rw [read, show g.withOutlet { g.outlet with capacity, given := [] } = g.starting capacity from rfl,
    hloop, Option.map_some]
  refine ⟨_, rfl, ?_⟩
  cases hserves with
  | @fail g' hfail =>
      rw [if_pos hfail]
      exact .fail hfail List.nil_prefix
  | @ok g' hgiven hrest hend =>
      rw [if_neg (not_not.mpr rfl)]
      dsimp only
      rw [hgiven]
      refine .ok ⟨hrest.held, hrest.done, hrest.more⟩ (fun heof => ?_) fun hlt => ?_
      · rw [Bool.and_eq_true, decide_eq_true_eq] at heof
        have hpending := (hrest.done heof.1).1
        rw [heof.2] at hpending
        exact List.drop_eq_nil_iff.mp hpending.symm
      · have hdone := hend hlt
        obtain ⟨hpending, hstatus⟩ := hrest.done hdone
        rw [List.drop_eq_nil_of_le hlt.le] at hpending
        exact ⟨by rw [hdone, hpending]; rfl, hstatus⟩

theorem readAll_delivers (hgives : nest.Gives Text) (hold : ∀ n, canHold n = true)
    (hlost : status ≠ .internalError) (hwhole : status ≠ .truncated) (fuel : ℕ)
    {capacities : List ℕ} (hcapacities : ∀ capacity ∈ capacities, 0 < capacity) :
    ∀ {text} {g : WriterGenerator ω γ (List (WriterCall ω))}, g.Owes nest Text text status →
      (g.eof = true → text = []) →
      ∃ r, readAll (nest.producer canHold) (fuel + 2) capacities g = some r ∧
        Delivers nest Text text status capacities.sum r := by
  induction capacities with
  | nil =>
      intro text g hg heof
      refine ⟨_, rfl, ?_⟩
      have hnone := @Delivers.ok ω γ nest Text text status 0 g hg
        (fun h => by rw [heof h, List.length_nil]) fun h => absurd h (Nat.not_lt_zero _)
      exact hnone
  | cons capacity capacities ih =>
      intro text g hg heof
      obtain ⟨r, hread, hdelivers⟩ := read_delivers hgives hold hg
        (hcapacities capacity List.mem_cons_self) hlost hwhole fuel
      rw [readAll, hread, Option.bind_some, List.sum_cons]
      cases hdelivers with
      | @fail g' bytes hfail hbytes => exact ⟨_, rfl, .fail hfail hbytes⟩
      | @ok g' hrest hall hend =>
          have hrooms : ∀ c ∈ capacities, 0 < c := fun c hc => hcapacities c (List.mem_cons_of_mem _ hc)
          obtain ⟨r, hreads, hdelivers⟩ := ih hrooms hrest fun h => List.drop_eq_nil_of_le (hall h)
          rw [if_neg (fun h => by cases h)]
          by_cases hlast : capacities = []
          · -- no read is left that could come to the end
            subst hlast
            refine ⟨_, rfl, ?_⟩
            rw [Pull.Read.prepend, List.sum_nil, Nat.add_zero, List.append_nil]
            exact .ok hrest hall hend
          have hmore : 0 < capacities.sum := by
            obtain ⟨c, hc⟩ := List.exists_mem_of_ne_nil _ hlast
            exact lt_of_lt_of_le (hrooms c hc) (List.single_le_sum (fun _ _ => Nat.zero_le _) c hc)
          rw [hreads]
          refine ⟨_, rfl, ?_⟩
          cases hdelivers with
          | @fail g'' bytes hfail hbytes =>
              refine .fail hfail ?_
              have hprefix := (List.prefix_append_right_inj (text.take capacity)).mpr hbytes
              rwa [List.take_append_drop] at hprefix
          | @ok g'' hrest' hall' hend' =>
              have hbytes : text.take capacity ++ (text.drop capacity).take capacities.sum =
                  text.take (capacity + capacities.sum) := List.take_add.symm
              rw [Pull.Read.prepend]
              dsimp only
              rw [hbytes]
              rw [List.length_drop] at hall' hend'
              rw [List.drop_drop] at hrest'
              exact .ok hrest' (fun h => by have := hall' h; omega) fun h => hend' (by omega)

end

end WriterGenerator

/-! ## Whole runs -/

theorem owes_init {calls : List (WriterCall ω)} (hcalls : ∀ call ∈ calls, call.Resumable nest Text)
    {world : ω} {maxNumberBytes : ℕ} {b : Writer (WriterTape ω) γ} {status : Status}
    (hrun : nest.sinkRun calls { out := { world }, maxNumberBytes } = (b, status)) :
    (WriterGenerator.init world maxNumberBytes calls).Owes nest Text b.out.out status := by
  refine ⟨by simp [WriterGenerator.init, WriterGenerator.outlet], fun h => (by cases h), fun _ => ?_⟩
  exact ⟨[], fun capacity => ⟨fun c hc => (by cases hc), hcalls, b, hrun, rfl⟩⟩

/-- Interruptions of the calls do not show: whatever the capacities of the reads, a generator gives
what the calls and `lonejson_writer_finish` write into a sink, and comes to the end or to the error
where they do. -/
theorem writerGenerator_replays (hgives : nest.Gives Text) (hold : ∀ n, canHold n = true)
    {calls : List (WriterCall ω)} (hcalls : ∀ call ∈ calls, call.Resumable nest Text)
    {world : ω} {maxNumberBytes : ℕ} {b : Writer (WriterTape ω) γ} {status : Status}
    (hrun : nest.sinkRun calls { out := { world }, maxNumberBytes } = (b, status))
    (hlost : status ≠ .internalError) (hwhole : status ≠ .truncated) {fuel : ℕ} (hfuel : 2 ≤ fuel)
    {capacities : List ℕ} (hcapacities : ∀ capacity ∈ capacities, 0 < capacity) :
    ∃ r, WriterGenerator.readAll (nest.producer canHold) fuel capacities
        (WriterGenerator.init world maxNumberBytes calls) = some r ∧
      (status = .ok → r.error = none) ∧
      (r.error = none → r.bytes = b.out.out.take capacities.sum ∧
        (r.state.eof = true → b.out.out.length ≤ capacities.sum) ∧
        (b.out.out.length < capacities.sum → r.state.eof = true ∧ status = .ok)) ∧
      ∀ error, r.error = some error → error = status ∧ r.bytes <+: b.out.out := by
  obtain ⟨r, hread, hdelivers⟩ := WriterGenerator.readAll_delivers hgives hold hlost hwhole (fuel - 2)
    hcapacities (owes_init hcalls hrun) fun h => by cases h
  rw [Nat.sub_add_cancel hfuel] at hread
  refine ⟨r, hread, ?_⟩
  cases hdelivers with
  | ok hrest hall hend => exact ⟨fun _ => rfl, fun _ => ⟨rfl, hall, hend⟩, fun _ h => (by cases h)⟩
  | fail hfail hbytes =>
      exact ⟨fun h => absurd h hfail, fun h => (by cases h),
        fun _ h => ⟨(Option.some.inj h).symm, hbytes⟩⟩

/-! ## An object with a string that is read and a nested value -/

/-- Nested JSON values that are compact already: what is generated is their own text. -/
def rawNest : WriterNest Bytes where
  canGrow _ := true
  childInit root error :=
    match root with
    | .jsonValue _ source => .ok source
    | _ => .error (error.set .invalidArgument "JSON value is required")
  childRead text room :=
    { generator := text.drop room
      bytes := text.take room
      eof := decide (text.length < room)
      status := .ok
      error := {} }
  childFuel text := text.length + 1

theorem rawNest_gives : rawNest.Gives (· = ·) where
  read {child text room} h _ := by
    subst h
    refine ⟨rfl, rfl, fun heof => ?_, fun hlt => decide_eq_true hlt, rfl⟩
    exact (of_decide_eq_true heof).le
  fuel {child text} h := by
    subst h
    exact Nat.lt_succ_self _
  fails {root error e} h := by
    cases root with
    | jsonValue value source => cases h
    | map map src => cases h; exact fun h => by cases h
    | spooledText value => cases h; exact fun h => by cases h
    | spooledBase64 value => cases h; exact fun h => by cases h
    | sourceText value source => cases h; exact fun h => by cases h
    | sourceBase64 value source => cases h; exact fun h => by cases h

def greetingReader (reads : ℕ) (_room : ℕ) : ℕ × ReadResult :=
  (reads + 1, { bytes := ascii "hi", eof := true })

def greetingCalls : List (WriterCall ℕ) :=
  [.beginObject, .key { address := .caller 1, bytes := ascii "a" }, .stringReader 1 3 greetingReader,
    .key { address := .caller 2, bytes := ascii "b" },
    .child 3 0 5 (.jsonValue { kind := .path } (ascii "[1,2]")), .endObject]

/-- What the calls write into a sink. -/
def greetingRun : Writer (WriterTape ℕ) Bytes × Status :=
  rawNest.sinkRun greetingCalls { out := { world := 0 }, maxNumberBytes := 64 }

theorem greetingRun_eq : greetingRun.2 = .ok ∧
    greetingRun.1.out.out = ascii "\x7b\"a\":\"hi\",\"b\":[1,2]\x7d" := by decide +kernel

theorem greetingCalls_resumable : ∀ call ∈ greetingCalls, call.Resumable rawNest (· = ·) := by
  intro call hcall
  simp only [greetingCalls, List.mem_cons, List.not_mem_nil, or_false] at hcall
  obtain rfl | rfl | rfl | rfl | rfl | rfl := hcall
  · trivial
  · trivial
  · trivial
  · trivial
  · exact fun _ child _ => ⟨child, rfl⟩
  · trivial

theorem writerGenerator_replays_greeting :
    ∃ r, WriterGenerator.readAll (rawNest.producer fun _ => true) 2 [1, 2, 3, 50]
        (WriterGenerator.init 0 64 greetingCalls) = some r ∧
      r.error = none ∧ r.bytes = ascii "\x7b\"a\":\"hi\",\"b\":[1,2]\x7d" ∧ r.state.eof = true := by
  obtain ⟨hstatus, htext⟩ := greetingRun_eq
  have hrun : rawNest.sinkRun greetingCalls { out := { world := 0 }, maxNumberBytes := 64 } =
      (greetingRun.1, .ok) := Prod.ext rfl hstatus
  obtain ⟨r, hread, hnone, hgiven, -⟩ := @writerGenerator_replays ℕ Bytes rawNest (fun _ => true)
    (· = ·) rawNest_gives (fun _ => rfl) _ greetingCalls_resumable 0 64 _ _ hrun (by decide)
    (by decide) 2 le_rfl [1, 2, 3, 50] (by decide)
  obtain ⟨hbytes, -, heof⟩ := hgiven (hnone rfl)
  rw [htext] at hbytes heof
  refine ⟨r, hread, hnone rfl, hbytes.trans (by decide +kernel), (heof (by decide +kernel)).1⟩

end Lonejson
