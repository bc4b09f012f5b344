import Lonejson.ResumedReaders

/-!
# Nested values

The call of a writer that loops over the reads of a nested generator. A read asks for as much as
there is room, so that nothing of a nested value is held back, and an interruption leaves a
generator that gives the rest.
-/

namespace Lonejson

open Resuming (Setting)

variable {ω γ : Type} {nest : WriterNest γ} {canHold : ℕ → Bool} {before : ReadsBefore}

/-- What a read gives of a text, where there is some room. -/
structure GeneratorRead.Gives (Text : γ → Bytes → Prop) (text : Bytes) (room : ℕ)
    (r : GeneratorRead γ) : Prop where
  status : r.status = .ok
  bytes : r.bytes = text.take room
  whole : r.eof = true → text.length ≤ room
  eof : text.length < room → r.eof = true
  rest : Text r.generator (text.drop room)

/-- The nested generators whose reads give a text, in any pieces. -/
structure WriterNest.Gives (nest : WriterNest γ) (Text : γ → Bytes → Prop) : Prop where
  read : ∀ {child text room}, Text child text → 0 < room →
    (nest.childRead child room).Gives Text text room
  fuel : ∀ {child text}, Text child text → text.length < nest.childFuel child
  fails : ∀ {root error e}, nest.childInit root error = .error e → e.code ≠ .ok

/-- A nested value that can be generated. -/
def WriterNest.Serves (nest : WriterNest γ) (Text : γ → Bytes → Prop) (root : GeneratorRoot) : Prop :=
  ∀ error child, nest.childInit root error = .ok child → ∃ text, Text child text

section

variable {Text : γ → Bytes → Prop} {text : Bytes} {room : ℕ} {r : GeneratorRead γ}

theorem GeneratorRead.Gives.nil (h : r.Gives Text [] room) (hroom : 0 < room) :
    r.bytes = [] ∧ r.eof = true := ⟨h.bytes.trans List.take_nil, h.eof hroom⟩

theorem GeneratorRead.Gives.ne_nil (h : r.Gives Text text room) (hroom : 0 < room)
    (htext : text ≠ []) : r.bytes ≠ [] := by
  rw [h.bytes, ne_eq, List.take_eq_nil_iff, not_or]
  exact ⟨hroom.ne', htext⟩

theorem GeneratorRead.Gives.all (h : r.Gives Text text room) (heof : r.eof = true) :
    r.bytes = text := h.bytes.trans (List.take_of_length_le (h.whole heof))

theorem GeneratorRead.Gives.shorter (h : r.Gives Text text room) (hroom : 0 < room)
    (heof : r.eof = false) : (text.drop room).length < text.length := by
  have hlong : ¬ text.length < room := fun hlt => by
    rw [h.eof hlt] at heof
    cases heof
  rw [List.length_drop]
  omega

end

/-! ## A turn of the loop -/

section

variable {σ : Type} {env : WriterEnv σ γ} {w : Writer σ γ} {child : γ} {n : ℕ}

/-- What comes behind the bytes of a read. -/
def Writer.childBehind (env : WriterEnv σ γ) (n : ℕ) (r : GeneratorRead γ) (w : Writer σ γ) :
    Writer σ γ × Status :=
  andThenOk (w.unblocked env) fun w =>
    if r.eof then (w.clearEvent, .ok) else Writer.childLoop env n r.generator w

/-- A read that gives nothing but the end. -/
theorem childLoop_end {r : GeneratorRead γ} (hopen : w.unblocked env = (w, .ok))
    (havailable : env.available w.out ≠ some 0)
    (hread : env.childRead child (env.readCapacity w.out) = r) (hstatus : r.status = .ok)
    (hbytes : r.bytes = []) (heof : r.eof = true) :
    Writer.childLoop env (n + 1) child w = (w.clearEvent, .ok) := by
  rw [Writer.childLoop, hopen, andThenOk_ok, if_neg havailable]
  dsimp only
  rw [hread, if_neg (not_not.mpr hstatus), if_pos hbytes, andThenOk_ok, if_pos heof]
  rfl

/-- A read that gives some bytes. -/
theorem childLoop_more {r : GeneratorRead γ} (hopen : w.unblocked env = (w, .ok))
    (havailable : env.available w.out ≠ some 0)
    (hread : env.childRead child (env.readCapacity w.out) = r) (hstatus : r.status = .ok)
    (hbytes : r.bytes ≠ []) : Writer.childLoop env (n + 1) child w =
      andThenOk ((w.withChild r.generator).emit env r.bytes) (Writer.childBehind env n r) := by
  rw [Writer.childLoop, hopen, andThenOk_ok, if_neg havailable]
  dsimp only
  rw [hread, if_neg (not_not.mpr hstatus), if_neg hbytes, andThenOk_assoc]
  refine andThenOk_congr fun _ => andThenOk_congr fun _ => ?_
  rw [if_neg hbytes]

end

/-! ## The loop -/

section

variable {Text : γ → Bytes → Prop}

/-- A writer behind a nested value. -/
def Writer.nested (w : Writer (WriterTape ω) γ) (text : Bytes) : Writer (WriterTape ω) γ :=
  Writer.clearEvent { w with out := { w.out with out := w.out.out ++ text } }

theorem emit_tape (data : Bytes) (b : Writer (WriterTape ω) γ) :
    b.emit nest.tapeEnv data = ({ b with out := { b.out with out := b.out.out ++ data } }, .ok) := by
  rw [Writer.emit]
  split_ifs with hdata
  · rw [hdata, List.append_nil]
  · rfl

/-- Into a sink the loop writes the text. -/
theorem childLoop_tape (h : nest.Gives Text) {n : ℕ} :
    ∀ {child text} (b : Writer (WriterTape ω) γ), Text child text → text.length < n →
      Writer.childLoop nest.tapeEnv n child b = (b.nested text, .ok) := by
  induction n with
  | zero => exact fun _ _ hn => absurd hn (Nat.not_lt_zero _)
  | succ n ih =>
      intro child text b htext hn
      obtain ⟨r, hread⟩ : ∃ r, nest.childRead child 512 = r := ⟨_, rfl⟩
      have hgives : r.Gives Text text 512 := hread ▸ h.read htext (by decide)
      have havailable : nest.tapeEnv.available b.out ≠ some 0 := by simp [WriterNest.tapeEnv]
      by_cases hempty : text = []
      · subst hempty
        obtain ⟨hbytes, heof⟩ := hgives.nil (by decide)
        rw [childLoop_end (unblocked_tape b) havailable hread hgives.status hbytes heof,
          Writer.nested, List.append_nil]
      rw [childLoop_more (unblocked_tape b) havailable hread hgives.status
        (hgives.ne_nil (by decide) hempty), emit_tape, andThenOk_ok, Writer.childBehind,
        unblocked_tape, andThenOk_ok]
      cases heof : r.eof with
      | true =>
          rw [if_pos rfl, hgives.all heof]
          rfl
      | false =>
          have hshorter := hgives.shorter (by decide) heof
          rw [if_neg (by decide), ih _ hgives.rest (by omega), hgives.bytes]
          have htext : text.take 512 ++ text.drop 512 = text := List.take_append_drop 512 text
          conv_rhs => rw [← htext, Writer.nested, ← List.append_assoc]
          rfl

/-- There is room for a read where the output is open. -/
theorem readCapacity_open {w : Writer (WriterOutlet ω) γ} (h : w.Open) :
    (nest.generatorEnv canHold).available w.out ≠ some 0 ∧
      0 < (nest.generatorEnv canHold).readCapacity w.out := by
  have hroom := WriterOutlet.Fits.room_of_open h
  have havailable : (nest.generatorEnv canHold).available w.out = some w.out.room := by
    change some w.out.outputAvailable = _
    rw [WriterOutlet.outputAvailable, if_neg (Bool.eq_false_iff.mp h)]
  rw [WriterEnv.readCapacity, havailable]
  refine ⟨fun hzero => ?_, by dsimp only; omega⟩
  rw [Option.some.inj hzero] at hroom
  omega

/-- A nested value has been interrupted: some of its text has gone out, and the generator that is
left gives the rest. -/
structure Writer.Cut (Text : γ → Bytes → Prop) (w : Writer (WriterOutlet ω) γ) (text : Bytes)
    (o : WriterOutlet ω) (child : γ) : Prop where
  rest : ∃ sent rest, text = sent ++ rest ∧ Text child rest ∧ o.written = w.out.written ++ sent
  full : o.capacity ≤ o.given.length

/-- A run has written a text, or a part of it up to an interruption. -/
def Writer.Spells (Text : γ → Bytes → Prop) (before : ReadsBefore) (text : Bytes)
    (w : Writer (WriterOutlet ω) γ) (run : Writer (WriterOutlet ω) γ × Status) : Prop :=
  ∃ o : WriterOutlet ω, o.Fits before.capacity ∧ o.world = w.out.world ∧
    (run = (Writer.clearEvent { w with out := o }, .ok) ∧ o.written = w.out.written ++ text ∨
      ∃ child, w.Cut Text text o child ∧
        run = (Writer.withChild { w with out := o } child, .truncated))

section

variable {w : Writer (WriterOutlet ω) γ} {child : γ} {text : Bytes}

/-- A full output interrupts before anything is written. -/
theorem spells_blocked (hfits : w.out.Fits before.capacity) (htext : Text child text)
    (hchild : w.event.child = some child) (hblocked : w.out.outputBlocked = true) :
    w.Spells Text before text (w, .truncated) := by
  have hfull := WriterOutlet.Fits.full_of_blocked hfits hblocked
  have hsame : Writer.withChild { w with out := w.out } child = w := by
    rw [Writer.withChild, ← hchild]
  refine ⟨w.out, hfits, rfl, .inr ⟨child, ⟨⟨[], text, rfl, htext, ?_⟩, hfull⟩, ?_⟩⟩
  · rw [List.append_nil]
  · rw [hsame]

/-- The rest of a text behind the bytes that have gone out. -/
theorem Writer.Spells.behind {o : WriterOutlet ω} {bytes rest : Bytes}
    {run : Writer (WriterOutlet ω) γ × Status} (hworld : o.world = w.out.world)
    (hwritten : o.written = w.out.written ++ bytes)
    (h : Writer.Spells Text before rest { w.withChild child with out := o } run) :
    w.Spells Text before (bytes ++ rest) run := by
  obtain ⟨o', hfits, hworld', hrun⟩ := h
  refine ⟨o', hfits, hworld'.trans hworld, ?_⟩
  obtain ⟨hdone, hall⟩ | ⟨child', ⟨⟨sent, last, hrest, hlast, hsent⟩, hfull⟩, hpaused⟩ := hrun
  · refine .inl ⟨hdone, ?_⟩
    rw [hall, hwritten, List.append_assoc]
  · refine .inr ⟨child', ⟨⟨bytes ++ sent, last, ?_, hlast, ?_⟩, hfull⟩, hpaused⟩
    · rw [hrest, List.append_assoc]
    · rw [hsent, hwritten, List.append_assoc]

/-- What comes behind the bytes of a read, where the loop spells the rest. -/
theorem spells_childBehind {r : GeneratorRead γ} {rest : Bytes} {n : ℕ}
    (hfits : w.out.Fits before.capacity) (hchild : w.event.child = some r.generator)
    (hrest : Text r.generator rest) (hall : r.eof = true → rest = [])
    (h : r.eof = false → w.Spells Text before rest
      (Writer.childLoop (nest.generatorEnv canHold) n r.generator w)) :
    w.Spells Text before rest (Writer.childBehind (nest.generatorEnv canHold) n r w) := by
  rw [Writer.childBehind]
  cases hfull : w.out.outputBlocked with
  | true =>
      rw [unblocked_shut hfull]
      exact spells_blocked hfits hrest hchild hfull
  | false =>
      have hopen : w.Open := hfull
      rw [unblocked_open hopen, andThenOk_ok]
      cases heof : r.eof with
      | true =>
          rw [hall heof, if_pos rfl]
          exact ⟨w.out, hfits, rfl, .inl ⟨rfl, by rw [List.append_nil]⟩⟩
      | false =>
          rw [if_neg (by decide)]
          exact h heof

end

/-- Inside a generator the loop writes the text, or a part of it. -/
theorem childLoop_outlet (h : nest.Gives Text) (hold : ∀ n, canHold n = true) {n : ℕ} :
    ∀ {child text} {w : Writer (WriterOutlet ω) γ}, w.out.Fits before.capacity → Text child text →
      w.event.child = some child → text.length < n →
      w.Spells Text before text (Writer.childLoop (nest.generatorEnv canHold) n child w) := by
  induction n with
  | zero => exact fun _ _ _ hn => absurd hn (Nat.not_lt_zero _)
  | succ n ih =>
      intro child text w hfits htext hchild hn
      cases hblocked : w.out.outputBlocked with
      | true =>
          rw [Writer.childLoop, unblocked_shut hblocked]
          exact spells_blocked hfits htext hchild hblocked
      | false =>
          have hopen : w.Open := hblocked
          obtain ⟨havailable, hroom⟩ := @readCapacity_open _ _ nest canHold w hopen
          generalize hcapacity : (nest.generatorEnv canHold).readCapacity w.out = capacity at hroom
          obtain ⟨r, hread⟩ : ∃ r, nest.childRead child capacity = r := ⟨_, rfl⟩
          have hgives : r.Gives Text text capacity := hread ▸ h.read htext hroom
          have hread' : (nest.generatorEnv canHold (ω := ω)).childRead child
              ((nest.generatorEnv canHold).readCapacity w.out) = r := by rw [hcapacity, ← hread]; rfl
          by_cases hempty : text = []
          · subst hempty
            obtain ⟨hbytes, heof⟩ := hgives.nil hroom
            rw [childLoop_end (unblocked_open hopen) havailable hread' hgives.status hbytes heof]
            exact ⟨w.out, hfits, rfl, .inl ⟨rfl, by rw [List.append_nil]⟩⟩
          have hbytes := hgives.ne_nil hroom hempty
          obtain ⟨o, htakes, hemit, -⟩ := @emit_free _ _ nest canHold before hold
            (w.withChild r.generator) hfits hopen.free r.bytes
          rw [childLoop_more (unblocked_open hopen) havailable hread' hgives.status hbytes, hemit,
            andThenOk_ok]
          have hsplit : r.bytes ++ text.drop capacity = text := by
            rw [hgives.bytes, List.take_append_drop]
          rw [← hsplit]
          refine @Writer.Spells.behind _ _ _ _ w r.generator o _ _ _ htakes.world htakes.written ?_
          refine spells_childBehind htakes.fits rfl hgives.rest
            (fun heof => List.drop_eq_nil_iff.mpr (hgives.whole heof)) fun heof => ?_
          -- the induction is on a bound of what is left, and a read that is not the last takes some
          have hshorter := hgives.shorter hroom heof
          exact ih htakes.fits hgives.rest rfl (by omega)

/-! ## The call -/

theorem told_childLoop (n : ℕ) : ∀ (child : γ) (b : Writer (WriterTape ω) γ),
    b.out.out <+: (Writer.childLoop nest.tapeEnv n child b).1.out.out := by
  induction n with
  | zero => exact fun _ _ => List.prefix_rfl
  | succ n ih =>
      intro child b
      rw [Writer.childLoop, unblocked_tape, andThenOk_ok, if_neg (by simp [WriterNest.tapeEnv])]
      dsimp only
      generalize nest.tapeEnv.childRead child (nest.tapeEnv.readCapacity b.out) = r
      by_cases hstatus : r.status ≠ .ok
      · rw [if_pos hstatus]
      rw [if_neg hstatus, emit_tape, andThenOk_ok, unblocked_tape]
      by_cases hbytes : r.bytes = []
      · rw [if_pos hbytes, andThenOk_ok, if_pos hbytes]
        split_ifs <;> exact List.prefix_rfl
      · rw [if_neg hbytes, andThenOk_ok, if_neg hbytes]
        split_ifs
        · exact List.prefix_append _ _
        · refine List.IsPrefix.trans ?_ (ih r.generator _)
          exact List.prefix_append _ _

theorem told_childRest (child : Option γ) (b : Writer (WriterTape ω) γ) :
    b.out.out <+: (b.childRest nest.tapeEnv child).1.out.out := by
  cases child with
  | none => exact List.prefix_rfl
  | some child => exact told_childLoop _ child b

/-- A generator that is held gives a text. -/
def WriterNest.Holds (Text : γ → Bytes → Prop) (child : Option γ) : Prop :=
  ∀ c, child = some c → ∃ text, Text c text

theorem childRest_tape (h : nest.Gives Text) {child : γ} {text : Bytes} (htext : Text child text)
    (b : Writer (WriterTape ω) γ) :
    b.childRest nest.tapeEnv (some child) = (b.nested text, .ok) :=
  childLoop_tape h b htext (h.fuel htext)

/-- What is seen behind a part of a text. -/
theorem taped_sent {w : Writer (WriterOutlet ω) γ} {o : WriterOutlet ω} {sent : Bytes}
    (hwritten : o.written = w.out.written ++ sent) (hworld : o.world = w.out.world) :
    Writer.taped before { w with out := o } =
      { w.taped before with
        out := { (w.taped before).out with out := (w.taped before).out.out ++ sent } } := by
  rw [Writer.taped, hwritten, hworld, ← List.append_assoc]
  rfl

theorem replays_childRest (h : nest.Gives Text) (hold : ∀ n, canHold n = true)
    {core : Writer Unit Unit} {phases : ℕ → Prop} (arg1 : ℕ) :
    (outletSetting before).Replays
      (fun w : Writer (WriterOutlet ω) γ =>
        Writer.Inside (WriterNest.Holds Text) core phases w ∧ w.event.data2 = arg1)
      (fun w => w.childRest (nest.generatorEnv canHold) w.event.child)
      (fun b => b.childRest nest.tapeEnv b.event.child)
      (fun w => WriterNest.Holds Text w.event.child)
      fun w => Writer.Inside (WriterNest.Holds Text) core phases w ∧ w.event.data2 = arg1 := by
  refine ⟨fun b => told_childRest _ b, fun w hfits hw hlost => ?_⟩
  have hseen : ((outletSetting before).see w).event.child = w.event.child := rfl
  rw [hseen] at hlost ⊢
  cases hchild : w.event.child with
  | none =>
      rw [hchild] at hlost
      exact absurd rfl hlost
  | some child =>
      obtain ⟨text, htext⟩ := hw.1.child child hchild
      obtain ⟨o, hfits', hworld, ⟨hdone, hwritten⟩ |
        ⟨child', ⟨⟨sent, rest, hsplit, hrest, hwritten⟩, hstuck⟩, hpaused⟩⟩ :=
        childLoop_outlet h hold hfits htext hchild (h.fuel htext)
      · have hmine : w.childRest (nest.generatorEnv canHold) (some child) = _ := hdone
        rw [hmine, childRest_tape h htext]
        refine ⟨hfits', .inl ⟨Prod.ext ?_ rfl, fun _ _ hnone => by cases hnone⟩⟩
        exact (congrArg Writer.clearEvent (taped_sent hwritten hworld)).symm
      · have hmine : w.childRest (nest.generatorEnv canHold) (some child) = _ := hpaused
        rw [hmine, childRest_tape h htext]
        refine ⟨hfits', .inr ⟨rfl, hstuck, ⟨⟨hw.1.core, hw.1.phase, ?_⟩, hw.2⟩, ?_⟩⟩
        · intro c hc
          exact ⟨rest, Option.some.inj hc ▸ hrest⟩
        · refine (childRest_tape h hrest _).trans (Prod.ext ?_ rfl)
          have hseen' := congrArg (fun b => b.nested rest) (@taped_sent _ _ before w o sent hwritten hworld)
          have hsame : ((outletSetting before).see w).nested text =
            Writer.nested { w.taped before with
              out := { (w.taped before).out with out := (w.taped before).out.out ++ sent } } rest := by
            rw [hsplit, Writer.nested, Writer.nested, ← List.append_assoc]
            rfl
          rw [hsame, ← hseen']
          rfl

/-- What the setup of a generator leaves. -/
def Writer.setChild {σ : Type} (r : Except ErrorInfo γ) (w : Writer σ γ) : Writer σ γ × Status :=
  match r with
  | .error error => (Writer.clearEvent { w with error }, error.code)
  | .ok child => (Writer.setPhase (w.withChild child) 1, .ok)

/-- A generator is set up, in `lonejson__writer_child_event`. -/
def Writer.initChild {σ : Type} (env : WriterEnv σ γ) (arg1 : ℕ) (root : GeneratorRoot)
    (w : Writer σ γ) : Writer σ γ × Status :=
  Writer.setChild (env.childInit w.out root w.error)
    { w with event := { w.event with data2 := arg1 } }

/-- The start of a nested value, in `lonejson__writer_child_event`. -/
def Writer.startChild {σ : Type} (env : WriterEnv σ γ) (arg1 : ℕ) (root : GeneratorRoot)
    (w : Writer σ γ) : Writer σ γ × Status :=
  if w.event.phase = 0 then andThenOk (w.beforeValue env) (Writer.initChild env arg1 root)
  else w.check (w.event.data2 ≠ arg1)
    "active writer event must be resumed with the same arguments" .invalidArgument

theorem aside_setChild (r : Except ErrorInfo γ) :
    @Aside ω γ (Writer.setChild r) (Writer.setChild r) := by
  cases r with
  | error e => exact aside_update e.code (fun _ _ => rfl) (fun _ => rfl) fun _ => rfl
  | ok child => exact aside_update .ok (fun _ _ => rfl) (fun _ => rfl) fun _ => rfl

theorem aside_initChild (arg1 : ℕ) (root : GeneratorRoot) :
    @Aside ω γ (Writer.initChild (nest.generatorEnv canHold) arg1 root)
      (Writer.initChild nest.tapeEnv arg1 root) where
  see before w := (aside_setChild (nest.childInit root w.error)).see before
    { w with event := { w.event with data2 := arg1 } }
  out w := (aside_setChild (nest.childInit root w.error)).out
    { w with event := { w.event with data2 := arg1 } }
  tape b := (@aside_setChild ω γ (nest.childInit root b.error)).tape
    { b with event := { b.event with data2 := arg1 } }

theorem replays_initChild (h : nest.Gives Text) {core : Writer Unit Unit} {phases : ℕ → Prop}
    {R : Writer (WriterOutlet ω) γ → Prop} (arg1 : ℕ) {root : GeneratorRoot}
    (hroot : nest.Serves Text root) :
    (outletSetting before).Replays (@Writer.Inside ω γ (WriterNest.Holds Text) core phases)
      (Writer.initChild (nest.generatorEnv canHold) arg1 root) (Writer.initChild nest.tapeEnv arg1 root)
      (fun w => Writer.Inside (WriterNest.Holds Text) core (· ≠ 0) w ∧ w.event.data2 = arg1) R := by
  refine (aside_initChild arg1 root).replays fun w hw hok => ?_
  rw [Writer.initChild] at hok ⊢
  cases hinit : (nest.generatorEnv canHold).childInit w.out root w.error with
  | error e =>
      rw [hinit] at hok
      exact absurd hok (h.fails hinit)
  | ok child =>
      obtain ⟨text, htext⟩ := hroot _ _ hinit
      exact ⟨⟨hw.core, Nat.one_ne_zero, fun c hc => ⟨text, Option.some.inj hc ▸ htext⟩⟩, rfl⟩

theorem replays_startChild (h : nest.Gives Text) (hold : ∀ n, canHold n = true)
    {core : Writer Unit Unit} (arg1 : ℕ) {root : GeneratorRoot} (hroot : nest.Serves Text root) :
    (outletSetting before).Replays (@Writer.Inside ω γ (WriterNest.Holds Text) core fun _ => True)
      (Writer.startChild (nest.generatorEnv canHold) arg1 root)
      (Writer.startChild nest.tapeEnv arg1 root)
      (fun w => Writer.Inside (WriterNest.Holds Text) core (· ≠ 0) w ∧ w.event.data2 = arg1)
      (Writer.Inside (WriterNest.Holds Text) core fun _ => True) := by
  refine Setting.Replays.ite (fun _ => Iff.rfl) ?_ ?_
  · have hinit := @replays_initChild ω γ nest canHold before Text h core (· = 0) (fun _ => False) arg1
      root hroot
    have hbegin := (@replays_beforeValue ω γ nest canHold before (WriterNest.Holds Text) core (· = 0)
      hold).andThen_firm (hinit.imp (fun _ hw => hw.2) (fun _ hw => hw) fun _ hw => hw)
    exact hbegin.imp (fun w hw => ⟨hw.1.core, hw.2, hw.1.child⟩) (fun _ hw => hw)
      fun w hw => ⟨⟨hw.core, trivial, hw.child⟩, hw.phase⟩
  · have hcheck : @Aside ω γ
        (fun w => w.check (w.event.data2 ≠ arg1)
          "active writer event must be resumed with the same arguments" .invalidArgument)
        (fun b => b.check (b.event.data2 ≠ arg1)
          "active writer event must be resumed with the same arguments" .invalidArgument) :=
      aside_check _ _ fun _ _ => rfl
    refine hcheck.replays fun w hw hok => ?_
    rw [Writer.check] at hok ⊢
    split_ifs at hok ⊢ with hbad
    · cases hok
    · exact ⟨⟨hw.1.core, hw.2, hw.1.child⟩, by simpa using hbad⟩

/-- `lonejson__writer_child_event`. -/
theorem resumes_childEvent (h : nest.Gives Text) (hold : ∀ n, canHold n = true) (arg0 : Address)
    (arg1 tag : ℕ) {root : GeneratorRoot} (hroot : nest.Serves Text root) :
    Resumes before (WriterNest.Holds Text)
      (fun w : Writer (WriterOutlet ω) γ =>
        w.childEvent (nest.generatorEnv canHold) arg0 arg1 tag root)
      (fun b => b.childEvent nest.tapeEnv arg0 arg1 tag root) := by
  refine (enters_beginEvent (by decide) arg0 tag).replays fun core => ?_
  refine (replays_startChild h hold arg1 hroot).andThen (replays_childRest h hold arg1)
    (fun _ hw => hw) fun _ w _ _ hw => ⟨⟨hw.1.core, trivial, hw.1.child⟩, ?_⟩
  have hphase : (w.taped before).event.phase ≠ 0 := hw.1.phase
  have hdata : (w.taped before).event.data2 = arg1 := hw.2
  change (w.taped before).startChild nest.tapeEnv arg1 root = (w.taped before, .ok)
  rw [Writer.startChild, if_neg hphase, hdata]
  simp [Writer.check]

end

end Lonejson
