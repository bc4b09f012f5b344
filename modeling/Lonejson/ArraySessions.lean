import Lonejson.Polling

/-!
# Sessions of an array stream

A session calls an array stream until the end, again where it would block. Its turns poll the reader:
what does not read sees neither the source nor the buffer.
-/

namespace Lonejson

open StateTransition

variable {π ω : Type}

/-! ## What does not read -/

/-- Where the bytes of a stream come from. -/
structure ArrayInput where
  source : ArraySource
  buffered : Bytes
  taken : Bytes

def ArrayStream.input (s : ArrayStream π ω) : ArrayInput := ⟨s.source, s.buffered, s.taken⟩

def ArrayStream.withInput (s : ArrayStream π ω) (i : ArrayInput) : ArrayStream π ω :=
  { s with source := i.source, buffered := i.buffered, taken := i.taken }

section

variable (items : ItemParser π ω) (target : ItemTarget) (s : ArrayStream π ω) (i : ArrayInput)

theorem keyAppend_withInput (data : Bytes) :
    (s.withInput i).keyAppend data = ((s.keyAppend data).1.withInput i, (s.keyAppend data).2) := by
  have hkey : (s.withInput i).key = s.key := rfl
  rw [ArrayStream.keyAppend, ArrayStream.keyAppend, hkey]
  cases byteAppend s.key data (sizeMax - 1) <;> rfl

theorem keyCodepointEnd_withInput (cp : ℕ) : (s.withInput i).keyCodepointEnd cp =
    ((s.keyCodepointEnd cp).1.withInput i, (s.keyCodepointEnd cp).2) := by
  rw [ArrayStream.keyCodepointEnd, ArrayStream.keyCodepointEnd]
  cases utf8Encode cp with
  | none => rfl
  | some utf8 =>
      dsimp only
      rw [keyAppend_withInput]
      generalize s.keyAppend utf8 = r
      obtain ⟨s, turn⟩ := r
      cases turn <;> rfl

theorem keyQuad_withInput (cp : ℕ) :
    (s.withInput i).keyQuad cp = ((s.keyQuad cp).1.withInput i, (s.keyQuad cp).2) := by
  have hphase : (s.withInput i).keyPhase = s.keyPhase := rfl
  have hhigh : (s.withInput i).keyHighSurrogate = s.keyHighSurrogate := rfl
  rw [ArrayStream.keyQuad, ArrayStream.keyQuad, hphase, hhigh]
  split_ifs
  · rfl
  · rfl
  · rfl
  · exact keyCodepointEnd_withInput { s with keyHighSurrogate := 0 } i
      (combineSurrogates s.keyHighSurrogate cp)
  · exact keyCodepointEnd_withInput s i cp

theorem keyByte_withInput (ch : Byte) :
    (s.withInput i).keyByte ch = ((s.keyByte ch).1.withInput i, (s.keyByte ch).2) := by
  have hphase : (s.withInput i).keyPhase = s.keyPhase := rfl
  have hcode : (s.withInput i).keyCodepoint = s.keyCodepoint := rfl
  have hneeded : (s.withInput i).keyDigitsNeeded = s.keyDigitsNeeded := rfl
  rw [ArrayStream.keyByte, ArrayStream.keyByte, hphase, hcode, hneeded]
  cases s.keyPhase with
  | idle => rfl
  | body =>
      dsimp only
      split_ifs
      · rfl
      · rfl
      · rfl
      · exact keyAppend_withInput s i [ch]
  | escape =>
      dsimp only
      split_ifs
      · rfl
      · cases simpleEscape ch with
        | none => rfl
        | some decoded => exact keyAppend_withInput { s with keyPhase := .body } i [decoded]
  | unicode =>
      cases hexValue ch with
      | none => rfl
      | some hv =>
          dsimp only
          split_ifs
          · rfl
          · exact keyQuad_withInput { s with
              keyPhase := .unicode
              keyCodepoint := pushHex s.keyCodepoint hv
              keyDigitsNeeded := s.keyDigitsNeeded - 1 } i (pushHex s.keyCodepoint hv)
  | surrogateLow =>
      cases hexValue ch with
      | none => rfl
      | some hv =>
          dsimp only
          split_ifs
          · rfl
          · exact keyQuad_withInput { s with
              keyPhase := .surrogateLow
              keyCodepoint := pushHex s.keyCodepoint hv
              keyDigitsNeeded := s.keyDigitsNeeded - 1 } i (pushHex s.keyCodepoint hv)
  | surrogateSlash =>
      dsimp only
      split_ifs <;> rfl
  | surrogateU =>
      dsimp only
      split_ifs <;> rfl

theorem noteRootKey_withInput :
    (s.withInput i).noteRootKey = (s.noteRootKey.1.withInput i, s.noteRootKey.2) := by
  have hkeys : (s.withInput i).rootKeys = s.rootKeys := rfl
  have hkey : (s.withInput i).key = s.key := rfl
  have hreject : (s.withInput i).rejectDuplicateKeys = s.rejectDuplicateKeys := rfl
  rw [ArrayStream.noteRootKey, ArrayStream.noteRootKey, hkeys, hkey, hreject]
  split_ifs
  · rfl
  · cases searchKeys s.key (s.rootKeys.length + 1) s.rootKeys <;> rfl

theorem keyDone_withInput : (s.withInput i).keyDone = (s.keyDone.1.withInput i, s.keyDone.2) := by
  rw [ArrayStream.keyDone, ArrayStream.keyDone, noteRootKey_withInput]
  generalize s.noteRootKey = r
  obtain ⟨s, noted⟩ := r
  cases noted <;> rfl

theorem objectEnd_withInput :
    (s.withInput i).objectEnd = (s.objectEnd.1.withInput i, s.objectEnd.2) := by
  have hseen : (s.withInput i).selectedSeen = s.selectedSeen := rfl
  rw [ArrayStream.objectEnd, ArrayStream.objectEnd, hseen]
  split_ifs <;> rfl

theorem parserError_withInput (p : π) (status : Status) :
    (s.withInput i).parserError items p status = (s.parserError items p status).withInput i := by
  have herror : (s.withInput i).error = s.error := rfl
  rw [ArrayStream.parserError, ArrayStream.parserError, herror]
  split_ifs <;> rfl

theorem finishValue_withInput (p : π) : (s.withInput i).finishValue items p =
    ((s.finishValue items p).1.withInput i, (s.finishValue items p).2) := by
  rw [ArrayStream.finishValue, ArrayStream.finishValue]
  dsimp only
  split_ifs
  · rfl
  · have herror := parserError_withInput items { s with parser := some (items.finish p).1 } i
      (items.finish p).1 (items.finish p).2
    exact congrArg (fun s => (ArrayStream.clearValue items s, (items.finish p).2)) herror

theorem startValue_withInput : (s.withInput i).startValue items target =
    ((s.startValue items target).1.withInput i, (s.startValue items target).2) := by
  have hactive : (s.withInput i).active = s.active := rfl
  have hparser : (s.withInput i).parser = s.parser := rfl
  rw [ArrayStream.startValue, ArrayStream.startValue, hactive, hparser]
  cases s.active with
  | some t =>
      dsimp only
      split_ifs <;> rfl
  | none =>
      dsimp only
      split_ifs <;> rfl

theorem deliver_withInput (bytes : Bytes) : (s.withInput i).deliver items target bytes =
    ((s.deliver items target bytes).1.withInput i, (s.deliver items target bytes).2) := by
  have hitem : (s.withInput i).item = s.item := rfl
  have huser : (s.withInput i).user = s.user := rfl
  rw [ArrayStream.deliver, ArrayStream.deliver, hitem, huser]
  cases target.mode with
  | raw => cases byteAppend s.item bytes (sizeMax - 1) <;> rfl
  | sink =>
      dsimp only
      split_ifs <;> rfl
  | skip => rfl
  | mapped => rfl
  | string => rfl

theorem afterFeed_withInput (p : π) (status : Status) (consumed : ℕ) :
    (s.withInput i).afterFeed items p status consumed =
      ((s.afterFeed items p status consumed).1.withInput i,
        (s.afterFeed items p status consumed).2) := by
  rw [ArrayStream.afterFeed, ArrayStream.afterFeed, parserError_withInput, finishValue_withInput]
  split_ifs <;> rfl

theorem feedPushback_withInput (p : π) (ch : Byte) : (s.withInput i).feedPushback items target p ch =
    ((s.feedPushback items target p ch).1.withInput i, (s.feedPushback items target p ch).2) := by
  rw [ArrayStream.feedPushback, ArrayStream.feedPushback]
  dsimp only
  split_ifs
  · have hdeliver := deliver_withInput items target
      { s with pushback := none, parser := some (items.feed p [ch]).1.1 } i [ch]
    erw [hdeliver]
    generalize ArrayStream.deliver items target _ [ch] = r
    obtain ⟨s', status⟩ := r
    cases status with
    | some status => rfl
    | none => exact afterFeed_withInput items (s'.advance [ch]) i _ _ _
  · exact afterFeed_withInput items
      { s with pushback := some ch, parser := some (items.feed p [ch]).1.1 } i _ _ _

end

/-! ## What goes on -/

/-- What a call looks at that goes on. -/
def ArrayStream.gait (s : ArrayStream π ω) : ArrayStatus × Bool := (s.status, s.wouldBlock)

/-- The parser of an element and the sinks fail with hard errors only. -/
structure ItemParser.Firm (items : ItemParser π ω) : Prop where
  start : ∀ p target, (items.start p target).2 ≠ .truncated
  sink : ∀ address user bytes, (items.sink address user bytes).2 ≠ .truncated

/-- Without a hard error the call goes on. -/
def GoesOn (s : ArrayStream π ω) (r : ArrayStream π ω × Option Status) : Prop :=
  (∀ status ∈ r.2, status.soft = true) → r.1.gait = s.gait

section

variable {items : ItemParser π ω} {target : ItemTarget} {s : ArrayStream π ω}

theorem keyAppend_gait (data : Bytes) (h : (s.keyAppend data).2 ≠ .error) :
    (s.keyAppend data).1.gait = s.gait := by
  rw [ArrayStream.keyAppend] at h ⊢
  cases hdata : byteAppend s.key data (sizeMax - 1) with
  | ok key => rfl
  | error message =>
      rw [hdata] at h
      exact absurd rfl h

theorem keyCodepointEnd_gait (cp : ℕ) (h : (s.keyCodepointEnd cp).2 ≠ .error) :
    (s.keyCodepointEnd cp).1.gait = s.gait := by
  rw [ArrayStream.keyCodepointEnd] at h ⊢
  cases hutf8 : utf8Encode cp with
  | none =>
      rw [hutf8] at h
      exact absurd rfl h
  | some utf8 =>
      rw [hutf8] at h
      dsimp only at h ⊢
      have happend := keyAppend_gait (s := s) utf8
      generalize s.keyAppend utf8 = r at h happend ⊢
      obtain ⟨s', turn⟩ := r
      cases turn with
      | more => exact happend nofun
      | complete => exact happend nofun
      | error => exact absurd rfl h

theorem keyQuad_gait (cp : ℕ) (h : (s.keyQuad cp).2 ≠ .error) :
    (s.keyQuad cp).1.gait = s.gait := by
  rw [ArrayStream.keyQuad] at h ⊢
  split_ifs at h ⊢
  · rfl
  · exact absurd rfl h
  · exact absurd rfl h
  · exact keyCodepointEnd_gait (s := { s with keyHighSurrogate := 0 }) _ h
  · exact keyCodepointEnd_gait cp h

theorem keyByte_gait (ch : Byte) (h : (s.keyByte ch).2 ≠ .error) :
    (s.keyByte ch).1.gait = s.gait := by
  have hquad (phase : KeyPhase) (cp needed : ℕ) (hs : s.keyPhase = phase) := keyQuad_gait (s := {
    s with keyPhase := phase, keyCodepoint := cp, keyDigitsNeeded := needed }) cp
  rw [ArrayStream.keyByte] at h ⊢
  cases hphase : s.keyPhase with
  | idle =>
      rw [hphase] at h
      exact absurd rfl h
  | body =>
      rw [hphase] at h
      dsimp only at h ⊢
      split_ifs at h ⊢
      · rfl
      · exact absurd rfl h
      · rfl
      · exact keyAppend_gait [ch] h
  | escape =>
      rw [hphase] at h
      dsimp only at h ⊢
      split_ifs at h ⊢
      · rfl
      · cases hescape : simpleEscape ch with
        | none =>
            rw [hescape] at h
            exact absurd rfl h
        | some decoded =>
            rw [hescape] at h
            exact keyAppend_gait (s := { s with keyPhase := .body }) [decoded] h
  | unicode =>
      rw [hphase] at h
      cases hhex : hexValue ch with
      | none =>
          rw [hhex] at h
          exact absurd rfl h
      | some hv =>
          rw [hhex] at h
          dsimp only at h ⊢
          split_ifs at h ⊢
          · rfl
          · exact hquad .unicode _ _ hphase h
  | surrogateLow =>
      rw [hphase] at h
      cases hhex : hexValue ch with
      | none =>
          rw [hhex] at h
          exact absurd rfl h
      | some hv =>
          rw [hhex] at h
          dsimp only at h ⊢
          split_ifs at h ⊢
          · rfl
          · exact hquad .surrogateLow _ _ hphase h
  | surrogateSlash =>
      rw [hphase] at h
      dsimp only at h ⊢
      split_ifs at h ⊢
      · exact absurd rfl h
      · rfl
  | surrogateU =>
      rw [hphase] at h
      dsimp only at h ⊢
      split_ifs at h ⊢
      · exact absurd rfl h
      · rfl

theorem keyDone_goesOn : s.keyDone.2 ≠ some .wouldBlock ∧ (s.keyDone.2 = none →
    s.keyDone.1.gait = s.gait) := by
  have hnote : s.noteRootKey.2 = true → s.noteRootKey.1.gait = s.gait := by
    rw [ArrayStream.noteRootKey]
    split_ifs
    · exact fun _ => rfl
    · cases searchKeys s.key (s.rootKeys.length + 1) s.rootKeys with
      | found => exact nofun
      | corrupt => exact nofun
      | absent => exact fun _ => rfl
  rw [ArrayStream.keyDone]
  generalize s.noteRootKey = r at hnote ⊢
  obtain ⟨s', noted⟩ := r
  cases noted with
  | false => exact ⟨nofun, nofun⟩
  | true => exact ⟨nofun, fun _ => hnote rfl⟩

theorem objectEnd_goesOn : s.objectEnd.2 ≠ some .wouldBlock ∧ (s.objectEnd.2 = none →
    s.objectEnd.1.gait = s.gait) := by
  rw [ArrayStream.objectEnd]
  split_ifs
  · exact ⟨nofun, nofun⟩
  · exact ⟨nofun, fun _ => rfl⟩

theorem finishValue_goesOn (p : π) :
    GoesOn s ((s.finishValue items p).1, some (s.finishValue items p).2) := by
  intro hsoft
  have hsoft := hsoft _ rfl
  rw [ArrayStream.finishValue] at hsoft ⊢
  dsimp only at hsoft ⊢
  split_ifs at hsoft ⊢ with hstatus
  · rfl
  · exact absurd hsoft hstatus

theorem startValue_goesOn (hfirm : items.Firm) : GoesOn s (s.startValue items target) := by
  intro hsoft
  rw [ArrayStream.startValue] at hsoft ⊢
  cases hactive : s.active with
  | some t =>
      rw [hactive] at hsoft
      dsimp only at hsoft ⊢
      split_ifs at hsoft ⊢
      · rfl
      · exact absurd (hsoft _ rfl) nofun
  | none =>
      rw [hactive] at hsoft
      dsimp only at hsoft ⊢
      by_cases hok : (items.start s.parser target).2 = .ok
      · rw [if_pos hok]
        rfl
      · rw [if_neg hok] at hsoft
        have hstart := hfirm.start s.parser target
        have hsoft := hsoft _ rfl
        rw [Status.soft, Bool.or_eq_true, beq_iff_eq, beq_iff_eq] at hsoft
        exact absurd hsoft (not_or.mpr ⟨hok, hstart⟩)

theorem deliver_goesOn (hfirm : items.Firm) (bytes : Bytes) :
    GoesOn s (s.deliver items target bytes) := by
  intro hsoft
  rw [ArrayStream.deliver] at hsoft ⊢
  cases hmode : target.mode with
  | raw =>
      rw [hmode] at hsoft
      dsimp only at hsoft ⊢
      generalize byteAppend s.item bytes (sizeMax - 1) = r at hsoft ⊢
      cases r with
      | ok item => rfl
      | error message => exact absurd (hsoft _ rfl) nofun
  | sink =>
      rw [hmode] at hsoft
      dsimp only at hsoft ⊢
      split_ifs at hsoft ⊢ with hok
      · rfl
      · have hsink := hfirm.sink target.sink s.user bytes
        have hsoft := hsoft _ rfl
        rw [Status.soft, Bool.or_eq_true, beq_iff_eq, beq_iff_eq] at hsoft
        exact absurd hsoft (not_or.mpr ⟨hok, hsink⟩)
  | skip => rfl
  | mapped => rfl
  | string => rfl

theorem afterFeed_goesOn (p : π) (status : Status) (consumed : ℕ) :
    GoesOn s (s.afterFeed items p status consumed) := by
  have hfinish := @finishValue_goesOn _ _ items s p
  intro hsoft
  rw [ArrayStream.afterFeed] at hsoft ⊢
  split_ifs at hsoft ⊢ with hhard
  · rw [Bool.not_eq_true', Bool.eq_false_iff] at hhard
    exact absurd (hsoft _ rfl) hhard
  · exact hfinish hsoft
  · exact absurd (hsoft _ rfl) nofun
  · rfl

/-- Bytes that have been delivered, and what comes behind. -/
theorem delivered_goesOn {bytes : Bytes} {k : ArrayStream π ω → ArrayStream π ω × Option Status}
    {s' : ArrayStream π ω} (hsame : s'.gait = s.gait) (hfirm : items.Firm) (hk : ∀ s, GoesOn s (k s)) :
    GoesOn s (match s'.deliver items target bytes with
      | (s, some status) => (s, some status)
      | (s, none) => k s) := by
  have hdeliver := @deliver_goesOn _ _ _ target s' hfirm bytes
  generalize s'.deliver items target bytes = r at hdeliver ⊢
  obtain ⟨s'', status⟩ := r
  cases status with
  | some status => exact fun hsoft => (hdeliver hsoft).trans hsame
  | none => exact fun hsoft => ((hk s'' hsoft).trans (hdeliver nofun)).trans hsame

theorem feedPushback_goesOn (hfirm : items.Firm) (p : π) (ch : Byte) :
    GoesOn s (s.feedPushback items target p ch) := by
  rw [ArrayStream.feedPushback]
  dsimp only
  split_ifs
  · refine delivered_goesOn (by rfl) hfirm fun s => ?_
    exact afterFeed_goesOn (s := s.advance [ch]) _ _ _
  · exact afterFeed_goesOn (s := { s with
      pushback := some ch, parser := some (items.feed p [ch]).1.1 }) _ _ _

theorem feedBuffered_goesOn (hfirm : items.Firm) (p : π) :
    GoesOn s (s.feedBuffered items target p) := by
  rw [ArrayStream.feedBuffered]
  dsimp only
  generalize items.feed p (s.buffered.take (feedLen items p s.buffered)) = r
  split_ifs
  · refine delivered_goesOn (by rfl) hfirm fun s' => ?_
    exact afterFeed_goesOn (s := (s'.advance _).take _) _ _ _
  · exact afterFeed_goesOn (s := { s with parser := some r.1.1 }) _ _ _

/-- What comes behind a value, when the source has not blocked. -/
theorem afterValue_goesOn {r : ArrayStream π ω × Option Status}
    {k : ArrayStream π ω → ArrayStream π ω} (hk : ∀ s, (k s).gait = s.gait)
    (hfree : s.wouldBlock = false) (h : GoesOn s r) :
    (ArrayStream.afterValue r k).2 ≠ some .wouldBlock ∧
      ((ArrayStream.afterValue r k).2 = none → (ArrayStream.afterValue r k).1.gait = s.gait) := by
  obtain ⟨s', status⟩ := r
  cases status with
  | none => exact ⟨nofun, fun _ => h nofun⟩
  | some status =>
      rw [ArrayStream.afterValue.eq_def]
      dsimp only
      by_cases hsoft : status.soft = true
      · have hgait : s'.gait = s.gait := h fun _ hstatus => by
          injection hstatus with hstatus
          exact hstatus ▸ hsoft
        have hfree' : s'.wouldBlock = false := (congrArg Prod.snd hgait).trans hfree
        rw [hsoft, hfree']
        exact ⟨nofun, fun _ => (hk s').trans hgait⟩
      · rw [Bool.eq_false_iff.mpr hsoft]
        exact ⟨nofun, nofun⟩

end

/-! ## Turns -/

/-- The same stream, before these results. -/
def ArrayStream.withScript (script : List ReadResult) (s : ArrayStream π ω) : ArrayStream π ω :=
  { s with source := .reader script }

/-- The bytes that a stream has got. -/
def ArrayStream.held (s : ArrayStream π ω) : Bytes := s.taken ++ s.buffered

/-- A call that is running. -/
def ArrayStream.Going (s : ArrayStream π ω) : Prop := s.status = .running ∧ s.wouldBlock = false

theorem ArrayStream.Going.of_gait {s t : ArrayStream π ω} (h : s.Going) (hgait : t.gait = s.gait) :
    t.Going :=
  ⟨(congrArg Prod.fst hgait).trans h.1, (congrArg Prod.snd hgait).trans h.2⟩

/-- What a turn goes by. -/
def ArrayStream.place (s : ArrayStream π ω) :
    ArrayPhase × Bool × KeyPhase × Option ItemTarget × Bool :=
  (s.phase, s.currentKeyMatched, s.keyPhase, s.pending, s.phase = .arrayValueOrEnd && s.active.isSome)

/-- A turn against the results that are left: it reads nothing, or it goes on with what a refill loop
has got. -/
inductive Turned (firm : Prop) (f : ArrayStream π ω → ArrayStream π ω × Option ArrayResult)
    (s : ArrayStream π ω) : Prop
  | still (r : ArrayStream π ω × Option ArrayResult) (held : r.1.held = s.held)
      (goes : firm → s.Going → r.2 ≠ some .wouldBlock ∧ (r.2 = none → r.1.Going))
      (next : ∀ script, f (s.withScript script) = (r.1.withScript script, r.2))
  | reads (fed : Refill → ArrayStream π ω × Option ArrayResult)
      (held : ∀ r, (fed r).1.held = s.held ++ r.got)
      (goes : firm → s.Going → ∀ r ≠ .blocked,
        (fed r).2 ≠ some .wouldBlock ∧ ((fed r).2 = none → (fed r).1.Going))
      (blocked : firm → s.Going →
        (fed .blocked).2 = some .wouldBlock ∧ (fed .blocked).1.status = .running)
      (place : (fed .blocked).1.place = s.place)
      (resume : firm → s.Going → ∀ script,
        f (({ (fed .blocked).1 with wouldBlock := false } : ArrayStream π ω).withScript script) =
          f (s.withScript script))
      (next : ∀ script, f (s.withScript script) =
        ((fed (readScript script).1).1.withScript (readScript script).2,
          (fed (readScript script).1).2))

theorem Turned.congr {firm : Prop} {f g : ArrayStream π ω → ArrayStream π ω × Option ArrayResult}
    {s : ArrayStream π ω} (h : ∀ t : ArrayStream π ω, t.place = s.place → f t = g t)
    (hg : Turned firm g s) : Turned firm f s := by
  cases hg with
  | still r hheld hgoes hnext =>
      exact .still r hheld hgoes fun script => (h (s.withScript script) rfl).trans (hnext script)
  | reads fed hheld hgoes hblocked hplace hresume hnext =>
      refine .reads fed hheld hgoes hblocked hplace (fun hfirm hs script => ?_) fun script =>
        (h (s.withScript script) rfl).trans (hnext script)
      have hback := hresume hfirm hs script
      rw [← h (s.withScript script) rfl] at hback
      refine (h (ArrayStream.withScript script _) ?_).trans hback
      exact hplace

/-- An operation that neither sees the input of a stream nor changes it. -/
def Inward {ρ : Type} (f : ArrayStream π ω → ArrayStream π ω × ρ) : Prop :=
  ∀ s i, f (s.withInput i) = ((f s).1.withInput i, (f s).2)

theorem Inward.input {ρ : Type} {f : ArrayStream π ω → ArrayStream π ω × ρ} (h : Inward f)
    (s : ArrayStream π ω) : (f s).1.input = s.input := by
  have hsame : f s = ((f s).1.withInput s.input, (f s).2) := h s s.input
  exact congrArg (fun r => ArrayStream.input r.1) hsame

theorem Inward.held {ρ : Type} {f : ArrayStream π ω → ArrayStream π ω × ρ} (h : Inward f)
    (s : ArrayStream π ω) : (f s).1.held = s.held :=
  congrArg (fun i : ArrayInput => i.taken ++ i.buffered) (h.input s)

theorem Inward.withScript {ρ : Type} {f : ArrayStream π ω → ArrayStream π ω × ρ} (h : Inward f)
    (script : List ReadResult) (s : ArrayStream π ω) :
    f (s.withScript script) = ((f s).1.withScript script, (f s).2) := by
  have hinput := h.input s
  have hbuffered : (f s).1.buffered = s.buffered := congrArg ArrayInput.buffered hinput
  have htaken : (f s).1.taken = s.taken := congrArg ArrayInput.taken hinput
  refine (h s ⟨.reader script, s.buffered, s.taken⟩).trans (Prod.ext ?_ rfl)
  rw [ArrayStream.withInput, ArrayStream.withScript, ← hbuffered, ← htaken]

theorem refill_withScript (script : List ReadResult) {s : ArrayStream π ω} {ch : Byte} {rest : Bytes}
    (h : s.buffered = ch :: rest) :
    (s.withScript script).refill = (s.withScript script, .bytes s.buffered) := by
  have hbuffered : (s.withScript script).buffered = ch :: rest := h
  rw [ArrayStream.refill, hbuffered, h]

/-- What a refill loop has got for an empty buffer. -/
def ArrayStream.fed (s : ArrayStream π ω) : Refill → ArrayStream π ω × Refill
  | .bytes chunk => ({ s with buffered := chunk }, .bytes chunk)
  | .failed errno =>
    (ArrayStream.setError { s with error := { s.error with errno } } .ioError
      "array stream read failed", .failed errno)
  | .blocked => ({ s with wouldBlock := true }, .blocked)
  | .ended => (s, .ended)

theorem refill_fed (script : List ReadResult) {s : ArrayStream π ω} (h : s.buffered = []) :
    (s.withScript script).refill =
      ((s.fed (readScript script).1).1.withScript (readScript script).2, (readScript script).1) := by
  have hbuffered : (s.withScript script).buffered = [] := h
  have hsource : (s.withScript script).source.refill =
    ((readScript script).1, .reader (readScript script).2) := rfl
  rw [ArrayStream.refill]
  split
  · rw [hsource]
    cases (readScript script).1 <;> rfl
  · next heq =>
    rw [hbuffered] at heq
    cases heq

theorem fed_held {s : ArrayStream π ω} (h : s.buffered = []) (r : Refill) :
    (s.fed r).1.held = s.held ++ r.got := by
  rw [ArrayStream.held, ArrayStream.held, h, List.append_nil]
  cases r with
  | bytes chunk => rfl
  | failed errno => exact congrArg (s.taken ++ ·) h
  | blocked => exact congrArg (s.taken ++ ·) h
  | ended => exact congrArg (s.taken ++ ·) h

/-- What `getc` does with what a refill loop has got. -/
def ArrayStream.got (s : ArrayStream π ω) (r : Refill) : ArrayStream π ω × Got :=
  match s.fed r with
  | (s, .bytes _) =>
    match s.buffered with
    | ch :: _ => ((s.take 1).advance [ch], .byte ch)
    | [] => (s, .eof)
  | (s, .ended) => (s, .eof)
  | (s, _) => (s, .stop)

theorem take_held (s : ArrayStream π ω) (n : ℕ) : (s.take n).held = s.held := by
  rw [ArrayStream.held, ArrayStream.take, List.append_assoc, List.take_append_drop]
  rfl

theorem got_held {s : ArrayStream π ω} (h : s.buffered = []) (r : Refill) :
    (s.got r).1.held = s.held ++ r.got := by
  rw [← fed_held h, ArrayStream.got]
  cases r with
  | bytes chunk =>
      cases chunk with
      | nil => rfl
      | cons ch rest => exact take_held { s with buffered := ch :: rest } 1
  | failed errno => rfl
  | blocked => rfl
  | ended => rfl

/-- A turn that begins with a byte. -/
theorem getc_turned {firm : Prop} {s : ArrayStream π ω}
    {f : ArrayStream π ω → ArrayStream π ω × Option ArrayResult}
    {k : Got → ArrayStream π ω → ArrayStream π ω × Option ArrayResult}
    (hf : ∀ s, f s = k s.getc.2 s.getc.1) (hstop : ∀ s, k .stop s = s.stopped)
    (hin : ∀ got, Inward (k got))
    (hgoes : ∀ got ≠ .stop, ∀ s, firm → s.Going →
      (k got s).2 ≠ some .wouldBlock ∧ ((k got s).2 = none → (k got s).1.gait = s.gait)) :
    Turned firm f s := by
  have hgoing : ∀ got ≠ .stop, ∀ {s t : ArrayStream π ω}, t.gait = s.gait → firm → s.Going →
      (k got t).2 ≠ some .wouldBlock ∧ ((k got t).2 = none → (k got t).1.Going) := by
    intro got hne s t hgait hfirm hgoing
    obtain ⟨hblock, hnone⟩ := hgoes got hne t hfirm (hgoing.of_gait hgait)
    exact ⟨hblock, fun heq => hgoing.of_gait ((hnone heq).trans hgait)⟩
  cases hpushback : s.pushback with
  | some ch =>
      have hget : ∀ script, (s.withScript script).getc =
          (ArrayStream.withScript script { s with pushback := none }, .byte ch) := by
        intro script
        have hheld : (s.withScript script).pushback = some ch := hpushback
        rw [ArrayStream.getc, hheld]
        rfl
      refine .still (k (.byte ch) { s with pushback := none }) ?_
        (hgoing (.byte ch) nofun (by rfl)) fun script => ?_
      · rw [(hin _).held]
        rfl
      · rw [hf, hget]
        exact (hin _).withScript script _
  | none =>
      cases hbuffered : s.buffered with
      | cons ch rest =>
          have hget : ∀ script, (s.withScript script).getc =
              (((s.take 1).advance [ch]).withScript script, .byte ch) := by
            intro script
            have hheld : (s.withScript script).pushback = none := hpushback
            have hfull : (s.withScript script).buffered = ch :: rest := hbuffered
            rw [ArrayStream.getc, hheld, refill_withScript script hbuffered]
            dsimp only
            rw [hfull]
            rfl
          refine .still (k (.byte ch) ((s.take 1).advance [ch])) ?_
            (hgoing (.byte ch) nofun (by rfl)) fun script => ?_
          · rw [(hin _).held]
            exact take_held s 1
          · rw [hf, hget]
            exact (hin _).withScript script _
      | nil =>
          have hget : ∀ script, (s.withScript script).getc =
              ((s.got (readScript script).1).1.withScript (readScript script).2,
                (s.got (readScript script).1).2) := by
            intro script
            have hheld : (s.withScript script).pushback = none := hpushback
            rw [ArrayStream.getc, hheld, refill_fed script hbuffered, ArrayStream.got]
            generalize (readScript script).2 = rest
            cases (readScript script).1 with
            | bytes chunk => cases chunk <;> rfl
            | failed errno => rfl
            | blocked => rfl
            | ended => rfl
          have hblockedGot : s.got .blocked = ({ s with wouldBlock := true }, .stop) := rfl
          refine .reads (fun r => k (s.got r).2 (s.got r).1) (fun r => ?_) (fun hfirm hs r hr => ?_)
            (fun _ hs => ?_) ?_ (fun _ hs script => ?_) fun script => ?_
          · rw [(hin _).held]
            exact got_held hbuffered r
          · cases r with
            | blocked => exact absurd rfl hr
            | ended => exact hgoing .eof nofun (by rfl) hfirm hs
            | failed errno =>
                have hstopped : k .stop (s.got (.failed errno)).1 =
                  ((s.got (.failed errno)).1, some .error) := by
                  rw [hstop, ArrayStream.stopped]
                  have hfree : (s.got (.failed errno)).1.wouldBlock = false := hs.2
                  rw [hfree]
                  rfl
                change (k .stop _).2 ≠ _ ∧ ((k .stop _).2 = none → _)
                rw [hstopped]
                exact ⟨nofun, nofun⟩
            | bytes chunk =>
                cases chunk with
                | nil => exact hgoing .eof nofun (by rfl) hfirm hs
                | cons ch rest => exact hgoing (.byte ch) nofun (by rfl) hfirm hs
          · rw [hblockedGot, hstop]
            exact ⟨rfl, hs.1⟩
          · rw [hblockedGot, hstop]
            rfl
          · dsimp only
            rw [hblockedGot, hstop]
            have hsame : ({ s with wouldBlock := false } : ArrayStream π ω) = s := by
              rw [← hs.2]
            exact congrArg (fun s => f (ArrayStream.withScript script s)) hsame
          · rw [hf, hget]
            exact (hin _).withScript _ _

/-! ## Elements -/

section

variable (items : ItemParser π ω) (target : ItemTarget)

/-- A value with bytes in the buffer. -/
def ArrayStream.valueBytes (s : ArrayStream π ω) (p : π) : ArrayStream π ω × Option Status :=
  if s.buffered.head?.any (endsNumber items p) then
    ((s.finishValue items p).1, some (s.finishValue items p).2)
  else s.feedBuffered items target p

/-- A value with what a refill loop has got. -/
def ArrayStream.valueGot (s : ArrayStream π ω) (p : π) (r : Refill) :
    ArrayStream π ω × Option Status :=
  match s.fed r with
  | (s, .failed _) => (s, some .ioError)
  | (s, .blocked) => (s, some .truncated)
  | (s, .ended) =>
    if items.lexMode p = .number then ((s.finishValue items p).1, some (s.finishValue items p).2)
    else (s.setError .invalidJson "unterminated JSON value", some .invalidJson)
  | (s, .bytes _) => s.valueBytes items target p

/-- An operation that does not see the source of a stream, and gets no bytes. -/
structure Still {ρ : Type} (f : ArrayStream π ω → ArrayStream π ω × ρ) (s : ArrayStream π ω) : Prop where
  held : (f s).1.held = s.held
  next : ∀ script, f (s.withScript script) = ((f s).1.withScript script, (f s).2)

variable {items target} {s : ArrayStream π ω}

theorem Inward.still {ρ : Type} {f : ArrayStream π ω → ArrayStream π ω × ρ} (h : Inward f) :
    Still f s :=
  ⟨h.held s, fun script => h.withScript script s⟩

theorem finishValue_inward (p : π) :
    Inward fun s : ArrayStream π ω => ((s.finishValue items p).1, some (s.finishValue items p).2) := by
  intro s i
  have hfinish := finishValue_withInput items s i p
  exact congrArg (fun r : ArrayStream π ω × Status => (r.1, some r.2)) hfinish

/-- Bytes that are delivered, and what comes behind. -/
theorem delivered_still {k : ArrayStream π ω → ArrayStream π ω × Option Status}
    (hk : ∀ s, Still k s) (bytes : Bytes) :
    Still (fun s => match s.deliver items target bytes with
      | (s, some status) => (s, some status)
      | (s, none) => k s) s := by
  have hdeliver : Inward fun s : ArrayStream π ω => s.deliver items target bytes :=
    fun s i => deliver_withInput items target s i bytes
  have hheld : (s.deliver items target bytes).1.held = s.held := hdeliver.held s
  have hnext : ∀ script, (s.withScript script).deliver items target bytes =
      ((s.deliver items target bytes).1.withScript script, (s.deliver items target bytes).2) :=
    fun script => hdeliver.withScript script s
  refine ⟨?_, fun script => ?_⟩
  · generalize s.deliver items target bytes = r at hheld ⊢
    obtain ⟨s', status⟩ := r
    cases status with
    | some status => exact hheld
    | none => exact ((hk s').held).trans hheld
  · rw [hnext script]
    generalize s.deliver items target bytes = r
    obtain ⟨s', status⟩ := r
    cases status with
    | some status => rfl
    | none => exact (hk s').next script

/-- Bytes of the buffer that are taken, and what comes behind. -/
theorem takenBytes_still (n : ℕ) (p : π) (status : Status) :
    Still (fun s => ((s.advance (s.buffered.take n)).take n).afterFeed items p status n) s := by
  have hfeed : Inward fun s : ArrayStream π ω => s.afterFeed items p status n :=
    fun s i => afterFeed_withInput items s i p status n
  refine ⟨(hfeed.held _).trans (take_held _ n), fun script => ?_⟩
  exact hfeed.withScript script ((s.advance (s.buffered.take n)).take n)

theorem feedBuffered_still (p : π) : Still (fun s => s.feedBuffered items target p) s := by
  generalize hfed : items.feed p (s.buffered.take (feedLen items p s.buffered)) = r
  have hall : ∀ script, items.feed p ((s.withScript script).buffered.take
      (feedLen items p (s.withScript script).buffered)) = r := fun _ => hfed
  by_cases hconsumed : r.2 ≠ 0
  · have hstill := @delivered_still _ _ items target { s with parser := some r.1.1 } _
      (fun s => @takenBytes_still _ _ items s r.2 r.1.1 (target.status r.1.2 r.2))
      (s.buffered.take r.2)
    refine ⟨?_, fun script => ?_⟩
    · simp only [ArrayStream.feedBuffered, hfed, if_pos hconsumed]
      exact hstill.held
    · simp only [ArrayStream.feedBuffered, hfed, hall, if_pos hconsumed]
      exact hstill.next script
  · have hfeed : Inward fun s : ArrayStream π ω => s.afterFeed items r.1.1 r.1.2 r.2 :=
      fun s i => afterFeed_withInput items s i r.1.1 r.1.2 r.2
    refine ⟨?_, fun script => ?_⟩
    · simp only [ArrayStream.feedBuffered, hfed, if_neg hconsumed]
      exact hfeed.held { s with parser := some r.1.1 }
    · simp only [ArrayStream.feedBuffered, hfed, hall, if_neg hconsumed]
      exact hfeed.withScript script { s with parser := some r.1.1 }

theorem valueBytes_still (p : π) : Still (fun s => s.valueBytes items target p) s := by
  have hends : ∀ script, (s.withScript script).buffered.head?.any (endsNumber items p) =
    s.buffered.head?.any (endsNumber items p) := fun _ => rfl
  by_cases h : s.buffered.head?.any (endsNumber items p) = true
  · have hstill := (@finishValue_inward π ω items p).still (s := s)
    refine ⟨?_, fun script => ?_⟩
    · simp only [ArrayStream.valueBytes, if_pos h]
      exact hstill.held
    · simp only [ArrayStream.valueBytes, hends, if_pos h]
      exact hstill.next script
  · have hstill := @feedBuffered_still _ _ items target s p
    refine ⟨?_, fun script => ?_⟩
    · simp only [ArrayStream.valueBytes, if_neg h]
      exact hstill.held
    · simp only [ArrayStream.valueBytes, hends, if_neg h]
      exact hstill.next script

theorem valueBytes_goesOn (hfirm : items.Firm) (p : π) :
    GoesOn s (s.valueBytes items target p) := by
  rw [ArrayStream.valueBytes]
  split_ifs
  · exact finishValue_goesOn p
  · exact feedBuffered_goesOn hfirm p

theorem valueGot_held (h : s.buffered = []) (p : π) (r : Refill) :
    (s.valueGot items target p r).1.held = s.held ++ r.got := by
  rw [← fed_held h, ArrayStream.valueGot]
  cases r with
  | bytes chunk => exact (valueBytes_still (s := { s with buffered := chunk }) p).held
  | failed errno => rfl
  | blocked => rfl
  | ended =>
      have hfinish := (@finishValue_inward π ω items p).still (s := s)
      have hfed : s.fed .ended = (s, .ended) := rfl
      rw [hfed]
      dsimp only
      split_ifs
      · exact hfinish.held
      · rfl

theorem valueGot_goesOn (hfirm : items.Firm) (p : π) {r : Refill} (hr : r ≠ .blocked) :
    GoesOn s (s.valueGot items target p r) := by
  cases r with
  | blocked => exact absurd rfl hr
  | bytes chunk =>
      exact valueBytes_goesOn (s := { s with buffered := chunk }) hfirm p
  | failed errno => exact fun hsoft => absurd (hsoft _ rfl) nofun
  | ended =>
      have hfinish := @finishValue_goesOn _ _ items s p
      rw [ArrayStream.valueGot, show s.fed .ended = (s, .ended) from rfl]
      dsimp only
      split_ifs
      · exact hfinish
      · exact fun hsoft => absurd (hsoft _ rfl) nofun

/-- A turn at a value against the results that are left. -/
theorem valueLoop_turned (p : π) :
    (∃ r, r.1.held = s.held ∧ (items.Firm → GoesOn s r) ∧
      ∀ script, (s.withScript script).valueLoop items target p = (r.1.withScript script, r.2)) ∨
    (s.buffered = [] ∧ ∀ script, (s.withScript script).valueLoop items target p =
      ((s.valueGot items target p (readScript script).1).1.withScript (readScript script).2,
        (s.valueGot items target p (readScript script).1).2)) := by
  have hfinish := (@finishValue_inward π ω items p).still (s := s)
  have hfinished := @finishValue_goesOn _ _ items s p
  by_cases hroot : items.rootComplete p = true
  · refine .inl ⟨_, hfinish.held, fun _ => hfinished, fun script => ?_⟩
    rw [ArrayStream.valueLoop]
    dsimp only
    rw [if_pos hroot]
    exact hfinish.next script
  cases hpushback : s.pushback with
  | some ch =>
      have hheld : ∀ script, (s.withScript script).pushback = some ch := fun _ => hpushback
      by_cases hends : endsNumber items p ch = true
      · refine .inl ⟨_, hfinish.held, fun _ => hfinished, fun script => ?_⟩
        rw [ArrayStream.valueLoop]
        dsimp only
        rw [if_neg hroot, hheld]
        dsimp only
        rw [if_pos hends]
        exact hfinish.next script
      · have hfeed : Inward fun s : ArrayStream π ω => s.feedPushback items target p ch :=
          fun s i => feedPushback_withInput items target s i p ch
        refine .inl ⟨_, hfeed.held s, fun hfirm => feedPushback_goesOn hfirm p ch, fun script => ?_⟩
        rw [ArrayStream.valueLoop]
        dsimp only
        rw [if_neg hroot, hheld]
        dsimp only
        rw [if_neg hends]
        exact hfeed.withScript script s
  | none =>
      have hheld : ∀ script, (s.withScript script).pushback = none := fun _ => hpushback
      cases hbuffered : s.buffered with
      | cons ch rest =>
          have hstill := @valueBytes_still _ _ items target s p
          refine .inl ⟨_, hstill.held, fun hfirm => valueBytes_goesOn hfirm p, fun script => ?_⟩
          rw [ArrayStream.valueLoop]
          dsimp only
          rw [if_neg hroot, hheld, refill_withScript script hbuffered]
          exact hstill.next script
      | nil =>
          refine .inr ⟨rfl, fun script => ?_⟩
          rw [ArrayStream.valueLoop]
          dsimp only
          rw [if_neg hroot, hheld, refill_fed script hbuffered]
          dsimp only
          generalize (readScript script).2 = rest
          cases (readScript script).1 with
          | bytes chunk =>
              exact (valueBytes_still (s := { s with buffered := chunk }) p).next rest
          | failed errno => rfl
          | blocked => rfl
          | ended =>
              rw [ArrayStream.valueGot, show s.fed .ended = (s, .ended) from rfl]
              dsimp only
              split_ifs
              · exact hfinish.next rest
              · rfl

theorem afterValue_map {u k : ArrayStream π ω → ArrayStream π ω}
    (hu : ∀ s, (u s).wouldBlock = s.wouldBlock) (hk : ∀ s, k (u s) = u (k s))
    (r : ArrayStream π ω × Option Status) : ArrayStream.afterValue (u r.1, r.2) k =
      (u (ArrayStream.afterValue r k).1, (ArrayStream.afterValue r k).2) := by
  obtain ⟨s, status⟩ := r
  cases status with
  | none => rfl
  | some status =>
      rw [ArrayStream.afterValue.eq_def, ArrayStream.afterValue.eq_def]
      dsimp only
      rw [hu, hk]
      split_ifs <;> rfl

theorem afterValue_held {k : ArrayStream π ω → ArrayStream π ω} (hk : ∀ s, (k s).held = s.held)
    (r : ArrayStream π ω × Option Status) : (ArrayStream.afterValue r k).1.held = r.1.held := by
  obtain ⟨s, status⟩ := r
  cases status with
  | none => rfl
  | some status =>
      rw [ArrayStream.afterValue.eq_def]
      dsimp only
      split_ifs
      · rfl
      · rfl
      · exact hk s

theorem startValue_place (hplace : s.phase = .arrayValueOrEnd → s.active.isSome = true) :
    (s.startValue items target).1.place = s.place := by
  rw [ArrayStream.startValue]
  cases hactive : s.active with
  | some t =>
      dsimp only
      split_ifs <;> rfl
  | none =>
      have hphase : decide (s.phase = .arrayValueOrEnd) = false := by
        refine decide_eq_false fun h => ?_
        rw [hactive] at hplace
        exact absurd (hplace h) nofun
      dsimp only
      split_ifs
      all_goals
        rw [ArrayStream.place, ArrayStream.place]
        dsimp only
        rw [hphase, Bool.false_and, Bool.false_and]

theorem startValue_active (h : (s.startValue items target).2 = none) :
    ∃ t, (s.startValue items target).1.active = some t ∧ t.same target = true := by
  have hsame : ∀ t : ItemTarget, t.same t = true := by
    intro t
    rw [ItemTarget.same, decide_eq_true rfl, decide_eq_true rfl, decide_eq_true rfl]
    rfl
  rw [ArrayStream.startValue] at h ⊢
  cases hactive : s.active with
  | some t =>
      rw [hactive] at h
      dsimp only at h ⊢
      split_ifs at h ⊢ with ht
      · exact ⟨t, hactive, ht⟩
  | none =>
      rw [hactive] at h
      dsimp only at h ⊢
      by_cases hok : (items.start s.parser target).2 = .ok
      · rw [if_pos hok]
        exact ⟨target, rfl, hsame target⟩
      · rw [if_neg hok] at h
        cases h

/-- The turns of an element. -/
theorem stepValue_turned {k : ArrayStream π ω → ArrayStream π ω}
    (hscript : ∀ script s, k (s.withScript script) = (k s).withScript script)
    (hheld : ∀ s, (k s).held = s.held) (hgait : ∀ s, (k s).gait = s.gait)
    (hplace : s.phase = .arrayValueOrEnd → s.active.isSome = true) :
    Turned items.Firm (fun s => ArrayStream.afterValue (s.stepValue items target) k) s := by
  have hstart : Inward fun s : ArrayStream π ω => s.startValue items target :=
    fun s i => startValue_withInput items target s i
  have hstarted (script) : (s.withScript script).startValue items target =
    ((s.startValue items target).1.withScript script, (s.startValue items target).2) :=
    hstart.withScript script s
  have hstartHeld : (s.startValue items target).1.held = s.held := hstart.held s
  have hstartGoes := @startValue_goesOn _ _ items target s
  -- a turn that reads nothing
  have hstill : ∀ r : ArrayStream π ω × Option Status, r.1.held = s.held →
      (items.Firm → GoesOn s r) →
      (∀ script, (s.withScript script).stepValue items target = (r.1.withScript script, r.2)) →
      Turned items.Firm (fun s => ArrayStream.afterValue (s.stepValue items target) k) s := by
    intro r hr hgoes hnext
    refine .still (ArrayStream.afterValue r k) ((afterValue_held hheld r).trans hr)
      (fun hfirm hs => ?_) fun script => ?_
    · obtain ⟨hblock, hnone⟩ := afterValue_goesOn hgait hs.2 (hgoes hfirm)
      exact ⟨hblock, fun heq => hs.of_gait (hnone heq)⟩
    · rw [hnext]
      exact afterValue_map (u := fun s => s.withScript script) (fun _ => rfl) (hscript script) r
  have hactive := @startValue_active _ _ items target s
  have hplaced := @startValue_place _ _ items target s hplace
  generalize hr : s.startValue items target = r at hstarted hstartHeld hstartGoes hactive hplaced
  obtain ⟨s', status⟩ := r
  cases status with
  | some status =>
      refine hstill (s', some status) hstartHeld hstartGoes fun script => ?_
      rw [ArrayStream.stepValue, hstarted]
  | none =>
      have hgait' : items.Firm → s'.gait = s.gait := fun hfirm => hstartGoes hfirm (fun _ h => by cases h)
      cases hparser : s'.parser with
      | none =>
          refine hstill (s', some .internalError) hstartHeld
            (fun _ hsoft => absurd (hsoft _ rfl) (fun h => by cases h)) fun script => ?_
          have hnone : (s'.withScript script).parser = none := hparser
          rw [ArrayStream.stepValue, hstarted]
          dsimp only
          rw [hnone]
      | some p =>
          have hloop (script) : (s.withScript script).stepValue items target =
              (s'.withScript script).valueLoop items (s'.active.getD target) p := by
            have hsome : (s'.withScript script).parser = some p := hparser
            rw [ArrayStream.stepValue, hstarted]
            dsimp only
            rw [hsome]
            rfl
          rcases @valueLoop_turned _ _ items (s'.active.getD target) s' p with
            ⟨r, hr', hgoes, hnext⟩ | ⟨hbuffered, hnext⟩
          · refine hstill r (hr'.trans hstartHeld)
              (fun hfirm hsoft => (hgoes hfirm hsoft).trans (hgait' hfirm)) fun script => ?_
            rw [hloop, hnext]
          · have hblocked : s'.valueGot items (s'.active.getD target) p .blocked =
              ({ s' with wouldBlock := true }, some .truncated) := rfl
            have hend : ArrayStream.afterValue
                (({ s' with wouldBlock := true } : ArrayStream π ω), some .truncated) k =
              ({ s' with wouldBlock := true }, some .wouldBlock) := rfl
            refine .reads (fun r =>
                ArrayStream.afterValue (s'.valueGot items (s'.active.getD target) p r) k)
              (fun r => ?_) (fun hfirm hs r hr => ?_) (fun hfirm hs => ?_) ?_
              (fun hfirm hs script => ?_) fun script => ?_
            · rw [afterValue_held hheld, valueGot_held hbuffered, hstartHeld]
            · have hgoing : s'.Going := hs.of_gait (hgait' hfirm)
              obtain ⟨hblock, hnone⟩ :=
                afterValue_goesOn hgait hgoing.2 (valueGot_goesOn hfirm p hr)
              exact ⟨hblock, fun heq => hgoing.of_gait (hnone heq)⟩
            · have hgoing : s'.Going := hs.of_gait (hgait' hfirm)
              rw [hblocked, hend]
              exact ⟨rfl, hgoing.1⟩
            · rw [hblocked, hend]
              exact hplaced
            · have hgoing : s'.Going := hs.of_gait (hgait' hfirm)
              rw [hblocked, hend]
              have hback : ({ ({ s' with wouldBlock := true } : ArrayStream π ω) with
                  wouldBlock := false } : ArrayStream π ω) = s' := by
                have hfree := hgoing.2
                cases s'
                cases hfree
                rfl
              obtain ⟨t, ht, hsame⟩ := hactive rfl
              have hagain : (s'.withScript script).startValue items target =
                  (s'.withScript script, none) := by
                have ht' : (s'.withScript script).active = some t := ht
                rw [ArrayStream.startValue, ht']
                dsimp only
                rw [if_pos hsame]
              dsimp only
              rw [hback, hloop, ArrayStream.stepValue, hagain]
              dsimp only
              have hsome : (s'.withScript script).parser = some p := hparser
              rw [hsome]
              rfl
            · rw [hloop, hnext]
              exact afterValue_map (u := fun s => s.withScript (readScript script).2) (fun _ => rfl)
                (hscript _) _

end

/-! ## Phases -/

section

variable {items : ItemParser π ω} {target : ItemTarget} {s : ArrayStream π ω} {firm : Prop}

theorem stopped_inward : Inward fun s : ArrayStream π ω => s.stopped := fun _ _ => rfl

/-- A turn that begins with a byte that is not white space. -/
theorem nonspace_turned {k : ArrayStream π ω → Option Byte → ArrayStream π ω × Option ArrayResult}
    (hin : ∀ ch, Inward fun s => k s ch)
    (hgoes : ∀ ch s, firm → s.Going →
      (k s ch).2 ≠ some .wouldBlock ∧ ((k s ch).2 = none → (k s ch).1.gait = s.gait)) :
    Turned firm (fun s => s.nonspace k) s := by
  refine getc_turned (k := fun got s => match got with
    | .stop => s.stopped
    | .eof => k s none
    | .byte ch => if isJsonSpace ch then (s, none) else k s (some ch))
    (fun s => ?_) (fun _ => rfl) (fun got => ?_) fun got hne s hfirm hs => ?_
  · rw [ArrayStream.nonspace]
    generalize s.getc = r
    obtain ⟨s', got⟩ := r
    cases got <;> rfl
  · cases got with
    | stop => exact stopped_inward
    | eof => exact hin none
    | byte ch =>
        by_cases hspace : isJsonSpace ch = true
        · simp only [if_pos hspace]
          exact fun _ _ => rfl
        · simp only [if_neg hspace]
          exact hin (some ch)
  · cases got with
    | stop => exact absurd rfl hne
    | eof => exact hgoes none s hfirm hs
    | byte ch =>
        by_cases hspace : isJsonSpace ch = true
        · dsimp only
          rw [if_pos hspace]
          exact ⟨nofun, fun _ => rfl⟩
        · dsimp only
          rw [if_neg hspace]
          exact hgoes (some ch) s hfirm hs

/-- A turn of the key behind what has been read for it. -/
def ArrayStream.keyGot (got : Got) (s : ArrayStream π ω) : ArrayStream π ω × Option ArrayResult :=
  match got with
  | .stop => s.stopped
  | .eof => s.fails .invalidJson "unterminated JSON string"
  | .byte ch =>
    match s.keyByte ch with
    | (s, .more) => (s, none)
    | (s, .error) => (s, some .error)
    | (s, .complete) => s.keyDone

theorem keyTurn_turned : Turned firm (fun s : ArrayStream π ω => s.keyTurn) s := by
  refine getc_turned (k := ArrayStream.keyGot) (fun s => ?_) (fun _ => rfl) (fun got => ?_) fun got hne s _ _ => ?_
  · rw [ArrayStream.keyTurn]
    generalize s.getc = r
    obtain ⟨s', got⟩ := r
    cases got <;> rfl
  · cases got with
    | stop => exact stopped_inward
    | eof => exact fun _ _ => rfl
    | byte ch =>
        intro s i
        dsimp only [ArrayStream.keyGot]
        rw [keyByte_withInput]
        generalize s.keyByte ch = r
        obtain ⟨s', turn⟩ := r
        cases turn with
        | more => rfl
        | error => rfl
        | complete => exact keyDone_withInput s' i
  · cases got with
    | stop => exact absurd rfl hne
    | eof => exact ⟨(fun h => by cases h), fun h => by cases h⟩
    | byte ch =>
        have hgait := keyByte_gait (s := s) ch
        dsimp only [ArrayStream.keyGot]
        generalize s.keyByte ch = r at hgait ⊢
        obtain ⟨s', turn⟩ := r
        cases turn with
        | more => exact ⟨(fun h => by cases h), fun _ => hgait (fun h => by cases h)⟩
        | error => exact ⟨(fun h => by cases h), fun h => by cases h⟩
        | complete =>
            obtain ⟨hblock, hnone⟩ := keyDone_goesOn (s := s')
            exact ⟨hblock, fun heq => (hnone heq).trans (hgait (fun h => by cases h))⟩

theorem turn_turned : Turned items.Firm (fun s => s.turn items target) s := by
  have hplace : ∀ t : ArrayStream π ω, t.place = s.place → t.phase = s.phase ∧
      t.currentKeyMatched = s.currentKeyMatched ∧ t.keyPhase = s.keyPhase ∧ t.pending = s.pending ∧
      (t.phase = .arrayValueOrEnd && t.active.isSome) =
        (s.phase = .arrayValueOrEnd && s.active.isSome) := by
    intro t h
    rw [ArrayStream.place, ArrayStream.place] at h
    injection h with hphase h
    injection h with hmatched h
    injection h with hkey h
    injection h with hpending hactive
    exact ⟨hphase, hmatched, hkey, hpending, hactive⟩
  cases hphase : s.phase with
  | start =>
      refine Turned.congr (g := ?_) (fun t ht => ?_) ?_
      rotate_left
      · rw [ArrayStream.turn, (hplace t ht).1, hphase]
      · refine nonspace_turned (fun ch s i => ?_) fun ch s hfirm hs => ?_
        · have hpath : (s.withInput i).path = s.path := rfl
          dsimp only
          rw [hpath]
          split_ifs <;> rfl
        · split_ifs
          · exact ⟨nofun, nofun⟩
          · exact ⟨nofun, fun _ => rfl⟩
          · exact ⟨nofun, nofun⟩
          · exact ⟨nofun, fun _ => rfl⟩
  | rootObjectKeyOrEnd =>
      by_cases hkey : s.keyPhase = .idle
      · refine Turned.congr (g := ?_) (fun t ht => ?_) ?_
        rotate_left
        · rewrite [ArrayStream.turn, (hplace t ht).1, hphase]
          dsimp only
          rw [if_pos ((hplace t ht).2.2.1.trans hkey)]
        · refine nonspace_turned (fun ch s i => ?_) fun ch s hfirm hs => ?_
          · have hcomma : (s.withInput i).rootObjectAfterComma = s.rootObjectAfterComma := rfl
            dsimp only
            rw [hcomma, objectEnd_withInput]
            split_ifs <;> rfl
          · split_ifs
            · exact ⟨nofun, nofun⟩
            · exact objectEnd_goesOn
            · exact ⟨nofun, nofun⟩
            · exact ⟨nofun, fun _ => rfl⟩
      · refine Turned.congr (fun t ht => ?_) keyTurn_turned
        rewrite [ArrayStream.turn, (hplace t ht).1, hphase]
        dsimp only
        rw [if_neg fun h => hkey ((hplace t ht).2.2.1.symm.trans h)]
  | rootObjectColon =>
      refine Turned.congr (g := ?_) (fun t ht => ?_) ?_
      rotate_left
      · rw [ArrayStream.turn, (hplace t ht).1, hphase]
      · refine nonspace_turned (fun ch s i => ?_) fun ch s hfirm hs => ?_
        · dsimp only
          split_ifs <;> rfl
        · split_ifs
          · exact ⟨nofun, nofun⟩
          · exact ⟨nofun, fun _ => rfl⟩
  | rootObjectValue =>
      by_cases hmatched : s.currentKeyMatched = true
      · refine Turned.congr (g := ?_) (fun t ht => ?_) ?_
        rotate_left
        · rewrite [ArrayStream.turn, (hplace t ht).1, hphase]
          dsimp only
          rw [if_pos ((hplace t ht).2.1.trans hmatched)]
        · refine nonspace_turned (fun ch s i => ?_) fun ch s hfirm hs => ?_
          · dsimp only
            split_ifs <;> rfl
          · split_ifs
            · exact ⟨nofun, nofun⟩
            · exact ⟨nofun, fun _ => rfl⟩
      · refine Turned.congr (fun t ht => ?_) (@stepValue_turned _ _ items { mode := .skip } s
          (fun s => { s with phase := .rootObjectCommaOrEnd }) (fun _ _ => rfl) (fun _ => rfl)
          (fun _ => rfl) ?_)
        · rewrite [ArrayStream.turn, (hplace t ht).1, hphase]
          dsimp only
          rw [if_neg fun h => hmatched ((hplace t ht).2.1.symm.trans h)]
        · intro h
          rw [hphase] at h
          cases h
  | rootObjectCommaOrEnd =>
      refine Turned.congr (g := ?_) (fun t ht => ?_) ?_
      rotate_left
      · rw [ArrayStream.turn, (hplace t ht).1, hphase]
      · refine nonspace_turned (fun ch s i => ?_) fun ch s hfirm hs => ?_
        · split_ifs
          · exact objectEnd_withInput s i
          · rfl
          · rfl
        · split_ifs
          · exact objectEnd_goesOn
          · exact ⟨nofun, nofun⟩
          · exact ⟨nofun, fun _ => rfl⟩
  | arrayValueOrEnd =>
      have hsame : ∀ t : ArrayStream π ω, t.place = s.place → t.active.isSome = s.active.isSome := by
        intro t ht
        have hactive := (hplace t ht).2.2.2.2
        rw [(hplace t ht).1, hphase, decide_eq_true rfl, Bool.true_and, Bool.true_and] at hactive
        exact hactive
      by_cases hactive : s.active.isSome = true
      · refine Turned.congr (fun t ht => ?_) (@stepValue_turned _ _ items target s
          (fun s => { s with pending := some target, phase := .itemAfterValue })
          (fun _ _ => rfl) (fun _ => rfl) (fun _ => rfl) fun _ => hactive)
        rewrite [ArrayStream.turn, (hplace t ht).1, hphase]
        dsimp only
        rw [if_pos ((hsame t ht).trans hactive)]
      · refine Turned.congr (g := ?_) (fun t ht => ?_) ?_
        rotate_left
        · rewrite [ArrayStream.turn, (hplace t ht).1, hphase]
          dsimp only
          rw [if_neg fun h => hactive ((hsame t ht).symm.trans h)]
        · refine nonspace_turned (fun ch s i => ?_) fun ch s hfirm hs => ?_
          · cases ch with
            | none => rfl
            | some ch =>
                have hfirst : (s.withInput i).firstItem = s.firstItem := rfl
                have hstart := startValue_withInput items target (s.ungetc ch) i
                have hend := afterValue_map (u := fun s => s.withInput i)
                  (k := fun s => { s with pending := some target, phase := .itemAfterValue })
                  (fun _ => rfl) (fun _ => rfl) ((s.ungetc ch).startValue items target)
                dsimp only
                rw [hfirst]
                split_ifs
                · rfl
                · rfl
                · rw [← hstart] at hend
                  exact hend
          · cases ch with
            | none => exact ⟨nofun, nofun⟩
            | some ch =>
                dsimp only
                split_ifs
                · exact ⟨nofun, nofun⟩
                · exact ⟨nofun, fun _ => rfl⟩
                · exact afterValue_goesOn (fun _ => rfl) hs.2
                    (startValue_goesOn (s := s.ungetc ch) hfirm)
  | arrayCommaOrEnd =>
      refine Turned.congr (g := ?_) (fun t ht => ?_) ?_
      rotate_left
      · rw [ArrayStream.turn, (hplace t ht).1, hphase]
      · refine nonspace_turned (fun ch s i => ?_) fun ch s hfirm hs => ?_
        · dsimp only
          split_ifs <;> rfl
        · split_ifs
          · exact ⟨nofun, fun _ => rfl⟩
          · exact ⟨nofun, nofun⟩
          · exact ⟨nofun, fun _ => rfl⟩
  | itemAfterValue =>
      by_cases hpending : (s.pending.any fun t => !t.same target) = true
      · refine Turned.congr (fun t ht => ?_) (Turned.still (f := fun s =>
            s.fails .invalidArgument "resume array stream item with the same destination")
            (s.fails .invalidArgument "resume array stream item with the same destination") ?_ ?_
            fun _ => rfl)
        · rewrite [ArrayStream.turn, (hplace t ht).1, hphase]
          dsimp only
          rw [(hplace t ht).2.2.2.1, if_pos hpending]
        · rfl
        · exact fun _ _ => ⟨nofun, nofun⟩
      · refine Turned.congr (g := ?_) (fun t ht => ?_) ?_
        rotate_left
        · rewrite [ArrayStream.turn, (hplace t ht).1, hphase]
          dsimp only
          rw [(hplace t ht).2.2.2.1, if_neg hpending]
        · refine nonspace_turned (fun ch s i => ?_) fun ch s hfirm hs => ?_
          · cases ch with
            | none => rfl
            | some ch =>
                dsimp only
                split_ifs <;> rfl
          · cases ch with
            | none => exact ⟨nofun, nofun⟩
            | some ch =>
                dsimp only
                split_ifs
                · exact ⟨nofun, nofun⟩
                · exact ⟨nofun, nofun⟩
  | finishDocument =>
      refine Turned.congr (g := ?_) (fun t ht => ?_) ?_
      rotate_left
      · rw [ArrayStream.turn, (hplace t ht).1, hphase]
      · refine nonspace_turned (fun ch s i => ?_) fun ch s hfirm hs => ?_
        · have hroot : (s.withInput i).rootArraySelected = s.rootArraySelected := rfl
          dsimp only
          rw [hroot]
          split_ifs <;> rfl
        · split_ifs
          · exact ⟨nofun, nofun⟩
          · exact ⟨nofun, nofun⟩
          · exact ⟨nofun, nofun⟩

end

/-! ## Sessions -/

/-- What a caller sees of an element: its bytes, when they are raw, what its sink has been told, and
the parser with the destination. -/
structure ArrayItem (π ω : Type) where
  bytes : Bytes
  user : ω
  parser : Option π

/-- A stream that is called until the end. -/
structure ArraySession (π ω : Type) where
  stream : ArrayStream π ω
  items : List (ArrayItem π ω) := []
  result : Option ArrayResult := none

/-- The next call. -/
def ArraySession.again (s : ArraySession π ω) : ArraySession π ω :=
  match s.stream.begin with
  | .ok stream => { s with stream }
  | .error result => { s with result := some result }

/-- What comes behind a turn. -/
def ArraySession.turned (items : List (ArrayItem π ω)) (r : ArrayStream π ω × Option ArrayResult) :
    ArraySession π ω :=
  match r with
  | (stream, none) => ⟨stream, items, none⟩
  | (stream, some .wouldBlock) => ArraySession.again ⟨stream, items, none⟩
  | (stream, some .item) =>
    ArraySession.again ⟨stream, items ++ [⟨stream.item, stream.user, stream.parser⟩], none⟩
  | (stream, some result) => ⟨stream, items, some result⟩

/-- A turn of the call that is running. The target of a call is that of the element it is for. -/
def ArraySession.step (items : ItemParser π ω) (targets : ℕ → ItemTarget) (s : ArraySession π ω) :
    Option (ArraySession π ω) :=
  match s.result with
  | some _ => none
  | none => some (ArraySession.turned s.items (s.stream.turn items (targets s.items.length)))

/-- A stream that has been opened, when the first call begins. -/
def ArraySession.opened (script : List ReadResult) (user : ω) (path : Bytes)
    (rejectDuplicateKeys : Bool) : ArraySession π ω :=
  { stream := .opened (.reader script) user path rejectDuplicateKeys }

def ArraySession.withScript (script : List ReadResult) (s : ArraySession π ω) : ArraySession π ω :=
  { s with stream := s.stream.withScript script }

def ArraySession.script (s : ArraySession π ω) : List ReadResult :=
  match s.stream.source with
  | .reader script => script
  | .push _ => []

theorem turned_withScript (items : List (ArrayItem π ω)) (r : ArrayStream π ω × Option ArrayResult)
    (script : List ReadResult) : ArraySession.turned items (r.1.withScript script, r.2) =
      (ArraySession.turned items r).withScript script := by
  have hagain : ∀ s : ArraySession π ω,
      (s.withScript script).again = s.again.withScript script := by
    intro s
    have hstatus : (s.withScript script).stream.status = s.stream.status := rfl
    rw [ArraySession.again, ArraySession.again, ArrayStream.begin, ArrayStream.begin, hstatus]
    cases s.stream.status <;> rfl
  obtain ⟨stream, result⟩ := r
  cases result with
  | none => rfl
  | some result =>
      cases result with
      | item => exact hagain ⟨stream, items ++ [⟨stream.item, stream.user, stream.parser⟩], none⟩
      | eof => rfl
      | wouldBlock => exact hagain ⟨stream, items, none⟩
      | error => rfl

theorem turned_held (items : List (ArrayItem π ω)) (r : ArrayStream π ω × Option ArrayResult) :
    (ArraySession.turned items r).stream.held = r.1.held := by
  have hagain : ∀ s : ArraySession π ω, s.again.stream.held = s.stream.held := by
    intro s
    rw [ArraySession.again, ArrayStream.begin]
    cases s.stream.status <;> rfl
  obtain ⟨stream, result⟩ := r
  cases result with
  | none => rfl
  | some result =>
      cases result with
      | item => exact hagain _
      | eof => rfl
      | wouldBlock => exact hagain _
      | error => rfl

/-- A session whose call is running, with parsers and sinks that fail with hard errors only. -/
def ArraySession.Good (items : ItemParser π ω) (s : ArraySession π ω) : Prop :=
  items.Firm ∧ (s.result = none → s.stream.Going)

theorem turned_good {parser : ItemParser π ω} (hfirm : parser.Firm) (items : List (ArrayItem π ω))
    {r : ArrayStream π ω × Option ArrayResult} (h : r.2 = none → r.1.Going) :
    (ArraySession.turned items r).Good parser := by
  refine ⟨hfirm, ?_⟩
  have hagain : ∀ s : ArraySession π ω, s.again.result = none → s.again.stream.Going := by
    intro s
    rw [ArraySession.again, ArrayStream.begin]
    cases s.stream.status with
    | running => exact fun _ => ⟨rfl, rfl⟩
    | done => exact nofun
    | error => exact nofun
  obtain ⟨stream, result⟩ := r
  cases result with
  | none => exact fun _ => h rfl
  | some result =>
      cases result with
      | item => exact hagain _
      | eof => exact nofun
      | wouldBlock => exact hagain _
      | error => exact nofun

theorem session_polls (parser : ItemParser π ω) (targets : ℕ → ItemTarget) (s : ArraySession π ω) :
    Polls (ArraySession.step parser targets) ArraySession.withScript (fun s => s.stream.held)
      (ArraySession.Good parser) s := by
  cases hresult : s.result with
  | some result =>
      refine .halts fun script => ?_
      have hsome : (s.withScript script).result = some result := hresult
      rw [ArraySession.step, hsome]
  | none =>
      have hstep : ∀ script, ArraySession.step parser targets (s.withScript script) =
          some (ArraySession.turned s.items
            ((s.stream.withScript script).turn parser (targets s.items.length))) := by
        intro script
        have hnone : (s.withScript script).result = none := hresult
        rw [ArraySession.step, hnone]
        rfl
      cases @turn_turned _ _ parser (targets s.items.length) s.stream with
      | still r hheld hgoes hnext =>
          refine .still (ArraySession.turned s.items r) (fun hgood => ?_) ?_ fun script => ?_
          · exact turned_good hgood.1 s.items (hgoes hgood.1 (hgood.2 hresult)).2
          · exact (turned_held s.items r).trans hheld
          · rw [hstep]
            exact congrArg some ((congrArg (ArraySession.turned s.items) (hnext script)).trans
              (turned_withScript s.items r script))
      | reads fed hheld hgoes hblocked hplace hresume hnext =>
          refine .reads (fun r => ArraySession.turned s.items (fed r)) (fun hgood r => ?_)
            (fun r => ?_) (fun script => ?_) fun hgood script => ?_
          · refine turned_good hgood.1 s.items fun hnone => ?_
            by_cases hr : r = .blocked
            · rw [hr, (hblocked hgood.1 (hgood.2 hresult)).1] at hnone
              cases hnone
            · exact (hgoes hgood.1 (hgood.2 hresult) r hr).2 hnone
          · exact (turned_held s.items (fed r)).trans (hheld r)
          · rw [hstep]
            exact congrArg some ((congrArg (ArraySession.turned s.items) (hnext script)).trans
              (turned_withScript s.items _ _))
          · obtain ⟨hwould, hrunning⟩ := hblocked hgood.1 (hgood.2 hresult)
            have hback := hresume hgood.1 (hgood.2 hresult) script
            have hagain : ArraySession.turned s.items (fed .blocked) =
                ⟨{ (fed .blocked).1 with wouldBlock := false }, s.items, none⟩ := by
              generalize fed .blocked = r at hwould hrunning ⊢
              obtain ⟨stream, result⟩ := r
              dsimp only at hwould hrunning
              rw [hwould]
              rw [ArraySession.turned.eq_def]
              dsimp only
              rw [ArraySession.again, ArrayStream.begin]
              dsimp only
              rw [hrunning]
            rw [hstep, hagain]
            exact congrArg (fun r => some (ArraySession.turned s.items r)) hback

/-- The sessions of an array stream, as a machine that polls a reader. -/
def arrayPoller (parser : ItemParser π ω) (targets : ℕ → ItemTarget) : Poller (ArraySession π ω) where
  step := ArraySession.step parser targets
  script := ArraySession.script
  load := ArraySession.withScript
  held s := s.stream.held
  good := ArraySession.Good parser
  script_load _ _ := rfl
  load_load _ _ _ := rfl
  held_load _ _ := rfl
  good_load _ _ := Iff.rfl
  polls := session_polls parser targets

end Lonejson
