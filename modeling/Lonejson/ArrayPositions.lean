import Lonejson.ArrayStream

/-!
# The position of an array stream

The offset, the line and the column of an array stream against the bytes that it has taken. A byte
that is pushed back is counted again only where the parser of an element reads it.
-/

namespace Lonejson

variable {π ω : Type}

/-! ## Positions -/

/-- The position behind a text. -/
def positionOf (text : Bytes) : Pos := text.foldl Pos.step {}

theorem positionOf_append (text bytes : Bytes) :
    positionOf (text ++ bytes) = bytes.foldl Pos.step (positionOf text) := List.foldl_append

theorem positionOf_concat (text : Bytes) (ch : Byte) :
    positionOf (text ++ [ch]) = (positionOf text).step ch := positionOf_append text [ch]

theorem Pos.step_offset (pos : Pos) (ch : Byte) : (pos.step ch).offset = pos.offset + 1 := by
  rw [Pos.step]
  split_ifs <;> rfl

theorem positionOf_offset (text : Bytes) : (positionOf text).offset = text.length := by
  induction text using List.reverseRecOn with
  | nil => rfl
  | append_singleton text ch ih =>
      rw [positionOf_concat, Pos.step_offset, ih, List.length_append, List.length_singleton]

/-- The position of a stream is that of the bytes it has taken, but for the byte that is pushed
back. -/
structure ArrayStream.Exact (s : ArrayStream π ω) : Prop where
  offset : s.pos.offset + (if s.pushback.isSome then 1 else 0) = s.taken.length
  place : s.pos = positionOf (s.taken.take s.pos.offset)

/-- What the position is about. -/
structure ArraySpot where
  pos : Pos
  pushback : Option Byte
  taken : Bytes

def ArrayStream.spot (s : ArrayStream π ω) : ArraySpot := ⟨s.pos, s.pushback, s.taken⟩

/-- The position follows the bytes: it is behind them all, or behind those before the byte that is
pushed back. -/
structure ArraySpot.Follows (a : ArraySpot) : Prop where
  free : a.pushback = none → a.pos = positionOf a.taken
  held : ∀ ch, a.pushback = some ch → ∃ text, a.taken = text ++ [ch] ∧ a.pos = positionOf text

theorem ArraySpot.Follows.exact {s : ArrayStream π ω} (h : s.spot.Follows) : s.Exact := by
  cases hpushback : s.pushback with
  | none =>
      have hpos : s.pos = positionOf s.taken := h.free hpushback
      have hoffset : s.pos.offset = s.taken.length := by rw [hpos, positionOf_offset]
      refine ⟨by rw [hpushback]; exact hoffset, ?_⟩
      rw [hoffset, List.take_length]
      exact hpos
  | some ch =>
      obtain ⟨text, htaken, hpos⟩ := h.held ch hpushback
      have htaken : s.taken = text ++ [ch] := htaken
      have hpos : s.pos = positionOf text := hpos
      have hoffset : s.pos.offset = text.length := by rw [hpos, positionOf_offset]
      refine ⟨?_, ?_⟩
      · rw [hpushback, hoffset, htaken, List.length_append]
        rfl
      · rw [hoffset, htaken, List.take_left]
        exact hpos

/-! ## What does not move -/

section

variable {items : ItemParser π ω} {target : ItemTarget} {s : ArrayStream π ω}

theorem refill_spot : s.refill.1.spot = s.spot := by
  rw [ArrayStream.refill]
  split
  · split <;> rfl
  · rfl

theorem keyAppend_spot (data : Bytes) : (s.keyAppend data).1.spot = s.spot := by
  rw [ArrayStream.keyAppend]
  split <;> rfl

theorem keyCodepointEnd_spot (cp : ℕ) : (s.keyCodepointEnd cp).1.spot = s.spot := by
  rw [ArrayStream.keyCodepointEnd]
  split
  · rfl
  · next utf8 _ =>
    have happend := keyAppend_spot (s := s) utf8
    split
    · next heq =>
      rw [heq] at happend
      exact happend
    · exact happend

theorem keyQuad_spot (cp : ℕ) : (s.keyQuad cp).1.spot = s.spot := by
  rw [ArrayStream.keyQuad]
  split_ifs
  · rfl
  · rfl
  · rfl
  · exact keyCodepointEnd_spot _
  · exact keyCodepointEnd_spot _

theorem keyByte_spot (ch : Byte) : (s.keyByte ch).1.spot = s.spot := by
  rw [ArrayStream.keyByte]
  split
  · rfl
  · split_ifs
    · rfl
    · rfl
    · rfl
    · exact keyAppend_spot _
  · dsimp only
    split_ifs
    · rfl
    · split
      · exact keyAppend_spot _
      · rfl
  · split
    · rfl
    · dsimp only
      split_ifs
      · rfl
      · exact keyQuad_spot _
  · split
    · rfl
    · dsimp only
      split_ifs
      · rfl
      · exact keyQuad_spot _
  · split_ifs <;> rfl
  · split_ifs <;> rfl

theorem keyDone_spot : s.keyDone.1.spot = s.spot := by
  have hnote : s.noteRootKey.1.spot = s.spot := by
    rw [ArrayStream.noteRootKey]
    split_ifs
    · rfl
    · split <;> rfl
  rw [ArrayStream.keyDone]
  split
  · next heq =>
    rw [heq] at hnote
    exact hnote
  · next heq =>
    rw [heq] at hnote
    exact hnote

theorem parserError_spot (p : π) (status : Status) :
    (s.parserError items p status).spot = s.spot := by
  rw [ArrayStream.parserError]
  split_ifs <;> rfl

theorem finishValue_spot (p : π) : (s.finishValue items p).1.spot = s.spot := by
  rw [ArrayStream.finishValue]
  dsimp only
  split_ifs
  · rfl
  · exact parserError_spot _ _

theorem startValue_spot : (s.startValue items target).1.spot = s.spot := by
  rw [ArrayStream.startValue]
  split
  · split_ifs <;> rfl
  · dsimp only
    split_ifs <;> rfl

theorem deliver_spot (bytes : Bytes) : (s.deliver items target bytes).1.spot = s.spot := by
  rw [ArrayStream.deliver]
  split
  · split <;> rfl
  · dsimp only
    split_ifs <;> rfl
  · rfl

theorem afterFeed_spot (p : π) (status : Status) (consumed : ℕ) :
    (s.afterFeed items p status consumed).1.spot = s.spot := by
  rw [ArrayStream.afterFeed]
  split_ifs
  · exact parserError_spot _ _
  · exact finishValue_spot _
  · rfl
  · rfl

theorem afterValue_follows {r : ArrayStream π ω × Option Status}
    {k : ArrayStream π ω → ArrayStream π ω} (hk : ∀ s, (k s).spot = s.spot)
    (h : r.1.spot.Follows) : (ArrayStream.afterValue r k).1.spot.Follows := by
  rw [ArrayStream.afterValue.eq_def]
  split
  · exact h
  · split_ifs
    · exact h
    · exact h
    · rw [hk]
      exact h

end

/-! ## What moves -/

section

variable {items : ItemParser π ω} {target : ItemTarget} {s : ArrayStream π ω}

theorem refill_kept : s.refill.1.pos = s.pos ∧ s.refill.1.pushback = s.pushback ∧
    s.refill.1.taken = s.taken := by
  have h := refill_spot (s := s)
  exact ⟨congrArg ArraySpot.pos h, congrArg ArraySpot.pushback h, congrArg ArraySpot.taken h⟩

/-- A byte that comes from the buffer. -/
theorem getc_follows (hfree : s.pushback = none) (h : s.spot.Follows) :
    s.getc.1.spot.Follows ∧ s.getc.1.pushback = none ∧
      ∀ ch, s.getc.2 = .byte ch → ∃ text, s.getc.1.taken = text ++ [ch] := by
  have hspot := refill_spot (s := s)
  have hkept : s.refill.1.spot.Follows ∧ s.refill.1.pushback = none :=
    ⟨hspot.symm ▸ h, (congrArg ArraySpot.pushback hspot).trans hfree⟩
  rw [ArrayStream.getc, hfree]
  dsimp only
  generalize s.refill = r at hkept ⊢
  obtain ⟨s, result⟩ := r
  obtain ⟨hfollows, hnone⟩ := hkept
  cases result with
  | bytes chunk =>
      dsimp only
      cases hbuffered : s.buffered with
      | nil => exact ⟨hfollows, hnone, nofun⟩
      | cons ch rest =>
          have htaken : (s.take 1).taken = s.taken ++ [ch] := by
            rw [ArrayStream.take, hbuffered]
            rfl
          have hpos : s.pos = positionOf s.taken := hfollows.free hnone
          refine ⟨⟨fun _ => ?_, fun ch' hsome => ?_⟩, hnone, ?_⟩
          · change s.pos.step ch = positionOf (s.take 1).taken
            rw [htaken, positionOf_concat, hpos]
          · have hsome : s.pushback = some ch' := hsome
            rw [hnone] at hsome
            cases hsome
          · rintro ch' heq
            injection heq with heq
            exact ⟨s.taken, heq ▸ htaken⟩
  | ended => exact ⟨hfollows, hnone, nofun⟩
  | blocked => exact ⟨hfollows, hnone, nofun⟩
  | failed errno => exact ⟨hfollows, hnone, nofun⟩

/-- A byte that is not white space is on the line it came from. -/
theorem ungetc_follows {ch : Byte} (hfree : s.pushback = none) (h : s.spot.Follows)
    (htaken : ∃ text, s.taken = text ++ [ch]) (hspace : isJsonSpace ch = false) :
    (s.ungetc ch).spot.Follows := by
  obtain ⟨text, htaken⟩ := htaken
  refine ⟨fun hnone => ?_, fun ch' hsome => ?_⟩
  · cases hnone
  · injection hsome with hsome
    subst hsome
    refine ⟨text, htaken, ?_⟩
    have hline : ch ≠ 0x0a := by
      rintro rfl
      cases hspace
    have hpos : s.pos = (positionOf text).step ch := by
      rw [← positionOf_concat, ← htaken]
      exact h.free hfree
    change ({ s.pos with offset := s.pos.offset - 1, column := s.pos.column - 1 } : Pos) = _
    rw [hpos, Pos.step, if_neg hline]
    rfl

/-- What comes behind a byte that is not white space. -/
theorem nonspace_follows (hfree : s.pushback = none) (h : s.spot.Follows)
    {k : ArrayStream π ω → Option Byte → ArrayStream π ω × Option ArrayResult}
    (hk : ∀ (s : ArrayStream π ω) ch, s.spot.Follows → s.pushback = none →
      (∀ b, ch = some b → (∃ text, s.taken = text ++ [b]) ∧ isJsonSpace b = false) →
      (k s ch).1.spot.Follows) : (s.nonspace k).1.spot.Follows := by
  obtain ⟨hfollows, hnone, htaken⟩ := getc_follows hfree h
  rw [ArrayStream.nonspace]
  generalize s.getc = r at hfollows hnone htaken ⊢
  obtain ⟨s, got⟩ := r
  cases got with
  | stop => exact hfollows
  | eof => exact hk s none hfollows hnone nofun
  | byte ch =>
      dsimp only
      split_ifs with hspace
      · exact hfollows
      · refine hk s (some ch) hfollows hnone fun b hb => ?_
        injection hb with hb
        subst hb
        exact ⟨htaken ch rfl, Bool.eq_false_iff.mpr hspace⟩

theorem keyTurn_follows (hfree : s.pushback = none) (h : s.spot.Follows) :
    s.keyTurn.1.spot.Follows := by
  obtain ⟨hfollows, -, -⟩ := getc_follows hfree h
  rw [ArrayStream.keyTurn]
  generalize s.getc = r at hfollows ⊢
  obtain ⟨s, got⟩ := r
  cases got with
  | stop => exact hfollows
  | eof => exact hfollows
  | byte ch =>
      have hbyte := keyByte_spot (s := s) ch
      dsimp only
      generalize s.keyByte ch = r at hbyte ⊢
      obtain ⟨s', turn⟩ := r
      have hfollows' : s'.spot.Follows := by
        rw [show s'.spot = s.spot from hbyte]
        exact hfollows
      cases turn with
      | more => exact hfollows'
      | error => exact hfollows'
      | complete =>
          dsimp only
          rw [keyDone_spot]
          exact hfollows'

theorem deliver_status {s s' : ArrayStream π ω} (hitem : s.item = s'.item)
    (huser : s.user = s'.user) (bytes : Bytes) :
    (s.deliver items target bytes).2 = (s'.deliver items target bytes).2 := by
  rw [ArrayStream.deliver, ArrayStream.deliver, hitem, huser]
  split
  · split <;> rfl
  · dsimp only
    split_ifs <;> rfl
  · rfl

/-- The byte that is pushed back, when the parser of an element reads it. -/
theorem feedPushback_follows {ch : Byte} (hheld : s.pushback = some ch) (h : s.spot.Follows) (p : π)
    (hdeliver : (s.deliver items target [ch]).2 = none) :
    (s.feedPushback items target p ch).1.spot.Follows := by
  rw [ArrayStream.feedPushback]
  dsimp only
  split_ifs with hconsumed
  · generalize hfed : ({ s with pushback := none, parser := some (items.feed p [ch]).1.1 } :
      ArrayStream π ω) = fed
    have hitem : fed.item = s.item := by rw [← hfed]
    have huser : fed.user = s.user := by rw [← hfed]
    have hstatus : (fed.deliver items target [ch]).2 = none :=
      (deliver_status hitem huser [ch]).trans hdeliver
    have hspot := @deliver_spot _ _ items target fed [ch]
    generalize fed.deliver items target [ch] = r at hstatus hspot ⊢
    obtain ⟨s', status⟩ := r
    dsimp only at hstatus hspot ⊢
    rw [hstatus]
    dsimp only
    rw [afterFeed_spot]
    obtain ⟨text, htaken, hpos⟩ := h.held ch hheld
    rw [← hfed] at hspot
    have hpos' : s'.pos = positionOf text := (congrArg ArraySpot.pos hspot).trans hpos
    have htaken' : s'.taken = text ++ [ch] := (congrArg ArraySpot.taken hspot).trans htaken
    have hnone : s'.pushback = none := congrArg ArraySpot.pushback hspot
    refine ⟨fun _ => ?_, fun ch' hsome => ?_⟩
    · change s'.pos.step ch = positionOf s'.taken
      rw [hpos', htaken', positionOf_concat]
    · have hsome : s'.pushback = some ch' := hsome
      rw [hnone] at hsome
      cases hsome
  · rw [afterFeed_spot]
    have hsame : ({ s with pushback := some ch, parser := some (items.feed p [ch]).1.1 } :
        ArrayStream π ω).spot = s.spot := by
      rw [ArrayStream.spot, ArrayStream.spot, hheld]
    exact hsame.symm ▸ h

/-- Bytes of the buffer. -/
theorem feedBuffered_follows (hfree : s.pushback = none) (h : s.spot.Follows) (p : π) :
    (s.feedBuffered items target p).1.spot.Follows := by
  rw [ArrayStream.feedBuffered]
  dsimp only
  generalize items.feed p (s.buffered.take (feedLen items p s.buffered)) = r
  generalize hfed : ({ s with parser := some r.1.1 } : ArrayStream π ω) = fed
  have hfedspot : fed.spot = s.spot := by rw [← hfed]; rfl
  split_ifs with hconsumed
  · have hspot := @deliver_spot _ _ items target fed
      (s.buffered.take r.2)
    generalize fed.deliver items target _ = delivered at hspot ⊢
    obtain ⟨s', status⟩ := delivered
    have hspot' : s'.spot = s.spot := Eq.trans hspot hfedspot
    cases status with
    | some status =>
        rw [hspot']
        exact h
    | none =>
        rw [afterFeed_spot]
        have hnone : s'.pushback = none := (congrArg ArraySpot.pushback hspot').trans hfree
        have hpos : s'.pos = positionOf s'.taken := (hspot'.symm ▸ h : s'.spot.Follows).free hnone
        refine ⟨fun _ => ?_, fun ch hsome => ?_⟩
        · change List.foldl Pos.step s'.pos _ = positionOf (s'.taken ++ _)
          rw [positionOf_append, hpos]
          rfl
        · have hsome : s'.pushback = some ch := hsome
          rw [hnone] at hsome
          cases hsome
  · rw [afterFeed_spot, hfedspot]
    exact h

theorem valueLoop_follows (h : s.spot.Follows) (p : π)
    (hdeliver : ∀ ch ∈ s.pushback, (s.deliver items target [ch]).2 = none) :
    (s.valueLoop items target p).1.spot.Follows := by
  rw [ArrayStream.valueLoop]
  dsimp only
  by_cases hroot : items.rootComplete p = true
  · rw [if_pos hroot, finishValue_spot]
    exact h
  rw [if_neg hroot]
  cases hpushback : s.pushback with
  | some ch =>
      dsimp only
      split_ifs
      · rw [finishValue_spot]
        exact h
      · exact feedPushback_follows hpushback h p (hdeliver ch hpushback)
  | none =>
      have hspot := refill_spot (s := s)
      dsimp only
      generalize s.refill = r at hspot ⊢
      obtain ⟨s', result⟩ := r
      have hfollows : s'.spot.Follows := hspot.symm ▸ h
      have hfree : s'.pushback = none := (congrArg ArraySpot.pushback hspot).trans hpushback
      cases result with
      | failed errno => exact hfollows
      | blocked => exact hfollows
      | ended =>
          dsimp only
          split_ifs
          · rw [finishValue_spot]
            exact hfollows
          · exact hfollows
      | bytes chunk =>
          dsimp only
          split_ifs
          · rw [finishValue_spot]
            exact hfollows
          · exact feedBuffered_follows hfree hfollows p

/-- A turn at an element reads the byte that is pushed back with the parser of the element. -/
theorem stepValue_follows (h : s.spot.Follows)
    (hdeliver : ∀ ch ∈ s.pushback, ∀ t, s.active.getD target = t →
      ((s.startValue items target).1.deliver items t [ch]).2 = none) :
    (s.stepValue items target).1.spot.Follows := by
  have hspot := @startValue_spot _ _ items target s
  have hactive : (s.startValue items target).2 = none →
      (s.startValue items target).1.active.getD target = s.active.getD target := by
    rw [ArrayStream.startValue]
    split
    · split_ifs <;> exact fun _ => rfl
    · next hnone =>
      dsimp only
      by_cases hok : (items.start s.parser target).2 = .ok
      · rw [if_pos hok, hnone]
        exact fun _ => rfl
      · rw [if_neg hok]
        exact nofun
  rw [ArrayStream.stepValue]
  generalize s.startValue items target = r at hspot hdeliver hactive ⊢
  obtain ⟨s', status⟩ := r
  have hfollows : s'.spot.Follows := hspot.symm ▸ h
  have hpushback : s'.pushback = s.pushback := congrArg ArraySpot.pushback hspot
  cases status with
  | some status => exact hfollows
  | none =>
      dsimp only at hactive hdeliver ⊢
      cases s'.parser with
      | none => exact hfollows
      | some p =>
          refine valueLoop_follows hfollows p fun ch hch => ?_
          exact hdeliver ch (hpushback ▸ hch) _ (hactive rfl).symm

end

/-! ## Turns -/

/-- The phases in which a turn goes to the parser of an element. -/
def ArrayStream.atValue (s : ArrayStream π ω) : Bool :=
  s.phase = .arrayValueOrEnd && s.active.isSome || s.phase = .rootObjectValue && !s.currentKeyMatched

/-- A byte that is pushed back is read by the parser of an element, and the element takes it. -/
def ArrayStream.straight (items : ItemParser π ω) (s : ArrayStream π ω) : Prop :=
  ∀ ch ∈ s.pushback, s.atValue = true ∧
    ∀ t ∈ s.active, (s.deliver items t [ch]).2 = none

instance (items : ItemParser π ω) (s : ArrayStream π ω) : Decidable (s.straight items) :=
  Option.decidableForallMem s.pushback

section

variable {items : ItemParser π ω} {target : ItemTarget} {s : ArrayStream π ω}

theorem atValue_follows {k : ArrayStream π ω → ArrayStream π ω} (hk : ∀ s, (k s).spot = s.spot)
    (h : s.spot.Follows) (hstraight : s.straight items)
    (htarget : s.active.isSome ∨ target.mode = .skip) :
    (ArrayStream.afterValue (s.stepValue items target) k).1.spot.Follows := by
  refine afterValue_follows hk (stepValue_follows h fun ch hch t ht => ?_)
  cases hactive : s.active with
  | some t' =>
      have hsame : t' = t := by
        rw [hactive] at ht
        exact ht
      have hkept : (s.startValue items target).1.item = s.item ∧
          (s.startValue items target).1.user = s.user := by
        rw [ArrayStream.startValue, hactive]
        dsimp only
        split_ifs <;> exact ⟨rfl, rfl⟩
      rw [deliver_status hkept.1 hkept.2]
      exact (hstraight ch hch).2 t (hsame ▸ hactive)
  | none =>
      rw [hactive] at ht htarget
      have hskip : t.mode = .skip := by
        rw [← ht]
        exact htarget.resolve_left nofun
      rw [ArrayStream.deliver, hskip]

/-- Where no byte is pushed back, a turn may get one. -/
theorem turn_follows (h : s.spot.Follows) (hstraight : s.straight items) :
    (s.turn items target).1.spot.Follows := by
  have hget : s.atValue = false → s.pushback = none := by
    intro hnot
    cases hpushback : s.pushback with
    | none => rfl
    | some ch =>
        have hvalue := (hstraight ch hpushback).1
        rw [hnot] at hvalue
        cases hvalue
  rw [ArrayStream.turn]
  cases hphase : s.phase with
  | start =>
      refine nonspace_follows (hget (by rw [ArrayStream.atValue, hphase]; rfl)) h
        fun s ch h _ _ => ?_
      split_ifs <;> exact h
  | rootObjectKeyOrEnd =>
      have hfree := hget (by rw [ArrayStream.atValue, hphase]; rfl)
      dsimp only
      split_ifs
      · refine nonspace_follows hfree h fun s ch h _ _ => ?_
        rw [ArrayStream.objectEnd]
        split_ifs <;> exact h
      · exact keyTurn_follows hfree h
  | rootObjectColon =>
      refine nonspace_follows (hget (by rw [ArrayStream.atValue, hphase]; rfl)) h
        fun s ch h _ _ => ?_
      split_ifs <;> exact h
  | rootObjectValue =>
      dsimp only
      split_ifs with hmatched
      · have hfree := hget (by rw [ArrayStream.atValue, hphase, hmatched]; rfl)
        refine nonspace_follows hfree h fun s ch h _ _ => ?_
        split_ifs <;> exact h
      · exact atValue_follows (fun _ => rfl) h hstraight (.inr rfl)
  | rootObjectCommaOrEnd =>
      refine nonspace_follows (hget (by rw [ArrayStream.atValue, hphase]; rfl)) h
        fun s ch h _ _ => ?_
      rw [ArrayStream.objectEnd]
      split_ifs <;> exact h
  | arrayValueOrEnd =>
      dsimp only
      split_ifs with hactive
      · exact atValue_follows (fun _ => rfl) h hstraight (.inl hactive)
      · have hfree := hget (by rw [ArrayStream.atValue, hphase, Bool.eq_false_iff.mpr hactive]; rfl)
        refine nonspace_follows hfree h fun s ch h hnone hch => ?_
        cases ch with
        | none => exact h
        | some ch =>
            obtain ⟨htaken, hspace⟩ := hch ch rfl
            dsimp only
            split_ifs
            · exact h
            · exact h
            · refine afterValue_follows (fun _ => rfl) ?_
              rw [startValue_spot]
              exact ungetc_follows hnone h htaken hspace
  | arrayCommaOrEnd =>
      refine nonspace_follows (hget (by rw [ArrayStream.atValue, hphase]; rfl)) h
        fun s ch h _ _ => ?_
      split_ifs <;> exact h
  | itemAfterValue =>
      have hfree := hget (by rw [ArrayStream.atValue, hphase]; rfl)
      dsimp only
      split_ifs
      · exact h
      · refine nonspace_follows hfree h fun s ch h hnone hch => ?_
        cases ch with
        | none => exact h
        | some ch =>
            obtain ⟨htaken, hspace⟩ := hch ch rfl
            dsimp only
            split_ifs
            · exact h
            · exact ungetc_follows hnone h htaken hspace
  | finishDocument =>
      refine nonspace_follows (hget (by rw [ArrayStream.atValue, hphase]; rfl)) h
        fun s ch h _ _ => ?_
      split_ifs <;> exact h

end

/-- The byte behind an element is read again, and not counted. -/
theorem arrayCommaOrEnd_behind {items : ItemParser π ω} {target : ItemTarget} {s : ArrayStream π ω}
    {ch : Byte} (h : s.spot.Follows) (hphase : s.phase = .arrayCommaOrEnd)
    (hheld : s.pushback = some ch) : ¬ (s.turn items target).1.Exact := by
  have hspot : (s.turn items target).1.spot = { s.spot with pushback := none } := by
    rw [ArrayStream.turn, hphase]
    dsimp only
    rw [ArrayStream.nonspace, ArrayStream.getc, hheld]
    dsimp only
    split_ifs <;> rfl
  obtain ⟨text, htaken, hpos⟩ := h.held ch hheld
  have hpos : s.pos = positionOf text := hpos
  have htaken : s.taken = text ++ [ch] := htaken
  generalize s.turn items target = r at hspot ⊢
  intro hexact
  have hoffset := hexact.offset
  have hmoved : r.1.pos = s.pos := congrArg ArraySpot.pos hspot
  have hnone : r.1.pushback = none := congrArg ArraySpot.pushback hspot
  have hkept : r.1.taken = s.taken := congrArg ArraySpot.taken hspot
  rw [hmoved, hnone, hkept, hpos, htaken, positionOf_offset, List.length_append] at hoffset
  exact absurd hoffset (Nat.ne_of_lt (Nat.lt_succ_self _))

/-! ## Runs -/

/-- Every turn of a run reads a byte that is pushed back with the parser of an element. -/
def ArrayRun.Straight (items : ItemParser π ω) : List ArrayAct → ArrayRun π ω → Prop
  | [], _ => True
  | act :: acts, r =>
    (act = .turn → r.calling.isSome → r.stream.straight items) ∧
      ArrayRun.Straight items acts (r.act items act)

instance ArrayRun.decidableStraight (items : ItemParser π ω) : ∀ (acts : List ArrayAct)
    (r : ArrayRun π ω), Decidable (ArrayRun.Straight items acts r)
  | [], _ => inferInstanceAs (Decidable True)
  | act :: acts, r =>
    have := ArrayRun.decidableStraight items acts (r.act items act)
    inferInstanceAs (Decidable ((act = .turn → r.calling.isSome → r.stream.straight items) ∧
      ArrayRun.Straight items acts (r.act items act)))

theorem act_follows {items : ItemParser π ω} {r : ArrayRun π ω} {act : ArrayAct}
    (h : r.stream.spot.Follows)
    (hstraight : act = .turn → r.calling.isSome → r.stream.straight items) :
    (r.act items act).stream.spot.Follows := by
  cases act with
  | call target =>
      rw [ArrayRun.act, ArrayStream.begin]
      cases r.calling with
      | some _ => exact h
      | none =>
          cases r.stream.status with
          | running => exact h
          | done => exact h
          | error => exact h
  | turn =>
      rw [ArrayRun.act]
      cases hcalling : r.calling with
      | none => exact h
      | some target => exact turn_follows h (hstraight rfl (by rw [hcalling]; rfl))
  | push chunk =>
      rw [ArrayRun.act]
      split <;> exact h
  | finish =>
      rw [ArrayRun.act]
      split <;> exact h

theorem run_follows {items : ItemParser π ω} (acts : List ArrayAct) : ∀ {r : ArrayRun π ω},
    r.stream.spot.Follows → ArrayRun.Straight items acts r →
      (ArrayRun.run items acts r).stream.spot.Follows := by
  induction acts with
  | nil => exact fun h _ => h
  | cons act acts ih => exact fun h hstraight => ih (act_follows h hstraight.1) hstraight.2

/-- In a run whose turns read no byte again, but with the parser of an element, the position is that
of the bytes that have been taken, at every point. -/
theorem arrayStream_exact (items : ItemParser π ω) (source : ArraySource) (user : ω) (path : Bytes)
    (rejectDuplicateKeys : Bool) (acts : List ArrayAct)
    (h : ArrayRun.Straight items acts ⟨.opened source user path rejectDuplicateKeys, none⟩) :
    (ArrayRun.run items acts ⟨.opened source user path rejectDuplicateKeys, none⟩).stream.Exact := by
  refine ArraySpot.Follows.exact (run_follows acts ⟨fun _ => rfl, fun ch hsome => ?_⟩ h)
  cases hsome

/-- A reader that returns `[1,2]` at once, read for raw elements. -/
def twoItems : ArrayRun (Parser Unit) Unit :=
  ⟨.opened (.reader [{ bytes := [0x5b, 0x31, 0x2c, 0x32, 0x5d] }]) () [] false, none⟩

def rawItems : ItemParser (Parser Unit) Unit := validatorItems Env.bare () fun _ user _ => (user, .ok)

/-- The acts up to the first element. -/
def firstItem : List ArrayAct := .call { mode := .raw } :: List.replicate 5 .turn

/-- Up to the first element, the position is that of the bytes taken. -/
theorem arrayStream_exact_first : (ArrayRun.run rawItems firstItem twoItems).stream.Exact := by
  refine arrayStream_exact rawItems _ () [] false firstItem ?_
  decide

/-- With the call behind the first element the position falls behind. -/
theorem arrayStream_behind :
    ¬ ∀ acts, (ArrayRun.run rawItems acts twoItems).stream.Exact := by
  intro h
  have hoffset := (h (firstItem ++ [.call { mode := .raw }, .turn])).offset
  revert hoffset
  decide

end Lonejson
