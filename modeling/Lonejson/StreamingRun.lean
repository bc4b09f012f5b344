import Lonejson.StreamingSteps

/-!
# Runs through a streamed value

However the text is cut into chunks, the parser reads a value to its end and goes on behind
it, or the run fails, and then the text starts with no value or with one that is denied.
-/

namespace Lonejson

open Json (Text Mode State Bracket)

variable {σ : Type}

section

variable {env : Env σ} {ptr : SlotPtr} {R : Recorder env ptr} {ref : FieldRef} {start : Parser σ}
  {ts : List Json.Token} {p : Parser σ}

/-! ## Where a value ends -/

theorem ScalarCore.alive (hR : R.Lawful) {inner : List Frame} {c : Core σ}
    (h : ScalarCore env R ts inner c) : c.failed = false := by
  rw [ScalarCore] at h
  split at h
  · exact (hR.waits_idle h.2).2
  · exact (hR.inside_live h).2.2.2

theorem Streams.alive (hR : R.Lawful) {st : State DecodeState} (h : Streams env R ref start ts p st) :
    p.core.failed = false := by
  cases h with
  | waits _ _ _ hcore => exact (hR.waits_idle hcore).2
  | between _ _ hcore => exact (hR.inside_live hcore).2.2.2
  | text hat => exact (hR.text_live hat.text.core).2.2
  | number hat => exact hat.core.alive hR
  | literal hat => exact hat.core.alive hR

theorem Streams.kept (hR : R.Lawful) {st : State DecodeState} (h : Streams env R ref start ts p st) :
    R.kept p.core := by
  cases h with
  | waits _ _ _ hcore => exact hR.waits_kept hcore
  | between _ _ hcore => exact hR.inside_kept hcore
  | text hat => exact hR.text_kept hat.text.core
  | number hat => exact hat.kept hR
  | literal hat => exact hat.kept hR

/-- Inside the value it has not ended. -/
theorem Streams.unended {st : State DecodeState} (h : Streams env R ref start ts p st) :
    Json.ended st = false := by
  cases h with
  | waits => rfl
  | @between f fs => cases frameMode (S := DecodeState) f.state f.afterComma <;> rfl
  | text => rfl
  | number => rfl
  | literal => rfl

theorem Finished.alive (hR : R.Lawful) (h : Finished env R ref start ts p) : p.core.failed = false :=
  (hR.ended_idle h.core).2

/-! ## Chunks -/

variable (env R ref start ts) in
/-- What the text `s` does to a run from inside the value, where `go` is the run on what is
left: the value ends in it and the run goes on, or the text is refused. -/
def Reaches {α : Type} (st : State DecodeState) (s : Text) (text : α → Text)
    (go : Parser σ → α → Parser σ × Status) (r : Parser σ × Status) : Prop :=
  (∃ ts' q rest, Finished env R ref start (ts ++ ts') q ∧
      Told st s ts' ⟨.after, []⟩ (text rest) ∧ r = go q rest) ∨
    (r.2.soft = false ∧ R.kept r.1.core ∧ Stops (Denied env R ref start) ts st s)

/-- The rest of a chunk, from inside the value. -/
theorem feedLoop_streams (hR : R.Lawful) (hstart : AwaitsValue env R ref start) (fuel : ℕ)
    {st : State DecodeState} (h : Streams env R ref start ts p st) (s : Bytes)
    (hfuel : s.length ≤ fuel) (i : ℕ) :
    let r := (feedLoop env false fuel p s i).1
    (r.2.soft = true ∧ ∃ ts' st', Streams env R ref start (ts ++ ts') r.1 st' ∧ Told st s ts' st' []) ∨
      Reaches env R ref start ts st s id (parserFeed env) r := by
  induction fuel generalizing ts p st s i with
  | zero =>
      obtain rfl : s = [] := List.eq_nil_of_length_eq_zero (by omega)
      refine .inl ⟨?_, [], st, by rw [List.append_nil]; exact h, Json.Tells.refl _ _⟩
      rw [feedLoop_nil, Parser.softStatus]
      split <;> rfl
  | succ fuel ih =>
      cases s with
      | nil =>
          refine .inl ⟨?_, [], st, by rw [List.append_nil]; exact h, Json.Tells.refl _ _⟩
          rw [feedLoop_nil, Parser.softStatus]
          split <;> rfl
      | cons ch rest =>
          have hlength (n : ℕ) (hn : 0 < n) : ((ch :: rest).drop n).length ≤ fuel := by
            rw [List.length_cons] at hfuel
            rw [List.length_drop, List.length_cons]
            omega
          rcases feedTurn_streams hR hstart h ch rest with
            ⟨n, ts', st', hnext, hpos, hle, htold, hfollows⟩ | ⟨ts', q, hfinished, htold, hturn⟩ |
            ⟨status, n, hstop, hhard, hkept, hstops⟩
          · rw [feedLoop, if_neg (by simp)]
            generalize feedTurn env p ch rest = turn at hnext hfollows ⊢
            obtain ⟨p', used⟩ := turn
            obtain rfl : used = .next n := hnext
            rcases hfollows with hstreams | ⟨rfl, hfinished⟩
            · rcases ih hstreams _ (hlength n hpos) (i + n) with
                ⟨hsoft, ts'', st'', hat, htold'⟩ | ⟨ts'', q, rest', hfinished, htold', hr⟩ |
                ⟨hhard, hkept, hstops⟩
              · rw [List.append_assoc] at hat
                exact .inl ⟨hsoft, ts' ++ ts'', st'', hat, htold.trans htold'⟩
              · rw [List.append_assoc] at hfinished
                exact .inr (.inl ⟨ts' ++ ts'', q, rest', hfinished, htold.trans htold', hr⟩)
              · exact .inr (.inr ⟨hhard, hkept, hstops.told htold⟩)
            · refine .inr (.inl ⟨ts', p', (ch :: rest).drop n, hfinished, htold, ?_⟩)
              exact (parserFeed_alive (hfinished.alive hR) _ (hlength n hpos) _).symm
          · -- The number had ended before this chunk.
            refine .inr (.inl ⟨ts', q, ch :: rest, hfinished, htold, ?_⟩)
            rw [parserFeed_alive (hfinished.alive hR) _ hfuel i, feedLoop, feedLoop,
              if_neg (by simp), if_neg (by simp), hturn]
          · rw [feedLoop, if_neg (by simp)]
            generalize feedTurn env p ch rest = turn at hstop hkept ⊢
            obtain ⟨p', used⟩ := turn
            obtain rfl : used = .stop status n := hstop
            exact .inr (.inr ⟨hhard, hR.kept_same hkept rfl rfl, hstops⟩)

/-- The chunks that are left, from inside the value. -/
theorem feedThen_streams (hR : R.Lawful) (hstart : AwaitsValue env R ref start)
    (last : Parser σ → Parser σ × Status) (chunks : List Bytes) {st : State DecodeState}
    (h : Streams env R ref start ts p st) :
    (∃ ts' st' q, Streams env R ref start (ts ++ ts') q st' ∧ Told st chunks.flatten ts' st' [] ∧
        feedThen env last p chunks = last q) ∨
      Reaches env R ref start ts st chunks.flatten List.flatten (feedThen env last)
        (feedThen env last p chunks) := by
  induction chunks generalizing ts p st with
  | nil => exact .inl ⟨[], st, p, by rwa [List.append_nil], Json.Tells.refl _ _, rfl⟩
  | cons chunk rest ih =>
      have hchunk := feedLoop_streams hR hstart chunk.length h chunk (le_refl _) 0
      rw [← parserFeed_alive (h.alive hR) chunk (le_refl _)] at hchunk
      rw [feedThen, List.flatten_cons]
      generalize parserFeed env p chunk = r at hchunk
      rcases hchunk with ⟨hsoft, ts', st', hat, htold⟩ | ⟨ts', q, tail, hfinished, htold, rfl⟩ |
        ⟨hhard, hkept, hstops⟩
      · rw [if_pos hsoft]
        have htold' : Told st (chunk ++ rest.flatten) ts' st' rest.flatten := htold.append rest.flatten
        rcases ih hat with ⟨ts'', st'', q, hstreams, hend, hresult⟩ |
          ⟨ts'', q, rest', hfinished, hend, hr⟩ | ⟨hhard, hkept, hstops⟩
        · rw [List.append_assoc] at hstreams
          exact .inl ⟨ts' ++ ts'', st'', q, hstreams, htold'.trans hend, hresult⟩
        · rw [List.append_assoc] at hfinished
          exact .inr (.inl ⟨ts' ++ ts'', q, rest', hfinished, htold'.trans hend, hr⟩)
        · exact .inr (.inr ⟨hhard, hkept, hstops.told htold'⟩)
      · refine .inr (.inl ⟨ts', q, tail :: rest, hfinished, ?_, ?_⟩)
        · exact htold.append rest.flatten
        · rw [feedThen]
      · rw [if_neg (by simp [hhard])]
        exact .inr (.inr ⟨hhard, hkept, hstops.append _⟩)

theorem AwaitsValue.streams (h : AwaitsValue env R ref start) :
    Streams env R ref start [] start ⟨.value, []⟩ := by
  obtain ⟨f, fs, hframes, hwaits⟩ := h.frame
  have hat : Located env ptr ref start [] [] start :=
    { frames := ⟨f, fs, hframes, hwaits, by rw [hframes]; rfl⟩
      home := fun _ => rfl
      open_frames := fun _ h => nomatch h
      top := rfl
      started := h.started
      granted := ValueRoom.grants_nil env _ }
  exact .waits hat rfl h.lex h.core

/-- A value that is told was not denied. -/
theorem Finished.not_denied (hdeny : R.ended (R.exit (start.markedText env ref) ts) p.core →
    ¬ R.deny ts) (h : Finished env R ref start ts p) : ¬ Denied env R ref start ts := by
  rintro (hmarks | hfits | hdenied)
  · rw [h.granted.marks h.told] at hmarks
    cases hmarks
  · rw [h.granted.fits] at hfits
    cases hfits
  · exact hdeny h.core hdenied

/-- A run over a text that starts with a value, from a member that waits for it: the value is
denied and the run fails, or the run goes on behind it. -/
theorem feedThen_value (hR : R.Lawful) (hstart : AwaitsValue env R ref start)
    (last : Parser σ → Parser σ × Status) {chunks : List Bytes} {tail : Text}
    (htokens : valueTokens ⟨.value, []⟩ chunks.flatten = some (ts, tail)) :
    (∃ q rest, rest.flatten = tail ∧ Finished env R ref start ts q ∧
        feedThen env last start chunks = feedThen env last q rest) ∨
      ((feedThen env last start chunks).2.soft = false ∧
        R.kept (feedThen env last start chunks).1.core ∧ Denied env R ref start ts) := by
  have htold {ts' : List Json.Token} {st' : State DecodeState} {s' : Text}
      (h : Told ⟨.value, []⟩ chunks.flatten ts' st' s') :
      some (ts, tail) = Json.behind ts' (valueTokens st' s') := by
    have h := h []
    rw [List.append_nil, List.append_nil] at h
    exact htokens.symm.trans h
  rcases feedThen_streams hR hstart last chunks hstart.streams with
    ⟨ts', st', q, hstreams, hend, -⟩ | ⟨ts', q, rest, hfinished, hend, hr⟩ | ⟨hhard, hkept, hstops⟩
  · -- The value would not have ended.
    have hnone : valueTokens st' [] = none := by
      rw [valueTokens, Json.valueEnd, if_neg (by simp [hstreams.unended])]
    have htokens' := htold hend
    rw [hnone] at htokens'
    cases htokens'
  · have htokens' := htold hend
    rw [valueTokens, Json.valueEnd_ended] at htokens'
    obtain ⟨rfl, rfl⟩ : ts = ts' ∧ tail = rest.flatten := by simpa [Json.behind] using htokens'
    exact .inl ⟨q, rest, rfl, hfinished, hr⟩
  · refine .inr ⟨hhard, hkept, hstops [] ts tail ?_⟩
    rw [List.append_nil]
    exact htokens

/-- A blank behind the value is taken. -/
theorem Finished.blank (hR : R.Lawful) (h : Finished env R ref start ts p) {b : Byte}
    (hb : isJsonSpace b = true) (last : Parser σ → Parser σ × Status) {chunks : List Bytes}
    (hchunks : chunks.flatten = [b]) :
    feedThen env last p chunks = last { p with pos := p.pos.step b } := by
  have halive := h.alive hR
  induction chunks with
  | nil => cases hchunks
  | cons chunk rest ih =>
      cases chunk with
      | nil =>
          obtain ⟨hsame, hsoft⟩ := @parserFeed_nil _ env _ halive
          rw [feedThen, if_pos hsoft, hsame]
          exact ih hchunks
      | cons b' tail =>
          rw [List.flatten_cons, List.cons_append, List.cons.injEq] at hchunks
          obtain ⟨rfl, hrest⟩ := hchunks
          obtain ⟨rfl, hrest⟩ := List.append_eq_nil_iff.mp hrest
          obtain ⟨f, fs, hframes, -⟩ := h.frame
          have hfeed : parserFeed env p [b'] = parserFeed env { p with pos := p.pos.step b' } [] := by
            have hturn := feedTurn_behind hR (.inr ⟨rfl, h⟩ : Follows env R ref start ts p ⟨.after, []⟩)
              b' []
            rw [structuralChar_eq hframes h.started, if_pos hb, turnSoft_ok rfl] at hturn
            rw [parserFeed_alive halive _ (le_refl _) 0, List.length_singleton, feedLoop,
              if_neg (by simp), hturn]
            exact (parserFeed_alive (by exact halive) [] (le_refl _) _).symm
          obtain ⟨hsame, hsoft⟩ := @parserFeed_nil _ env { p with pos := p.pos.step b' } halive
          rw [feedThen, hfeed, if_pos hsoft, hsame]
          exact feedThen_empty last (by exact halive) hrest

end

end Lonejson
