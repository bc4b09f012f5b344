import Lonejson.Validator

/-!
# Documents of unknown keys

A mapped parser none of whose keys occurs in a document stores nothing of it, but it does
not read the document as the validating parser does: a key without escapes is taken from
the chunk as it stands, also behind a high surrogate that no low one completes, and the
other strings have to fit the token.
-/

namespace Lonejson

open Json (Text Lexer Machine Rules Document RootObject)

variable {σ : Type}

/-! ## The lexers of tokens -/

/-- Room for every text. -/
def freely (_ : ℕ) : Bool := true

/-- A text that is not in the token yet, or that the token has room for. -/
def TokenState.Roomy (room : ℕ → Bool) (q : TokenState) : Prop :=
  q.fresh = true ∨ q.text = [] ∨ room q.text.length = true

/-- What a step of a lexer does to the text: it never gets shorter, and it keeps to the
room. -/
structure TextGrows (room : ℕ → Bool) (q q' : TokenState) : Prop where
  length : q.text.length ≤ q'.text.length
  roomy : q.Roomy room → q'.Roomy room

theorem TokenState.append_grows {q q' : TokenState} {room : ℕ → Bool} {data : Bytes}
    (h : q.append room data = some q') : q.append freely data = some q' ∧ TextGrows room q q' := by
  unfold append at h ⊢
  split at h
  · next hroom =>
    cases h
    exact ⟨if_pos rfl, by simp, fun _ => .inr (.inr (by simpa using hroom))⟩
  · cases h

theorem TokenState.append_of_free {q q' : TokenState} {room : ℕ → Bool} {data : Bytes}
    (hdata : data ≠ []) (h : q.append freely data = some q')
    (hroom : q'.text = [] ∨ room q'.text.length = true) : q.append room data = some q' := by
  unfold append at h ⊢
  cases h
  rw [if_pos]
  simpa [hdata] using hroom

theorem TokenState.appendCodepoint_grows {q q' : TokenState} {room : ℕ → Bool} {cp : ℕ}
    (h : q.appendCodepoint room cp = some q') :
    q.appendCodepoint freely cp = some q' ∧ TextGrows room q q' := by
  obtain ⟨data, hdata, happend⟩ := Option.bind_eq_some_iff.mp h
  obtain ⟨hfree, hgrows⟩ := append_grows happend
  exact ⟨Option.bind_eq_some_iff.mpr ⟨data, hdata, hfree⟩, hgrows⟩

theorem TokenState.appendCodepoint_of_free {q q' : TokenState} {room : ℕ → Bool} {cp : ℕ}
    (h : q.appendCodepoint freely cp = some q')
    (hroom : q'.text = [] ∨ room q'.text.length = true) : q.appendCodepoint room cp = some q' := by
  obtain ⟨data, hdata, happend⟩ := Option.bind_eq_some_iff.mp h
  exact Option.bind_eq_some_iff.mpr
    ⟨data, hdata, append_of_free (utf8Encode_ne_nil hdata) happend hroom⟩

theorem TokenState.unit_grows {q q' : TokenState} {room : ℕ → Bool} {cp : ℕ}
    (h : q.unit room cp = some q') : q.unit freely cp = some q' ∧ TextGrows room q q' := by
  unfold unit at h ⊢
  split_ifs at h ⊢
  · obtain ⟨hfree, hgrows⟩ := appendCodepoint_grows h
    exact ⟨hfree, hgrows.length, hgrows.roomy⟩
  · cases h
    exact ⟨rfl, le_refl _, fun hroomy => hroomy⟩
  · exact appendCodepoint_grows h

theorem TokenState.unit_of_free {q q' : TokenState} {room : ℕ → Bool} {cp : ℕ}
    (h : q.unit freely cp = some q') (hroom : q'.text = [] ∨ room q'.text.length = true) :
    q.unit room cp = some q' := by
  unfold unit at h ⊢
  split_ifs at h ⊢
  · exact appendCodepoint_of_free h hroom
  · exact h
  · exact appendCodepoint_of_free h hroom

theorem map_some_eq {S : Type} {o : Option S} {o' : Option S} :
    o.map some = some o' ↔ ∃ s, o' = some s ∧ o = some s := by
  cases o <;> cases o' <;> simp [eq_comm]

/-- A lexer with little room takes what one with free room takes. -/
theorem next_grows {w w' : Bool} {room : ℕ → Bool} {q : TokenState} {b : Byte}
    {o : Option TokenState} (h : (tokenLexer w room).next q b = some o) :
    (tokenLexer w' freely).next q b = some o ∧ ∀ q', o = some q' → TextGrows room q q' := by
  simp only [tokenLexer] at h ⊢
  cases hphase : q.phase with
  | body =>
      rw [hphase] at h
      dsimp only at h ⊢
      by_cases hquote : b = 0x22
      · rw [if_pos hquote] at h ⊢
        rw [Option.ite_none_left_eq_some] at h
        obtain ⟨hclose, ho⟩ := h
        rw [if_neg hclose]
        exact ⟨ho, fun q' hq' => by simp [hq'] at ho⟩
      rw [if_neg hquote] at h ⊢
      by_cases hback : b = 0x5c
      · rw [if_pos hback] at h ⊢
        rw [Option.ite_none_left_eq_some] at h
        obtain ⟨hroom, ho⟩ := h
        refine ⟨by simpa [freely] using ho, fun q' hq' => ?_⟩
        obtain rfl := Option.some.inj ((Option.some.inj ho).trans hq')
        refine ⟨le_refl _, fun hroomy => .inr ?_⟩
        rcases hroomy with hfresh | htext
        · by_cases htext : q.text = []
          · exact .inl htext
          · exact .inr (by simpa [hfresh, htext] using hroom)
        · exact htext
      rw [if_neg hback] at h ⊢
      by_cases hcontrol : b < 0x20
      · rw [if_pos hcontrol] at h
        cases h
      rw [if_neg hcontrol] at h ⊢
      by_cases hfresh : q.fresh = true
      · rw [if_pos hfresh] at h ⊢
        refine ⟨h, fun q' hq' => ?_⟩
        obtain rfl := Option.some.inj ((Option.some.inj h).trans hq')
        exact ⟨by simp, fun _ => .inl hfresh⟩
      · rw [if_neg hfresh] at h ⊢
        obtain ⟨s, rfl, hs⟩ := map_some_eq.mp h
        obtain ⟨hfree, hgrows⟩ := TokenState.append_grows hs
        rw [hfree]
        exact ⟨rfl, fun q' hq' => Option.some.inj hq' ▸ hgrows⟩
  | escape =>
      rw [hphase] at h
      dsimp only at h ⊢
      cases hsimple : simpleEscape b with
      | some ch =>
          rw [hsimple] at h
          obtain ⟨s, rfl, hs⟩ := map_some_eq.mp h
          obtain ⟨hfree, hgrows⟩ := TokenState.append_grows hs
          dsimp only
          rw [hfree]
          exact ⟨rfl, fun q' hq' => Option.some.inj hq' ▸ hgrows⟩
      | none =>
          rw [hsimple] at h
          refine ⟨h, fun q' hq' => ?_⟩
          dsimp only at h
          rw [Option.ite_none_right_eq_some] at h
          obtain rfl := Option.some.inj ((Option.some.inj h.2).trans hq')
          exact ⟨le_refl _, fun hroomy => hroomy⟩
  | hex needed accum =>
      rw [hphase] at h
      dsimp only at h ⊢
      cases hhex : hexValue b with
      | none => simp [hhex] at h
      | some hv =>
          rw [hhex] at h
          dsimp only at h ⊢
          by_cases hmore : needed - 1 ≠ 0
          · rw [if_pos hmore] at h ⊢
            refine ⟨h, fun q' hq' => ?_⟩
            obtain rfl := Option.some.inj ((Option.some.inj h).trans hq')
            exact ⟨le_refl _, fun hroomy => hroomy⟩
          · rw [if_neg hmore] at h ⊢
            obtain ⟨s, rfl, hs⟩ := map_some_eq.mp h
            obtain ⟨hfree, hgrows⟩ := TokenState.unit_grows hs
            rw [hfree]
            exact ⟨rfl, fun q' hq' => Option.some.inj hq' ▸ hgrows⟩

/-- A lexer with little room takes what one with free room takes when the text fits. -/
theorem next_of_free {w w' : Bool} {room : ℕ → Bool} {q : TokenState} {b : Byte}
    {o : Option TokenState} (h : (tokenLexer w freely).next q b = some o)
    (hroom : ∀ q', o = some q' → q'.text = [] ∨ room q'.text.length = true) :
    (tokenLexer w' room).next q b = some o := by
  simp only [tokenLexer] at h ⊢
  cases hphase : q.phase with
  | body =>
      rw [hphase] at h
      dsimp only at h ⊢
      by_cases hquote : b = 0x22
      · rwa [if_pos hquote] at h ⊢
      rw [if_neg hquote] at h ⊢
      by_cases hback : b = 0x5c
      · rw [if_pos hback] at h ⊢
        simp only [freely, Bool.not_true, Bool.and_false, Bool.false_eq_true, if_false] at h
        obtain rfl := Option.some.inj h
        have htext := hroom _ rfl
        rw [if_neg]
        rcases htext with htext | htext
        · simp [show q.text = [] from htext]
        · simp [show room q.text.length = true from htext]
      rw [if_neg hback] at h ⊢
      by_cases hcontrol : b < 0x20
      · rwa [if_pos hcontrol] at h ⊢
      rw [if_neg hcontrol] at h ⊢
      by_cases hfresh : q.fresh = true
      · rwa [if_pos hfresh] at h ⊢
      · rw [if_neg hfresh] at h ⊢
        obtain ⟨s, rfl, hs⟩ := map_some_eq.mp h
        rw [TokenState.append_of_free (by simp) hs (hroom s rfl)]
        rfl
  | escape =>
      rw [hphase] at h
      dsimp only at h ⊢
      cases hsimple : simpleEscape b with
      | some ch =>
          rw [hsimple] at h
          obtain ⟨s, rfl, hs⟩ := map_some_eq.mp h
          dsimp only
          rw [TokenState.append_of_free (by simp) hs (hroom s rfl)]
          rfl
      | none =>
          rwa [hsimple] at h
  | hex needed accum =>
      rw [hphase] at h
      dsimp only at h ⊢
      cases hhex : hexValue b with
      | none => simp [hhex] at h
      | some hv =>
          rw [hhex] at h
          dsimp only at h ⊢
          by_cases hmore : needed - 1 ≠ 0
          · rwa [if_pos hmore] at h ⊢
          · rw [if_neg hmore] at h ⊢
            obtain ⟨s, rfl, hs⟩ := map_some_eq.mp h
            rw [TokenState.unit_of_free hs (hroom s rfl)]
            rfl

/-! ## Fresh texts -/

/-- What a lexer with free room can do at a byte. -/
inductive FreeStep (q : TokenState) (b : Byte) : Option TokenState → Prop where
  | close (hphase : q.phase = .body) (hb : b = 0x22) (hdone : q.high = 0 ∨ q.fresh = true) :
      FreeStep q b none
  | backslash (hphase : q.phase = .body) (hb : b = 0x5c) :
      FreeStep q b (some { q with phase := .escape, fresh := q.fresh && q.text.isEmpty })
  | plain (hphase : q.phase = .body) (hb : isPlain b = true) :
      FreeStep q b (some { q with text := q.text ++ [b] })
  | escape {ch : Byte} (hphase : q.phase = .escape) (hb : simpleEscape b = some ch) :
      FreeStep q b (some { q with phase := .body, text := q.text ++ [ch], fresh := false })
  | unicode (hphase : q.phase = .escape) (hb : b = 0x75) :
      FreeStep q b (some { q with phase := .hex 4 0 })
  | digit {needed accum hv : ℕ} (hphase : q.phase = .hex needed accum)
      (hb : hexValue b = some hv) (hmore : needed - 1 ≠ 0) :
      FreeStep q b (some { q with phase := .hex (needed - 1) (pushHex accum hv) })
  | unit {needed accum hv : ℕ} {s : TokenState} (hphase : q.phase = .hex needed accum)
      (hb : hexValue b = some hv) (hlast : needed - 1 = 0)
      (hunit : q.unit freely (pushHex accum hv) = some s) : FreeStep q b (some s)

theorem TokenState.append_freely (q : TokenState) (data : Bytes) : q.append freely data =
    some { q with phase := .body, text := q.text ++ data, fresh := false } :=
  if_pos rfl

theorem next_freely {w : Bool} {q : TokenState} {b : Byte} {o : Option TokenState} :
    (tokenLexer w freely).next q b = some o ↔ FreeStep q b o := by
  constructor
  · intro h
    simp only [tokenLexer] at h
    cases hphase : q.phase with
    | body =>
        rw [hphase] at h
        dsimp only at h
        by_cases hquote : b = 0x22
        · rw [if_pos hquote, Option.ite_none_left_eq_some] at h
          obtain rfl := Option.some.inj h.2
          refine .close hphase hquote ?_
          have hopen := h.1
          by_cases hhigh : q.high = 0
          · exact .inl hhigh
          · exact .inr (by simpa [hhigh] using hopen)
        rw [if_neg hquote] at h
        by_cases hback : b = 0x5c
        · rw [if_pos hback, if_neg (by simp [freely])] at h
          obtain rfl := Option.some.inj h
          exact .backslash hphase hback
        rw [if_neg hback] at h
        by_cases hcontrol : b < 0x20
        · simp [hcontrol] at h
        rw [if_neg hcontrol] at h
        have hplain : isPlain b = true := isPlain_iff.mpr ⟨hquote, hback, hcontrol⟩
        cases hfresh : q.fresh with
        | true =>
            rw [if_pos hfresh] at h
            obtain rfl := Option.some.inj h
            have hstep := FreeStep.plain hphase hplain
            rwa [hphase] at hstep
        | false =>
            rw [if_neg (by simp [hfresh]), TokenState.append_freely] at h
            obtain rfl := Option.some.inj h
            have hstep := FreeStep.plain hphase hplain
            rwa [hphase, hfresh] at hstep
    | escape =>
        rw [hphase] at h
        dsimp only at h
        cases hsimple : simpleEscape b with
        | some ch =>
            rw [hsimple] at h
            dsimp only at h
            rw [TokenState.append_freely] at h
            obtain rfl := Option.some.inj h
            exact .escape hphase hsimple
        | none =>
            rw [hsimple] at h
            dsimp only at h
            rw [Option.ite_none_right_eq_some] at h
            obtain rfl := Option.some.inj h.2
            exact .unicode hphase h.1
    | hex needed accum =>
        rw [hphase] at h
        dsimp only at h
        cases hhex : hexValue b with
        | none => simp [hhex] at h
        | some hv =>
            rw [hhex] at h
            dsimp only at h
            by_cases hmore : needed - 1 ≠ 0
            · rw [if_pos hmore] at h
              obtain rfl := Option.some.inj h
              exact .digit hphase hhex hmore
            · rw [if_neg hmore] at h
              obtain ⟨s, rfl, hs⟩ := map_some_eq.mp h
              exact .unit hphase hhex (not_not.mp hmore) hs
  · intro h
    simp only [tokenLexer]
    cases h with
    | close hphase hb hdone =>
        rw [hphase]
        rcases hdone with hdone | hdone <;> simp [hb, hdone]
    | backslash hphase hb =>
        rw [hphase]
        simp [hb, freely]
    | plain hphase hb =>
        obtain ⟨hquote, hback, hcontrol⟩ := isPlain_iff.mp hb
        rw [hphase]
        dsimp only
        rw [if_neg hquote, if_neg hback, if_neg hcontrol]
        cases hfresh : q.fresh with
        | true => simp
        | false => simp [TokenState.append_freely]
    | escape hphase hb =>
        rw [hphase]
        dsimp only
        rw [hb]
        dsimp only
        rw [TokenState.append_freely]
        rfl
    | unicode hphase hb =>
        rw [hphase, hb]
        rfl
    | digit hphase hb hmore =>
        rw [hphase]
        dsimp only
        rw [hb]
        exact if_pos hmore
    | unit hphase hb hlast hunit =>
        rw [hphase]
        dsimp only
        rw [hb]
        dsimp only
        rw [if_neg (not_not.mpr hlast), hunit]
        rfl

/-- Two states that differ in nothing but whether the text may be taken from the chunk. -/
structure TokenState.Like (q q' : TokenState) : Prop where
  phase : q.phase = q'.phase
  high : q.high = q'.high
  text : q.text = q'.text

/-- A code unit leaves a text that is not fresh, unless it is a high surrogate that
waits. -/
theorem TokenState.unit_cases {q s : TokenState} {cp : ℕ} (h : q.unit freely cp = some s) :
    (s.fresh = false ∧ (q.high = 0 → s.high = 0)) ∨
      (q.high = 0 ∧ isHighSurrogate cp = true ∧ s = { q with phase := .body, high := cp }) := by
  unfold unit at h
  split_ifs at h with hpending hlow hhigh hlow
  · exact .inl ⟨(appendCodepoint_eq_some h).2, fun hzero => absurd hzero hpending⟩
  · exact .inr ⟨not_not.mp hpending, hhigh, (Option.some.inj h).symm⟩
  · obtain ⟨data, -, happend⟩ := Option.bind_eq_some_iff.mp h
    rw [append_freely] at happend
    obtain rfl := Option.some.inj happend
    exact .inl ⟨rfl, fun hzero => hzero⟩

theorem TokenState.Like.unit {q q' s : TokenState} (h : q.Like q') {cp : ℕ}
    (hunit : q.unit freely cp = some s) : ∃ s', q'.unit freely cp = some s' ∧ s.Like s' := by
  obtain ⟨hphase, hhigh, htext⟩ := h
  unfold TokenState.unit TokenState.appendCodepoint at hunit ⊢
  simp only [TokenState.append_freely] at hunit ⊢
  rw [← hhigh, ← htext]
  split_ifs at hunit ⊢
  · obtain ⟨data, hdata, hs⟩ := Option.bind_eq_some_iff.mp hunit
    obtain rfl := Option.some.inj hs
    exact ⟨_, Option.bind_eq_some_iff.mpr ⟨data, hdata, rfl⟩, rfl, rfl, rfl⟩
  · obtain rfl := Option.some.inj hunit
    exact ⟨_, rfl, rfl, rfl, rfl⟩
  · obtain ⟨data, hdata, hs⟩ := Option.bind_eq_some_iff.mp hunit
    obtain rfl := Option.some.inj hs
    exact ⟨_, Option.bind_eq_some_iff.mpr ⟨data, hdata, rfl⟩, rfl, rfl, rfl⟩

/-- States that are alike take the same bytes. -/
theorem TokenState.Like.step {q q' s : TokenState} (h : q.Like q') {b : Byte}
    (hstep : FreeStep q b (some s)) : ∃ s', FreeStep q' b (some s') ∧ s.Like s' := by
  obtain ⟨hphase, hhigh, htext⟩ := h
  cases hstep with
  | backslash hbody hb => exact ⟨_, .backslash (hphase ▸ hbody) hb, rfl, hhigh, htext⟩
  | plain hbody hb =>
      exact ⟨_, .plain (hphase ▸ hbody) hb, hphase, hhigh, by simp [htext]⟩
  | escape hescape hb =>
      exact ⟨_, .escape (hphase ▸ hescape) hb, rfl, hhigh, by simp [htext]⟩
  | unicode hescape hb => exact ⟨_, .unicode (hphase ▸ hescape) hb, rfl, hhigh, htext⟩
  | digit hhex hb hmore => exact ⟨_, .digit (hphase ▸ hhex) hb hmore, rfl, hhigh, htext⟩
  | unit hhex hb hlast hunit =>
      obtain ⟨s', hs', hlike⟩ := TokenState.Like.unit ⟨hphase, hhigh, htext⟩ hunit
      exact ⟨s', .unit (hphase ▸ hhex) hb hlast hs', hlike⟩

/-- A text that is not fresh stays so. -/
theorem FreeStep.stale {q s : TokenState} {b : Byte} (h : FreeStep q b (some s))
    (hq : q.fresh = false) : s.fresh = false := by
  cases h with
  | backslash => simp [hq]
  | plain => exact hq
  | escape => rfl
  | unicode => exact hq
  | digit => exact hq
  | unit _ _ _ hunit =>
      rcases TokenState.unit_cases hunit with ⟨hs, -⟩ | ⟨-, -, rfl⟩
      · exact hs
      · exact hq

/-- The lexer whose texts all have room. -/
abbrev freeLexer : Lexer TokenState := tokenLexer false freely

theorem ends_stale {q t : TokenState} {i r : Text} (h : freeLexer.Ends q i t r)
    (hq : q.fresh = false) : t.fresh = false := by
  induction h with
  | close => exact hq
  | step hnext _ ih => exact ih ((next_freely.mp hnext).stale hq)

theorem ends_close {q t : TokenState} {i r : Text} (h : freeLexer.Ends q i t r) :
    t.high = 0 ∨ t.fresh = true := by
  induction h with
  | close hnext =>
      cases next_freely.mp hnext with
      | close _ _ hdone => exact hdone
  | step _ _ ih => exact ih

/-- States that are alike read the same texts, unless a high surrogate is left over. -/
theorem TokenState.Like.ends {q q' t : TokenState} {i r : Text} (h : freeLexer.Ends q i t r)
    (hlike : q.Like q') (ht : t.high = 0) : ∃ t', freeLexer.Ends q' i t' r ∧ t.Like t' := by
  induction h generalizing q' with
  | close hnext =>
      cases next_freely.mp hnext with
      | close hphase hb _ =>
          exact ⟨q', .close (next_freely.mpr (.close (hlike.phase ▸ hphase) hb
            (.inl (hlike.high ▸ ht)))), hlike⟩
  | step hnext _ ih =>
      obtain ⟨s', hstep, hs⟩ := hlike.step (next_freely.mp hnext)
      obtain ⟨t', hends, ht'⟩ := ih hs ht
      exact ⟨t', .step (next_freely.mpr hstep) hends, ht'⟩

/-! ## Lone high surrogates -/

/-- A fresh text with bytes in it ends at the quote behind a run of plain bytes. -/
theorem ends_plain {q t : TokenState} {i r : Text} (h : freeLexer.Ends q i t r)
    (hphase : q.phase = .body) (htext : q.text ≠ []) (ht : t.fresh = true) :
    t.high = q.high ∧ ∃ key, (∀ b ∈ key, isPlain b = true) ∧ i = key ++ 0x22 :: r := by
  induction h with
  | close hnext =>
      cases next_freely.mp hnext with
      | close _ hb _ => exact ⟨rfl, [], by simp, by rw [hb]; rfl⟩
  | @step q s t b i r hnext hrest ih =>
      have hstep := next_freely.mp hnext
      cases hstep with
      | backslash _ _ =>
          have hstale := ends_stale hrest (by simp [htext])
          simp [hstale] at ht
      | plain _ hb =>
          obtain ⟨hhigh, key, hkey, hi⟩ := ih hphase (by simp) ht
          refine ⟨hhigh, b :: key, fun c hc => ?_, by rw [hi]; rfl⟩
          rcases List.mem_cons.mp hc with rfl | hc
          · exact hb
          · exact hkey c hc
      | escape hescape _ => simp [hphase] at hescape
      | unicode hescape _ => simp [hphase] at hescape
      | digit hhex _ _ => simp [hphase] at hhex
      | unit hhex _ _ _ => simp [hphase] at hhex

/-- Nothing but its low half may follow a high surrogate in an escape, and then the text is
not fresh. -/
theorem ends_pending {q t : TokenState} {i r : Text} (h : freeLexer.Ends q i t r)
    (hphase : q.phase ≠ .body) (hhigh : q.high ≠ 0) : t.fresh = false := by
  induction h with
  | close hnext =>
      cases next_freely.mp hnext with
      | close hbody _ _ => exact absurd hbody hphase
  | step hnext hrest ih =>
      cases next_freely.mp hnext with
      | backslash hbody _ => exact absurd hbody hphase
      | plain hbody _ => exact absurd hbody hphase
      | escape _ _ => exact ends_stale hrest rfl
      | unicode _ _ => exact ih (by simp) hhigh
      | digit _ _ _ => exact ih (by simp) hhigh
      | unit _ _ _ hunit =>
          rcases TokenState.unit_cases hunit with ⟨hs, -⟩ | ⟨hzero, -, -⟩
          · exact ends_stale hrest hs
          · exact absurd hzero hhigh

/-- Behind a high surrogate, a fresh text ends at the quote behind a run of plain bytes. -/
theorem ends_high {q t : TokenState} {i r : Text} (h : freeLexer.Ends q i t r)
    (hphase : q.phase = .body) (hhigh : q.high ≠ 0) (ht : t.fresh = true) :
    ∃ key, (∀ b ∈ key, isPlain b = true) ∧ i = key ++ 0x22 :: r := by
  cases h with
  | close hnext =>
      cases next_freely.mp hnext with
      | close _ hb _ => exact ⟨[], by simp, by rw [hb]; rfl⟩
  | step hnext hrest =>
      cases next_freely.mp hnext with
      | backslash _ _ =>
          have hstale := ends_pending hrest (by simp) hhigh
          simp [hstale] at ht
      | @plain _ hb =>
          obtain ⟨-, key, hkey, rfl⟩ := ends_plain hrest hphase (by simp) ht
          refine ⟨_ :: key, fun c hc => ?_, rfl⟩
          rcases List.mem_cons.mp hc with rfl | hc
          · exact hb
          · exact hkey c hc
      | escape hescape _ => simp [hphase] at hescape
      | unicode hescape _ => simp [hphase] at hescape
      | digit hhex _ _ => simp [hphase] at hhex
      | unit hhex _ _ _ => simp [hphase] at hhex

/-- The digits of an escape that leaves a high surrogate in a fresh text. -/
theorem ends_hex {q t : TokenState} {needed accum : ℕ} {i r : Text}
    (h : freeLexer.Ends q i t r) (hphase : q.phase = .hex (needed + 1) accum) :
    ∃ b j hv, i = b :: j ∧ hexValue b = some hv ∧
      (needed ≠ 0 → freeLexer.Ends { q with phase := .hex needed (pushHex accum hv) } j t r) ∧
      (needed = 0 → ∃ s, q.unit freely (pushHex accum hv) = some s ∧ freeLexer.Ends s j t r) := by
  cases h with
  | close hnext =>
      cases next_freely.mp hnext with
      | close hbody _ _ => simp [hphase] at hbody
  | step hnext hrest =>
      cases next_freely.mp hnext with
      | backslash hbody _ => simp [hphase] at hbody
      | plain hbody _ => simp [hphase] at hbody
      | escape hescape _ => simp [hphase] at hescape
      | unicode hescape _ => simp [hphase] at hescape
      | digit hhex hb hmore =>
          obtain ⟨rfl, rfl⟩ := TokenPhase.hex.inj (hhex.symm.trans hphase)
          exact ⟨_, _, _, rfl, hb, fun _ => hrest, fun hzero => by simp [hzero] at hmore⟩
      | unit hhex hb hlast hunit =>
          obtain ⟨rfl, rfl⟩ := TokenPhase.hex.inj (hhex.symm.trans hphase)
          exact ⟨_, _, _, rfl, hb, fun hne => by simp [hne] at hlast, fun _ => ⟨_, hunit, hrest⟩⟩

/-- A key that ends with a high surrogate left over is the escape of that surrogate and a run
of plain bytes. -/
theorem ends_lone {t : TokenState} {i r : Text}
    (h : freeLexer.Ends { fresh := true } i t r) (ht : t.fresh = true) (hhigh : t.high ≠ 0) :
    ∃ a b c d cp key, decodeUnicodeQuad a b c d = some cp ∧ isHighSurrogate cp = true ∧
      (∀ b ∈ key, isPlain b = true) ∧ i = 0x5c :: 0x75 :: a :: b :: c :: d :: (key ++ 0x22 :: r) := by
  cases h with
  | close hnext => exact absurd rfl hhigh
  | step hnext hrest =>
      cases next_freely.mp hnext with
      | plain _ hb =>
          obtain ⟨hzero, -⟩ := ends_plain hrest rfl (by simp) ht
          exact absurd hzero hhigh
      | escape hescape _ => simp at hescape
      | unicode hescape _ => simp at hescape
      | digit hhex _ _ => simp at hhex
      | unit hhex _ _ _ => simp at hhex
      | backslash _ hback =>
          cases hrest with
          | close hnext =>
              cases next_freely.mp hnext with
              | close hbody _ _ => simp at hbody
          | step hnext hrest =>
              cases next_freely.mp hnext with
              | backslash hbody _ => simp at hbody
              | plain hbody _ => simp at hbody
              | digit hhex _ _ => simp at hhex
              | unit hhex _ _ _ => simp at hhex
              | escape _ _ =>
                  have hstale := ends_stale hrest rfl
                  simp [hstale] at ht
              | unicode _ hu =>
                  obtain ⟨a, i₁, va, rfl, ha, hrest, -⟩ := ends_hex hrest rfl
                  obtain ⟨b, i₂, vb, rfl, hb, hrest, -⟩ := ends_hex (hrest (by decide)) rfl
                  obtain ⟨c, i₃, vc, rfl, hc, hrest, -⟩ := ends_hex (hrest (by decide)) rfl
                  obtain ⟨d, i₄, vd, rfl, hd, -, hrest⟩ := ends_hex (hrest (by decide)) rfl
                  obtain ⟨s, hunit, hrest⟩ := hrest rfl
                  rcases TokenState.unit_cases hunit with ⟨hs, -⟩ | ⟨-, hcp, rfl⟩
                  · have hstale := ends_stale hrest hs
                    simp [hstale] at ht
                  · obtain ⟨key, hkey, rfl⟩ :=
                      ends_high hrest rfl (isHighSurrogate_ne_zero hcp) ht
                    refine ⟨a, b, c, d, _, key, ?_, hcp, hkey, by rw [hback, hu]⟩
                    exact decodeUnicodeQuad_eq_some.mpr
                      ⟨va, vb, vc, vd, ha, hb, hc, hd, rfl⟩

/-! ## The grammar of the mapped parser -/

/-- Texts that keep a lone high surrogate in a key, with limits for the room that quotes,
keys and strings need. -/
def skimRules (env : Env σ) (quote : ℕ → Bool) (keyFits stringFits : ℕ → ℕ → Bool) : Rules where
  stringTail d i r := ∃ t, freeLexer.Ends { fresh := false } i t r ∧ stringFits d t.text.length = true
  keyTail d i r := ∃ t, freeLexer.Ends { fresh := true } i t r ∧ keyFits d t.text.length = true
  number := JsonNumber
  fitsNumber d n := decide (n + 2 ≤ tokenRoom env d)
  fitsLiteral d n := decide (n + 2 ≤ tokenRoom env d)
  enter d b := if b = 0x22 then quote d else frameFits env d

/-- The token of a depth has room for a text; the empty one needs none. -/
def textFits (env : Env σ) (d n : ℕ) : Bool := n == 0 || decide (n + 2 ≤ tokenRoom env d)

/-- The texts that one of the two parsers accepts if nothing else limits it. -/
def eitherRules (env : Env σ) : Rules := skimRules env freely (fun _ => freely) fun _ => freely

/-- The same texts with keys that fit the token. -/
def keyRules (env : Env σ) : Rules := skimRules env freely (textFits env) fun _ => freely

/-- The same texts with room for every quote and string. -/
def stringRules (env : Env σ) : Rules :=
  skimRules env (fun d => tokenRoom env d != 0) (fun _ => freely) (textFits env)

/-- A machine for these texts. -/
def skimMachine (env : Env σ) (quote : ℕ → Bool) (keyFits stringFits : ℕ → ℕ → Bool) :
    Machine TokenState where
  lexer k d :=
    if k then (tokenLexer true freely).within fun q => keyFits d q.text.length
    else (tokenLexer false freely).within fun q => stringFits d q.text.length
  numberStart := isNumberStart
  numberByte := isNumberByte
  number := isValidJsonNumber
  fitsNumber d n := decide (n + 2 ≤ tokenRoom env d)
  fitsLiteral d n := decide (n + 2 ≤ tokenRoom env d)
  enter d b := if b = 0x22 then quote d else frameFits env d

/-- A limit that shorter texts meet. -/
structure LengthLimit (fits : ℕ → ℕ → Bool) : Prop where
  empty : ∀ d, fits d 0 = true
  mono : ∀ d n m, n ≤ m → fits d m = true → fits d n = true

theorem freely_limit : LengthLimit fun _ => freely := ⟨fun _ => rfl, fun _ _ _ _ _ => rfl⟩

theorem textFits_limit (env : Env σ) : LengthLimit (textFits env) where
  empty _ := rfl
  mono d n m hnm h := by
    simp only [textFits, Bool.or_eq_true, beq_iff_eq, decide_eq_true_eq] at h ⊢
    omega

theorem within_text_tail {w : Bool} {fits : ℕ → ℕ → Bool} (hfits : LengthLimit fits) (d : ℕ)
    (i r : Text) : ((tokenLexer w freely).within fun q => fits d q.text.length).Tail
      { fresh := w } i r ↔
        ∃ t, freeLexer.Ends { fresh := w } i t r ∧ fits d t.text.length = true := by
  have hback : ∀ (q q' : TokenState) (b : Byte), (tokenLexer w freely).next q b = some (some q') →
      fits d q'.text.length = true → fits d q.text.length = true := fun _ _ _ hnext hfit =>
    have hgrows := (next_grows hnext : (tokenLexer w freely).next _ _ = _ ∧ _).2 _ rfl
    hfits.mono d _ _ hgrows.length hfit
  have hstart : fits d ({ fresh := w } : TokenState).text.length = true := hfits.empty d
  have hnext : (tokenLexer w freely).next = freeLexer.next := rfl
  rw [Lexer.within_tail hback hstart]
  exact exists_congr fun t => and_congr_left' ⟨.congr hnext, .congr hnext.symm⟩

theorem skimMachine_rules (env : Env σ) (quote : ℕ → Bool) {keyFits stringFits : ℕ → ℕ → Bool}
    (hkey : LengthLimit keyFits) (hstring : LengthLimit stringFits) :
    (skimMachine env quote keyFits stringFits).rules = skimRules env quote keyFits stringFits := by
  refine Rules.ext ?_ ?_ ?_ rfl rfl rfl
  · funext d i r
    exact propext (within_text_tail hstring d i r)
  · funext d i r
    exact propext (within_text_tail hkey d i r)
  · funext t
    exact propext (isValidJsonNumber_iff t)

theorem skimMachine_accepts (env : Env σ) (quote : ℕ → Bool) {keyFits stringFits : ℕ → ℕ → Bool}
    (hkey : LengthLimit keyFits) (hstring : LengthLimit stringFits) (s : Text) :
    Json.accepts (skimMachine env quote keyFits stringFits) s = true ↔
      Document (skimRules env quote keyFits stringFits) s := by
  have hlawful : (skimMachine env quote keyFits stringFits).Lawful :=
    lawful_of_numbers rfl rfl rfl (fun _ _ _ => decide_mono) fun _ _ _ => decide_mono
  rw [Json.accepts_iff_document _ hlawful, skimMachine_rules env quote hkey hstring]

/-- The machine of a mapped parser, without the rules for its root. -/
def insideMachine (env : Env σ) : Machine TokenState where
  lexer := readerLexer env
  numberStart := isNumberStart
  numberByte := isNumberByte
  number := isValidJsonNumber
  fitsNumber d n := decide (n + 2 ≤ tokenRoom env d)
  fitsLiteral d n := decide (n + 2 ≤ tokenRoom env d)
  enter d b := if b = 0x22 then tokenRoom env d != 0 else frameFits env d

/-- With room for its strings and keys, a text that one of the two parsers may accept is one
that the mapped parser reads. -/
theorem inside_of_fits {env : Env σ} (hmapped : env.validateOnly = false) {s : Text}
    (hstrings : Document (stringRules env) s) (hkeys : Document (keyRules env) s) :
    Json.accepts (insideMachine env) s = true := by
  rw [stringRules, ← skimMachine_accepts env _ freely_limit (textFits_limit env)] at hstrings
  rw [keyRules, ← skimMachine_accepts env _ (textFits_limit env) freely_limit] at hkeys
  have hlexer (k : Bool) (d : ℕ) :
      readerLexer env k d = tokenLexer k (stringRoom env d) := by
    simp [readerLexer, hmapped]
  have hroom {d : ℕ} {q : TokenState} (h : textFits env d q.text.length = true) :
      q.text = [] ∨ stringRoom env d q.text.length = true := by
    simpa [textFits, stringRoom, hmapped] using h
  refine Machine.Meets.accepts ?_ hstrings hkeys
  refine ⟨fun k d => ?_, fun k d q b o o' h h' => ?_, ⟨rfl, rfl⟩, ⟨rfl, rfl⟩, ⟨rfl, rfl⟩,
    fun _ _ h _ => h, fun _ _ h _ => h, fun d b h h' => ?_⟩
  · rw [show (insideMachine env).lexer k d = _ from hlexer k d]
    cases k <;> exact ⟨rfl, rfl⟩
  · rw [show (insideMachine env).lexer k d = _ from hlexer k d]
    cases k with
    | true =>
        obtain ⟨hfree, -⟩ := Lexer.within_next h
        obtain ⟨hfree', hfits⟩ := Lexer.within_next h'
        obtain rfl := Option.some.inj (hfree.symm.trans hfree')
        exact ⟨rfl, next_of_free hfree fun q' hq' => hroom (hfits q' hq')⟩
    | false =>
        obtain ⟨hfree, hfits⟩ := Lexer.within_next h
        obtain ⟨hfree', -⟩ := Lexer.within_next h'
        obtain rfl := Option.some.inj (hfree.symm.trans hfree')
        exact ⟨rfl, next_of_free hfree fun q' hq' => hroom (hfits q' hq')⟩
  · exact h

/-- A lexer with little room ends where one with free room does, with a text that fits. -/
theorem ends_of_tail {w : Bool} {room : ℕ → Bool} {q : TokenState} {i r : Text}
    (h : (tokenLexer w room).Tail q i r) (hq : q.Roomy room) :
    ∃ t, freeLexer.Ends q i t r ∧ t.Roomy room := by
  induction h with
  | close hnext => exact ⟨_, .close (next_grows hnext).1, hq⟩
  | step hnext _ ih =>
      obtain ⟨hfree, hgrows⟩ := next_grows hnext
      obtain ⟨t, hends, ht⟩ := ih ((hgrows _ rfl).roomy hq)
      exact ⟨t, .step hfree hends, ht⟩

/-- What the mapped parser reads has room for its strings. -/
theorem inside_carries {env : Env σ} (hmapped : env.validateOnly = false) :
    (insideMachine env).rules.Carries (stringRules env) 0 fun _ => True where
  blank _ _ _ h := h
  mark _ _ _ h := h
  string d i r _ henter htail _ := by
    have htail : (tokenLexer false (stringRoom env d)).Tail { fresh := false } i r := by
      simpa [Machine.rules, insideMachine, readerLexer, tokenLexer] using htail
    obtain ⟨t, hends, hroomy⟩ := ends_of_tail htail (.inr (.inl rfl))
    refine ⟨henter, ⟨t, hends, ?_⟩, trivial⟩
    have hstale := ends_stale hends rfl
    simpa [TokenState.Roomy, hstale, textFits, stringRoom, hmapped] using hroomy
  key d i r _ henter htail _ := by
    have htail : (tokenLexer true (stringRoom env d)).Tail { fresh := true } i r := by
      simpa [Machine.rules, insideMachine, readerLexer, hmapped, tokenLexer] using htail
    obtain ⟨t, hends, -⟩ := ends_of_tail htail (.inl rfl)
    exact ⟨henter, ⟨t, hends, rfl⟩, trivial⟩
  number d num r _ hnum hfits _ := ⟨(isValidJsonNumber_iff num).mp hnum, hfits, trivial⟩
  literal d lit r _ _ hfits _ := ⟨hfits, trivial⟩
  enter d b _ _ henter := henter

theorem stringRules_carries (env : Env σ) :
    (stringRules env).Carries (eitherRules env) 0 fun _ => True where
  blank _ _ _ h := h
  mark _ _ _ h := h
  string d i r _ _ htail _ := ⟨rfl, htail.imp fun _ h => ⟨h.1, rfl⟩, trivial⟩
  key d i r _ _ htail _ := ⟨rfl, htail, trivial⟩
  number d num r _ hnum hfits _ := ⟨hnum, hfits, trivial⟩
  literal d lit r _ _ hfits _ := ⟨hfits, trivial⟩
  enter d b _ hb henter := by
    rcases hb with rfl | rfl <;> exact henter

theorem JsonNumber.head {num : Text} (h : JsonNumber num) :
    ∃ b t, num = b :: t ∧ Json.isSpace b = false ∧ b ≠ 0x7b := by
  obtain ⟨b, t, rfl, hb⟩ := h.start
  have hlawful : (textMachine true .none).Lawful := textMachine_lawful true .none
  refine ⟨b, t, rfl, hlawful.not_space b (hlawful.start_byte b hb), (hlawful.not_open b hb).2.1⟩

/-- The root of what a mapped parser reads is an object. -/
theorem mapped_iff_inside {env : Env σ} (hmapped : env.validateOnly = false) {s : Text}
    (hroot : RootObject s) :
    Document (readerMachine env (readerLexer env)).rules s ↔
      Document (insideMachine env).rules s := by
  have hfits (d n : ℕ) (h : tokenFits env d n = true) : decide (n + 2 ≤ tokenRoom env d) = true :=
    (Bool.and_eq_true_iff.mp h).2
  have hquote (d : ℕ) (h : canOpen env d 0x22 = true) : (tokenRoom env d != 0) = true := by
    simp only [canOpen, hmapped, if_true, Bool.false_or, Bool.and_eq_true] at h
    exact h.2
  constructor
  · intro h
    have hcarries : (readerMachine env (readerLexer env)).rules.Carries (insideMachine env).rules 0
        fun _ => True := by
      refine ⟨fun _ _ _ h => h, fun _ _ _ h => h, ?_, ?_, ?_, ?_, ?_⟩
      · exact fun d i r _ henter htail _ => ⟨hquote d henter, htail, trivial⟩
      · exact fun d i r _ henter htail _ => ⟨hquote d henter, htail, trivial⟩
      · exact fun d num r _ hnum hfit _ => ⟨hnum, hfits d _ hfit, trivial⟩
      · exact fun d lit r _ _ hfit _ => ⟨hfits d _ hfit, trivial⟩
      · rintro d b _ (rfl | rfl) henter
        · exact (Bool.and_eq_true_iff.mp henter).2
        · exact (Bool.and_eq_true_iff.mp henter).2
    exact hcarries.document h trivial
  · intro h
    have hne {d : ℕ} (hd : 1 ≤ d) : (d != 0) = true := by
      simp
      omega
    have hopen {d : ℕ} (hd : 1 ≤ d) (b : Byte) :
        canOpen env d b = (insideMachine env).enter d b := by
      by_cases hb : b = 0x22 <;> simp [canOpen, insideMachine, hmapped, hne hd, hb]
    have hfits {d : ℕ} (hd : 1 ≤ d) (n : ℕ) :
        tokenFits env d n = decide (n + 2 ≤ tokenRoom env d) := by
      simp [tokenFits, hne hd]
    have hcarries : (insideMachine env).rules.Carries (readerMachine env (readerLexer env)).rules 1
        fun _ => True := by
      refine ⟨fun _ _ _ h => h, fun _ _ _ h => h, ?_, ?_, ?_, ?_, ?_⟩
      · exact fun d i r hd henter htail _ => ⟨(hopen hd 0x22).trans henter, htail, trivial⟩
      · exact fun d i r hd henter htail _ => ⟨(hopen hd 0x22).trans henter, htail, trivial⟩
      · exact fun d num r hd hnum hfit _ => ⟨hnum, (hfits hd _).trans hfit, trivial⟩
      · exact fun d lit r hd _ hfit _ => ⟨(hfits hd _).trans hfit, trivial⟩
      · exact fun d b hd _ henter => (hopen hd b).trans henter
    refine hcarries.object (fun num hnum => ((isValidJsonNumber_iff num).mp hnum).head) ?_ hroot h
      fun _ _ => trivial
    intro henter
    have hfits : frameFits env 0 = true := henter
    simpa [Machine.rules, readerMachine, canOpen] using hfits

/-! ## The grammar of the validating parser -/

/-- The string behind a high surrogate does not end after a run of plain bytes. -/
def staysOpen (i : Text) : Bool := (i.dropWhile isPlain).head? != some 0x22

theorem staysOpen_special {b : Byte} (hb : isPlain b = false) (hquote : b ≠ 0x22) (i : Text) :
    staysOpen (b :: i) = true := by
  simp [staysOpen, hb, hquote]

theorem StringTail.open_paired {pending : Bool} {i r : Text} (h : StringTail true pending i r)
    (hr : highsFollowed staysOpen r = true) :
    highsFollowed staysOpen i = true ∧ (pending = true → staysOpen i = true) := by
  have hback (e : Byte) (i : Text) : staysOpen (0x5c :: e :: i) = true :=
    staysOpen_special rfl (by decide) _
  induction h with
  | close => exact ⟨by rwa [highsFollowed_cons (by decide)], by simp⟩
  | plain hb hgap h ih =>
      refine ⟨by rw [highsFollowed_cons (isPlain_iff.mp hb).2.1]; exact (ih hr).1, ?_⟩
      intro hpending
      simpa [Lonejson.staysOpen, hb] using (ih hr).2 hpending
  | escape he hgap h ih =>
      exact ⟨by rw [highsFollowed_escape he]; exact (ih hr).1, fun _ => hback _ _⟩
  | unit hcp hhigh hlow h ih =>
      exact ⟨by rw [highsFollowed_unit hcp, hhigh, (ih hr).1]; rfl, by simp⟩
  | high hcp hhigh h ih =>
      exact ⟨by rw [highsFollowed_unit hcp, (ih hr).1, (ih hr).2 rfl]; simp, by simp⟩
  | @low a b c d cp i r hcp hlow h ih =>
      have hhigh : isHighSurrogate cp = false := low_not_high hlow
      exact ⟨by rw [highsFollowed_unit hcp, hhigh, (ih hr).1]; rfl, fun _ => hback _ _⟩

/-- What holds behind the high surrogates of a text holds behind those of the rest. -/
theorem StringTail.highsFollowed {ok : Text → Bool} {gap pending : Bool} {i r : Text}
    (h : StringTail gap pending i r) (hi : highsFollowed ok i = true) :
    highsFollowed ok r = true := by
  induction h with
  | close => rwa [highsFollowed_cons (by decide)] at hi
  | plain hb _ _ ih => exact ih (by rwa [highsFollowed_cons (isPlain_iff.mp hb).2.1] at hi)
  | escape he _ _ ih => exact ih (by rwa [highsFollowed_escape he] at hi)
  | unit hcp _ _ _ ih =>
      rw [highsFollowed_unit hcp, Bool.and_eq_true] at hi
      exact ih hi.2
  | high hcp _ _ ih =>
      rw [highsFollowed_unit hcp, Bool.and_eq_true] at hi
      exact ih hi.2
  | low hcp _ _ ih =>
      rw [highsFollowed_unit hcp, Bool.and_eq_true] at hi
      exact ih hi.2

theorem freeLexer_tail {i r : Text} :
    (∃ t, freeLexer.Ends { fresh := false } i t r) ↔ StringTail true false i r := by
  have hmatches : freeLexer.Matches (stringLexer true) TokenMatches := tokenLexer_matches fun _ => rfl
  rw [← tail_body_iff, ← Lexer.tail_iff_ends]
  exact hmatches.tail_iff hmatches.start i r

/-- A string of the validating parser is a key of either parser. -/
theorem keyTail_of_string {i r : Text} (h : StringTail true false i r) :
    ∃ t, freeLexer.Ends { fresh := true } i t r := by
  obtain ⟨t, hends⟩ := freeLexer_tail.mpr h
  have hhigh : t.high = 0 := by
    have hstale := ends_stale hends rfl
    simpa [hstale] using ends_close hends
  have hlike : TokenState.Like { fresh := false } { fresh := true } := ⟨rfl, rfl, rfl⟩
  obtain ⟨t', hends', -⟩ := TokenState.Like.ends hends hlike hhigh
  exact ⟨t', hends'⟩

/-- A key of either parser whose high surrogates stay open is a string of the validating
parser. -/
theorem string_of_keyTail {t : TokenState} {i r : Text}
    (h : freeLexer.Ends { fresh := true } i t r) (hi : highsFollowed staysOpen i = true) :
    StringTail true false i r := by
  by_cases hhigh : t.high = 0
  · have hlike : TokenState.Like { fresh := true } { fresh := false } := ⟨rfl, rfl, rfl⟩
    obtain ⟨t', hends, -⟩ := TokenState.Like.ends h hlike hhigh
    exact freeLexer_tail.mp ⟨t', hends⟩
  · have hfresh := (ends_close h).resolve_left hhigh
    obtain ⟨a, b, c, d, cp, key, hcp, hcpHigh, hkey, rfl⟩ := ends_lone h hfresh hhigh
    have hclosed : staysOpen (key ++ 0x22 :: r) = false := by
      rw [staysOpen, List.dropWhile_append_of_pos hkey]
      rfl
    rw [highsFollowed_unit hcp, hcpHigh, hclosed] at hi
    cases hi

theorem validator_carries (env : Env σ) :
    (textRules true (Limits.validator env)).Carries (eitherRules env) 0 fun _ => True where
  blank _ _ _ h := h
  mark _ _ _ h := h
  string d i r _ _ htail _ := by
    obtain ⟨t, ht⟩ := freeLexer_tail.mpr htail
    exact ⟨rfl, ⟨t, ht, rfl⟩, trivial⟩
  key d i r _ _ htail _ := by
    obtain ⟨t, ht⟩ := keyTail_of_string htail
    exact ⟨rfl, ⟨t, ht, rfl⟩, trivial⟩
  number d num r _ hnum hfits _ := ⟨hnum, hfits, trivial⟩
  literal d lit r _ _ hfits _ := ⟨hfits, trivial⟩
  enter d b _ hb henter := by
    rcases hb with rfl | rfl <;> exact henter

theorem validator_restores (limits : Limits) :
    (textRules true limits).Restores (highsFollowed staysOpen · = true) where
  blank b i hb hi := by rwa [highsFollowed_blank hb]
  mark b i hb hi := by rwa [highsFollowed_mark hb]
  string d i r htail hr := by
    rw [highsFollowed_cons (by decide)]
    exact (StringTail.open_paired htail hr).1
  key d i r htail hr := by
    rw [highsFollowed_cons (by decide)]
    exact (StringTail.open_paired htail hr).1
  number num r hnum hr := by rwa [highsFollowed_number hnum]
  literal lit r hlit hr := by rwa [highsFollowed_literal hlit]

theorem either_carries (env : Env σ) :
    (eitherRules env).Carries (textRules true (Limits.validator env)) 0
      (highsFollowed staysOpen · = true) where
  blank b i hb hi := by rwa [highsFollowed_blank hb] at hi
  mark b i hb hi := by rwa [highsFollowed_mark hb] at hi
  string d i r _ _ htail hi := by
    obtain ⟨t, ht, -⟩ := htail
    rw [highsFollowed_cons (by decide)] at hi
    have htail := freeLexer_tail.mp ⟨t, ht⟩
    exact ⟨rfl, htail, htail.highsFollowed hi⟩
  key d i r _ _ htail hi := by
    obtain ⟨t, ht, -⟩ := htail
    rw [highsFollowed_cons (by decide)] at hi
    have htail := string_of_keyTail ht hi
    exact ⟨rfl, htail, htail.highsFollowed hi⟩
  number d num r _ hnum hfits hi := ⟨hnum, hfits, by rwa [highsFollowed_number hnum] at hi⟩
  literal d lit r _ hlit hfits hi := ⟨hfits, by rwa [highsFollowed_literal hlit] at hi⟩
  enter d b _ hb henter := by
    rcases hb with rfl | rfl <;> exact henter

/-- The validating parser accepts the texts of either parser whose high surrogates all stay
open up to a low one. -/
theorem validator_iff_open (env : Env σ) (s : Text) :
    Document (textRules true (Limits.validator env)) s ↔
      Document (eitherRules env) s ∧ highsFollowed staysOpen s = true := by
  constructor
  · intro h
    exact ⟨(validator_carries env).document h trivial,
      (validator_restores (Limits.validator env)).document h rfl⟩
  · rintro ⟨h, hopen⟩
    exact (either_carries env).document h hopen

/-! ## Adopting a destination -/

/-- A core with the same streamed values and the same truncation. -/
structure Core.SameStreams (c c' : Core σ) : Prop where
  json : c'.json = c.json
  stream : c'.stream = c.stream
  truncated : c'.error.truncated = c.error.truncated

theorem Core.SameStreams.refl (c : Core σ) : c.SameStreams c := ⟨rfl, rfl, rfl⟩

theorem Core.SameStreams.trans {c c' c'' : Core σ} (h : c.SameStreams c') (h' : c'.SameStreams c'') :
    c.SameStreams c'' :=
  ⟨h'.json.trans h.json, h'.stream.trans h.stream, h'.truncated.trans h.truncated⟩

section

variable (env : Env σ)

theorem adoptOwnedPointer_same (c : Core σ) (h : AllocHeader) :
    c.SameStreams (adoptOwnedPointer env c h).1 := by
  unfold adoptOwnedPointer
  split
  · exact .refl c
  split
  · exact ⟨rfl, rfl, rfl⟩
  · exact ⟨rfl, rfl, rfl⟩

theorem adoptOwned_same (c : Core σ) (o : Option Owned) : c.SameStreams (adoptOwned env c o).1 := by
  cases o with
  | none => exact .refl c
  | some o => exact adoptOwnedPointer_same env c o.header

theorem adoptOwnedList_same (c : Core σ) (os : List (Option Owned)) :
    c.SameStreams (adoptOwnedList env c os).1 := by
  induction os generalizing c with
  | nil => exact .refl c
  | cons o os ih => exact (adoptOwned_same env c o).trans (ih _)

theorem adoptItems_same (c : Core σ) (info : ArrayInfo) :
    c.SameStreams (adoptItems env c info).1 := by
  unfold adoptItems
  split
  · exact adoptOwnedPointer_same env c _
  · exact .refl c

mutual

theorem adoptExistingValue_same (c : Core σ) (field : Field) :
    (v : Value) → c.SameStreams (adoptExistingValue env c field v).1
  | .string ptr => by
      rw [adoptExistingValue]
      exact adoptOwned_same env c ptr
  | .spooled s => by
      rw [adoptExistingValue]
      exact adoptOwned_same env c s.memory
  | .source s => by
      rw [adoptExistingValue]
      exact adoptOwned_same env c s.path
  | .jsonValue v => by
      rw [adoptExistingValue]
      exact (adoptOwned_same env c v.json).trans (adoptOwned_same env _ v.path)
  | .object r => by
      rw [adoptExistingValue]
      split
      · split
        · exact adoptExistingMembers_same _ _ r
        · exact .refl c
      · exact .refl c
  | .objectArray items info => by
      rw [adoptExistingValue]
      have hitems := adoptItems_same env c info
      dsimp only
      split
      · split
        · exact hitems.trans (adoptExistingElems_same _ _ items)
        · exact hitems
      · exact hitems
  | .stringArray items info => by
      rw [adoptExistingValue]
      exact (adoptItems_same env c info).trans (adoptOwnedList_same env _ items)
  | .i64Array items info => by
      rw [adoptExistingValue]
      exact adoptItems_same env c info
  | .u64Array items info => by
      rw [adoptExistingValue]
      exact adoptItems_same env c info
  | .f64Array items info => by
      rw [adoptExistingValue]
      exact adoptItems_same env c info
  | .boolArray items info => by
      rw [adoptExistingValue]
      exact adoptItems_same env c info
  | .fixedString _ | .i64 _ | .u64 _ | .f64 _ | .bool _ | .stringArrayStream _
  | .mappedArrayStream _ _ => by
      rw [adoptExistingValue]
      · exact .refl c
      all_goals simp

theorem adoptExistingMembers_same (c : Core σ) :
    (fields : List Field) → (r : List (Value × Bool)) →
      c.SameStreams (adoptExistingMembers env c fields r).1
  | field :: fields, (v, present) :: rest => by
      rw [adoptExistingMembers]
      exact (adoptExistingValue_same c field v).trans (adoptExistingMembers_same _ fields rest)
  | [], rest => by
      rw [adoptExistingMembers]
      · exact .refl c
      · simp
  | _ :: _, [] => by
      rw [adoptExistingMembers]
      · exact .refl c
      · simp

theorem adoptExistingElems_same (c : Core σ) (fields : List Field) :
    (items : List (List (Value × Bool))) →
      c.SameStreams (adoptExistingElems env c fields items).1
  | [] => by
      rw [adoptExistingElems]
      exact .refl c
  | r :: rest => by
      rw [adoptExistingElems]
      exact (adoptExistingMembers_same c fields r).trans (adoptExistingElems_same _ fields rest)

end

theorem adoptExisting_same (c : Core σ) : c.SameStreams (adoptExisting env c) := by
  unfold adoptExisting
  split
  · exact .refl c
  split
  · next id _ _ =>
    obtain ⟨hjson, hstream, htruncated⟩ := adoptExistingMembers_same env c (env.maps id).fields c.dst
    exact ⟨hjson, hstream, htruncated⟩
  · exact .refl c

end

/-- The parser at the start of a parse. -/
theorem parserInit_tracks {S : Type} (env : Env σ) (reads : Parser σ → S → Prop) (dst : Record)
    (world : σ) (hready : (parserInit env dst world).core.failed = false) :
    Tracks env reads (parserInit env dst world) Json.initial := by
  obtain ⟨hjson, hstream, htruncated⟩ := adoptExisting_same env (initState env dst world).core
  refine initState_tracks env reads ⟨?_, ?_, ?_, hready, ?_⟩ rfl rfl rfl rfl rfl
  · exact congrArg JsonStream.active hjson
  · exact congrArg JsonStream.parseVisitorActive hjson
  · exact congrArg StreamValue.active hstream
  · exact htruncated

/-! ## The two parsers -/

/-- A key that a mapped parser reads in a document. -/
def KeyRead (env : Env σ) (s key : Text) : Prop :=
  ∃ t u q stack, s = t ++ 0x22 :: u ∧
    Json.run (readerMachine env (readerLexer env)) (some Json.initial) t =
      some ⟨.string true q, stack⟩ ∧
    (readerLexer env true stack.length).next q 0x22 = some none ∧ q.text = key

/-- The keys of a document fit the token at their depth; a text that neither parser may
accept has no keys. -/
def KeysFit (env : Env σ) (s : Text) : Prop :=
  Document (eitherRules env) s → Document (keyRules env) s

/-- There is room for the quotes and the strings of a document. -/
def StringsFit (env : Env σ) (s : Text) : Prop := Document (stringRules env) s

/-- What a mapped parser accepts when it knows none of the keys. -/
theorem mapped_eq_ok {env : Env σ} (hmapped : env.validateOnly = false)
    (hrequired : requiredCountForMap env.maps env.rootMap = 0) (dst : Record) (world : σ)
    (hready : (parserInit env dst world).core.failed = false) {s : Bytes} (hroot : RootObject s)
    (hunknown : ∀ key, KeyRead env s key → ∀ id, env.rootMap = some id →
      ∀ field ∈ (env.maps id).fields, field.jsonKey ≠ key) (hkeys : KeysFit env s) :
    (feedChunks env (parserInit env dst world) [s]).2 = .ok ↔ StringsFit env s := by
  have hknown : KeysUnknown env Json.initial s := fun _ t u q stack hs hrun hclose =>
    hunknown q.text ⟨t, u, q, stack, hs, hrun, hclose, rfl⟩
  have hchunk := feedChunks_single (tokenReader env) (fun _ => hrequired) s
    (parserInit_tracks env _ dst world hready) hknown
  have hlawful : (insideMachine env).Lawful :=
    lawful_of_numbers rfl rfl rfl (fun _ _ _ => decide_mono) fun _ _ _ => decide_mono
  have haccepts : (feedChunks env (parserInit env dst world) [s]).2 = .ok ↔
      Document (insideMachine env).rules s := by
    rw [← mapped_iff_inside hmapped hroot,
      ← Json.accepts_iff_document _ (readerMachine_lawful _ _)]
    exact hchunk
  rw [haccepts]
  constructor
  · exact fun h => (inside_carries hmapped).document h trivial
  · intro h
    rw [← Json.accepts_iff_document _ hlawful]
    exact inside_of_fits hmapped h (hkeys ((stringRules_carries env).document h trivial))

/-- A parse into a map without fields. -/
def Env.fieldless : Env Unit := { Env.bare with rootMap := some 0 }

/-- The text `{"\uD800abc":1}`. -/
def loneKeyText : Text :=
  [0x7b, 0x22, 0x5c, 0x75, 0x44, 0x38, 0x30, 0x30, 0x61, 0x62, 0x63, 0x22, 0x3a, 0x31, 0x7d]

end Lonejson
