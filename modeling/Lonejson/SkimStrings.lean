import Lonejson.SkimRun

/-!
# Strings that are read past

The strings of a parser that stores nothing. The validating parser discards them; the
other parsers collect them in the token, and take a key without escapes from the chunk
when the token is still empty.
-/

namespace Lonejson

open Json (Text Mode State Bracket Lexer Machine Reaches)

variable {σ : Type}

/-! ## The lexer -/

inductive TokenPhase where
  | body
  | escape
  | hex (needed accum : ℕ)
  deriving DecidableEq, Repr

/-- The text read so far and the registers. A text is `fresh` while it could still be a
key that is taken from the chunk. -/
structure TokenState where
  phase : TokenPhase := .body
  high : ℕ := 0
  text : Bytes := []
  fresh : Bool
  deriving DecidableEq, Repr

/-- The state after more text, if there is room for it. -/
def TokenState.append (q : TokenState) (room : ℕ → Bool) (data : Bytes) : Option TokenState :=
  if room (q.text.length + data.length) then
    some { phase := .body, high := q.high, text := q.text ++ data, fresh := false }
  else none

/-- The state after a code point. -/
def TokenState.appendCodepoint (q : TokenState) (room : ℕ → Bool) (cp : ℕ) : Option TokenState :=
  (utf8Encode cp).bind (q.append room)

/-- The state after the last digit of a `\u` escape. -/
def TokenState.unit (q : TokenState) (room : ℕ → Bool) (cp : ℕ) : Option TokenState :=
  if q.high ≠ 0 then
    if isLowSurrogate cp then
      { q with high := 0 }.appendCodepoint room (combineSurrogates q.high cp)
    else none
  else if isHighSurrogate cp then some { q with phase := .body, high := cp }
  else if isLowSurrogate cp then none
  else q.appendCodepoint room cp

/-- The lexer behind the opening quote of a string whose text needs room; `whole` when the
string may be taken from the chunk. -/
def tokenLexer (whole : Bool) (room : ℕ → Bool) : Lexer TokenState where
  start := { fresh := whole }
  next q b :=
    match q.phase with
    | .body =>
      if b = 0x22 then if q.high ≠ 0 && !q.fresh then none else some none
      else if b = 0x5c then
        if q.fresh && !q.text.isEmpty && !room q.text.length then none
        else some (some { q with phase := .escape, fresh := q.fresh && q.text.isEmpty })
      else if b < 0x20 then none
      else if q.fresh then some (some { q with text := q.text ++ [b] })
      else (q.append room [b]).map some
    | .escape =>
      match simpleEscape b with
      | some ch => (q.append room [ch]).map some
      | none => if b = 0x75 then some (some { q with phase := .hex 4 0 }) else none
    | .hex needed accum =>
      match hexValue b with
      | none => none
      | some hv =>
        if needed - 1 ≠ 0 then some (some { q with phase := .hex (needed - 1) (pushHex accum hv) })
        else (q.unit room (pushHex accum hv)).map some

/-- Whether a text of a length may be kept at a depth. -/
def stringRoom (env : Env σ) (depth n : ℕ) : Bool :=
  env.validateOnly || decide (n + 2 ≤ tokenRoom env depth)

/-- The lexers of a parser that stores nothing. -/
def readerLexer (env : Env σ) (isKey : Bool) (depth : ℕ) : Lexer TokenState :=
  tokenLexer (isKey && !env.validateOnly) (stringRoom env depth)

/-! ## What ties the parser to the lexer -/

/-- The registers of the two at a phase. -/
def PhaseAgrees (p : Parser σ) : TokenPhase → Prop
  | .body => p.lexEscape = false ∧ p.unicodeDigitsNeeded = 0
  | .escape => p.lexEscape = true ∧ p.unicodeDigitsNeeded = 0
  | .hex needed accum =>
    p.lexEscape = false ∧ p.unicodeDigitsNeeded = needed ∧ needed ≠ 0 ∧ p.unicodeAccum = accum

/-- Where the bytes of a string go when no field waits for them. -/
structure Captures (env : Env σ) (p : Parser σ) (text : Bytes) : Prop where
  discard : env.validateOnly = true → p.captureMode = .discard
  token : env.validateOnly = false →
    p.captureMode = .token ∧ p.token.bytes = text ∧ p.token.cap = tokenLimit env p

/-- The registers of a string that is read past. A fresh text is not yet in the token, or
it is there and a backslash follows. -/
structure ReadsToken (env : Env σ) (ahead : Bytes) (p : Parser σ) (q : TokenState) : Prop where
  high : p.unicodePendingHigh = q.high
  phase : PhaseAgrees p q.phase
  captures : Captures env p q.text
  fresh : q.fresh = true → env.validateOnly = false ∧ p.lexIsKey = true ∧
    (q.text = [] ∨ q.phase = .body ∧ ahead.head? = some 0x5c ∧ q.text.length + 2 ≤ p.token.cap)
  stale : q.fresh = false → env.validateOnly = false → p.lexIsKey = true → q.text ≠ []

/-- No key that is read ahead is the key of a field of the root map. -/
def KeysUnknown (env : Env σ) (st : State TokenState) (s : Text) : Prop :=
  env.validateOnly = false → ∀ t u q stack, s = t ++ 0x22 :: u →
    Json.run (readerMachine env (readerLexer env)) (some st) t = some ⟨.string true q, stack⟩ →
    (readerLexer env true stack.length).next q 0x22 = some none →
    ∀ id, env.rootMap = some id → ∀ field ∈ (env.maps id).fields, field.jsonKey ≠ q.text

theorem KeysUnknown.reaches {env : Env σ} {st st' : State TokenState} {used rest : Text}
    (h : KeysUnknown env st (used ++ rest))
    (hreaches : Reaches (readerMachine env (readerLexer env)) st used rest st') :
    KeysUnknown env st' rest := by
  intro hmapped t u q stack hrest hrun hclose
  subst hrest
  refine h hmapped (used ++ t) u q stack (by simp) ?_ hclose
  by_cases ht : t = []
  · subst ht
    cases hreaches with
    | run h => simpa [h] using hrun
    | early => simp at hrun
  · rw [hreaches.run_prefix (List.prefix_append _ _) (.inl ht)]
    exact hrun

/-! ## Storing bytes -/

/-- The parser after some bytes of a string. -/
def stored (env : Env σ) (p : Parser σ) (data : Bytes) : Parser σ :=
  if env.validateOnly then p
  else { p with token := { p.token with bytes := p.token.bytes ++ data } }

/-- The outcome of storing some bytes of a string whose text so far is known. -/
def Stores (env : Env σ) (r : Parser σ × Status) (p : Parser σ) (text data : Bytes) : Prop :=
  if stringRoom env p.frames.length (text.length + data.length) then r = (stored env p data, .ok)
  else r.2.soft = false

/-- A sink that discards the string or keeps it in the token. -/
structure TokenSink (env : Env σ) (sink : StringSink σ) : Prop where
  run : ∀ p text data, Quiet env p → Captures env p text → Stores env (sink.run p data) p text data
  byte : ∀ p text ch, Quiet env p → Captures env p text → Stores env (sink.byte p ch) p text [ch]
  codepoint : ∀ p text cp data, Quiet env p → Captures env p text → utf8Encode cp = some data →
    Stores env (sink.codepoint p cp) p text data
  invalid : ∀ p text cp, Captures env p text → utf8Encode cp = none →
    (sink.codepoint p cp).2.soft = false
  finish : ∀ p text, Captures env p text → sink.finish p = deliverString env p

/-- Appending to the token. -/
theorem scratchAppendBytes_stores {env : Env σ} {p : Parser σ} {text : Bytes} (hq : Quiet env p)
    (hcap : Captures env p text) (hvalidate : env.validateOnly = false) (data : Bytes)
    (message : String) :
    Stores env (p.orFull (p.scratchAppendBytes data) message) p text data := by
  obtain ⟨-, hbytes, hlimit⟩ := hcap.token hvalidate
  have hroom : stringRoom env p.frames.length (text.length + data.length) = true ↔
      p.token.bytes.length + data.length + 1 + 1 ≤ p.token.cap := by
    simp only [stringRoom, hvalidate, hbytes, hlimit, tokenLimit_eq env hq, Bool.false_or,
      decide_eq_true_eq]
  unfold Stores Parser.scratchAppendBytes
  by_cases h : p.token.bytes.length + data.length + 1 + 1 ≤ p.token.cap
  · rw [if_pos (hroom.mpr h), if_pos h]
    simp [Parser.orFull, stored, hvalidate]
  · rw [if_neg fun h' => h (hroom.mp h'), if_neg h]
    rfl

theorem scratchAppend_eq (p : Parser σ) (ch : Byte) : p.scratchAppend ch = p.scratchAppendBytes [ch] := by
  simp [Parser.scratchAppend, Parser.scratchAppendBytes]

theorem stores_discard {env : Env σ} (hvalidate : env.validateOnly = true) (p : Parser σ)
    (text data : Bytes) : Stores env (p, .ok) p text data := by
  simp [Stores, stringRoom, hvalidate, stored]

theorem appendStringByte_stores {env : Env σ} {p : Parser σ} {text : Bytes} (hq : Quiet env p)
    (hcap : Captures env p text) (ch : Byte) : Stores env (appendStringByte env p ch) p text [ch] := by
  cases hvalidate : env.validateOnly with
  | true =>
      simp only [appendStringByte, hcap.discard hvalidate]
      exact stores_discard hvalidate p text [ch]
  | false =>
      simp only [appendStringByte, (hcap.token hvalidate).1, scratchAppend_eq]
      exact scratchAppendBytes_stores hq hcap hvalidate [ch] _

theorem appendUnicodeCodepoint_stores {env : Env σ} {p : Parser σ} {text data : Bytes} {cp : ℕ}
    (hq : Quiet env p) (hcap : Captures env p text) (hcp : utf8Encode cp = some data) :
    Stores env (appendUnicodeCodepoint env p cp) p text data := by
  cases hvalidate : env.validateOnly with
  | true =>
      simp only [appendUnicodeCodepoint, hcap.discard hvalidate, hcp, Option.isNone_some,
        Bool.false_eq_true, if_false]
      exact stores_discard hvalidate p text data
  | false =>
      simp only [appendUnicodeCodepoint, (hcap.token hvalidate).1, hcp, Option.bind_some]
      exact scratchAppendBytes_stores hq hcap hvalidate data _

theorem appendUnicodeCodepoint_invalid {env : Env σ} {p : Parser σ} {text : Bytes} {cp : ℕ}
    (hcap : Captures env p text) (hcp : utf8Encode cp = none) :
    (appendUnicodeCodepoint env p cp).2.soft = false := by
  cases hvalidate : env.validateOnly with
  | true => simp [appendUnicodeCodepoint, hcap.discard hvalidate, hcp, Status.soft]
  | false =>
      simp [appendUnicodeCodepoint, (hcap.token hvalidate).1, hcp, Parser.orFull, Status.soft]

theorem discardSink_token {env : Env σ} (hvalidate : env.validateOnly = true) :
    TokenSink env (discardSink env) where
  run p text data _ _ := stores_discard hvalidate p text data
  byte _ _ ch hq hcap := appendStringByte_stores hq hcap ch
  codepoint _ _ _ _ hq hcap hcp := appendUnicodeCodepoint_stores hq hcap hcp
  invalid _ _ _ hcap hcp := appendUnicodeCodepoint_invalid hcap hcp
  finish _ _ _ := rfl

theorem generalSink_token {env : Env σ} (hvalidate : env.validateOnly = false) :
    TokenSink env (generalSink env) where
  run p text data hq hcap := by
    simp only [generalSink, (hcap.token hvalidate).1]
    exact scratchAppendBytes_stores hq hcap hvalidate data _
  byte _ _ ch hq hcap := appendStringByte_stores hq hcap ch
  codepoint _ _ _ _ hq hcap hcp := appendUnicodeCodepoint_stores hq hcap hcp
  invalid _ _ _ hcap hcp := appendUnicodeCodepoint_invalid hcap hcp
  finish p text hcap := by
    simp only [generalSink, (hcap.token hvalidate).1]

/-! ## One character -/

/-- What ties the parser to the lexer whatever comes next. -/
def ReadsAlways (env : Env σ) (p : Parser σ) (q : TokenState) : Prop :=
  ∀ ahead, ReadsToken env ahead p q

/-- A lexer state as a state of the machine. -/
def Parser.inString (p : Parser σ) (q : TokenState) : State TokenState :=
  ⟨.string p.lexIsKey q, p.brackets⟩

theorem step_string (env : Env σ) (p : Parser σ) (q : TokenState) (b : Byte) :
    Json.step (readerMachine env (readerLexer env)) (p.inString q) b =
      ((readerLexer env p.lexIsKey p.frames.length).next q b).map fun o =>
        o.elim ⟨Json.afterString p.lexIsKey, p.brackets⟩ p.inString := by
  simp only [Json.step, Parser.inString, readerMachine, Parser.brackets_length]
  rcases (readerLexer env p.lexIsKey p.frames.length).next q b with _ | _ | q' <;> rfl

theorem map_inString (p : Parser σ) (o : Option TokenState) :
    ((o.map some).map fun o => o.elim ⟨Json.afterString p.lexIsKey, p.brackets⟩ p.inString) =
      o.map p.inString := by
  cases o <;> rfl

/-- Bytes that are stored take the lexer to the state behind them. -/
theorem Stores.agrees {env : Env σ} {p : Parser σ} {q : TokenState} {r : Parser σ × Status}
    {data : Bytes} (hq : Quiet env p) (hlex : p.lexMode = .string) (hplace : TokenPlace env p)
    (hphase : PhaseAgrees p .body) (hhigh : p.unicodePendingHigh = q.high)
    (hcap : Captures env p q.text) (hdata : data ≠ []) (hr : Stores env r p q.text data) :
    Agrees env (ReadsAlways env) r
      ((q.append (stringRoom env p.frames.length) data).map p.inString) := by
  unfold Stores at hr
  unfold TokenState.append
  split at hr
  · next hroom =>
    rw [hr, if_pos hroom]
    have hne : q.text ++ data ≠ [] := by simp [hdata]
    cases hvalidate : env.validateOnly with
    | true =>
        rw [stored, if_pos hvalidate]
        refine ⟨rfl, .string hq hlex hplace fun ahead => ⟨hhigh, hphase, ⟨hcap.discard, ?_⟩, ?_, ?_⟩⟩
        · intro h
          simp [hvalidate] at h
        · simp
        · exact fun _ _ _ => hne
    | false =>
        rw [stored, if_neg (by simp [hvalidate])]
        obtain ⟨hmode, hbytes, hlimit⟩ := hcap.token hvalidate
        refine ⟨rfl, .string ⟨hq.core, hq.top, hq.frames, hq.started, hq.finished⟩ hlex
          ⟨hplace.root, hplace.key⟩ fun ahead => ⟨hhigh, hphase, ⟨?_, ?_⟩, ?_, ?_⟩⟩
        · intro h
          simp [hvalidate] at h
        · exact fun _ => ⟨hmode, by rw [hbytes], hlimit⟩
        · simp
        · exact fun _ _ _ => hne
  · next hroom =>
    rw [if_neg hroom]
    exact hr

/-- Every code point is at least one byte. -/
theorem utf8Encode_ne_nil {cp : ℕ} {data : Bytes} (h : utf8Encode cp = some data) : data ≠ [] := by
  rintro rfl
  unfold utf8Encode at h
  split_ifs at h <;> simp at h

/-- A code point that is appended. -/
theorem appendUnicodeCodepoint_agrees {env : Env σ} {p : Parser σ} {q : TokenState} (cp : ℕ)
    (hq : Quiet env p) (hlex : p.lexMode = .string) (hplace : TokenPlace env p)
    (hphase : PhaseAgrees p .body) (hhigh : p.unicodePendingHigh = q.high)
    (hcap : Captures env p q.text) :
    Agrees env (ReadsAlways env) (appendUnicodeCodepoint env p cp)
      ((q.appendCodepoint (stringRoom env p.frames.length) cp).map p.inString) := by
  unfold TokenState.appendCodepoint
  cases hcp : utf8Encode cp with
  | none => exact appendUnicodeCodepoint_invalid hcap hcp
  | some data =>
      exact Stores.agrees hq hlex hplace hphase hhigh hcap (utf8Encode_ne_nil hcp)
        (appendUnicodeCodepoint_stores hq hcap hcp)

/-- One digit of a `\u` escape. -/
theorem consumeHexDigit_agrees {env : Env σ} {ahead : Bytes} {p : Parser σ} {q : TokenState}
    {needed accum : ℕ} (hq : Quiet env p) (hlex : p.lexMode = .string) (hplace : TokenPlace env p)
    (hreads : ReadsToken env ahead p q) (hphase : q.phase = .hex needed accum) (ch : Byte) :
    Agrees env (ReadsAlways env) (consumeHexDigit env p ch)
      (Json.step (readerMachine env (readerLexer env)) (p.inString q) ch) := by
  have hregisters := hreads.phase
  rw [hphase] at hregisters
  obtain ⟨hescape, hneeded, hpos, haccum⟩ := hregisters
  have hfresh (h : q.fresh = true) : env.validateOnly = false ∧ p.lexIsKey = true ∧ q.text = [] := by
    obtain ⟨hvalidate, hkey, htext | ⟨hbody, -⟩⟩ := hreads.fresh h
    · exact ⟨hvalidate, hkey, htext⟩
    · simp [hphase] at hbody
  rw [step_string]
  simp only [consumeHexDigit, readerLexer, tokenLexer, hphase]
  cases hhex : hexValue ch with
  | none => rfl
  | some hv =>
      simp only [hneeded, haccum]
      by_cases hmore : needed - 1 ≠ 0
      · rw [if_pos hmore, if_pos hmore]
        refine ⟨rfl, .string ⟨hq.core, hq.top, hq.frames, hq.started, hq.finished⟩ hlex
          ⟨hplace.root, hplace.key⟩ fun ahead' => ⟨hreads.high, ⟨hescape, rfl, hmore, rfl⟩,
            ⟨hreads.captures.discard, hreads.captures.token⟩, ?_, hreads.stale⟩⟩
        intro h
        exact ⟨(hfresh h).1, (hfresh h).2.1, .inl (hfresh h).2.2⟩
      · rw [if_neg hmore, if_neg hmore]
        set cp := pushHex accum hv with hcp
        set p' : Parser σ := { p with unicodeAccum := cp, unicodeDigitsNeeded := needed - 1 } with hp'
        have hq' : Quiet env p' := ⟨hq.core, hq.top, hq.frames, hq.started, hq.finished⟩
        have hplace' : TokenPlace env p' := ⟨hplace.root, hplace.key⟩
        have hbody : PhaseAgrees p' .body := ⟨hescape, not_not.mp hmore⟩
        have hcap' : Captures env p' q.text := ⟨hreads.captures.discard, hreads.captures.token⟩
        rw [map_inString]
        unfold TokenState.unit
        have hhigh : p'.unicodePendingHigh = q.high := hreads.high
        rw [hhigh]
        by_cases hpending : q.high ≠ 0
        · rw [if_pos hpending, if_pos hpending]
          cases hlow : isLowSurrogate cp with
          | false => rfl
          | true =>
              exact appendUnicodeCodepoint_agrees (p := { p' with unicodePendingHigh := 0 })
                (q := { q with high := 0 }) _
                ⟨hq.core, hq.top, hq.frames, hq.started, hq.finished⟩ hlex
                ⟨hplace.root, hplace.key⟩ hbody rfl ⟨hcap'.discard, hcap'.token⟩
        · rw [if_neg hpending, if_neg hpending]
          cases hhi : isHighSurrogate cp with
          | true =>
              refine ⟨rfl, .string ⟨hq.core, hq.top, hq.frames, hq.started, hq.finished⟩ hlex
                ⟨hplace.root, hplace.key⟩ fun ahead' => ⟨rfl, hbody, ⟨hcap'.discard, hcap'.token⟩,
                  ?_, hreads.stale⟩⟩
              intro h
              exact ⟨(hfresh h).1, (hfresh h).2.1, .inl (hfresh h).2.2⟩
          | false =>
              cases hlow : isLowSurrogate cp with
              | true => rfl
              | false =>
                  exact appendUnicodeCodepoint_agrees cp hq' hlex hplace' hbody hhigh hcap'

/-- The byte behind a backslash. -/
theorem consumeEscapeChar_agrees {env : Env σ} {ahead : Bytes} {p : Parser σ} {q : TokenState}
    (hq : Quiet env p) (hlex : p.lexMode = .string) (hplace : TokenPlace env p)
    (hreads : ReadsToken env ahead p q) (hphase : q.phase = .escape) (ch : Byte) :
    Agrees env (ReadsAlways env) (consumeStringChar env p ch)
      (Json.step (readerMachine env (readerLexer env)) (p.inString q) ch) := by
  have hregisters := hreads.phase
  rw [hphase] at hregisters
  obtain ⟨hescape, hneeded⟩ := hregisters
  have hq' : Quiet env { p with lexEscape := false } :=
    ⟨hq.core, hq.top, hq.frames, hq.started, hq.finished⟩
  rw [step_string]
  unfold consumeStringChar
  rw [if_neg (by simp [hneeded]), if_pos hescape]
  simp only [readerLexer, tokenLexer, hphase]
  cases hsimple : simpleEscape ch with
  | some byte =>
      rw [map_inString]
      have hcap : Captures env { p with lexEscape := false } q.text :=
        ⟨hreads.captures.discard, hreads.captures.token⟩
      exact Stores.agrees (p := { p with lexEscape := false }) hq' hlex
        ⟨hplace.root, hplace.key⟩ ⟨rfl, hneeded⟩ hreads.high hcap (by simp)
        (appendStringByte_stores hq' hcap byte)
  | none =>
      dsimp only
      split
      · refine ⟨rfl, .string ⟨hq.core, hq.top, hq.frames, hq.started, hq.finished⟩ hlex
          ⟨hplace.root, hplace.key⟩ fun ahead' => ⟨hreads.high, ⟨rfl, rfl, by simp, rfl⟩,
            ⟨hreads.captures.discard, hreads.captures.token⟩, ?_, hreads.stale⟩⟩
        intro h
        obtain ⟨hvalidate, hkey, htext | ⟨hbody, -⟩⟩ := hreads.fresh h
        · exact ⟨hvalidate, hkey, .inl htext⟩
        · simp [hphase] at hbody
      · rfl

/-- A backslash. -/
theorem consumeBackslash_agrees {env : Env σ} {ahead : Bytes} {p : Parser σ} {q : TokenState}
    (hq : Quiet env p) (hlex : p.lexMode = .string) (hplace : TokenPlace env p)
    (hreads : ReadsToken env ahead p q) (hphase : q.phase = .body) :
    Agrees env (ReadsAlways env) (consumeStringChar env p 0x5c)
      (Json.step (readerMachine env (readerLexer env)) (p.inString q) 0x5c) := by
  have hregisters := hreads.phase
  rw [hphase] at hregisters
  obtain ⟨hescape, hneeded⟩ := hregisters
  have hroom : (q.fresh && !q.text.isEmpty && !stringRoom env p.frames.length q.text.length) =
      false := by
    cases hfresh : q.fresh with
    | false => rfl
    | true =>
        obtain ⟨hvalidate, -, htext | ⟨-, -, hroom⟩⟩ := hreads.fresh hfresh
        · simp [htext]
        · rw [(hreads.captures.token hvalidate).2.2, tokenLimit_eq env hq] at hroom
          simp [stringRoom, hroom]
  have hlexer : (readerLexer env p.lexIsKey p.frames.length).next q 0x5c =
      some (some { q with phase := .escape, fresh := q.fresh && q.text.isEmpty }) := by
    simp only [readerLexer, tokenLexer, hphase]
    rw [if_neg (by decide), if_pos trivial, hroom]
    rfl
  rw [step_string, hlexer]
  unfold consumeStringChar
  rw [if_neg (by simp [hneeded]), if_neg (by simp [hescape]), if_pos rfl]
  refine ⟨rfl, .string ⟨hq.core, hq.top, hq.frames, hq.started, hq.finished⟩ hlex
    ⟨hplace.root, hplace.key⟩ fun ahead' => ⟨hreads.high, ⟨rfl, hneeded⟩,
      ⟨hreads.captures.discard, hreads.captures.token⟩, ?_, ?_⟩⟩
  · intro h
    simp only [Bool.and_eq_true, List.isEmpty_iff] at h
    obtain ⟨hvalidate, hkey, -⟩ := hreads.fresh h.1
    exact ⟨hvalidate, hkey, .inl h.2⟩
  · intro h hvalidate hkey
    cases hfresh : q.fresh with
    | false => exact hreads.stale hfresh hvalidate hkey
    | true => simpa [hfresh] using h

/-- A turn of one character inside an escape, or at its backslash. -/
theorem stringCharTurn_agrees {env : Env σ} {single : Prop} {p : Parser σ} {q : TokenState}
    (ch : Byte) (rest : Bytes) (hq : Quiet env p) (hlex : p.lexMode = .string)
    (hplace : TokenPlace env p) (hreads : ReadsToken env (ch :: rest) p q)
    (hchar : q.phase = .body → ch = 0x5c) :
    TurnAgrees env (readerLexer env) (ReadsToken env) single (charTurn env p ch) (p.inString q)
      (ch :: rest) := by
  set p' : Parser σ := { p with pos := p.pos.step ch } with hp'
  have hq' : Quiet env p' := hq.move _
  have hplace' : TokenPlace env p' := ⟨hplace.root, hplace.key⟩
  have hreads' : ReadsToken env (ch :: rest) p' q :=
    ⟨hreads.high, hreads.phase, ⟨hreads.captures.discard, hreads.captures.token⟩, hreads.fresh,
      hreads.stale⟩
  have hturn : charTurn env p ch = turnSoft (consumeStringChar env p' ch) 1 := by
    simp [charTurn, consumeChar, hlex, hp']
  rw [hturn]
  refine turnSoft_agrees rest ?_
  cases hphase : q.phase with
  | body =>
      obtain rfl := hchar hphase
      exact consumeBackslash_agrees hq' hlex hplace' hreads' hphase
  | escape => exact consumeEscapeChar_agrees hq' hlex hplace' hreads' hphase ch
  | hex needed accum =>
      have hneeded : p'.unicodeDigitsNeeded ≠ 0 := by
        have h := hreads'.phase
        rw [hphase] at h
        rw [h.2.1]
        exact h.2.2.1
      rw [consumeStringChar, if_pos hneeded]
      exact consumeHexDigit_agrees hq' hlex hplace' hreads' hphase ch

/-! ## The end of a string -/

theorem Parser.modifyTop_modifyTop (p : Parser σ) (f g : Frame → Frame) :
    (p.modifyTop f).modifyTop g = p.modifyTop fun frame => g (f frame) := by
  cases hp : p.frames <;> simp [modifyTop, hp]

/-- A key that is the key of no field. -/
def KeyUnknown (env : Env σ) (key : Bytes) : Prop :=
  env.validateOnly = false → ∀ id, env.rootMap = some id →
    ∀ field ∈ (env.maps id).fields, field.jsonKey ≠ key

theorem findPending_idle {env : Env σ} {f : Frame} (hf : f.Idle env) {key : Bytes}
    (hkey : KeyUnknown env key) : findPending env f key = f := by
  have hpending : { f with pendingField := none } = f := by
    have h := hf.pending
    cases f
    simp_all
  unfold findPending
  split
  · exact hpending
  · next id hmap =>
    rcases hf.map with h | ⟨hvalidate, h, -⟩
    · simp [hmap] at h
    · rw [findField_eq_none (hkey hvalidate id (h ▸ hmap))]
      exact hpending

/-- A key that no field carries. -/
theorem deliverKeyText_agrees {S : Type} {env : Env σ} (reads : Parser σ → S → Prop) {p : Parser σ}
    (hq : Quiet env p) (hlex : p.lexMode = .none) (hplace : TokenPlace env p)
    (hiskey : p.lexIsKey = true) {key : Bytes} (hkey : KeyUnknown env key) :
    Agrees env reads (deliverKeyText env p key) (some ⟨.colon, p.brackets⟩) := by
  cases hp : p.frames with
  | nil => simp [(hplace.root hp).2.2] at hiskey
  | cons f fs =>
      have hf : f.Idle env := hq.frames f (by simp [hp])
      have hstate : f.state = .objectKeyOrEnd := hplace.key hiskey f (by simp [hp])
      have hkind : f.kind = .object := by simpa [hstate, FrameState.kind] using hf.kind.symm
      have hdeliver : deliverKeyText env p key =
          (p.modifyTop fun f => { findPending env f key with state := .objectColon }, .ok) := by
        have hjson : (p.modifyTop fun f => findPending env f key).core.json.active = false :=
          hq.core.json
        simp [deliverKeyText, hp, hkind, hstate, hq.core.visitor, hjson,
          Parser.modifyTop_modifyTop]
      rw [hdeliver]
      have hfind := findPending_idle hf hkey
      have hidle : Frame.Idle env { findPending env f key with state := .objectColon } := by
        rw [hfind]
        exact ⟨hf.field, hf.pending, hf.seen, hf.map, hkind.symm⟩
      exact modifyTop_agrees env reads hq hlex hp
        (fun f => { findPending env f key with state := .objectColon }) hidle (by rw [hfind])

/-- The closing quote of a string. -/
theorem deliverString_agrees {S : Type} {env : Env σ} (reads : Parser σ → S → Prop) {p : Parser σ}
    (hq : Quiet env p) (hlex : p.lexMode = .none) (hplace : TokenPlace env p)
    (hkey : p.lexIsKey = true → KeyUnknown env p.token.bytes) :
    Agrees env reads (deliverString env p) (some ⟨Json.afterString p.lexIsKey, p.brackets⟩) := by
  cases hiskey : p.lexIsKey with
  | true =>
      obtain ⟨hq', hframes, hbytes, hlex', hkey', hstarted⟩ := scratchCstr_quiet env hq
      have hplace' : TokenPlace env p.scratchCstr :=
        ⟨by rw [hframes, hstarted, hkey']; exact hplace.root,
          by rw [hframes, hkey']; exact hplace.key⟩
      have hdeliver : deliverString env p = deliverKeyText env p.scratchCstr p.token.bytes := by
        simp [deliverString, deliverToken, hkey', hiskey, hbytes]
      rw [hdeliver]
      have hagrees := deliverKeyText_agrees reads hq' (hlex'.trans hlex) hplace'
        (hkey'.trans hiskey) (hkey hiskey)
      have hbrackets : p.scratchCstr.brackets = p.brackets := by simp [Parser.brackets, hframes]
      rwa [hbrackets] at hagrees
  | false => exact deliverToken_agrees env reads hq hlex hplace hiskey .string

/-! ## Escapes inside a chunk -/

theorem nextQuad_eq_some {bytes : Bytes} {cp : ℕ} (h : nextQuad bytes = some cp) :
    ∃ a b c d rest, bytes = 0x5c :: 0x75 :: a :: b :: c :: d :: rest ∧
      decodeUnicodeQuad a b c d = some cp := by
  unfold nextQuad at h
  split at h
  · exact ⟨_, _, _, _, _, rfl, h⟩
  · cases h

/-- A text that a backslash follows is in the token. -/
def TokenState.settle (q : TokenState) : TokenState :=
  { q with fresh := q.fresh && q.text.isEmpty }

/-- There is room for a text that is not in the token yet. -/
def Settles (env : Env σ) (p : Parser σ) (q : TokenState) : Prop :=
  q.fresh = true → q.text ≠ [] → stringRoom env p.frames.length q.text.length = true

theorem run_backslash {env : Env σ} {p : Parser σ} {q : TokenState} (hphase : q.phase = .body)
    (hroom : Settles env p q) (rest : Text) :
    Json.run (readerMachine env (readerLexer env)) (some (p.inString q)) (0x5c :: rest) =
      Json.run (readerMachine env (readerLexer env))
        (some (p.inString { q.settle with phase := .escape })) rest := by
  have hno : (q.fresh && !q.text.isEmpty && !stringRoom env p.frames.length q.text.length) =
      false := by
    cases hfresh : q.fresh with
    | false => rfl
    | true =>
        by_cases htext : q.text = []
        · simp [htext]
        · simp [hroom hfresh htext]
  have hlexer : (readerLexer env p.lexIsKey p.frames.length).next q 0x5c =
      some (some { q.settle with phase := .escape }) := by
    simp only [readerLexer, tokenLexer, hphase]
    rw [if_neg (by decide), if_pos trivial, hno]
    rfl
  rw [Json.run_cons_some, step_string, hlexer]
  rfl

/-- A `\u` escape takes the lexer to the state behind its code unit. -/
theorem run_unit {env : Env σ} {p : Parser σ} {q : TokenState} (hphase : q.phase = .body)
    (hroom : Settles env p q) {a b c d : Byte} {cp : ℕ}
    (hcp : decodeUnicodeQuad a b c d = some cp) (rest : Text) :
    Json.run (readerMachine env (readerLexer env)) (some (p.inString q))
        (0x5c :: 0x75 :: a :: b :: c :: d :: rest) =
      Json.run (readerMachine env (readerLexer env))
        ((q.settle.unit (stringRoom env p.frames.length) cp).map p.inString) rest := by
  obtain ⟨va, vb, vc, vd, ha, hb, hc, hd, rfl⟩ := decodeUnicodeQuad_eq_some.mp hcp
  have hu : simpleEscape 0x75 = none := rfl
  rw [run_backslash hphase hroom]
  simp only [Json.run_cons_some, step_string, readerLexer, tokenLexer, hu, ha, hb, hc, hd,
    if_true, Option.map_some, Option.elim_some, Nat.add_one_sub_one, ne_eq,
    one_ne_zero, OfNat.ofNat_ne_zero, not_false_eq_true, not_true_eq_false, if_false, map_inString]
  rfl

/-- What an escape inside a chunk may lead to: an error, nothing, or the state behind it. -/
def EscapeOutcome (env : Env σ) (p : Parser σ) (q : TokenState) (bytes : Bytes)
    (e : (Parser σ × Status) × ℕ) : Prop :=
  (e.1.2.soft = false ∧
    Json.run (readerMachine env (readerLexer env)) (some (p.inString q)) bytes = none) ∨
  e = ((p, .ok), 0) ∨
  (e.1.2 = .ok ∧ 0 < e.2 ∧ e.2 ≤ bytes.length ∧ ∃ q',
    Json.run (readerMachine env (readerLexer env)) (some (p.inString q)) (bytes.take e.2) =
      some (p.inString q') ∧
    q'.phase = .body ∧ q'.fresh = false ∧ Tracks env (ReadsAlways env) e.1.1 (p.inString q'))

theorem TokenState.append_eq_some {q q' : TokenState} {room : ℕ → Bool} {data : Bytes}
    (h : q.append room data = some q') : q'.phase = .body ∧ q'.fresh = false := by
  unfold TokenState.append at h
  split at h
  · cases h
    exact ⟨rfl, rfl⟩
  · cases h

theorem TokenState.appendCodepoint_eq_some {q q' : TokenState} {room : ℕ → Bool} {cp : ℕ}
    (h : q.appendCodepoint room cp = some q') : q'.phase = .body ∧ q'.fresh = false := by
  obtain ⟨data, -, happend⟩ := Option.bind_eq_some_iff.mp h
  exact append_eq_some happend

theorem escapeOutcome_of_agrees {env : Env σ} {p : Parser σ} {q : TokenState} {bytes : Bytes}
    {r : Parser σ × Status} {o : Option TokenState} {n : ℕ} (hpos : 0 < n) (hn : n ≤ bytes.length)
    (hrun : Json.run (readerMachine env (readerLexer env)) (some (p.inString q)) (bytes.take n) =
      o.map p.inString)
    (ho : ∀ q', o = some q' → q'.phase = .body ∧ q'.fresh = false)
    (h : Agrees env (ReadsAlways env) r (o.map p.inString)) : EscapeOutcome env p q bytes (r, n) := by
  cases o with
  | none =>
      refine .inl ⟨h, ?_⟩
      rw [← List.take_append_drop n bytes, Json.run_append, hrun]
      simp
  | some q' => exact .inr (.inr ⟨h.1, hpos, hn, q', hrun, (ho q' rfl).1, (ho q' rfl).2, h.2⟩)

/-- The registers of the parser inside a chunk: the lexer is between escapes. -/
structure LoopReads (env : Env σ) (p : Parser σ) (q : TokenState) : Prop where
  quiet : Quiet env p
  lex : p.lexMode = .string
  place : TokenPlace env p
  high : p.unicodePendingHigh = q.high
  registers : PhaseAgrees p .body
  phase : q.phase = .body
  captures : Captures env p q.text

theorem LoopReads.advance {env : Env σ} {p : Parser σ} {q : TokenState} (h : LoopReads env p q)
    (n : ℕ) : LoopReads env (p.advance n) q :=
  ⟨⟨h.quiet.core, h.quiet.top, h.quiet.frames, h.quiet.started, h.quiet.finished⟩, h.lex,
    ⟨h.place.root, h.place.key⟩, h.high, h.registers, h.phase,
    ⟨h.captures.discard, h.captures.token⟩⟩

/-- A one-letter escape. -/
theorem simpleEscape_outcome {env : Env σ} {sink : StringSink σ} (hsink : TokenSink env sink)
    {p : Parser σ} {q : TokenState} (h : LoopReads env p q) (hroom : Settles env p q)
    {letter ch : Byte} (hletter : simpleEscape letter = some ch) (rest : Bytes) :
    EscapeOutcome env p q (0x5c :: letter :: rest) (sink.byte (p.advance 2) ch, 2) := by
  have hmoved := h.advance 2
  refine escapeOutcome_of_agrees (o := q.append (stringRoom env p.frames.length) [ch]) (by simp)
    (by simp) ?_ (fun q' => TokenState.append_eq_some) ?_
  · rw [List.take_succ_cons, run_backslash h.phase hroom]
    simp only [List.take_succ_cons, List.take_zero, Json.run_cons_some, step_string, readerLexer,
      tokenLexer, hletter, Json.run_nil]
    exact map_inString p (q.append (stringRoom env p.frames.length) [ch])
  · exact Stores.agrees (p := p.advance 2) hmoved.quiet hmoved.lex hmoved.place
      hmoved.registers hmoved.high hmoved.captures (by simp) (hsink.byte _ _ ch hmoved.quiet hmoved.captures)

/-- A code point that the sink takes. -/
theorem sinkCodepoint_agrees {env : Env σ} {sink : StringSink σ} (hsink : TokenSink env sink)
    {p : Parser σ} {q : TokenState} (h : LoopReads env p q) (cp : ℕ) :
    Agrees env (ReadsAlways env) (sink.codepoint p cp)
      ((q.appendCodepoint (stringRoom env p.frames.length) cp).map p.inString) := by
  unfold TokenState.appendCodepoint
  cases hcp : utf8Encode cp with
  | none => exact hsink.invalid p q.text cp h.captures hcp
  | some data =>
      exact Stores.agrees h.quiet h.lex h.place h.registers h.high h.captures
        (utf8Encode_ne_nil hcp) (hsink.codepoint p q.text cp data h.quiet h.captures hcp)

theorem TokenState.unit_pair {q : TokenState} {cp : ℕ} (room : ℕ → Bool) (h : q.high ≠ 0)
    (hlow : isLowSurrogate cp = true) :
    q.unit room cp = { q with high := 0 }.appendCodepoint room (combineSurrogates q.high cp) := by
  rw [unit, if_pos h, if_pos hlow]

theorem TokenState.unit_badPair {q : TokenState} {cp : ℕ} (room : ℕ → Bool) (h : q.high ≠ 0)
    (hlow : isLowSurrogate cp = false) : q.unit room cp = none := by
  rw [unit, if_pos h, if_neg (by simp [hlow])]

theorem TokenState.unit_high {q : TokenState} {cp : ℕ} (room : ℕ → Bool) (h : q.high = 0)
    (hhigh : isHighSurrogate cp = true) :
    q.unit room cp = some { q with phase := .body, high := cp } := by
  rw [unit, if_neg (by simp [h]), if_pos hhigh]

theorem TokenState.unit_badLow {q : TokenState} {cp : ℕ} (room : ℕ → Bool) (h : q.high = 0)
    (hhigh : isHighSurrogate cp = false) (hlow : isLowSurrogate cp = true) :
    q.unit room cp = none := by
  rw [unit, if_neg (by simp [h]), if_neg (by simp [hhigh]), if_pos hlow]

theorem TokenState.unit_plain {q : TokenState} {cp : ℕ} (room : ℕ → Bool) (h : q.high = 0)
    (hhigh : isHighSurrogate cp = false) (hlow : isLowSurrogate cp = false) :
    q.unit room cp = q.appendCodepoint room cp := by
  rw [unit, if_neg (by simp [h]), if_neg (by simp [hhigh]), if_neg (by simp [hlow])]

theorem isHighSurrogate_ne_zero {cp : ℕ} (h : isHighSurrogate cp = true) : cp ≠ 0 := by
  rintro rfl
  simp [isHighSurrogate] at h

/-- A `\u` escape, with the one that completes it when it is a high surrogate. -/
theorem unicodeEscape_outcome {env : Env σ} {sink : StringSink σ} (hsink : TokenSink env sink)
    {p : Parser σ} {q : TokenState} (h : LoopReads env p q) (hroom : Settles env p q)
    (bytes : Bytes) : EscapeOutcome env p q bytes (consumeUnicodeEscape sink.codepoint p bytes) := by
  set room := stringRoom env p.frames.length with hroomdef
  unfold consumeUnicodeEscape
  cases hquad : nextQuad bytes with
  | none => exact .inr (.inl rfl)
  | some cp =>
      obtain ⟨a, b, c, d, rest, rfl, hcp⟩ := nextQuad_eq_some hquad
      have hrun := run_unit (p := p) h.phase hroom hcp
      rw [← hroomdef] at hrun
      dsimp only
      rw [h.high]
      by_cases hpending : q.high ≠ 0
      · rw [if_pos hpending]
        cases hlow : isLowSurrogate cp with
        | false =>
            refine .inl ⟨rfl, ?_⟩
            rw [hrun, TokenState.unit_badPair (q := q.settle) room hpending hlow]
            simp
        | true =>
            have hmoved := h.advance 6
            refine escapeOutcome_of_agrees (n := 6) (o := { q with high := 0 }.appendCodepoint room
              (combineSurrogates q.high cp)) (by simp) (by simp) ?_
              (fun q' => TokenState.appendCodepoint_eq_some) ?_
            · rw [show (0x5c :: 0x75 :: a :: b :: c :: d :: rest).take 6 =
                [0x5c, 0x75, a, b, c, d] from rfl, hrun, TokenState.unit_pair (q := q.settle) room hpending hlow,
                Json.run_nil]
              rfl
            · exact sinkCodepoint_agrees (p := { p with unicodePendingHigh := 0 }.advance 6)
                (q := { q with high := 0 }) hsink
                ⟨⟨hmoved.quiet.core, hmoved.quiet.top, hmoved.quiet.frames, hmoved.quiet.started,
                  hmoved.quiet.finished⟩, hmoved.lex, ⟨hmoved.place.root, hmoved.place.key⟩, rfl,
                  hmoved.registers, hmoved.phase,
                  ⟨hmoved.captures.discard, hmoved.captures.token⟩⟩ _
      · have hzero : q.high = 0 := not_not.mp hpending
        rw [if_neg hpending]
        cases hhigh : isHighSurrogate cp with
        | true =>
            -- The state between the two halves.
            set q' : TokenState := { q.settle with high := cp } with hq'
            have hunit : q.settle.unit room cp = some q' := by
              rw [TokenState.unit_high (q := q.settle) room hzero hhigh, hq', ← h.phase]
              rfl
            have hphase' : q'.phase = .body := h.phase
            have hroom' : Settles env p q' := by
              intro hfresh htext
              have hempty : q.text.isEmpty = true := by
                have hfresh' : (q.fresh && q.text.isEmpty) = true := hfresh
                simp only [Bool.and_eq_true] at hfresh'
                exact hfresh'.2
              exact absurd (List.isEmpty_iff.mp hempty) htext
            rw [if_pos rfl]
            cases hnext : nextQuad ((0x5c :: 0x75 :: a :: b :: c :: d :: rest).drop 6) with
            | none => exact .inr (.inl rfl)
            | some low =>
                obtain ⟨a', b', c', d', rest', hrest, hlow'⟩ := nextQuad_eq_some hnext
                obtain rfl : rest = 0x5c :: 0x75 :: a' :: b' :: c' :: d' :: rest' := hrest
                have hrun' := run_unit (p := p) hphase' hroom' hlow'
                rw [← hroomdef] at hrun'
                have hne : q'.settle.high ≠ 0 := isHighSurrogate_ne_zero hhigh
                dsimp only
                cases hlow : isLowSurrogate low with
                | false =>
                    refine .inl ⟨rfl, ?_⟩
                    rw [hrun, hunit, Option.map_some, hrun', TokenState.unit_badPair room hne hlow]
                    simp
                | true =>
                    have hmoved := h.advance 12
                    refine escapeOutcome_of_agrees (n := 12) (o := q.appendCodepoint room
                      (combineSurrogates cp low)) (by simp) (by simp) ?_
                      (fun q' => TokenState.appendCodepoint_eq_some) ?_
                    · rw [show (0x5c :: 0x75 :: a :: b :: c :: d :: 0x5c :: 0x75 :: a' :: b' :: c' ::
                        d' :: rest').take 12 = 0x5c :: 0x75 :: a :: b :: c :: d ::
                          [0x5c, 0x75, a', b', c', d'] from rfl, hrun, hunit, Option.map_some,
                        hrun', TokenState.unit_pair room hne hlow, Json.run_nil]
                      rw [show ({ q'.settle with high := 0 } : TokenState).appendCodepoint room
                        (combineSurrogates q'.settle.high low) =
                          ({ q with high := 0 } : TokenState).appendCodepoint room
                            (combineSurrogates cp low) from rfl, ← hzero]
                    · exact sinkCodepoint_agrees hsink hmoved _
        | false =>
            rw [if_neg (by simp)]
            cases hlow : isLowSurrogate cp with
            | true =>
                refine .inl ⟨rfl, ?_⟩
                rw [hrun, TokenState.unit_badLow (q := q.settle) room hzero hhigh hlow]
                simp
            | false =>
                have hmoved := h.advance 6
                refine escapeOutcome_of_agrees (n := 6) (o := q.appendCodepoint room cp) (by simp)
                  (by simp) ?_ (fun q' => TokenState.appendCodepoint_eq_some) ?_
                · rw [show (0x5c :: 0x75 :: a :: b :: c :: d :: rest).take 6 =
                    [0x5c, 0x75, a, b, c, d] from rfl, hrun,
                    TokenState.unit_plain (q := q.settle) room hzero hhigh hlow, Json.run_nil]
                  rfl
                · exact sinkCodepoint_agrees hsink hmoved _

/-- The escape at the head of a chunk. -/
theorem escape_outcome {env : Env σ} {sink : StringSink σ} (hsink : TokenSink env sink)
    {p : Parser σ} {q : TokenState} (h : LoopReads env p q) (hroom : Settles env p q)
    (rest : Bytes) : EscapeOutcome env p q (0x5c :: rest) (consumeEscape sink p (0x5c :: rest)) := by
  have hunicode := unicodeEscape_outcome hsink h hroom (0x5c :: rest)
  have hskip (hsimple : consumeSimpleEscape sink.byte p (0x5c :: rest) = ((p, .ok), 0)) :
      consumeEscape sink p (0x5c :: rest) = consumeUnicodeEscape sink.codepoint p (0x5c :: rest) := by
    simp [consumeEscape, hsimple]
  cases rest with
  | nil =>
      rw [hskip rfl]
      exact hunicode
  | cons letter rest =>
      by_cases hpending : p.unicodePendingHigh ≠ 0
      · rw [hskip (by rw [consumeSimpleEscape, if_pos hpending])]
        exact hunicode
      · cases hletter : simpleEscape letter with
        | none =>
            rw [hskip (by rw [consumeSimpleEscape, if_neg hpending, hletter])]
            exact hunicode
        | some ch =>
            have hsimple : consumeEscape sink p (0x5c :: letter :: rest) =
                (sink.byte (p.advance 2) ch, 2) := by
              simp [consumeEscape, consumeSimpleEscape, hpending, hletter]
            rw [hsimple]
            exact simpleEscape_outcome hsink h hroom hletter rest

/-! ## Runs of plain bytes -/

theorem stringRoom_mono {env : Env σ} {depth n m : ℕ} (hnm : n ≤ m)
    (h : stringRoom env depth m = true) : stringRoom env depth n = true := by
  simp only [stringRoom, Bool.or_eq_true, decide_eq_true_eq] at h ⊢
  exact h.imp_right fun h => by omega

/-- A plain byte of a string. -/
theorem step_plain {env : Env σ} {p : Parser σ} {q : TokenState} (hphase : q.phase = .body)
    {b : Byte} (hb : isPlain b = true) :
    Json.step (readerMachine env (readerLexer env)) (p.inString q) b =
      if q.fresh = true ∨ stringRoom env p.frames.length (q.text.length + 1) = true then
        some (p.inString { q with text := q.text ++ [b] })
      else none := by
  obtain ⟨hquote, hback, hcontrol⟩ := isPlain_iff.mp hb
  rw [step_string]
  simp only [readerLexer, tokenLexer, hphase, hquote, hback, hcontrol, if_false]
  cases hfresh : q.fresh with
  | true => simp
  | false =>
      simp only [Bool.false_eq_true, if_false, false_or, TokenState.append, List.length_singleton]
      split <;> simp

/-- A run of plain bytes goes into the text while there is room, or while the text may
still be taken from the chunk. -/
theorem run_plain {env : Env σ} {p : Parser σ} {q : TokenState} (hphase : q.phase = .body)
    {data : Bytes} (hdata : ∀ b ∈ data, isPlain b = true)
    (hroom : q.fresh = true ∨ data = [] ∨
      stringRoom env p.frames.length (q.text.length + data.length) = true) :
    Json.run (readerMachine env (readerLexer env)) (some (p.inString q)) data =
      some (p.inString { q with text := q.text ++ data }) := by
  induction data generalizing q with
  | nil => simp
  | cons b data ih =>
      have hroom' : q.fresh = true ∨
          stringRoom env p.frames.length (q.text.length + (data.length + 1)) = true := by
        simpa using hroom
      rw [Json.run_cons_some, step_plain hphase (hdata b (by simp)),
        if_pos (hroom'.imp_right (stringRoom_mono (by omega)))]
      have hih := ih (q := { q with text := q.text ++ [b] }) hphase
        (fun c hc => hdata c (by simp [hc])) (hroom'.imp_right fun h => .inr (by
          simpa [Nat.add_assoc, Nat.add_comm 1] using h))
      simpa using hih

/-- A run of plain bytes that does not fit. -/
theorem run_plain_full {env : Env σ} {p : Parser σ} {q : TokenState} (hphase : q.phase = .body)
    {data : Bytes} (hdata : ∀ b ∈ data, isPlain b = true) (hne : data ≠ [])
    (hfresh : q.fresh = false)
    (hroom : stringRoom env p.frames.length (q.text.length + data.length) = false) :
    Json.run (readerMachine env (readerLexer env)) (some (p.inString q)) data = none := by
  induction data generalizing q with
  | nil => exact absurd rfl hne
  | cons b data ih =>
      rw [Json.run_cons_some, step_plain hphase (hdata b (by simp))]
      split
      · next hone =>
        have hone : stringRoom env p.frames.length (q.text.length + 1) = true := by
          simpa [hfresh] using hone
        by_cases hnil : data = []
        · subst hnil
          simp only [List.length_singleton] at hroom
          rw [hone] at hroom
          cases hroom
        · refine ih (q := { q with text := q.text ++ [b] }) hphase
            (fun c hc => hdata c (by simp [hc])) hnil hfresh ?_
          simpa [Nat.add_assoc, Nat.add_comm 1] using hroom
      · simp

/-! ## The loop over a chunk -/

theorem Tracks.string_inv {S : Type} {env : Env σ} {reads : Parser σ → S → Prop} {p : Parser σ}
    {isKey : Bool} {q : S} {stack : List Bracket}
    (h : Tracks env reads p ⟨.string isKey q, stack⟩) :
    Quiet env p ∧ p.lexMode = .string ∧ TokenPlace env p ∧ reads p q ∧ p.lexIsKey = isKey ∧
      p.brackets = stack := by
  generalize hst : (⟨.string isKey q, stack⟩ : State S) = st at h
  cases h with
  | between hq hlex =>
      have hmode := congrArg State.mode hst
      cases hp : p.frames with
      | nil => cases hstarted : p.rootStarted <;> simp [Parser.mode, hp, hstarted] at hmode
      | cons f fs =>
          cases hstate : f.state <;> cases hcomma : f.afterComma <;>
            simp [Parser.mode, hp, hstate, hcomma, frameMode] at hmode
  | string hq hlex hplace hreads =>
      simp only [State.mk.injEq, Mode.string.injEq] at hst
      obtain ⟨⟨rfl, rfl⟩, rfl⟩ := hst
      exact ⟨hq, hlex, hplace, hreads, rfl, rfl⟩
  | number => simp at hst
  | literal => simp at hst

/-- What the loop over the bytes of a chunk may lead to. -/
def LoopOutcome (env : Env σ) (p : Parser σ) (q : TokenState) (bytes : Bytes) (pos : ℕ)
    (r : (Parser σ × Status) × ℕ) : Prop :=
  (r.1.2.soft = false ∧
    (Json.run (readerMachine env (readerLexer env)) (some (p.inString q)) bytes = none ∨
      env.validateOnly = false ∧
        (Json.run (readerMachine env (readerLexer env)) (some (p.inString q)) bytes).any
          (Json.accepting (readerMachine env (readerLexer env))) = false)) ∨
  (r.1.2 = .ok ∧ ∃ n st', r.2 = pos + n ∧ n ≤ bytes.length ∧
    Json.run (readerMachine env (readerLexer env)) (some (p.inString q)) (bytes.take n) =
      some st' ∧
    (Tracks env (ReadsToken env (bytes.drop n)) r.1.1 st' ∨
      bytes.drop n = [] ∧ Dangles (env.validateOnly = false) r.1.1 st') ∧
    (r.1.1.lexMode = .none → 0 < n) ∧ (n = 0 → bytes = [] ∨ bytes.head? = some 0x5c))

/-- What the loop knows of a text that is not in the token, and of one that is. -/
structure LoopFresh (env : Env σ) (p : Parser σ) (q : TokenState) (bytes : Bytes) : Prop where
  fresh : q.fresh = true → env.validateOnly = false ∧ p.lexIsKey = true ∧
    (bytes.dropWhile isPlain).head? ≠ some 0x22 ∧
    (q.text ≠ [] → bytes.head? = some 0x5c ∧ q.text.length + 2 ≤ p.token.cap)
  stale : q.fresh = false → env.validateOnly = false → p.lexIsKey = true → q.text ≠ []

/-- The run of plain bytes at the head of a chunk, as the sink takes it. -/
theorem plain_outcome {env : Env σ} {sink : StringSink σ} (hsink : TokenSink env sink)
    {p : Parser σ} {q : TokenState} (h : LoopReads env p q) (data : Bytes)
    (hroom : data = [] ∨
      stringRoom env p.frames.length (q.text.length + data.length) = true) :
    ∃ p', (if data = [] then (p, .ok) else sink.run p data) = (p', .ok) ∧
      LoopReads env p' { q with text := q.text ++ data } ∧ p'.lexIsKey = p.lexIsKey ∧
      p'.frames = p.frames := by
  by_cases hnil : data = []
  · refine ⟨p, if_pos hnil, ?_, rfl, rfl⟩
    simpa [hnil] using h
  · have hfits := hroom.resolve_left hnil
    have hstores := hsink.run p q.text data h.quiet h.captures
    rw [Stores, if_pos hfits] at hstores
    refine ⟨stored env p data, by rw [if_neg hnil, hstores], ?_, ?_, ?_⟩
    · cases hvalidate : env.validateOnly with
      | true =>
          rw [stored, if_pos hvalidate]
          exact ⟨h.quiet, h.lex, h.place, h.high, h.registers, h.phase,
            ⟨h.captures.discard, fun h => by simp [hvalidate] at h⟩⟩
      | false =>
          obtain ⟨hmode, hbytes, hcap⟩ := h.captures.token hvalidate
          rw [stored, if_neg (by simp [hvalidate])]
          exact ⟨⟨h.quiet.core, h.quiet.top, h.quiet.frames, h.quiet.started, h.quiet.finished⟩,
            h.lex, ⟨h.place.root, h.place.key⟩, h.high, h.registers, h.phase,
            ⟨fun h => by simp [hvalidate] at h, fun _ => ⟨hmode, by rw [hbytes], hcap⟩⟩⟩
    · cases hvalidate : env.validateOnly <;> simp [stored, hvalidate]
    · cases hvalidate : env.validateOnly <;> simp [stored, hvalidate]

theorem LoopReads.ends {env : Env σ} {p : Parser σ} {q : TokenState} (h : LoopReads env p q)
    (hfresh : q.fresh = true → env.validateOnly = false)
    (hstale : q.fresh = false → env.validateOnly = false → p.lexIsKey = true → q.text ≠ []) :
    Tracks env (ReadsToken env []) p (p.inString q) ∨
      Dangles (env.validateOnly = false) p (p.inString q) := by
  cases hq : q.fresh with
  | true => exact .inr ⟨q, hfresh hq, h.quiet.core, h.lex, rfl⟩
  | false =>
      refine .inl (.string h.quiet h.lex h.place ⟨h.high, ?_, h.captures, ?_, hstale⟩)
      · rw [h.phase]
        exact h.registers
      · simp [hq]

/-- A text in front of one whose outcome is known. -/
theorem LoopOutcome.prepend {env : Env σ} {p p' : Parser σ} {q q' : TokenState}
    {data tail : Bytes} {pos : ℕ} {r : (Parser σ × Status) × ℕ}
    (hrun : Json.run (readerMachine env (readerLexer env)) (some (p.inString q)) data =
      some (p'.inString q'))
    (h : LoopOutcome env p' q' tail (pos + data.length) r) :
    LoopOutcome env p q (data ++ tail) pos r := by
  unfold LoopOutcome
  rw [Json.run_append, hrun]
  rcases h with hhard | ⟨hok, n, st', hused, hle, hrun', hstate, hnone, hzero⟩
  · exact .inl hhard
  · refine .inr ⟨hok, data.length + n, st', by omega, by simp [hle], ?_, ?_, ?_, ?_⟩
    · rw [List.take_append, Json.run_append, List.take_of_length_le (by omega), hrun]
      simpa using hrun'
    · have hdrop : (data ++ tail).drop (data.length + n) = tail.drop n := by
        rw [List.drop_append, List.drop_of_length_le (by omega)]
        simp
      rwa [hdrop]
    · intro hlex
      have := hnone hlex
      omega
    · intro hsum
      obtain rfl : data = [] := List.eq_nil_of_length_eq_zero (by omega)
      simpa using hzero (by simpa using hsum)

/-! ### The turns of the loop -/

theorem stringLoop_nil (sink : StringSink σ) (fuel : ℕ) (p : Parser σ) (pos : ℕ) :
    stringLoop sink fuel p [] pos = ((p, .ok), pos) := by
  cases fuel <;> simp [stringLoop]

theorem head_dropWhile_plain {bytes rest : Bytes} {ch : Byte}
    (h : bytes.dropWhile isPlain = ch :: rest) : isPlain ch = false := by
  have := List.head?_dropWhile_not isPlain bytes
  simpa [h] using this

/-- The run of plain bytes comes first. -/
theorem stringLoop_run (sink : StringSink σ) (fuel : ℕ) (p : Parser σ) (bytes : Bytes) (pos : ℕ) :
    stringLoop sink (fuel + 1) p bytes pos =
      let data := bytes.takeWhile isPlain
      let r := if data = [] then (p, .ok) else sink.run p data
      if r.2 ≠ .ok then (r, 0)
      else stringLoop sink (fuel + 1) (r.1.advance data.length) (bytes.dropWhile isPlain)
        (pos + data.length) := by
  by_cases hnil : bytes = []
  · subst hnil
    simp [stringLoop, Parser.advance]
  · dsimp only
    rw [stringLoop, if_neg hnil]
    dsimp only
    generalize (if bytes.takeWhile isPlain = [] then (p, Status.ok)
      else sink.run p (bytes.takeWhile isPlain)) = r
    by_cases hstop : r.2 ≠ .ok
    · rw [if_pos hstop, if_pos hstop]
    · rw [if_neg hstop, if_neg hstop]
      cases htail : bytes.dropWhile isPlain with
      | nil => rw [stringLoop_nil]
      | cons ch rest =>
          have hch := head_dropWhile_plain htail
          have htake : (ch :: rest).takeWhile isPlain = [] := by simp [hch]
          have hdrop : (ch :: rest).dropWhile isPlain = ch :: rest := by simp [hch]
          rw [stringLoop, if_neg (List.cons_ne_nil ch rest), htake, hdrop]
          rfl

theorem stringLoop_quote (sink : StringSink σ) (fuel : ℕ) (p : Parser σ) (rest : Bytes) (pos : ℕ) :
    stringLoop sink (fuel + 1) p (0x22 :: rest) pos =
      if p.unicodePendingHigh ≠ 0 then
        (p.setError .invalidJson "unterminated unicode surrogate pair", 0)
      else (sink.finish { p.advance 1 with lexMode := .none }, pos + 1) := by
  rw [stringLoop, if_neg (by simp)]
  rfl

theorem stringLoop_backslash (sink : StringSink σ) (fuel : ℕ) (p : Parser σ) (rest : Bytes)
    (pos : ℕ) :
    stringLoop sink (fuel + 1) p (0x5c :: rest) pos =
      let e := consumeEscape sink p (0x5c :: rest)
      if e.1.2 ≠ .ok then (e.1, pos + e.2)
      else if e.2 ≠ 0 then stringLoop sink fuel e.1.1 ((0x5c :: rest).drop e.2) (pos + e.2)
      else (e.1, pos) := by
  rw [stringLoop, if_neg (by simp)]
  rfl

theorem stringLoop_control (sink : StringSink σ) (fuel : ℕ) (p : Parser σ) {ch : Byte}
    (hch : ch < 0x20) (rest : Bytes) (pos : ℕ) :
    stringLoop sink (fuel + 1) p (ch :: rest) pos =
      (p.setError .invalidJson "control character in string literal", 0) := by
  have hplain : isPlain ch = false := by simp [isPlain, hch]
  have hquote : ch ≠ 0x22 := by
    rintro rfl
    exact absurd hch (by decide)
  have hback : ch ≠ 0x5c := by
    rintro rfl
    exact absurd hch (by decide)
  have htake : (ch :: rest).takeWhile isPlain = [] := by simp [hplain]
  have hdrop : (ch :: rest).dropWhile isPlain = ch :: rest := by simp [hplain]
  rw [stringLoop, if_neg (by simp), htake, hdrop]
  dsimp only
  rw [if_pos rfl, if_neg (by simp), if_neg hquote, if_neg hback]
  rfl

/-- The closing quote inside a chunk. -/
theorem closeQuote_outcome {env : Env σ} {sink : StringSink σ} (hsink : TokenSink env sink)
    {p : Parser σ} {q : TokenState} (h : LoopReads env p q) (hstored : q.fresh = false)
    (hkey : q.high = 0 → p.lexIsKey = true → KeyUnknown env q.text) (fuel : ℕ) (rest : Bytes)
    (pos : ℕ) : LoopOutcome env p q (0x22 :: rest) pos
      (stringLoop sink (fuel + 1) p (0x22 :: rest) pos) := by
  have hstep : Json.step (readerMachine env (readerLexer env)) (p.inString q) 0x22 =
      if q.high ≠ 0 then none else some ⟨Json.afterString p.lexIsKey, p.brackets⟩ := by
    rw [step_string]
    simp only [readerLexer, tokenLexer, h.phase, hstored]
    by_cases hpending : q.high ≠ 0 <;> simp [hpending]
  rw [stringLoop_quote]
  by_cases hpending : q.high ≠ 0
  · rw [if_pos (h.high ▸ hpending)]
    refine .inl ⟨rfl, .inl ?_⟩
    rw [Json.run_cons_some, hstep, if_pos hpending, Json.run_none]
  · rw [if_neg (h.high ▸ hpending)]
    have hcap : Captures env { p.advance 1 with lexMode := .none } q.text :=
      ⟨h.captures.discard, h.captures.token⟩
    have hdeliver := deliverString_agrees (p := { p.advance 1 with lexMode := .none })
      (ReadsToken env rest)
      ⟨h.quiet.core, h.quiet.top, h.quiet.frames, h.quiet.started, h.quiet.finished⟩ rfl
      ⟨h.place.root, h.place.key⟩ (by
        intro hiskey hvalidate
        rw [(hcap.token hvalidate).2.1]
        exact hkey (not_not.mp hpending) hiskey hvalidate)
    rw [hsink.finish _ q.text hcap]
    refine .inr ⟨hdeliver.1, 1, _, rfl, by simp, ?_, .inl hdeliver.2, fun _ => Nat.one_pos,
      fun h => by simp at h⟩
    rw [List.take_succ_cons, List.take_zero, Json.run_cons_some, hstep, if_neg hpending]
    rfl

theorem Settles.fits {env : Env σ} {p : Parser σ} {q : TokenState} (h : Settles env p q)
    (hreads : LoopReads env p q) (hvalidate : env.validateOnly = false) (hfresh : q.fresh = true)
    (htext : q.text ≠ []) : q.text.length + 2 ≤ p.token.cap := by
  have hroom := h hfresh htext
  rw [(hreads.captures.token hvalidate).2.2, tokenLimit_eq env hreads.quiet]
  simpa [stringRoom, hvalidate] using hroom

/-- What the loop knows of the text in front of a byte that ends a run. -/
structure EndsRun (env : Env σ) (p : Parser σ) (q : TokenState) (tail : Bytes) : Prop where
  head : ∀ ch ∈ tail.head?, isPlain ch = false
  fresh : q.fresh = true → env.validateOnly = false ∧ p.lexIsKey = true ∧ tail.head? ≠ some 0x22
  stale : q.fresh = false → env.validateOnly = false → p.lexIsKey = true → q.text ≠ []
  settles : tail.head? = some 0x5c → Settles env p q

/-- An escape inside a chunk, before a rest whose outcome is known. -/
theorem backslash_outcome {env : Env σ} {sink : StringSink σ} (hsink : TokenSink env sink)
    {fuel : ℕ} {p : Parser σ} {q : TokenState} (h : LoopReads env p q) (rest : Bytes)
    (hends : EndsRun env p q (0x5c :: rest)) (pos : ℕ)
    (hnext : ∀ (n : ℕ) (p' : Parser σ) (q' : TokenState), 0 < n →
      Json.run (readerMachine env (readerLexer env)) (some (p.inString q))
        ((0x5c :: rest).take n) = some (p'.inString q') →
      LoopReads env p' q' → q'.fresh = false →
      (env.validateOnly = false → p'.lexIsKey = true → q'.text ≠ []) →
      LoopOutcome env p' q' ((0x5c :: rest).drop n) (pos + n)
        (stringLoop sink fuel p' ((0x5c :: rest).drop n) (pos + n))) :
    LoopOutcome env p q (0x5c :: rest) pos (stringLoop sink (fuel + 1) p (0x5c :: rest) pos) := by
  have hsettles := hends.settles rfl
  have hescape := escape_outcome hsink h hsettles rest
  rw [stringLoop_backslash]
  dsimp only
  generalize consumeEscape sink p (0x5c :: rest) = e at hescape
  obtain ⟨⟨p', status⟩, n⟩ := e
  rcases hescape with ⟨hhard, hrun⟩ | hnothing | ⟨hok, hpos, hle, q', hrun, hphase, hfresh, htracks⟩
  · rw [if_pos (Status.ne_ok_of_hard hhard)]
    exact .inl ⟨hhard, .inl hrun⟩
  · cases hnothing
    rw [if_neg (by simp), if_neg (by simp)]
    refine .inr ⟨rfl, 0, _, rfl, by simp, rfl, .inl (.string h.quiet h.lex h.place ⟨h.high, ?_,
      h.captures, ?_, hends.stale⟩), fun hlex => ?_, fun _ => .inr rfl⟩
    · rw [h.phase]
      exact h.registers
    · intro hq
      obtain ⟨hvalidate, hkey, -⟩ := hends.fresh hq
      refine ⟨hvalidate, hkey, ?_⟩
      by_cases htext : q.text = []
      · exact .inl htext
      · exact .inr ⟨h.phase, rfl, hsettles.fits h hvalidate hq htext⟩
    · simp [h.lex] at hlex
  · obtain rfl : status = .ok := hok
    rw [if_neg (by simp), if_pos (by omega)]
    obtain ⟨hq, hlex, hplace, hreads, hkey, hstack⟩ := htracks.string_inv
    have hinString : p.inString q' = p'.inString q' := by
      rw [Parser.inString, Parser.inString, ← hkey, ← hstack]
    have hregisters := (hreads []).phase
    rw [hphase] at hregisters
    rw [hinString] at hrun
    have hrest := hnext n p' q' hpos hrun
      ⟨hq, hlex, hplace, (hreads []).high, hregisters, hphase, (hreads []).captures⟩ hfresh
      ((hreads []).stale hfresh)
    have hlength : ((0x5c :: rest).take n).length = n := List.length_take_of_le hle
    have hwhole : LoopOutcome env p q ((0x5c :: rest).take n ++ (0x5c :: rest).drop n) pos
        (stringLoop sink fuel p' ((0x5c :: rest).drop n) (pos + n)) :=
      LoopOutcome.prepend hrun (by rwa [hlength])
    rwa [List.take_append_drop] at hwhole

/-- The byte that ends a run of plain bytes. -/
theorem tail_outcome {env : Env σ} {sink : StringSink σ} (hsink : TokenSink env sink)
    {fuel : ℕ} {p : Parser σ} {q : TokenState} (h : LoopReads env p q) (tail : Bytes)
    (hends : EndsRun env p q tail) (hknown : KeysUnknown env (p.inString q) tail) (pos : ℕ)
    (hnext : ∀ (n : ℕ) (p' : Parser σ) (q' : TokenState), 0 < n →
      Json.run (readerMachine env (readerLexer env)) (some (p.inString q)) (tail.take n) =
        some (p'.inString q') →
      LoopReads env p' q' → q'.fresh = false →
      (env.validateOnly = false → p'.lexIsKey = true → q'.text ≠ []) →
      LoopOutcome env p' q' (tail.drop n) (pos + n)
        (stringLoop sink fuel p' (tail.drop n) (pos + n))) :
    LoopOutcome env p q tail pos (stringLoop sink (fuel + 1) p tail pos) := by
  cases tail with
  | nil =>
      rw [stringLoop_nil]
      have htracks := h.ends (fun hq => (hends.fresh hq).1) hends.stale
      exact .inr ⟨rfl, 0, p.inString q, rfl, le_refl _, rfl, by simpa using htracks,
        fun hlex => by simp [h.lex] at hlex, fun _ => .inl rfl⟩
  | cons ch rest =>
      have hhead := hends.head ch rfl
      have hcases : ch = 0x22 ∨ ch = 0x5c ∨ ch < 0x20 := by
        by_contra hno
        push Not at hno
        have : isPlain ch = true := isPlain_iff.mpr ⟨hno.1, hno.2.1, by simpa using hno.2.2⟩
        simp [this] at hhead
      rcases hcases with rfl | rfl | hcontrol
      · have hstored : q.fresh = false := by
          cases hq : q.fresh with
          | false => rfl
          | true => exact absurd rfl (hends.fresh hq).2.2
        refine closeQuote_outcome hsink h hstored ?_ fuel rest pos
        intro hhigh hkey hvalidate
        refine hknown hvalidate [] rest q p.brackets rfl (by simp [Parser.inString, hkey]) ?_
        simp [readerLexer, tokenLexer, h.phase, hhigh]
      · exact backslash_outcome hsink h rest hends pos hnext
      · rw [stringLoop_control sink fuel p hcontrol]
        refine .inl ⟨rfl, .inl ?_⟩
        have hquote : ch ≠ 0x22 := by
          rintro rfl
          exact absurd hcontrol (by decide)
        have hback : ch ≠ 0x5c := by
          rintro rfl
          exact absurd hcontrol (by decide)
        rw [Json.run_cons_some, step_string]
        simp [readerLexer, tokenLexer, h.phase, hquote, hback, hcontrol]

/-- A run of plain bytes that does not fit is an error, and no text with it is read. -/
theorem full_outcome {env : Env σ} {sink : StringSink σ} (hsink : TokenSink env sink)
    {p : Parser σ} {q : TokenState} (h : LoopReads env p q) {data tail : Bytes}
    (hplain : ∀ b ∈ data, isPlain b = true) (hhead : ∀ ch ∈ tail.head?, isPlain ch = false)
    (hfresh : q.fresh = true → env.validateOnly = false ∧ tail.head? ≠ some 0x22 ∧
      (q.text ≠ [] → data = []))
    (hne : data ≠ [])
    (hroom : stringRoom env p.frames.length (q.text.length + data.length) = false) (pos : ℕ) :
    LoopOutcome env p q (data ++ tail) pos (sink.run p data, 0) := by
  have hstores := hsink.run p q.text data h.quiet h.captures
  rw [Stores, hroom, if_neg (by simp)] at hstores
  refine .inl ⟨hstores, ?_⟩
  rw [Json.run_append]
  cases hq : q.fresh with
  | false =>
      rw [run_plain_full h.phase hplain hne hq hroom]
      exact .inl (by simp)
  | true =>
      obtain ⟨hvalidate, hquote, htext⟩ := hfresh hq
      rw [run_plain h.phase hplain (.inl hq)]
      refine .inr ⟨hvalidate, ?_⟩
      cases tail with
      | nil => rfl
      | cons ch rest =>
          have hplain' := hhead ch rfl
          have hnone : Json.step (readerMachine env (readerLexer env))
              (p.inString { q with text := q.text ++ data }) ch = none := by
            rw [step_string]
            have hquote' : ch ≠ 0x22 := by simpa using hquote
            by_cases hback : ch = 0x5c
            · simp [readerLexer, tokenLexer, h.phase, hback, hq, hne, hroom]
            · have hcontrol : ch < 0x20 := by
                by_contra hno
                have : isPlain ch = true := isPlain_iff.mpr ⟨hquote', hback, hno⟩
                simp [this] at hplain'
              simp [readerLexer, tokenLexer, h.phase, hback, hquote', hcontrol]
          rw [Json.run_cons_some, hnone]
          simp

/-- The loop over the bytes of a chunk. -/
theorem stringLoop_outcome {env : Env σ} {sink : StringSink σ} (hsink : TokenSink env sink)
    (fuel : ℕ) {p : Parser σ} {q : TokenState} (h : LoopReads env p q) (bytes : Bytes)
    (hfresh : LoopFresh env p q bytes) (hknown : KeysUnknown env (p.inString q) bytes)
    (hfuel : bytes.length ≤ fuel) (pos : ℕ) :
    LoopOutcome env p q bytes pos (stringLoop sink fuel p bytes pos) := by
  induction fuel generalizing p q bytes pos with
  | zero =>
      obtain rfl : bytes = [] := List.eq_nil_of_length_eq_zero (by omega)
      rw [stringLoop_nil]
      have hends := h.ends (fun hq => (hfresh.fresh hq).1) hfresh.stale
      exact .inr ⟨rfl, 0, p.inString q, rfl, le_refl _, rfl, by simpa using hends,
        fun hlex => by simp [h.lex] at hlex, fun _ => .inl rfl⟩
  | succ fuel ih =>
      set data := bytes.takeWhile isPlain with hdata
      set tail := bytes.dropWhile isPlain with htail
      have hsplit : data ++ tail = bytes := List.takeWhile_append_dropWhile
      have hplain : ∀ b ∈ data, isPlain b = true := fun b hb => List.mem_takeWhile_imp hb
      have hhead : ∀ ch ∈ tail.head?, isPlain ch = false := by
        intro ch hch
        obtain ⟨rest, hrest⟩ := List.head?_eq_some_iff.mp hch
        exact head_dropWhile_plain hrest
      -- a text that is not in the token, with bytes in front, is followed by a backslash
      have hback (hq : q.fresh = true) (htext : q.text ≠ []) : data = [] := by
        obtain ⟨rest, hrest⟩ := List.head?_eq_some_iff.mp ((hfresh.fresh hq).2.2.2 htext).1
        rw [hdata, hrest]
        rfl
      rw [stringLoop_run, ← hdata, ← htail, ← hsplit]
      dsimp only
      by_cases hroom : data = [] ∨
          stringRoom env p.frames.length (q.text.length + data.length) = true
      · obtain ⟨p', hrun, hreads, hkey', hframes'⟩ := plain_outcome hsink h data hroom
        rw [hrun, if_neg (by simp)]
        have hq0 := hreads.advance data.length
        have hstate : p.inString { q with text := q.text ++ data } =
            (p'.advance data.length).inString { q with text := q.text ++ data } := by
          simp [Parser.inString, Parser.brackets, Parser.advance, hkey', hframes']
        have hmachine := run_plain h.phase hplain (hroom.elim (fun h => .inr (.inl h))
          fun h => .inr (.inr h))
        rw [hstate] at hmachine
        have hends : EndsRun env (p'.advance data.length) { q with text := q.text ++ data } tail := by
          refine ⟨hhead, fun hq => ?_, fun hq hvalidate hkey => ?_, fun htick hq htext => ?_⟩
          · obtain ⟨hvalidate, hkey, hquote, -⟩ := hfresh.fresh hq
            exact ⟨hvalidate, hkey'.trans hkey, hquote⟩
          · have := hfresh.stale hq hvalidate (hkey'.symm.trans hkey)
            simp [this]
          · show stringRoom env p'.frames.length (q.text ++ data).length = true
            rw [hframes', List.length_append]
            rcases hroom with hnil | hfits
            · obtain ⟨hvalidate, -, -, htoken⟩ := hfresh.fresh hq
              have htoken := (htoken (by simpa [hnil] using htext)).2
              rw [(h.captures.token hvalidate).2.2, tokenLimit_eq env h.quiet] at htoken
              simp [stringRoom, hnil, htoken]
            · exact hfits
        have hlength : data.length + tail.length = bytes.length := by
          rw [← hsplit, List.length_append]
        refine LoopOutcome.prepend hmachine ?_
        refine tail_outcome hsink hq0 tail hends ?_ (pos + data.length) ?_
        · exact KeysUnknown.reaches (hsplit ▸ hknown) (.run hmachine)
        · intro n p2 q2 hpos hrun2 hreads2 hfresh2 hstale2
          refine ih hreads2 _ ⟨fun hq => by simp [hfresh2] at hq, fun _ => hstale2⟩ ?_ ?_ _
          · have htailKnown : KeysUnknown env ((p'.advance data.length).inString
                { q with text := q.text ++ data }) (tail.take n ++ tail.drop n) := by
              rw [List.take_append_drop]
              exact KeysUnknown.reaches (hsplit ▸ hknown) (.run hmachine)
            exact htailKnown.reaches (.run hrun2)
          · simp only [List.length_drop]
            omega
      · push Not at hroom
        have hfull : stringRoom env p.frames.length (q.text.length + data.length) = false := by
          simpa using hroom.2
        have hout := full_outcome hsink h hplain hhead (fun hq => ⟨(hfresh.fresh hq).1,
          (hfresh.fresh hq).2.2.1, hback hq⟩) hroom.1 hfull pos
        have hstop : (sink.run p data).2 ≠ .ok := by
          have hstores := hsink.run p q.text data h.quiet h.captures
          rw [Stores, hfull, if_neg (by simp)] at hstores
          exact Status.ne_ok_of_hard hstores
        rw [if_neg hroom.1, if_pos hstop]
        exact hout

/-! ## One turn inside a string -/

theorem LoopReads.of_reads {env : Env σ} {ahead : Bytes} {p : Parser σ} {q : TokenState}
    (hq : Quiet env p) (hlex : p.lexMode = .string) (hplace : TokenPlace env p)
    (hreads : ReadsToken env ahead p q) (hdigits : p.unicodeDigitsNeeded = 0)
    (hescape : p.lexEscape = false) : LoopReads env p q := by
  have hphase : q.phase = .body := by
    have hregisters := hreads.phase
    cases hphase : q.phase with
    | body => rfl
    | escape => simp [hphase, PhaseAgrees, hescape] at hregisters
    | hex needed accum =>
        rw [hphase] at hregisters
        exact absurd (hregisters.2.1.symm.trans hdigits) hregisters.2.2.1
  exact ⟨hq, hlex, hplace, hreads.high, ⟨hescape, hdigits⟩, hphase, hreads.captures⟩

/-- What a loop over a chunk leads to, with the byte it may leave to the next step. -/
theorem turn_of_outcome {env : Env σ} {p : Parser σ} {q : TokenState} {ch : Byte} {rest : Bytes}
    {r : (Parser σ × Status) × ℕ}
    (h : LoopOutcome env p q (ch :: rest) 0 r) :
    TurnAgrees env (readerLexer env) (ReadsToken env) (env.validateOnly = false)
      (if !r.1.2.soft then (r.1.1, .stop r.1.2 r.2)
        else if r.1.1.lexMode = .none ∨ r.2 ≠ 0 then (r.1.1, .next r.2)
        else charTurn env r.1.1 ch) (p.inString q) (ch :: rest) := by
  obtain ⟨⟨p', status⟩, used⟩ := r
  rcases h with ⟨hhard, hno⟩ | ⟨hok, n, st', hused, hle, hrun, hstate, hnone, hzero⟩
  · rw [if_pos (by simpa using hhard)]
    exact ⟨hhard, hno⟩
  · obtain rfl : status = .ok := hok
    obtain rfl : used = n := by simpa using hused
    rw [if_neg (by simp)]
    by_cases hnext : p'.lexMode = .none ∨ used ≠ 0
    · rw [if_pos hnext]
      have hpos : 0 < used := by
        rcases hnext with hlex | hne
        · exact hnone hlex
        · omega
      exact ⟨hpos, st', .run hrun, hstate⟩
    · rw [if_neg hnext]
      push Not at hnext
      obtain rfl : used = 0 := hnext.2
      obtain rfl : p.inString q = st' := by simpa using hrun
      have htracks := hstate.resolve_right (by simp)
      obtain ⟨hq, hlex, hplace, hreads, hkey, hstack⟩ := htracks.string_inv
      have hinString : p.inString q = p'.inString q := by
        rw [Parser.inString, Parser.inString, ← hkey, ← hstack]
      have hback : ch = 0x5c := by simpa using hzero rfl
      rw [hinString]
      exact stringCharTurn_agrees ch rest hq hlex hplace hreads fun _ => hback

/-- A key that is taken from the chunk. -/
theorem wholeKey_outcome {env : Env σ} {p : Parser σ} {q : TokenState} (h : LoopReads env p q)
    (hfresh : q.fresh = true) (htext : q.text = []) (hiskey : p.lexIsKey = true)
    (hvalidate : env.validateOnly = false) {bytes : Bytes}
    (hquote : (bytes.dropWhile isPlain).head? = some 0x22)
    (hknown : KeysUnknown env (p.inString q) bytes) :
    LoopOutcome env p q bytes 0
      (deliverKeyText env
        { p.advance ((bytes.takeWhile isPlain).length + 1) with lexMode := .none }
        (bytes.takeWhile isPlain), (bytes.takeWhile isPlain).length + 1) := by
  set key := bytes.takeWhile isPlain with hkeyText
  obtain ⟨rest, hrest⟩ := List.head?_eq_some_iff.mp hquote
  have hsplit : key ++ 0x22 :: rest = bytes := hrest ▸ List.takeWhile_append_dropWhile
  have hplain : ∀ b ∈ key, isPlain b = true := fun b hb => List.mem_takeWhile_imp hb
  have hrun : Json.run (readerMachine env (readerLexer env)) (some (p.inString q)) key =
      some (p.inString { q with text := q.text ++ key }) :=
    run_plain h.phase hplain (.inl hfresh)
  rw [htext, List.nil_append] at hrun
  have hclose : (readerLexer env true p.brackets.length).next { q with text := key } 0x22 =
      some none := by
    simp [readerLexer, tokenLexer, h.phase, hfresh]
  have hunknown : KeyUnknown env key := by
    intro _
    refine hknown hvalidate key rest { q with text := key } p.brackets hsplit.symm ?_ hclose
    rw [hrun, Parser.inString, hiskey]
  have hdeliver := deliverKeyText_agrees (ReadsToken env rest)
    (p := { p.advance (key.length + 1) with lexMode := .none })
    ⟨h.quiet.core, h.quiet.top, h.quiet.frames, h.quiet.started, h.quiet.finished⟩ rfl
    ⟨h.place.root, h.place.key⟩ hiskey hunknown
  have hlength : key.length + 1 ≤ bytes.length := by
    rw [← hsplit]
    simp
  have htake : bytes.take (key.length + 1) = key ++ [0x22] := by
    rw [← hsplit, List.take_length_add_append]
    rfl
  have hdrop : bytes.drop (key.length + 1) = rest := by
    rw [← hsplit, List.drop_length_add_append]
    rfl
  refine .inr ⟨hdeliver.1, key.length + 1, _, by simp, hlength, ?_, .inl (hdrop ▸ hdeliver.2),
    fun _ => Nat.succ_pos _, fun h => by simp at h⟩
  rw [htake, Json.run_append, hrun, Json.run_cons_some, step_string, hiskey,
    ← Parser.brackets_length, hclose]
  rfl

/-- One turn of the loop inside a string. -/
theorem stringTurn_agrees {env : Env σ} {p : Parser σ} {q : TokenState} (ch : Byte) (rest : Bytes)
    (h : LoopReads env p q) (hreads : ReadsToken env (ch :: rest) p q)
    (hknown : KeysUnknown env (p.inString q) (ch :: rest)) :
    TurnAgrees env (readerLexer env) (ReadsToken env) (env.validateOnly = false)
      (stringTurn env p ch rest) (p.inString q) (ch :: rest) := by
  unfold stringTurn
  refine turn_of_outcome ?_
  unfold consumeStringFast
  cases hvalidate : env.validateOnly with
  | true =>
      rw [h.captures.discard hvalidate]
      refine stringLoop_outcome (discardSink_token hvalidate) _ h _ ⟨fun hq => ?_, hreads.stale⟩
        hknown (le_refl _) 0
      exact absurd (hreads.fresh hq).1 (by simp [hvalidate])
  | false =>
      obtain ⟨hmode, hbytes, hcap⟩ := h.captures.token hvalidate
      rw [hmode]
      dsimp only
      split
      · next hwhole =>
        obtain ⟨hiskey, -, hempty, hquote⟩ := hwhole
        have htext : q.text = [] := hbytes ▸ List.eq_nil_of_length_eq_zero hempty
        have hfresh : q.fresh = true := by
          by_contra hstored
          exact hreads.stale (by simpa using hstored) hvalidate hiskey htext
        exact wholeKey_outcome h hfresh htext hiskey hvalidate hquote hknown
      · next hwhole =>
        refine stringLoop_outcome (generalSink_token hvalidate) _ h _ ⟨fun hq => ?_, hreads.stale⟩
          hknown (le_refl _) 0
        obtain ⟨-, hiskey, hplace⟩ := hreads.fresh hq
        refine ⟨hvalidate, hiskey, ?_, fun htext => (hplace.resolve_left htext).2⟩
        intro hquote
        rcases hplace with htext | ⟨-, hback, -⟩
        · exact hwhole ⟨hiskey, rfl, by simp [hbytes, htext], hquote⟩
        · obtain rfl : ch = 0x5c := by simpa using hback
          exact absurd hquote (by simp [show isPlain 0x5c = false from rfl])

/-- How a parser that stores nothing reads its strings. -/
def tokenReader (env : Env σ) : StringReader env (readerLexer env) where
  reads := ReadsToken env
  single := env.validateOnly = false
  known := KeysUnknown env
  known_reaches h hreaches := h.reaches hreaches
  start p hq hlex hstart ahead := by
    refine ⟨hstart.high, ⟨hstart.escape, hstart.digits⟩, ⟨hstart.discard, hstart.token⟩, ?_, ?_⟩
    · intro h
      simp only [readerLexer, tokenLexer, Bool.and_eq_true, Bool.not_eq_true'] at h
      exact ⟨h.2, h.1, .inl rfl⟩
    · intro h hvalidate hkey
      simp [readerLexer, tokenLexer, hvalidate, hkey] at h
  turn p q ch rest hq hlex hplace hreads hknown := by
    unfold feedTurn
    split
    · next hbody =>
      exact stringTurn_agrees ch rest (.of_reads hq hlex hplace hreads hbody.2.1 hbody.2.2) hreads
        hknown
    · next hbody =>
      rw [if_neg (by simp [hlex])]
      have hturn : TurnAgrees env (readerLexer env) (ReadsToken env) (env.validateOnly = false)
          (charTurn env p ch) (p.inString q) (ch :: rest) :=
        stringCharTurn_agrees ch rest hq hlex hplace hreads (by
          intro hphase
          have hregisters := hreads.phase
          rw [hphase] at hregisters
          exact absurd ⟨hlex, hregisters.2, hregisters.1⟩ hbody)
      split
      · next hnone _ => simp [hlex] at hnone
      · exact hturn

end Lonejson
