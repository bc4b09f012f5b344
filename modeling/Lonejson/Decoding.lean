import Lonejson.Registers
import Lonejson.SkimStrings
import Lonejson.VisitorTrees

/-!
# Strings that are decoded

A string whose text goes somewhere piece by piece: to a string member, or to a streamed
value. What the text is depends on the bytes of the string only, and not on the chunks they
come in or on which of the two scanners reads them.
-/

namespace Lonejson

open Json (Text Lexer)

variable {σ : Type}

/-! ## The text of a string -/

/-- The text of a string so far, and the registers of its lexer. -/
structure DecodeState where
  phase : TokenPhase := .body
  high : ℕ := 0
  text : Bytes := []
  deriving DecidableEq, Repr

def DecodeState.append (q : DecodeState) (data : Bytes) : DecodeState :=
  { q with phase := .body, text := q.text ++ data }

/-- The state after the last digit of a `\u` escape. -/
def DecodeState.unit (q : DecodeState) (cp : ℕ) : Option DecodeState :=
  if q.high ≠ 0 then
    if isLowSurrogate cp then
      (utf8Encode (combineSurrogates q.high cp)).map { q with high := 0 }.append
    else none
  else if isHighSurrogate cp then some { q with phase := .body, high := cp }
  else if isLowSurrogate cp then none
  else (utf8Encode cp).map q.append

/-- The lexer of strings behind the opening quote. -/
def decodeLexer : Lexer DecodeState where
  start := {}
  next q b :=
    match q.phase with
    | .body =>
      if b = 0x22 then if q.high ≠ 0 then none else some none
      else if b = 0x5c then some (some { q with phase := .escape })
      else if b < 0x20 then none
      else some (some (q.append [b]))
    | .escape =>
      match simpleEscape b with
      | some ch => some (some (q.append [ch]))
      | none => if b = 0x75 then some (some { q with phase := .hex 4 0 }) else none
    | .hex needed accum =>
      match hexValue b with
      | none => none
      | some hv =>
        if needed - 1 ≠ 0 then some (some { q with phase := .hex (needed - 1) (pushHex accum hv) })
        else (q.unit (pushHex accum hv)).map some

/-- The text of a string and what follows its closing quote. -/
def closes : DecodeState → Text → Option (Bytes × Text)
  | _, [] => none
  | q, b :: s =>
    match decodeLexer.next q b with
    | none => none
    | some none => some (q.text, s)
    | some (some q') => closes q' s

theorem closes_step {q q' : DecodeState} {b : Byte} (h : decodeLexer.next q b = some (some q'))
    (s : Text) : closes q (b :: s) = closes q' s := by
  rw [closes, h]

theorem closes_reject {q : DecodeState} {b : Byte} (h : decodeLexer.next q b = none) (s : Text) :
    closes q (b :: s) = none := by
  rw [closes, h]

theorem closes_end {q : DecodeState} {b : Byte} (h : decodeLexer.next q b = some none) (s : Text) :
    closes q (b :: s) = some (q.text, s) := by
  rw [closes, h]

section

variable {q : DecodeState} (hphase : q.phase = .body)

include hphase

theorem decode_quote : decodeLexer.next q 0x22 = if q.high ≠ 0 then none else some none := by
  simp [decodeLexer, hphase]

theorem decode_backslash :
    decodeLexer.next q 0x5c = some (some { q with phase := .escape }) := by
  simp [decodeLexer, hphase]

theorem decode_plain {b : Byte} (hb : isPlain b = true) :
    decodeLexer.next q b = some (some (q.append [b])) := by
  obtain ⟨hquote, hback, hcontrol⟩ := isPlain_iff.mp hb
  simp [decodeLexer, hphase, hquote, hback, hcontrol]

theorem decode_control {b : Byte} (hb : b < 0x20) : decodeLexer.next q b = none := by
  have hquote : b ≠ 0x22 := by
    rintro rfl
    exact absurd hb (by decide)
  have hback : b ≠ 0x5c := by
    rintro rfl
    exact absurd hb (by decide)
  simp [decodeLexer, hphase, hquote, hback, hb]

theorem closes_run {data : Bytes} (hdata : ∀ b ∈ data, isPlain b = true) (s : Text) :
    closes q (data ++ s) = closes (q.append data) s := by
  induction data generalizing q with
  | nil =>
      obtain ⟨phase, high, text⟩ := q
      obtain rfl : phase = .body := hphase
      simp [DecodeState.append]
  | cons b data ih =>
      rw [List.cons_append, closes_step (decode_plain hphase (hdata b (by simp)))]
      have hih := ih (q := q.append [b]) rfl fun c hc => hdata c (by simp [hc])
      rw [hih]
      simp [DecodeState.append]

theorem closes_simple {letter ch : Byte} (h : simpleEscape letter = some ch) (s : Text) :
    closes q (0x5c :: letter :: s) = closes (q.append [ch]) s := by
  rw [closes_step (decode_backslash hphase)]
  refine closes_step ?_ s
  simp only [decodeLexer, h]
  rfl

theorem closes_unit {a b c d : Byte} {cp : ℕ} (h : decodeUnicodeQuad a b c d = some cp) (s : Text) :
    closes q (0x5c :: 0x75 :: a :: b :: c :: d :: s) = (q.unit cp).bind fun q' => closes q' s := by
  obtain ⟨va, vb, vc, vd, ha, hb, hc, hd, rfl⟩ := decodeUnicodeQuad_eq_some.mp h
  have hu : simpleEscape 0x75 = none := rfl
  rw [closes_step (decode_backslash hphase)]
  have hunit (phase : TokenPhase) (cp : ℕ) :
      ({ q with phase } : DecodeState).unit cp = q.unit cp := by
    unfold DecodeState.unit DecodeState.append
    simp
  simp only [closes, decodeLexer, hu, ha, hb, hc, hd, if_true, Nat.add_one_sub_one, ne_eq,
    one_ne_zero, OfNat.ofNat_ne_zero, not_false_eq_true, not_true_eq_false, if_false, hunit]
  generalize q.unit _ = o
  cases o <;> rfl

end

theorem DecodeState.unit_body {q q' : DecodeState} {cp : ℕ} (h : q.unit cp = some q') :
    q'.phase = .body := by
  unfold DecodeState.unit at h
  split_ifs at h
  · obtain ⟨data, -, rfl⟩ := Option.map_eq_some_iff.mp h
    rfl
  · cases h
    rfl
  · obtain ⟨data, -, rfl⟩ := Option.map_eq_some_iff.mp h
    rfl

/-- The text so far stays in front. -/
theorem closes_prefix {q : DecodeState} {s : Text} {text : Bytes} {rest : Text}
    (h : closes q s = some (text, rest)) : q.text <+: text := by
  have happend (q : DecodeState) (data : Bytes) : q.text <+: (q.append data).text := ⟨data, rfl⟩
  induction s generalizing q with
  | nil => cases h
  | cons b s ih =>
      rw [closes] at h
      cases hnext : decodeLexer.next q b with
      | none => simp [hnext] at h
      | some o =>
          rw [hnext] at h
          cases o with
          | none =>
              cases h
              exact List.prefix_rfl
          | some q' =>
              refine .trans ?_ (ih h)
              simp only [decodeLexer] at hnext
              split at hnext
              · split_ifs at hnext <;> cases hnext
                · exact List.prefix_rfl
                · exact happend q [b]
              · split at hnext
                · cases hnext
                  exact happend q _
                · split_ifs at hnext
                  cases hnext
                  exact List.prefix_rfl
              · split at hnext
                · cases hnext
                · split_ifs at hnext
                  · cases hnext
                    exact List.prefix_rfl
                  · obtain ⟨q'', hunit, heq⟩ := Option.map_eq_some_iff.mp hnext
                    cases heq
                    unfold DecodeState.unit at hunit
                    split_ifs at hunit
                    · obtain ⟨data, -, rfl⟩ := Option.map_eq_some_iff.mp hunit
                      exact ⟨data, rfl⟩
                    · cases hunit
                      exact List.prefix_rfl
                    · obtain ⟨data, -, rfl⟩ := Option.map_eq_some_iff.mp hunit
                      exact happend q data

/-- A well-formed string is read as what it spells. -/
theorem StringText.closes {content : Bytes} {i r : Text} (h : StringText content i r)
    {q : DecodeState} (hphase : q.phase = .body) (hhigh : q.high = 0) :
    Lonejson.closes q i = some (q.text ++ content, r) := by
  induction h generalizing q with
  | close =>
      have hquote := decode_quote hphase
      rw [if_neg (by simp [hhigh])] at hquote
      rw [closes_end hquote, List.append_nil]
  | @plain b content i r hb _ ih =>
      rw [closes_step (decode_plain hphase hb), ih (q := q.append [b]) rfl hhigh]
      simp [DecodeState.append]
  | @escape e ch content i r he _ ih =>
      rw [closes_simple hphase he, ih (q := q.append [ch]) rfl hhigh]
      simp [DecodeState.append]
  | @unit a b c d cp data content i r hcp hhigh' hlow hdata _ ih =>
      have hunit : q.unit cp = some (q.append data) := by
        rw [DecodeState.unit, if_neg (by simp [hhigh]), hhigh', hlow, hdata]
        rfl
      rw [closes_unit hphase hcp, hunit, Option.bind_some, ih (q := q.append data) rfl hhigh]
      simp [DecodeState.append]
  | @pair a b c d a' b' c' d' hi lo data content i r hhi hhigh' hlo hlow hdata _ ih =>
      have hne : hi ≠ 0 := isHighSurrogate_ne_zero hhigh'
      have hfirst : q.unit hi = some { q with phase := .body, high := hi } := by
        rw [DecodeState.unit, if_neg (by simp [hhigh]), if_pos hhigh']
      have hsecond : ({ q with phase := .body, high := hi } : DecodeState).unit lo =
          some (({ q with high := 0 } : DecodeState).append data) := by
        rw [DecodeState.unit, if_pos hne, if_pos hlow, hdata]
        rfl
      rw [closes_unit hphase hhi, hfirst, Option.bind_some, closes_unit rfl hlo, hsecond,
        Option.bind_some, ih (q := ({ q with high := 0 } : DecodeState).append data) rfl rfl]
      simp [DecodeState.append]

/-- No one-letter escape stands for NUL. -/
theorem simpleEscape_ne_zero {letter ch : Byte} (h : simpleEscape letter = some ch) : ch ≠ 0 := by
  unfold simpleEscape at h
  split_ifs at h <;> (cases h; decide)

/-- The bytes ahead take one state of the lexer to another. -/
def Onward (q : DecodeState) (s : Text) (q' : DecodeState) (s' : Text) : Prop :=
  ∀ more, closes q (s ++ more) = closes q' (s' ++ more)

theorem Onward.trans {q q' q'' : DecodeState} {s s' s'' : Text} (h : Onward q s q' s')
    (h' : Onward q' s' q'' s'') : Onward q s q'' s'' :=
  fun more => (h more).trans (h' more)

theorem Onward.append {q q' : DecodeState} {s s' : Text} (h : Onward q s q' s') (tail : Text) :
    Onward q (s ++ tail) q' (s' ++ tail) := by
  intro more
  rw [List.append_assoc, List.append_assoc, h]

/-! ## What the scanners need of a sink -/

/-- The parser with other registers of the string scanners. -/
def Parser.moved (p : Parser σ) (pos : Pos) (high needed accum : ℕ) (escape : Bool) : Parser σ :=
  { p with pos, unicodePendingHigh := high, unicodeDigitsNeeded := needed, unicodeAccum := accum,
           lexEscape := escape }

section

variable (env : Env σ) (R : Bytes → Parser σ → Prop) (K : Parser σ → Prop) (deny : Bytes → Prop)

/-- The outcome of an append: the text is longer, or it may not be. -/
def Filled (p : Parser σ) (text : Bytes) (r : Parser σ × Status) : Prop :=
  (r.2 = .ok ∧ R text r.1 ∧ r.1.registers = p.registers) ∨
    (r.2.soft = false ∧ K r.1 ∧ deny text)

/-- A sink that keeps the text of a string. `R` holds of a parser that has the text so far,
`K` of a parser that has given up, and `deny` of the texts that make it give up. -/
structure Fills (sink : StringSink σ) : Prop where
  moved : ∀ {text p} pos high needed accum escape, R text p →
    R text (p.moved pos high needed accum escape)
  keeps : ∀ {text p}, R text p → K p
  error : ∀ {p} code message arg, K p → K (p.setError code message arg).1
  run : ∀ {text p data}, R text p → data ≠ [] → (∀ b ∈ data, isPlain b = true) →
    Filled R K deny p (text ++ data) (sink.run p data)
  byte : ∀ {text p ch}, R text p → ch ≠ 0 → Filled R K deny p (text ++ [ch]) (sink.byte p ch)
  codepoint : ∀ {text p cp data}, R text p → utf8Encode cp = some data →
    Filled R K deny p (text ++ data) (sink.codepoint p cp)
  invalid : ∀ {text p cp}, R text p → utf8Encode cp = none →
    (sink.codepoint p cp).2.soft = false ∧ K (sink.codepoint p cp).1
  charByte : ∀ {text p ch}, R text p → ch ≠ 0 →
    Filled R K deny p (text ++ [ch]) (appendStringByte env p ch)
  charCodepoint : ∀ {text p cp data}, R text p → utf8Encode cp = some data →
    Filled R K deny p (text ++ data) (appendUnicodeCodepoint env p cp)
  charInvalid : ∀ {text p cp}, R text p → utf8Encode cp = none →
    (appendUnicodeCodepoint env p cp).2.soft = false ∧ K (appendUnicodeCodepoint env p cp).1

/-- A parser inside a string whose text so far is kept. -/
structure StringAt (p : Parser σ) (q : DecodeState) : Prop where
  lex : p.lexMode = .string
  high : p.unicodePendingHigh = q.high
  phase : PhaseAgrees p q.phase
  text : R q.text p

/-- The parser reads what takes its lexer to a state, or gives up where there is none or its
text is denied. -/
def Reads (o : Option DecodeState) (r : Parser σ × Status) : Prop :=
  (r.2 = .ok ∧ ∃ q, o = some q ∧ StringAt R r.1 q) ∨
    (r.2.soft = false ∧ K r.1 ∧ ∀ q, o = some q → deny q.text)

/-- An error: the bytes ahead are no string, or their text is one that is denied. -/
def Refused (q : DecodeState) (s : Text) (r : Parser σ × Status) : Prop :=
  r.2.soft = false ∧ K r.1 ∧
    ((∀ more, closes q (s ++ more) = none) ∨ ∃ q' s', Onward q s q' s' ∧ deny q'.text)

end

section

variable {env : Env σ} {R : Bytes → Parser σ → Prop} {K : Parser σ → Prop} {deny : Bytes → Prop}
  {sink : StringSink σ} {p : Parser σ} {q : DecodeState}

theorem StringAt.of_registers {p' : Parser σ} (hregisters : p'.registers = p.registers)
    (hlex : p.lexMode = .string) (hbody : PhaseAgrees p .body) (hhigh : p.unicodePendingHigh = q.high)
    (hphase : q.phase = .body) (htext : R q.text p') : StringAt R p' q := by
  obtain ⟨hescape, hdigits⟩ := hbody
  refine ⟨?_, ?_, ?_, htext⟩
  · exact (congrArg Registers.lexMode hregisters).trans hlex
  · exact (congrArg Registers.unicodePendingHigh hregisters).trans hhigh
  · rw [hphase]
    exact ⟨(congrArg Registers.lexEscape hregisters).trans hescape,
      (congrArg Registers.unicodeDigitsNeeded hregisters).trans hdigits⟩

/-- Bytes that are appended take the lexer to the state behind them. -/
theorem Filled.reads {data : Bytes} {r : Parser σ × Status} (h : Filled R K deny p (q.text ++ data) r)
    (hlex : p.lexMode = .string) (hbody : PhaseAgrees p .body)
    (hhigh : p.unicodePendingHigh = q.high) : Reads R K deny (some (q.append data)) r := by
  rcases h with ⟨hok, htext, hregisters⟩ | ⟨hhard, hkeeps, hdenied⟩
  · exact .inl ⟨hok, _, rfl, .of_registers hregisters hlex hbody hhigh rfl htext⟩
  · refine .inr ⟨hhard, hkeeps, fun q' hq' => ?_⟩
    cases hq'
    exact hdenied

/-- A code point that is appended, whichever scanner appends it. -/
theorem codepoint_reads {append : Parser σ → ℕ → Parser σ × Status}
    (hsome : ∀ {text p cp data}, R text p → utf8Encode cp = some data →
      Filled R K deny p (text ++ data) (append p cp))
    (hnone : ∀ {text p cp}, R text p → utf8Encode cp = none →
      (append p cp).2.soft = false ∧ K (append p cp).1)
    (hlex : p.lexMode = .string) (hbody : PhaseAgrees p .body)
    (hhigh : p.unicodePendingHigh = q.high) (htext : R q.text p) (cp : ℕ) :
    Reads R K deny ((utf8Encode cp).map q.append) (append p cp) := by
  cases hcp : utf8Encode cp with
  | none => exact .inr ⟨(hnone htext hcp).1, (hnone htext hcp).2, by simp⟩
  | some data => exact (hsome htext hcp).reads hlex hbody hhigh

/-- An error of the scanner itself. -/
theorem Reads.error (hfill : Fills env R K deny sink) (htext : R q.text p) (code : Status)
    (hcode : code.soft = false) (message : String) :
    Reads R K deny none (p.setError code message) :=
  .inr ⟨hcode, hfill.error _ _ _ (hfill.keeps htext), by simp⟩

/-! ## One character -/

/-- One digit of a `\u` escape. -/
theorem consumeHexDigit_reads (hfill : Fills env R K deny sink) (h : StringAt R p q)
    {needed accum : ℕ} (hphase : q.phase = .hex needed accum) (ch : Byte) :
    ∃ o : Option DecodeState, decodeLexer.next q ch = o.map some ∧
      Reads R K deny o (consumeHexDigit env p ch) := by
  have hregisters := h.phase
  rw [hphase] at hregisters
  obtain ⟨hescape, hneeded, hpos, haccum⟩ := hregisters
  simp only [consumeHexDigit, decodeLexer, hphase]
  cases hhex : hexValue ch with
  | none => exact ⟨none, rfl, .error hfill h.text _ rfl _⟩
  | some hv =>
      simp only [hneeded, haccum]
      set cp := pushHex accum hv with hcp
      have hread (high n : ℕ) := hfill.moved p.pos high n cp p.lexEscape h.text
      by_cases hmore : needed - 1 ≠ 0
      · rw [if_pos hmore, if_pos hmore]
        exact ⟨some _, rfl, .inl ⟨rfl, _, rfl, h.lex, h.high, ⟨hescape, rfl, hmore, rfl⟩,
          hread p.unicodePendingHigh (needed - 1)⟩⟩
      · rw [if_neg hmore, if_neg hmore]
        have hdone : needed - 1 = 0 := not_not.mp hmore
        refine ⟨_, rfl, ?_⟩
        unfold DecodeState.unit
        rw [hdone, h.high]
        by_cases hpending : q.high ≠ 0
        · rw [if_pos hpending, if_pos hpending]
          cases hlow : isLowSurrogate cp with
          | false => exact .error hfill (q := q) (hread _ 0) _ rfl _
          | true =>
              exact codepoint_reads (p := p.moved p.pos 0 0 cp p.lexEscape)
                (q := { q with high := 0 }) hfill.charCodepoint hfill.charInvalid h.lex
                ⟨hescape, rfl⟩ rfl (hread 0 0) _
        · rw [if_neg hpending, if_neg hpending]
          cases hhi : isHighSurrogate cp with
          | true => exact .inl ⟨rfl, _, rfl, h.lex, rfl, ⟨hescape, rfl⟩, hread cp 0⟩
          | false =>
              cases hlow : isLowSurrogate cp with
              | true => exact .error hfill (q := q) (hread _ 0) _ rfl _
              | false =>
                  exact codepoint_reads (p := p.moved p.pos q.high 0 cp p.lexEscape) (q := q)
                    hfill.charCodepoint hfill.charInvalid h.lex ⟨hescape, rfl⟩ rfl (hread _ 0) _

/-- A character inside an escape, or the backslash in front of one. -/
theorem consumeStringChar_reads (hfill : Fills env R K deny sink) (h : StringAt R p q) (ch : Byte)
    (hbody : q.phase = .body → ch = 0x5c) :
    ∃ o : Option DecodeState, decodeLexer.next q ch = o.map some ∧
      Reads R K deny o (consumeStringChar env p ch) := by
  have hregisters := h.phase
  unfold consumeStringChar
  cases hphase : q.phase with
  | body =>
      rw [hphase] at hregisters
      obtain rfl := hbody hphase
      rw [if_neg (by simp [hregisters.2]), if_neg (by simp [hregisters.1]), if_pos rfl]
      refine ⟨some { q with phase := .escape }, decode_backslash hphase, .inl ⟨rfl, _, rfl, ?_⟩⟩
      exact ⟨h.lex, h.high, ⟨rfl, hregisters.2⟩,
        hfill.moved p.pos p.unicodePendingHigh p.unicodeDigitsNeeded p.unicodeAccum true h.text⟩
  | escape =>
      rw [hphase] at hregisters
      have htext := hfill.moved p.pos p.unicodePendingHigh p.unicodeDigitsNeeded p.unicodeAccum
        false h.text
      rw [if_neg (by simp [hregisters.2]), if_pos hregisters.1]
      simp only [decodeLexer, hphase]
      cases hsimple : simpleEscape ch with
      | some byte =>
          refine ⟨some (q.append [byte]), rfl, ?_⟩
          exact (hfill.charByte htext (simpleEscape_ne_zero hsimple)).reads (q := q) h.lex
            ⟨rfl, hregisters.2⟩ h.high
      | none =>
          dsimp only
          by_cases hu : ch = 0x75
          · rw [if_pos hu, if_pos hu]
            refine ⟨some { q with phase := .hex 4 0 }, rfl, .inl ⟨rfl, _, rfl, ?_⟩⟩
            exact ⟨h.lex, h.high, ⟨rfl, rfl, by simp, rfl⟩,
              hfill.moved p.pos p.unicodePendingHigh 4 0 false h.text⟩
          · rw [if_neg hu, if_neg hu]
            exact ⟨none, rfl, .error hfill (q := q) htext _ rfl _⟩
  | hex needed accum =>
      rw [hphase] at hregisters
      rw [if_pos (by rw [hregisters.2.1]; exact hregisters.2.2.1)]
      exact consumeHexDigit_reads hfill h hphase ch

/-! ## Escapes inside a chunk -/

/-- What an escape at the head of a chunk may lead to: nothing, a state of the lexer behind
it, or an error. -/
def EscapeReads (R : Bytes → Parser σ → Prop) (K : Parser σ → Prop) (deny : Bytes → Prop)
    (p : Parser σ) (q : DecodeState) (bytes : Bytes) (e : (Parser σ × Status) × ℕ) : Prop :=
  e = ((p, .ok), 0) ∨
  (∃ o : Option DecodeState, 0 < e.2 ∧ e.2 ≤ bytes.length ∧
    (∀ more, closes q (bytes ++ more) = o.bind fun q' => closes q' (bytes.drop e.2 ++ more)) ∧
    (∀ q', o = some q' → q'.phase = .body) ∧ Reads R K deny o e.1) ∨
  (e.1.2.soft = false ∧ K e.1.1 ∧ ∀ more, closes q (bytes ++ more) = none)

/-- The parser between two escapes of a chunk. -/
structure MidString (R : Bytes → Parser σ → Prop) (p : Parser σ) (q : DecodeState) : Prop where
  at_string : StringAt R p q
  phase : q.phase = .body

theorem MidString.registers (h : MidString R p q) : PhaseAgrees p .body := by
  have := h.at_string.phase
  rwa [h.phase] at this

theorem MidString.advance (hfill : Fills env R K deny sink) (h : MidString R p q) (n : ℕ) :
    MidString R (p.advance n) q := by
  refine ⟨⟨h.at_string.lex, h.at_string.high, ?_, ?_⟩, h.phase⟩
  · rw [h.phase]
    exact h.registers
  · exact hfill.moved _ p.unicodePendingHigh p.unicodeDigitsNeeded p.unicodeAccum p.lexEscape
      h.at_string.text

theorem simpleEscape_reads (hfill : Fills env R K deny sink) (h : MidString R p q)
    {letter ch : Byte} (hletter : simpleEscape letter = some ch) (rest : Bytes) :
    EscapeReads R K deny p q (0x5c :: letter :: rest) (sink.byte (p.advance 2) ch, 2) := by
  have hmoved := h.advance hfill 2
  refine .inr (.inl ⟨some (q.append [ch]), by simp, by simp, fun more => ?_, ?_, ?_⟩)
  · exact closes_simple h.phase hletter (rest ++ more)
  · rintro q' ⟨⟩
    rfl
  · exact (hfill.byte hmoved.at_string.text (simpleEscape_ne_zero hletter)).reads (q := q)
      hmoved.at_string.lex hmoved.registers hmoved.at_string.high

/-- A `\u` escape, with the one that completes it when it is a high surrogate. -/
theorem unicodeEscape_reads (hfill : Fills env R K deny sink) (h : MidString R p q) (bytes : Bytes) :
    EscapeReads R K deny p q bytes (consumeUnicodeEscape sink.codepoint p bytes) := by
  have hkeeps := hfill.keeps h.at_string.text
  unfold consumeUnicodeEscape
  cases hquad : nextQuad bytes with
  | none => exact .inl rfl
  | some cp =>
      obtain ⟨a, b, c, d, rest, rfl, hcp⟩ := nextQuad_eq_some hquad
      have hclose (more : Bytes) := closes_unit (q := q) h.phase hcp (rest ++ more)
      have hmoved := h.advance hfill 6
      dsimp only
      rw [h.at_string.high]
      by_cases hpending : q.high ≠ 0
      · rw [if_pos hpending]
        cases hlow : isLowSurrogate cp with
        | false =>
            refine .inr (.inr ⟨rfl, hfill.error _ _ _ hkeeps, fun more => ?_⟩)
            refine (hclose more).trans ?_
            rw [DecodeState.unit, if_pos hpending, if_neg (by simp [hlow])]
            rfl
        | true =>
            refine .inr (.inl ⟨q.unit cp, by simp, by simp, hclose, fun _ => q.unit_body, ?_⟩)
            rw [DecodeState.unit, if_pos hpending, if_pos hlow]
            exact codepoint_reads (q := { q with high := 0 })
              (p := { p with unicodePendingHigh := 0 }.advance 6) hfill.codepoint hfill.invalid
              hmoved.at_string.lex hmoved.registers rfl
              (hfill.moved _ 0 p.unicodeDigitsNeeded p.unicodeAccum p.lexEscape h.at_string.text) _
      · have hzero : q.high = 0 := not_not.mp hpending
        rw [if_neg hpending]
        cases hhigh : isHighSurrogate cp with
        | true =>
            have hunit : q.unit cp = some { q with phase := .body, high := cp } := by
              rw [DecodeState.unit, if_neg hpending, if_pos hhigh]
            rw [if_pos rfl]
            cases hnext : nextQuad ((0x5c :: 0x75 :: a :: b :: c :: d :: rest).drop 6) with
            | none => exact .inl rfl
            | some low =>
                obtain ⟨a', b', c', d', rest', hrest, hlow'⟩ := nextQuad_eq_some hnext
                obtain rfl : rest = 0x5c :: 0x75 :: a' :: b' :: c' :: d' :: rest' := hrest
                have hne : cp ≠ 0 := isHighSurrogate_ne_zero hhigh
                -- the state between the two halves
                have hclose' (more : Bytes) := closes_unit
                  (q := { q with phase := .body, high := cp }) rfl hlow' (rest' ++ more)
                have hmoved' := h.advance hfill 12
                dsimp only
                cases hlow : isLowSurrogate low with
                | false =>
                    refine .inr (.inr ⟨rfl, hfill.error _ _ _ hkeeps, fun more => ?_⟩)
                    refine (hclose more).trans ?_
                    rw [hunit]
                    refine (hclose' more).trans ?_
                    rw [DecodeState.unit, if_pos hne, if_neg (by simp [hlow])]
                    rfl
                | true =>
                    have hpair : ({ q with phase := .body, high := cp } : DecodeState).unit low =
                        (utf8Encode (combineSurrogates cp low)).map q.append := by
                      rw [DecodeState.unit, if_pos hne, if_pos hlow]
                      congr 1
                      funext data
                      simp [DecodeState.append, hzero]
                    refine .inr (.inl ⟨(utf8Encode (combineSurrogates cp low)).map q.append,
                      by simp, by simp, fun more => ?_, ?_, ?_⟩)
                    · refine (hclose more).trans ?_
                      rw [hunit]
                      refine (hclose' more).trans ?_
                      rw [hpair]
                      rfl
                    · intro q' hq'
                      obtain ⟨data, -, rfl⟩ := Option.map_eq_some_iff.mp hq'
                      rfl
                    · exact codepoint_reads (q := q) hfill.codepoint hfill.invalid
                        hmoved'.at_string.lex hmoved'.registers hmoved'.at_string.high
                        hmoved'.at_string.text _
        | false =>
            rw [if_neg (by simp)]
            cases hlow : isLowSurrogate cp with
            | true =>
                refine .inr (.inr ⟨rfl, hfill.error _ _ _ hkeeps, fun more => ?_⟩)
                refine (hclose more).trans ?_
                rw [DecodeState.unit, if_neg hpending, if_neg (by simp [hhigh]), if_pos hlow]
                rfl
            | false =>
                refine .inr (.inl ⟨q.unit cp, by simp, by simp, hclose, fun _ => q.unit_body, ?_⟩)
                rw [DecodeState.unit, if_neg hpending, if_neg (by simp [hhigh]),
                  if_neg (by simp [hlow])]
                exact codepoint_reads (q := q) hfill.codepoint hfill.invalid hmoved.at_string.lex
                  hmoved.registers hmoved.at_string.high hmoved.at_string.text _

/-- The escape at the head of a chunk. -/
theorem escape_reads (hfill : Fills env R K deny sink) (h : MidString R p q) (rest : Bytes) :
    EscapeReads R K deny p q (0x5c :: rest) (consumeEscape sink p (0x5c :: rest)) := by
  have hunicode := unicodeEscape_reads hfill h (0x5c :: rest)
  have hskip (hsimple : consumeSimpleEscape sink.byte p (0x5c :: rest) = ((p, .ok), 0)) :
      consumeEscape sink p (0x5c :: rest) = consumeUnicodeEscape sink.codepoint p (0x5c :: rest) := by
    simp [consumeEscape, hsimple]
  cases rest with
  | nil =>
      rw [hskip rfl]
      exact hunicode
  | cons letter rest =>
      by_cases hpending : p.unicodePendingHigh ≠ 0
      · rw [hskip (by rw [consumeSimpleEscape, if_pos hpending])]
        exact hunicode
      · cases hletter : simpleEscape letter with
        | none =>
            rw [hskip (by rw [consumeSimpleEscape, if_neg hpending, hletter])]
            exact hunicode
        | some ch =>
            have hsimple : consumeEscape sink p (0x5c :: letter :: rest) =
                (sink.byte (p.advance 2) ch, 2) := by
              simp [consumeEscape, consumeSimpleEscape, hpending, hletter]
            rw [hsimple]
            exact simpleEscape_reads hfill h hletter rest

/-! ## The loop over a chunk -/

/-- What the loop may lead to: the lexer goes on, the string is complete and the sink
finishes it, or an error. -/
def LoopEnds (R : Bytes → Parser σ → Prop) (K : Parser σ → Prop) (deny : Bytes → Prop)
    (sink : StringSink σ) (q : DecodeState) (bytes : Bytes) (pos : ℕ)
    (r : (Parser σ × Status) × ℕ) : Prop :=
  (∃ n q', r.2 = pos + n ∧ n ≤ bytes.length ∧ r.1.2 = .ok ∧ MidString R r.1.1 q' ∧
    Onward q bytes q' (bytes.drop n) ∧ (n = 0 → bytes = [] ∨ bytes.head? = some 0x5c)) ∨
  (∃ n text p', 0 < n ∧ n ≤ bytes.length ∧ R text p' ∧
    r = (sink.finish { p' with lexMode := .none }, pos + n) ∧
    ∀ more, closes q (bytes ++ more) = some (text, bytes.drop n ++ more)) ∨
  Refused K deny q bytes r.1

theorem Refused.prepend {q' : DecodeState} {pre tail : Bytes} {r : Parser σ × Status}
    (hpre : ∀ more, closes q (pre ++ more) = closes q' more) (h : Refused K deny q' tail r) :
    Refused K deny q (pre ++ tail) r := by
  obtain ⟨hhard, hkeeps, hno⟩ := h
  refine ⟨hhard, hkeeps, ?_⟩
  rcases hno with hno | ⟨q'', s', honward, hdeny⟩
  · exact .inl fun more => by rw [List.append_assoc, hpre, hno]
  · exact .inr ⟨q'', s', fun more => by rw [List.append_assoc, hpre, honward], hdeny⟩

theorem LoopEnds.prepend {q' : DecodeState} {pre tail : Bytes} {pos : ℕ}
    {r : (Parser σ × Status) × ℕ} (hpre : ∀ more, closes q (pre ++ more) = closes q' more)
    (h : LoopEnds R K deny sink q' tail (pos + pre.length) r) :
    LoopEnds R K deny sink q (pre ++ tail) pos r := by
  have hdrop (n : ℕ) : (pre ++ tail).drop (pre.length + n) = tail.drop n := by
    rw [List.drop_append, List.drop_of_length_le (by omega)]
    simp
  rcases h with ⟨n, q'', hused, hle, hok, hat, honward, hzero⟩ |
    ⟨n, text, p', hpos, hle, htext, hr, hclose⟩ | hrefused
  · refine .inl ⟨pre.length + n, q'', by omega, by simp [hle], hok, hat, ?_, fun hsum => ?_⟩
    · rw [hdrop]
      exact fun more => by rw [List.append_assoc, hpre, honward]
    · obtain rfl : pre = [] := List.eq_nil_of_length_eq_zero (by omega)
      simpa using hzero (by simpa using hsum)
  · refine .inr (.inl ⟨pre.length + n, text, p', by omega, by simp [hle], htext, ?_, ?_⟩)
    · rw [hr, Nat.add_assoc]
    · rw [hdrop]
      exact fun more => by rw [List.append_assoc, hpre, hclose]
  · exact .inr (.inr (hrefused.prepend hpre))

/-- The closing quote. -/
theorem closeQuote_ends (hfill : Fills env R K deny sink) (h : MidString R p q) (fuel : ℕ)
    (rest : Bytes) (pos : ℕ) :
    LoopEnds R K deny sink q (0x22 :: rest) pos
      (stringLoop sink (fuel + 1) p (0x22 :: rest) pos) := by
  rw [stringLoop_quote, h.at_string.high]
  have hquote := decode_quote (q := q) h.phase
  by_cases hpending : q.high ≠ 0
  · rw [if_pos hpending] at hquote ⊢
    refine .inr (.inr ⟨rfl, hfill.error _ _ _ (hfill.keeps h.at_string.text), .inl fun more => ?_⟩)
    exact closes_reject hquote _
  · rw [if_neg hpending] at hquote ⊢
    exact .inr (.inl ⟨1, q.text, p.advance 1, Nat.one_pos, by simp,
      (h.advance hfill 1).at_string.text, rfl, fun more => closes_end hquote _⟩)

/-- An escape inside a chunk, before a rest whose outcome is known. -/
theorem backslash_ends (hfill : Fills env R K deny sink) {fuel : ℕ} (h : MidString R p q)
    (rest : Bytes) (pos : ℕ)
    (hnext : ∀ (n : ℕ) (p' : Parser σ) (q' : DecodeState), 0 < n → MidString R p' q' →
      LoopEnds R K deny sink q' ((0x5c :: rest).drop n) (pos + n)
        (stringLoop sink fuel p' ((0x5c :: rest).drop n) (pos + n))) :
    LoopEnds R K deny sink q (0x5c :: rest) pos
      (stringLoop sink (fuel + 1) p (0x5c :: rest) pos) := by
  have hescape := escape_reads hfill h rest
  rw [stringLoop_backslash]
  generalize consumeEscape sink p (0x5c :: rest) = e at hescape
  rcases hescape with rfl | ⟨o, hpos, hle, hclose, hbody, hreads⟩ | ⟨hhard, hkeeps, hno⟩
  · dsimp only
    rw [if_neg (by simp), if_neg (by simp)]
    exact .inl ⟨0, q, rfl, by simp, rfl, h, fun _ => rfl, fun _ => .inr rfl⟩
  · dsimp only
    have hsplit := List.take_append_drop e.2 (0x5c :: rest)
    rcases hreads with ⟨hok, q', rfl, hat⟩ | ⟨hhard, hkeeps, hdeny⟩
    · rw [if_neg (by simp [hok]), if_pos (by omega)]
      have hlength : ((0x5c :: rest).take e.2).length = e.2 := List.length_take_of_le hle
      have hrest := hnext e.2 e.1.1 q' hpos ⟨hat, hbody q' rfl⟩
      rcases hrest with ⟨n, q'', hused, hle', hok', hat', honward, hzero⟩ |
        ⟨n, text, p', hpos', hle', htext, hr, hclose'⟩ | ⟨hhard, hkeeps, hno⟩
      · refine .inl ⟨e.2 + n, q'', by omega, ?_, hok', hat', ?_, by omega⟩
        · rw [List.length_drop] at hle'
          omega
        · intro more
          rw [hclose more, Option.bind_some, honward more, List.drop_drop]
      · refine .inr (.inl ⟨e.2 + n, text, p', by omega, ?_, htext, ?_, fun more => ?_⟩)
        · rw [List.length_drop] at hle'
          omega
        · rw [hr, Nat.add_assoc]
        · rw [hclose more, Option.bind_some, hclose' more, List.drop_drop]
      · refine .inr (.inr ⟨hhard, hkeeps, ?_⟩)
        rcases hno with hno | ⟨q'', s', honward, hdeny⟩
        · exact .inl fun more => by rw [hclose more, Option.bind_some, hno more]
        · exact .inr ⟨q'', s', fun more => by rw [hclose more, Option.bind_some, honward more],
            hdeny⟩
    · rw [if_pos (Status.ne_ok_of_hard hhard)]
      refine .inr (.inr ⟨hhard, hkeeps, ?_⟩)
      cases o with
      | none => exact .inl fun more => hclose more
      | some q' => exact .inr ⟨q', _, fun more => hclose more, hdeny q' rfl⟩
  · dsimp only
    rw [if_pos (Status.ne_ok_of_hard hhard)]
    exact .inr (.inr ⟨hhard, hkeeps, .inl hno⟩)

/-- The loop over the bytes of a chunk. -/
theorem stringLoop_ends (hfill : Fills env R K deny sink) (fuel : ℕ) (h : MidString R p q)
    (bytes : Bytes) (hfuel : bytes.length ≤ fuel) (pos : ℕ) :
    LoopEnds R K deny sink q bytes pos (stringLoop sink fuel p bytes pos) := by
  induction fuel generalizing p q bytes pos with
  | zero =>
      obtain rfl : bytes = [] := List.eq_nil_of_length_eq_zero (by omega)
      rw [stringLoop_nil]
      exact .inl ⟨0, q, rfl, by simp, rfl, h, fun _ => rfl, fun _ => .inl rfl⟩
  | succ fuel ih =>
      set data := bytes.takeWhile isPlain with hdata
      set tail := bytes.dropWhile isPlain with htail
      have hsplit : data ++ tail = bytes := List.takeWhile_append_dropWhile
      have hplain : ∀ b ∈ data, isPlain b = true := fun b hb => List.mem_takeWhile_imp hb
      have hclose : ∀ more, closes q (data ++ more) = closes (q.append data) more :=
        closes_run h.phase hplain
      have hread : Reads R K deny (some (q.append data))
          (if data = [] then (p, .ok) else sink.run p data) := by
        by_cases hnil : data = []
        · rw [if_pos hnil, hnil]
          refine .inl ⟨rfl, _, rfl, h.at_string.lex, h.at_string.high, h.registers, ?_⟩
          simpa [DecodeState.append] using h.at_string.text
        · rw [if_neg hnil]
          exact (hfill.run h.at_string.text hnil hplain).reads h.at_string.lex h.registers
            h.at_string.high
      rw [stringLoop_run, ← hdata, ← htail, ← hsplit]
      dsimp only
      generalize (if data = [] then (p, Status.ok) else sink.run p data) = r at hread
      rcases hread with ⟨hok, q', hq', hat⟩ | ⟨hhard, hkeeps, hdeny⟩
      · obtain rfl := Option.some.inj hq'
        have hloop : MidString R (r.1.advance data.length) (q.append data) :=
          (MidString.mk hat rfl).advance hfill _
        have hlength : data.length + tail.length = bytes.length := by
          rw [← hsplit, List.length_append]
        rw [if_neg (by simp [hok])]
        refine LoopEnds.prepend hclose ?_
        cases hcase : tail with
        | nil =>
            rw [stringLoop_nil]
            exact .inl ⟨0, q.append data, rfl, by simp, rfl, hloop, fun _ => rfl, fun _ => .inl rfl⟩
        | cons ch rest =>
            have hch := head_dropWhile_plain (htail.symm.trans hcase)
            have hcases : ch = 0x22 ∨ ch = 0x5c ∨ ch < 0x20 := by
              by_contra hno
              push Not at hno
              have : isPlain ch = true := isPlain_iff.mpr ⟨hno.1, hno.2.1, by simpa using hno.2.2⟩
              simp [this] at hch
            rcases hcases with rfl | rfl | hcontrol
            · exact closeQuote_ends hfill hloop fuel rest _
            · refine backslash_ends hfill hloop rest _ fun n p' q' hpos hat' => ih hat' _ ?_ _
              rw [hcase, List.length_cons] at hlength
              rw [List.length_drop, List.length_cons]
              omega
            · rw [stringLoop_control sink fuel _ hcontrol]
              refine .inr (.inr ⟨rfl, hfill.error _ _ _ (hfill.keeps hloop.at_string.text),
                .inl fun more => ?_⟩)
              exact closes_reject (decode_control hloop.phase hcontrol) _
      · rw [if_pos (Status.ne_ok_of_hard hhard)]
        exact .inr (.inr ⟨hhard, hkeeps, .inr ⟨_, tail, fun more => by
          rw [List.append_assoc, hclose], hdeny _ rfl⟩⟩)

/-! ## One turn -/

/-- What a turn inside a string may lead to: the lexer goes on, the string is complete and
the sink finishes it, or the turn stops with an error. -/
def TurnReads (R : Bytes → Parser σ → Prop) (K : Parser σ → Prop) (deny : Bytes → Prop)
    (sink : StringSink σ) (q : DecodeState) (s : Bytes) (r : Parser σ × Turn) : Prop :=
  (∃ n q', r.2 = .next n ∧ 0 < n ∧ n ≤ s.length ∧ StringAt R r.1 q' ∧ Onward q s q' (s.drop n)) ∨
  (∃ n text p', 0 < n ∧ n ≤ s.length ∧ R text p' ∧
    r = turnSoft (sink.finish { p' with lexMode := .none }) n ∧
    ∀ more, closes q (s ++ more) = some (text, s.drop n ++ more)) ∨
  ∃ status used, r.2 = .stop status used ∧ Refused K deny q s (r.1, status)

/-- A turn of one character. -/
theorem charTurn_reads (hfill : Fills env R K deny sink) (h : StringAt R p q) (ch : Byte)
    (rest : Bytes) (hbody : q.phase = .body → ch = 0x5c) :
    TurnReads R K deny sink q (ch :: rest) (charTurn env p ch) := by
  have hturn : charTurn env p ch =
      turnSoft (consumeStringChar env { p with pos := p.pos.step ch } ch) 1 := by
    simp [charTurn, consumeChar, h.lex]
  have hmoved : StringAt R { p with pos := p.pos.step ch } q := by
    refine ⟨h.lex, h.high, ?_, hfill.moved _ p.unicodePendingHigh p.unicodeDigitsNeeded
      p.unicodeAccum p.lexEscape h.text⟩
    have hphase := h.phase
    cases hq : q.phase <;> (rw [hq] at hphase; exact hphase)
  obtain ⟨o, hnext, hreads⟩ := consumeStringChar_reads hfill hmoved ch hbody
  rw [hturn, turnSoft]
  rcases hreads with ⟨hok, q', rfl, hat⟩ | ⟨hhard, hkeeps, hdeny⟩
  · rw [hok, Status.soft_ok, if_pos rfl]
    exact .inl ⟨1, q', rfl, Nat.one_pos, by simp, hat, fun more => closes_step hnext _⟩
  · rw [if_neg (by simp [hhard])]
    refine .inr (.inr ⟨_, 1, rfl, hhard, hkeeps, ?_⟩)
    cases o with
    | none => exact .inl fun more => closes_reject hnext _
    | some q' => exact .inr ⟨q', rest, fun more => closes_step hnext _, hdeny q' rfl⟩

/-- One turn of the loop of `lonejson__parser_feed_bytes` inside a string. -/
theorem feedTurn_reads (hfill : Fills env R K deny sink) (h : StringAt R p q) (ch : Byte)
    (rest : Bytes)
    (hscan : consumeStringFast env p (ch :: rest) = scanString sink p (ch :: rest)) :
    TurnReads R K deny sink q (ch :: rest) (feedTurn env p ch rest) := by
  unfold feedTurn
  by_cases hbody : p.lexMode = .string ∧ p.unicodeDigitsNeeded = 0 ∧ p.lexEscape = false
  · have hphase : q.phase = .body := by
      have hphase := h.phase
      cases hq : q.phase with
      | body => rfl
      | escape => simp [hq, PhaseAgrees, hbody.2.2] at hphase
      | hex needed accum =>
          rw [hq] at hphase
          exact absurd (hphase.2.1.symm.trans hbody.2.1) hphase.2.2.1
    rw [if_pos hbody, stringTurn, hscan]
    have hloop := stringLoop_ends hfill (ch :: rest).length ⟨h, hphase⟩ (ch :: rest) (le_refl _) 0
    rw [← scanString] at hloop
    generalize scanString sink p (ch :: rest) = r at hloop
    rcases hloop with ⟨n, q', hused, hle, hok, hat, honward, hzero⟩ |
      ⟨n, text, p', hpos, hle, htext, rfl, hclose⟩ | hrefused
    · rw [if_neg (by simp [hok])]
      by_cases hn : n = 0
      · obtain rfl := hn
        rw [if_neg (by simp [hused, hat.at_string.lex])]
        have hback : ch = 0x5c := by simpa using hzero rfl
        have hchar := charTurn_reads hfill hat.at_string ch rest fun _ => hback
        rcases hchar with ⟨n, q'', hnext, hpos, hle', hat', honward'⟩ |
          ⟨n, text, p', hpos, hle', htext, hr, hclose⟩ | ⟨status, used, hstop, hhard, hkeeps, hno⟩
        · exact .inl ⟨n, q'', hnext, hpos, hle', hat', honward.trans honward'⟩
        · exact .inr (.inl ⟨n, text, p', hpos, hle', htext, hr, fun more =>
            (honward more).trans (hclose more)⟩)
        · refine .inr (.inr ⟨status, used, hstop, hhard, hkeeps, ?_⟩)
          rcases hno with hno | ⟨q'', s', honward', hdeny⟩
          · exact .inl fun more => (honward more).trans (hno more)
          · exact .inr ⟨q'', s', honward.trans honward', hdeny⟩
      · rw [if_pos (.inr (by omega))]
        exact .inl ⟨n, q', by simpa using hused, by omega, hle, hat.at_string, honward⟩
    · refine .inr (.inl ⟨n, text, p', hpos, hle, htext, ?_, hclose⟩)
      unfold turnSoft
      cases hsoft : (sink.finish { p' with lexMode := .none }).2.soft with
      | false => simp
      | true => simp [Nat.pos_iff_ne_zero.mp hpos]
    · rw [if_pos (by simp [hrefused.1])]
      exact .inr (.inr ⟨_, _, rfl, hrefused⟩)
  · rw [if_neg hbody, if_neg (by simp [h.lex])]
    have hchar := charTurn_reads hfill h ch rest (by
      intro hphase
      have hregisters := h.phase
      rw [hphase] at hregisters
      exact absurd ⟨h.lex, hregisters.2, hregisters.1⟩ hbody)
    split
    · next hnone _ => simp [h.lex] at hnone
    · exact hchar

end

end Lonejson
