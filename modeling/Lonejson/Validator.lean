import Lonejson.SkimStrings

/-!
# What the validating parser accepts

The validating parser reads the JSON grammar with two differences from RFC 8259 as the
library documents it: a high surrogate may be completed by a low one behind other
characters, and the frames and literals have to fit the workspace.
-/

namespace Lonejson

open Json (Text Lexer Machine Rules Document)

variable {σ : Type}

/-! ## Grammars with limits -/

/-- What may be opened at a depth, and how long numbers and literals may be. -/
structure Limits where
  opens : ℕ → Bool
  number : ℕ → ℕ → Bool
  literal : ℕ → ℕ → Bool
  number_mono : ∀ d n m, n ≤ m → number d m = true → number d n = true
  literal_mono : ∀ d n m, n ≤ m → literal d m = true → literal d n = true

def Limits.none : Limits where
  opens _ := true
  number _ _ := true
  literal _ _ := true
  number_mono _ _ _ _ _ := rfl
  literal_mono _ _ _ _ _ := rfl

theorem decide_mono {n m room : ℕ} (hnm : n ≤ m) (h : decide (m + 2 ≤ room) = true) :
    decide (n + 2 ≤ room) = true := by
  rw [decide_eq_true_eq] at h ⊢
  omega

/-- The documented limits: the nesting is at most `max_depth`, and the numbers fit the
workspace behind the frames around them. -/
def Limits.documented (env : Env σ) : Limits where
  opens d := env.options.maxDepth == 0 || decide (d < env.options.maxDepth)
  number d n := decide (n + 2 ≤ tokenRoom env d)
  literal _ _ := true
  number_mono _ _ _ := decide_mono
  literal_mono _ _ _ _ _ := rfl

/-- The limits of the workspace alone: it holds the frames, and the literals behind
them. -/
def Limits.workspace (env : Env σ) : Limits where
  opens d := decide (frameBytes env (d + 1) ≤ env.workspaceSize)
  number _ _ := true
  literal d n := decide (n + 2 ≤ tokenRoom env d)
  number_mono _ _ _ _ _ := rfl
  literal_mono _ _ _ := decide_mono

/-- The limits of the validating parser. -/
def Limits.validator (env : Env σ) : Limits where
  opens d := frameFits env d
  number d n := decide (n + 2 ≤ tokenRoom env d)
  literal d n := decide (n + 2 ≤ tokenRoom env d)
  number_mono _ _ _ := decide_mono
  literal_mono _ _ _ := decide_mono

/-- JSON texts within limits. With `gap`, other characters may come between the two
halves of a surrogate pair. -/
def textRules (gap : Bool) (limits : Limits) : Rules where
  stringTail _ := StringTail gap false
  keyTail _ := StringTail gap false
  number := JsonNumber
  fitsNumber := limits.number
  fitsLiteral := limits.literal
  enter d b := b == 0x22 || limits.opens d

/-- JSON texts as RFC 8259 has them, with paired surrogates only. -/
abbrev rfcRules : Rules := textRules false .none

/-- A machine for these texts. -/
def textMachine (gap : Bool) (limits : Limits) : Machine StringState where
  lexer _ _ := stringLexer gap
  numberStart := isNumberStart
  numberByte := isNumberByte
  number := isValidJsonNumber
  fitsNumber := limits.number
  fitsLiteral := limits.literal
  enter d b := b == 0x22 || limits.opens d

theorem textMachine_rules (gap : Bool) (limits : Limits) :
    (textMachine gap limits).rules = textRules gap limits := by
  have htail (i r : Text) : (stringLexer gap).Tail (stringLexer gap).start i r ↔
      StringTail gap false i r := tail_body_iff gap false i r
  simp [Machine.rules, textMachine, textRules, funext_iff, htail, isValidJsonNumber_iff]

theorem textMachine_lawful (gap : Bool) (limits : Limits) : (textMachine gap limits).Lawful :=
  lawful_of_numbers rfl rfl rfl limits.number_mono limits.literal_mono

theorem textMachine_accepts (gap : Bool) (limits : Limits) (s : Text) :
    Json.accepts (textMachine gap limits) s = true ↔ Document (textRules gap limits) s := by
  rw [Json.accepts_iff_document _ (textMachine_lawful gap limits), textMachine_rules]

instance (gap : Bool) (limits : Limits) (s : Text) : Decidable (Document (textRules gap limits) s) :=
  decidable_of_iff _ (textMachine_accepts gap limits s)

/-! ## The strings of the validating parser -/

theorem hexValue_lt {ch : Byte} {hv : ℕ} (h : hexValue ch = some hv) : hv < 16 := by
  unfold hexValue at h
  split_ifs at h with hdigit hlower hupper
  · have := UInt8.le_iff_toNat_le.mp hdigit.2
    have hmax : (0x39 : UInt8).toNat = 0x39 := rfl
    obtain rfl := Option.some.inj h
    omega
  · have := UInt8.le_iff_toNat_le.mp hlower.2
    have hmax : (0x66 : UInt8).toNat = 0x66 := rfl
    obtain rfl := Option.some.inj h
    omega
  · have := UInt8.le_iff_toNat_le.mp hupper.2
    have hmax : (0x46 : UInt8).toNat = 0x46 := rfl
    obtain rfl := Option.some.inj h
    omega

theorem utf8Encode_isSome {cp : ℕ} (h : cp ≤ 0x10FFFF) : ∃ data, utf8Encode cp = some data := by
  unfold utf8Encode
  split_ifs <;> exact ⟨_, rfl⟩

theorem combineSurrogates_le {hi lo : ℕ} (hhi : isHighSurrogate hi = true)
    (hlo : isLowSurrogate lo = true) : combineSurrogates hi lo ≤ 0x10FFFF := by
  simp only [isHighSurrogate, isLowSurrogate, Bool.and_eq_true, decide_eq_true_eq] at hhi hlo
  have hshift : (hi - 0xD800) <<< 10 < 2 ^ 20 := by
    rw [Nat.shiftLeft_eq]
    omega
  have hor := Nat.or_lt_two_pow hshift (show lo - 0xDC00 < 2 ^ 20 by omega)
  unfold combineSurrogates
  omega

/-- The registers of the two lexers at the same place. -/
def PhaseMatches (pending : Bool) : TokenPhase → StringState → Prop
  | .body, t => t = .body pending
  | .escape, t => t = .escape pending
  | .hex needed accum, t =>
    t = .hex pending needed accum ∧ 0 < needed ∧ needed ≤ 4 ∧ accum < 16 ^ (4 - needed)

/-- A token state without its text. -/
structure TokenMatches (q : TokenState) (t : StringState) : Prop where
  high : q.high ≠ 0 → isHighSurrogate q.high = true
  fresh : q.fresh = false
  phase : PhaseMatches (decide (q.high ≠ 0)) q.phase t

theorem TokenState.append_eq {q : TokenState} {room : ℕ → Bool} (hroom : ∀ n, room n = true)
    (data : Bytes) : q.append room data =
      some { phase := .body, high := q.high, text := q.text ++ data, fresh := false } := by
  rw [append, if_pos (hroom _)]

/-- A code unit that fits sixteen bits. -/
theorem unit_matches {q : TokenState} (hhigh : q.high ≠ 0 → isHighSurrogate q.high = true)
    (hfresh : q.fresh = false) {room : ℕ → Bool} (hroom : ∀ n, room n = true) {cp : ℕ}
    (hcp : cp < 0x10000) :
    Option.Rel TokenMatches (q.unit room cp) (afterUnit (decide (q.high ≠ 0)) cp) := by
  unfold TokenState.unit afterUnit
  by_cases hpending : q.high ≠ 0
  · have hdec : decide (q.high ≠ 0) = true := by simpa using hpending
    rw [if_pos hpending, if_pos hdec]
    split
    · next hlow =>
      obtain ⟨data, hdata⟩ := utf8Encode_isSome (combineSurrogates_le (hhigh hpending) hlow)
      rw [TokenState.appendCodepoint, hdata, Option.bind_some, TokenState.append_eq hroom]
      exact .some ⟨by simp, rfl, rfl⟩
    · exact .none
  · have hzero : q.high = 0 := not_not.mp hpending
    have hdec : ¬ decide (q.high ≠ 0) = true := by simpa using hzero
    rw [if_neg hpending, if_neg hdec]
    split
    · next hhi => exact .some ⟨fun _ => hhi, hfresh, by simp [PhaseMatches, isHighSurrogate_ne_zero hhi]⟩
    split
    · exact .none
    · obtain ⟨data, hdata⟩ := utf8Encode_isSome (show cp ≤ 0x10FFFF by omega)
      rw [TokenState.appendCodepoint, hdata, Option.bind_some, TokenState.append_eq hroom]
      exact .some ⟨by simp [hzero], rfl, by simp [PhaseMatches, hzero]⟩

/-- With room for every text, the lexer of the tokens reads the strings of the grammar. -/
theorem tokenLexer_matches {room : ℕ → Bool} (hroom : ∀ n, room n = true) :
    (tokenLexer false room).Matches (stringLexer true) TokenMatches where
  start := ⟨by simp [tokenLexer], rfl, rfl⟩
  next q t b h := by
    obtain ⟨hhigh, hfresh, hphase⟩ := h
    cases hmode : q.phase with
    | body =>
        rw [hmode] at hphase
        obtain rfl : t = _ := hphase
        simp only [tokenLexer, stringLexer, hmode, hfresh, Bool.not_true, Bool.and_false]
        by_cases hquote : b = 0x22
        · rw [if_pos hquote, if_pos hquote]
          by_cases hpending : q.high ≠ 0 <;> simp [hpending]
        rw [if_neg hquote, if_neg hquote]
        by_cases hback : b = 0x5c
        · rw [if_pos hback, if_pos hback]
          exact .some (.some ⟨hhigh, rfl, rfl⟩)
        rw [if_neg hback, if_neg hback]
        by_cases hcontrol : b < 0x20
        · rw [if_pos hcontrol, if_pos hcontrol]
          exact .none
        · rw [if_neg hcontrol, if_neg hcontrol, TokenState.append_eq hroom]
          exact .some (.some ⟨hhigh, rfl, rfl⟩)
    | escape =>
        rw [hmode] at hphase
        obtain rfl : t = _ := hphase
        simp only [tokenLexer, stringLexer, hmode]
        cases hsimple : simpleEscape b with
        | some ch =>
            dsimp only
            rw [TokenState.append_eq hroom, if_neg (by simp)]
            exact .some (.some ⟨hhigh, rfl, rfl⟩)
        | none =>
            dsimp only
            split
            · exact .some (.some ⟨hhigh, hfresh, by simp [PhaseMatches]⟩)
            · exact .none
    | hex needed accum =>
        rw [hmode] at hphase
        obtain ⟨rfl, hpos, hle, haccum⟩ := hphase
        simp only [tokenLexer, stringLexer, hmode]
        cases hhex : hexValue b with
        | none => exact .none
        | some hv =>
            have hlt := hexValue_lt hhex
            have hpush : pushHex accum hv < 16 ^ (4 - (needed - 1)) := by
              rw [show 4 - (needed - 1) = 4 - needed + 1 by omega, pow_succ, pushHex]
              omega
            dsimp only
            by_cases hmore : needed - 1 ≠ 0
            · rw [if_pos hmore, if_pos hmore]
              exact .some (.some ⟨hhigh, hfresh, rfl, by omega, by omega, hpush⟩)
            · rw [if_neg hmore, if_neg hmore]
              obtain rfl : needed = 1 := by omega
              have hunit := unit_matches hhigh hfresh hroom (show pushHex accum hv < 0x10000 from hpush)
              generalize q.unit room (pushHex accum hv) = o at hunit
              generalize afterUnit (decide (q.high ≠ 0)) (pushHex accum hv) = o' at hunit
              cases hunit with
              | none => exact .none
              | some h => exact .some (.some h)

/-! ## The validating parser -/

/-- The environment of `lonejson_validate_buffer`. -/
def Env.validating (env : Env σ) : Env σ := { env with validateOnly := true, rootMap := none }

theorem validating_rules (env : Env σ) :
    (readerMachine env.validating (readerLexer env.validating)).rules =
      textRules true (Limits.validator env) := by
  have htail (k : Bool) (d : ℕ) : (readerLexer env.validating k d).Tail
      (readerLexer env.validating k d).start = StringTail true false := by
    have hroom : ∀ n, stringRoom env.validating d n = true := fun n => rfl
    have hlexer : readerLexer env.validating k d =
        tokenLexer false (stringRoom env.validating d) := by
      simp [readerLexer, Env.validating]
    funext i r
    have hmatches := tokenLexer_matches hroom
    rw [hlexer, hmatches.tail_iff hmatches.start]
    exact propext (tail_body_iff true false i r)
  have henter (d : ℕ) (b : Byte) :
      canOpen env.validating d b = (b == 0x22 || frameFits env d) := by
    by_cases hquote : b = 0x22
    · simp [canOpen, Env.validating, hquote]
    · simp only [canOpen, if_neg hquote, beq_eq_false_iff_ne.mpr hquote]
      rfl
  refine Rules.ext (funext (htail false)) (funext (htail true)) ?_ rfl rfl ?_
  · funext t
    exact propext (isValidJsonNumber_iff t)
  · funext d b
    exact henter d b

/-- The parser before the first byte of a document. -/
theorem initState_tracks {S : Type} (env : Env σ) (reads : Parser σ → S → Prop) {p : Parser σ}
    (hcore : p.core.Idle) (htop : p.workspaceTop = env.workspaceSize) (hframes : p.frames = [])
    (hstarted : p.rootStarted = false) (hfinished : p.rootFinished = false)
    (hlex : p.lexMode = .none) : Tracks env reads p Json.initial := by
  refine .of_between ⟨hcore, htop, by simp [hframes], by simp [hframes], ?_⟩ hlex ?_ ?_
  · intro
    rw [hfinished, hstarted]
  · simp [Parser.mode, hframes, hstarted, Json.initial]
  · simp [Parser.brackets, hframes, Json.initial]

/-- The texts that the validating parser accepts. -/
theorem validateBuffer_eq_ok (env : Env σ) (world : σ) (s : Bytes) :
    validateBuffer env world s = .ok ↔ Document (textRules true (Limits.validator env)) s := by
  have htracks : Tracks env.validating ((tokenReader env.validating).reads s)
      (parserInit env.validating [] world) Json.initial :=
    initState_tracks env.validating _ ⟨rfl, rfl, rfl, rfl, rfl⟩ rfl rfl rfl rfl rfl
  have hchunk := feedChunks_single (tokenReader env.validating)
    (fun h => by simp [Env.validating] at h) s htracks (fun h => by simp [Env.validating] at h)
  rw [← validating_rules, ← Json.accepts_iff_document _ (readerMachine_lawful _ _)]
  exact hchunk

/-! ## Surrogates -/

/-- The escape at the head of a text is that of a low surrogate. -/
def lowFollows (i : Text) : Bool := (nextQuad i).any isLowSurrogate

/-- What follows every escape of a high surrogate has a property; the flag says that a
backslash is in front of the text. -/
def highsFollowedFrom (ok : Text → Bool) : Bool → Text → Bool
  | _, [] => true
  | true, _ :: rest => highsFollowedFrom ok false rest
  | false, b :: rest =>
    (!(nextQuad (b :: rest)).any isHighSurrogate || ok (rest.drop 5)) &&
      highsFollowedFrom ok (b == 0x5c) rest

def highsFollowed (ok : Text → Bool) (s : Text) : Bool := highsFollowedFrom ok false s

theorem nextQuad_eq_none {b : Byte} (hb : b ≠ 0x5c) (i : Text) : nextQuad (b :: i) = none := by
  cases h : nextQuad (b :: i) with
  | none => rfl
  | some cp =>
      obtain ⟨_, _, _, _, _, hi, -⟩ := nextQuad_eq_some h
      exact absurd (List.cons.inj hi).1 hb

theorem nextQuad_escape {e ch : Byte} (he : simpleEscape e = some ch) (i : Text) :
    nextQuad (0x5c :: e :: i) = none := by
  cases h : nextQuad (0x5c :: e :: i) with
  | none => rfl
  | some cp =>
      obtain ⟨_, _, _, _, _, hi, -⟩ := nextQuad_eq_some h
      obtain rfl : e = 0x75 := by simpa using (List.cons.inj (List.cons.inj hi).2).1
      simp [simpleEscape] at he

section

variable {ok : Text → Bool}

theorem highsFollowed_cons {b : Byte} (hb : b ≠ 0x5c) (i : Text) :
    highsFollowed ok (b :: i) = highsFollowed ok i := by
  simp [highsFollowed, highsFollowedFrom, nextQuad_eq_none hb, beq_eq_false_iff_ne.mpr hb]

theorem highsFollowed_append {t : Text} (ht : ∀ b ∈ t, b ≠ 0x5c) (r : Text) :
    highsFollowed ok (t ++ r) = highsFollowed ok r := by
  induction t with
  | nil => rfl
  | cons b t ih =>
      rw [List.cons_append, highsFollowed_cons (ht b (by simp))]
      exact ih fun c hc => ht c (by simp [hc])

theorem highsFollowed_escape {e ch : Byte} (he : simpleEscape e = some ch) (i : Text) :
    highsFollowed ok (0x5c :: e :: i) = highsFollowed ok i := by
  simp [highsFollowed, highsFollowedFrom, nextQuad_escape he]

theorem highsFollowed_unit {a b c d : Byte} {cp : ℕ} (hcp : decodeUnicodeQuad a b c d = some cp)
    (i : Text) : highsFollowed ok (0x5c :: 0x75 :: a :: b :: c :: d :: i) =
      ((!isHighSurrogate cp || ok i) && highsFollowed ok i) := by
  obtain ⟨va, vb, vc, vd, ha, hb, hc, hd, -⟩ := decodeUnicodeQuad_eq_some.mp hcp
  have hquad : nextQuad (0x5c :: 0x75 :: a :: b :: c :: d :: i) = some cp := hcp
  have hdigits : highsFollowed ok (a :: b :: c :: d :: i) = highsFollowed ok i := by
    rw [highsFollowed_cons ((hexValue_solid ha).2), highsFollowed_cons ((hexValue_solid hb).2),
      highsFollowed_cons ((hexValue_solid hc).2), highsFollowed_cons ((hexValue_solid hd).2)]
  rw [← hdigits, highsFollowed, highsFollowedFrom, hquad]
  rfl

theorem highsFollowed_mark {b : Byte} (hb : b ∈ Json.marks) (i : Text) :
    highsFollowed ok (b :: i) = highsFollowed ok i := by
  refine highsFollowed_cons ?_ i
  rintro rfl
  simp at hb

theorem highsFollowed_blank {b : Byte} (hb : Json.isSpace b = true) (i : Text) :
    highsFollowed ok (b :: i) = highsFollowed ok i := by
  refine highsFollowed_cons ?_ i
  rintro rfl
  simp [Json.isSpace] at hb

theorem highsFollowed_number {num : Text} (hnum : JsonNumber num) (r : Text) :
    highsFollowed ok (num ++ r) = highsFollowed ok r := by
  refine highsFollowed_append (fun b hb => ?_) r
  rintro rfl
  exact absurd (hnum.bytes _ hb) (by decide)

theorem highsFollowed_literal {lit : Text}
    (hlit : lit ∈ [Json.trueText, Json.falseText, Json.nullText]) (r : Text) :
    highsFollowed ok (lit ++ r) = highsFollowed ok r := by
  refine highsFollowed_append (fun b hb => ?_) r
  rintro rfl
  simp only [List.mem_cons, List.not_mem_nil, or_false] at hlit
  obtain rfl | rfl | rfl := hlit <;> exact absurd hb (by decide)

end

/-- A string of paired surrogates, read from the left. -/
theorem StringTail.strict {pending : Bool} {i r : Text} (h : StringTail true pending i r)
    (hi : highsFollowed lowFollows i = true) (hpending : pending = true → lowFollows i = true) :
    StringTail false pending i r ∧ highsFollowed lowFollows r = true := by
  induction h with
  | close => exact ⟨.close, by rwa [highsFollowed_cons (by decide)] at hi⟩
  | @plain pending b i r hb _ h ih =>
      have hback := (isPlain_iff.mp hb).2.1
      obtain rfl : pending = false := by
        cases pending with
        | false => rfl
        | true => simpa [lowFollows, nextQuad_eq_none hback] using hpending rfl
      obtain ⟨htail, hr⟩ := ih (by rwa [highsFollowed_cons hback] at hi) (by simp)
      exact ⟨.plain hb (by simp) htail, hr⟩
  | @escape pending e ch i r he _ h ih =>
      obtain rfl : pending = false := by
        cases pending with
        | false => rfl
        | true => simpa [lowFollows, nextQuad_escape he] using hpending rfl
      obtain ⟨htail, hr⟩ := ih (by rwa [highsFollowed_escape he] at hi) (by simp)
      exact ⟨.escape he (by simp) htail, hr⟩
  | unit hcp hhigh hlow h ih =>
      rw [highsFollowed_unit hcp, hhigh] at hi
      obtain ⟨htail, hr⟩ := ih (by simpa using hi) (by simp)
      exact ⟨.unit hcp hhigh hlow htail, hr⟩
  | high hcp hhigh h ih =>
      rw [highsFollowed_unit hcp, hhigh, Bool.and_eq_true] at hi
      obtain ⟨htail, hr⟩ := ih hi.2 (fun _ => by simpa using hi.1)
      exact ⟨.high hcp hhigh htail, hr⟩
  | low hcp hlow h ih =>
      rw [highsFollowed_unit hcp, Bool.and_eq_true] at hi
      obtain ⟨htail, hr⟩ := ih hi.2 (by simp)
      exact ⟨.low hcp hlow htail, hr⟩

theorem low_not_high {cp : ℕ} (h : isLowSurrogate cp = true) : isHighSurrogate cp = false := by
  simp only [isLowSurrogate, Bool.and_eq_true, decide_eq_true_eq] at h
  simp only [isHighSurrogate, Bool.and_eq_false_iff, decide_eq_false_iff_not]
  omega

/-- The surrogates of a string of the grammar of RFC 8259 are paired. -/
theorem StringTail.paired {pending : Bool} {i r : Text} (h : StringTail false pending i r)
    (hr : highsFollowed lowFollows r = true) :
    highsFollowed lowFollows i = true ∧ (pending = true → lowFollows i = true) := by
  induction h with
  | close => exact ⟨by rwa [highsFollowed_cons (by decide)], by simp⟩
  | plain hb hgap h ih =>
      exact ⟨by rw [highsFollowed_cons (isPlain_iff.mp hb).2.1]; exact (ih hr).1,
        fun hpending => by simpa using hgap hpending⟩
  | escape he hgap h ih =>
      exact ⟨by rw [highsFollowed_escape he]; exact (ih hr).1,
        fun hpending => by simpa using hgap hpending⟩
  | unit hcp hhigh hlow h ih =>
      exact ⟨by rw [highsFollowed_unit hcp, hhigh, (ih hr).1]; rfl, by simp⟩
  | high hcp hhigh h ih =>
      exact ⟨by rw [highsFollowed_unit hcp, (ih hr).1, (ih hr).2 rfl]; simp, by simp⟩
  | @low a b c d cp i r hcp hlow h ih =>
      have hhigh : isHighSurrogate cp = false := low_not_high hlow
      have hquad : nextQuad (0x5c :: 0x75 :: a :: b :: c :: d :: i) = some cp := hcp
      exact ⟨by rw [highsFollowed_unit hcp, hhigh, (ih hr).1]; rfl,
        fun _ => by rw [lowFollows, hquad]; exact hlow⟩

/-! ## The grammar of RFC 8259 -/

theorem StringTail.loose {pending : Bool} {i r : Text} (h : StringTail false pending i r) :
    StringTail true pending i r := by
  induction h with
  | close => exact .close
  | plain hb hgap _ ih => exact .plain hb (fun _ => rfl) ih
  | escape he hgap _ ih => exact .escape he (fun _ => rfl) ih
  | unit hcp hhigh hlow _ ih => exact .unit hcp hhigh hlow ih
  | high hcp hhigh _ ih => exact .high hcp hhigh ih
  | low hcp hlow _ ih => exact .low hcp hlow ih

theorem highsFollowed_restored (limits : Limits) :
    (textRules false limits).Restores (highsFollowed lowFollows · = true) where
  blank b i hb hi := by rwa [highsFollowed_blank hb]
  mark b i hb hi := by rwa [highsFollowed_mark hb]
  string d i r htail hr := by
    rw [highsFollowed_cons (by decide)]
    exact (StringTail.paired htail hr).1
  key d i r htail hr := by
    rw [highsFollowed_cons (by decide)]
    exact (StringTail.paired htail hr).1
  number num r hnum hr := by rwa [highsFollowed_number hnum]
  literal lit r hlit hr := by rwa [highsFollowed_literal hlit]

theorem highsFollowed_carried (limits : Limits) :
    (textRules true limits).Carries (textRules false limits) 0 (highsFollowed lowFollows · = true) where
  blank b i hb hi := by rwa [highsFollowed_blank hb] at hi
  mark b i hb hi := by rwa [highsFollowed_mark hb] at hi
  string d i r _ henter htail hi := by
    rw [highsFollowed_cons (by decide)] at hi
    exact ⟨henter, StringTail.strict htail hi (by simp)⟩
  key d i r _ henter htail hi := by
    rw [highsFollowed_cons (by decide)] at hi
    exact ⟨henter, StringTail.strict htail hi (by simp)⟩
  number d num r _ hnum hfits hi := ⟨hnum, hfits, by rwa [highsFollowed_number hnum] at hi⟩
  literal d lit r _ hlit hfits hi := ⟨hfits, by rwa [highsFollowed_literal hlit] at hi⟩
  enter d b _ _ henter := henter

/-- Wider limits admit more texts, and so do looser strings. -/
theorem textRules_carries {gap gap' : Bool} {limits limits' : Limits}
    (hgap : ∀ i r, StringTail gap false i r → StringTail gap' false i r)
    (hopens : ∀ d, limits.opens d = true → limits'.opens d = true)
    (hnumber : ∀ d n, limits.number d n = true → limits'.number d n = true)
    (hliteral : ∀ d n, limits.literal d n = true → limits'.literal d n = true) :
    (textRules gap limits).Carries (textRules gap' limits') 0 fun _ => True where
  blank _ _ _ h := h
  mark _ _ _ h := h
  string d i r _ _ htail _ := ⟨rfl, hgap i r htail, trivial⟩
  key d i r _ _ htail _ := ⟨rfl, hgap i r htail, trivial⟩
  number d num r _ hnum hfits _ := ⟨hnum, hnumber _ _ hfits, trivial⟩
  literal d lit r _ _ hfits _ := ⟨hliteral _ _ hfits, trivial⟩
  enter d b _ _ henter := by
    simp only [textRules, Bool.or_eq_true] at henter ⊢
    exact henter.imp_right (hopens d)

/-- RFC 8259 is the loose grammar with paired surrogates. -/
theorem rfc_iff_paired (limits : Limits) (s : Text) : Document (textRules false limits) s ↔
    Document (textRules true limits) s ∧ highsFollowed lowFollows s = true := by
  constructor
  · intro h
    exact ⟨(textRules_carries (fun _ _ => StringTail.loose) (fun _ => id) (fun _ _ => id)
      fun _ _ => id).document h trivial, (highsFollowed_restored limits).document h rfl⟩
  · rintro ⟨h, hpaired⟩
    exact (highsFollowed_carried limits).document h hpaired

/-- The limits of the validating parser are the documented ones and those of the
workspace. -/
theorem validator_limits_iff (env : Env σ) (s : Text) :
    Document (textRules true (Limits.validator env)) s ↔
      Document (textRules true (Limits.documented env)) s ∧
        Document (textRules true (Limits.workspace env)) s := by
  constructor
  · intro h
    have hdocumented : (textRules true (Limits.validator env)).Carries
        (textRules true (Limits.documented env)) 0 fun _ => True :=
      textRules_carries (fun _ _ => id) (fun _ hopens => (Bool.and_eq_true_iff.mp hopens).1)
        (fun _ _ => id) fun _ _ _ => rfl
    have hworkspace : (textRules true (Limits.validator env)).Carries
        (textRules true (Limits.workspace env)) 0 fun _ => True :=
      textRules_carries (fun _ _ => id) (fun _ hopens => (Bool.and_eq_true_iff.mp hopens).2)
        (fun _ _ _ => rfl) fun _ _ => id
    exact ⟨hdocumented.document h trivial, hworkspace.document h trivial⟩
  · rw [← textMachine_accepts, ← textMachine_accepts, ← textMachine_accepts]
    rintro ⟨hdocumented, hworkspace⟩
    refine Machine.Meets.accepts ?_ hdocumented hworkspace
    refine ⟨fun _ _ => ⟨rfl, rfl⟩, fun _ _ _ _ _ _ h h' => ⟨Option.some.inj (h.symm.trans h'), h⟩,
      ⟨rfl, rfl⟩, ⟨rfl, rfl⟩, ⟨rfl, rfl⟩, fun _ _ h _ => h, fun _ _ _ h => h, ?_⟩
    intro d b h h'
    simp only [textMachine, Bool.or_eq_true] at h h' ⊢
    rcases h with hquote | hopens
    · exact .inl hquote
    · exact h'.imp_right fun hfits => Bool.and_eq_true_iff.mpr ⟨hopens, hfits⟩

/-- A text is within the documented limits when they do not keep it out of the loose
grammar; a text that is not of that grammar is under no limit. -/
def WithinLimits (env : Env σ) (s : Text) : Prop :=
  Document (textRules true .none) s → Document (textRules true (Limits.documented env)) s

/-- The frames of the containers of a text and its literals fit the workspace. -/
def WorkspaceFits (env : Env σ) (s : Text) : Prop :=
  Document (textRules true (Limits.workspace env)) s

/-- Within the documented limits the validating parser accepts the texts of RFC 8259, unless
a surrogate pair is torn apart or the workspace is too small; it decides wrongly when
exactly one of the two is the case. -/
theorem validateBuffer_rfc_iff (env : Env σ) (world : σ) (s : Bytes) (hlimits : WithinLimits env s) :
    (validateBuffer env world s = .ok ↔ Document rfcRules s) ↔
      (Document (textRules true .none) s → (highsFollowed lowFollows s = true ↔ WorkspaceFits env s)) := by
  rw [validateBuffer_eq_ok, rfc_iff_paired, validator_limits_iff]
  have hloose : Document (textRules true (Limits.documented env)) s →
      Document (textRules true .none) s := fun h =>
    (textRules_carries (fun _ _ => id) (fun _ _ => rfl) (fun _ _ _ => rfl)
      fun _ _ _ => rfl).document h trivial
  unfold WithinLimits at hlimits
  unfold WorkspaceFits
  tauto

/-- A parse without maps and callbacks, with the default sizes. -/
def Env.bare : Env Unit where
  maps _ := { fields := [] }
  call world _ error := (world, error, .ok)
  parseF64 _ := none

theorem validateBuffer_rfc_iff_null :
    (validateBuffer .bare () Json.nullText = .ok ↔ Document rfcRules Json.nullText) ↔
      (Document (textRules true .none) Json.nullText →
        (highsFollowed lowFollows Json.nullText = true ↔ WorkspaceFits .bare Json.nullText)) :=
  validateBuffer_rfc_iff .bare () Json.nullText fun _ => by decide

/-- The text `"\uD800a\uDC00"`. -/
def tornText : Text :=
  [0x22, 0x5c, 0x75, 0x44, 0x38, 0x30, 0x30, 0x61, 0x5c, 0x75, 0x44, 0x43, 0x30, 0x30, 0x22]

/-- The validating parser accepts a string whose surrogate pair is torn apart. -/
theorem validateBuffer_torn : WithinLimits .bare tornText ∧
    validateBuffer .bare () tornText = .ok ∧ ¬ Document rfcRules tornText :=
  ⟨fun _ => by decide, by decide, by decide⟩

end Lonejson
