import Lonejson.Decoding
import Lonejson.Tokens

/-!
# What is recorded of a streamed value

The tokens of a value that the parser streams, and what the parser needs of the one who
records them: the members and callbacks that an embedded value goes to are seen only
through a `Recorder`. A token can be denied by the recorder, or there is no room for it.
-/

namespace Lonejson

open Json (Text Mode State Bracket Machine Tells Lexis valueEnd behind tokensAt)

variable {σ : Type}

/-! ## The machine of a value -/

/-- The machine of the grammar without limits; it keeps the text of a string. -/
def valueMachine : Machine DecodeState where
  lexer _ _ := decodeLexer
  numberStart := isNumberStart
  numberByte := isNumberByte
  number := isValidJsonNumber
  fitsNumber _ _ := true
  fitsLiteral _ _ := true
  enter _ _ := true

theorem valueMachine_lawful : valueMachine.Lawful :=
  lawful_of_numbers rfl rfl rfl (fun _ _ _ _ _ => rfl) fun _ _ _ _ _ => rfl

theorem valueMachine_boundless : valueMachine.Boundless where
  number _ _ := rfl
  literal _ _ := rfl
  enter _ _ := rfl

/-- The tokens of a value up to its end, and the text behind it. -/
abbrev valueTokens : State DecodeState → Text → Option (List Json.Token × Text) :=
  valueEnd valueMachine DecodeState.text

abbrev Told : State DecodeState → Text → List Json.Token → State DecodeState → Text → Prop :=
  Tells valueMachine DecodeState.text

def textToken (isKey : Bool) (content : Bytes) : Json.Token :=
  if isKey then .key content else .string content

theorem closes_ends {q : DecodeState} {i r : Text} {x : Bytes} (h : closes q i = some (x, r)) :
    ∃ t, decodeLexer.Ends q i t r ∧ t.text = x := by
  induction i generalizing q with
  | nil => cases h
  | cons b i ih =>
      rw [closes] at h
      cases hnext : decodeLexer.next q b with
      | none =>
          rw [hnext] at h
          cases h
      | some o =>
          rw [hnext] at h
          cases o with
          | none =>
              cases h
              exact ⟨q, .close hnext, rfl⟩
          | some q' =>
              obtain ⟨t, ht, hx⟩ := ih h
              exact ⟨t, .step hnext ht, hx⟩

theorem strictLexis_told : strictLexis.ToldBy valueMachine DecodeState.text where
  string h _ _ := by
    have hcloses := @StringText.closes _ _ _ h {} rfl rfl
    rw [List.nil_append] at hcloses
    exact closes_ends hcloses
  number h := (isValidJsonNumber_iff _).mpr h

/-- A string is told when its lexer has read the closing quote. -/
theorem valueTokens_string (isKey : Bool) (stack : List Bracket) (q : DecodeState) (s : Text) :
    valueTokens ⟨.string isKey q, stack⟩ s = (closes q s).bind fun r =>
      behind [textToken isKey r.1] (valueTokens ⟨Json.afterString isKey, stack⟩ r.2) := by
  induction s generalizing q with
  | nil => rfl
  | cons b s ih =>
      rw [closes]
      cases hnext : decodeLexer.next q b with
      | none =>
          apply Json.valueEnd_reject rfl rfl
          simp [Json.step, valueMachine, hnext]
      | some o =>
          cases o with
          | none =>
              have hstep : Json.step valueMachine ⟨.string isKey q, stack⟩ b =
                  some ⟨Json.afterString isKey, stack⟩ := by
                simp [Json.step, valueMachine, hnext]
              have htell : tokensAt valueMachine DecodeState.text ⟨.string isKey q, stack⟩ b =
                  [textToken isKey q.text] := by
                simp [tokensAt, Json.said, Json.commaAt, valueMachine, hnext, Json.tokenOutput,
                  textToken]
              rw [valueTokens, Json.valueEnd_step rfl rfl hstep, htell]
              rfl
          | some q' =>
              have hstep : Json.step valueMachine ⟨.string isKey q, stack⟩ b =
                  some ⟨.string isKey q', stack⟩ := by
                simp [Json.step, valueMachine, hnext]
              have htell : tokensAt valueMachine DecodeState.text ⟨.string isKey q, stack⟩ b = [] := by
                simp [tokensAt, Json.said, Json.commaAt, valueMachine, hnext]
              rw [valueTokens, Json.valueEnd_step rfl rfl hstep, htell, Json.behind_nil]
              exact ih q'

theorem DecodeState.next_text {q q' : DecodeState} {b : Byte}
    (h : decodeLexer.next q b = some (some q')) : q.text <+: q'.text := by
  have hunit (cp : ℕ) : ∀ q', q.unit cp = some q' → q.text <+: q'.text := by
    intro q' h
    rw [DecodeState.unit] at h
    split_ifs at h
    · obtain ⟨data, -, rfl⟩ := Option.map_eq_some_iff.mp h
      exact List.prefix_append _ _
    · cases h
      exact List.prefix_refl _
    · obtain ⟨data, -, rfl⟩ := Option.map_eq_some_iff.mp h
      exact List.prefix_append _ _
  cases hphase : q.phase with
  | body =>
      simp only [decodeLexer, hphase] at h
      split_ifs at h <;> cases h
      · exact List.prefix_refl _
      · exact List.prefix_append _ _
  | escape =>
      simp only [decodeLexer, hphase] at h
      split at h
      · cases h
        exact List.prefix_append _ _
      · split_ifs at h
        cases h
        exact List.prefix_refl _
  | hex needed accum =>
      simp only [decodeLexer, hphase] at h
      split at h
      · cases h
      · split_ifs at h
        · cases h
          exact List.prefix_refl _
        · obtain ⟨q'', hq, hsome⟩ := Option.map_eq_some_iff.mp h
          cases hsome
          exact hunit _ _ hq

/-- The text of a string only grows. -/
theorem closes_text {q : DecodeState} {s : Text} {x : Bytes} {r : Text}
    (h : closes q s = some (x, r)) : q.text <+: x := by
  induction s generalizing q with
  | nil => cases h
  | cons b s ih =>
      rw [closes] at h
      cases hnext : decodeLexer.next q b with
      | none =>
          rw [hnext] at h
          cases h
      | some o =>
          rw [hnext] at h
          cases o with
          | none =>
              cases h
              exact List.prefix_refl _
          | some q' => exact (DecodeState.next_text hnext).trans (ih h)

/-- The first token that a number in progress tells is that number. -/
theorem valueTokens_number {text s : Text} {stack : List Bracket} {ts : List Json.Token} {r : Text}
    (h : valueTokens ⟨.number text, stack⟩ s = some (ts, r)) :
    ∃ num ts', ts = .number num :: ts' ∧ text <+: num := by
  induction s generalizing text ts with
  | nil => cases h
  | cons b s ih =>
      by_cases hb : isNumberByte b = true
      · have hmore := @Json.tells_numberMore _ valueMachine DecodeState.text valueMachine_boundless
          valueMachine_lawful [b] (by simpa [valueMachine] using hb) text stack s []
        simp only [List.append_nil, Json.behind_nil, List.singleton_append] at hmore
        obtain ⟨num, ts', hts, hprefix⟩ := ih (hmore.symm.trans h)
        exact ⟨num, ts', hts, (List.prefix_append _ _).trans hprefix⟩
      · by_cases hnum : isValidJsonNumber text = true
        · have hend := @Json.tells_numberEnd _ valueMachine DecodeState.text text hnum b
            (by simpa [valueMachine] using hb) stack s []
          simp only [List.append_nil] at hend
          rw [valueTokens, hend] at h
          obtain ⟨x, -, hx⟩ := Option.map_eq_some_iff.mp h
          cases hx
          exact ⟨text, x.1, rfl, List.prefix_refl _⟩
        · have hlast : Json.lastNumber valueMachine ⟨.number text, stack⟩ b = none := by
            cases stack <;> simp [Json.lastNumber, valueMachine, hnum]
          have hstep : Json.step valueMachine ⟨.number text, stack⟩ b = none := by
            simp [Json.step, valueMachine, hb, hnum]
          rw [valueTokens, Json.valueEnd_reject rfl hlast hstep] at h
          cases h

/-- A number that is none. -/
theorem valueTokens_badNumber {text : Text} {b : Byte} (hb : isNumberByte b = false)
    (hnum : isValidJsonNumber text = false) (stack : List Bracket) (s : Text) :
    valueTokens ⟨.number text, stack⟩ (b :: s) = none := by
  have hlast : Json.lastNumber valueMachine ⟨.number text, stack⟩ b = none := by
    cases stack <;> simp [Json.lastNumber, valueMachine, hnum]
  have hstep : Json.step valueMachine ⟨.number text, stack⟩ b = none := by
    simp [Json.step, valueMachine, hb, hnum]
  exact Json.valueEnd_reject rfl hlast hstep s

/-- The first token that a literal in progress tells is that literal. -/
theorem valueTokens_literal {text pre rest s : Text} {stack : List Bracket}
    {ts : List Json.Token} {r : Text} (htext : text ∈ [trueText, falseText, nullText])
    (hpre : pre ≠ []) (hrest : rest ≠ []) (hsplit : text = pre ++ rest)
    (h : valueTokens ⟨.literal pre.length rest, stack⟩ s = some (ts, r)) :
    ∃ ts', ts = .literal text :: ts' := by
  induction rest generalizing pre s with
  | nil => exact absurd rfl hrest
  | cons c rest ih =>
      cases s with
      | nil => cases h
      | cons b s =>
          by_cases hb : b = c
          · subst hb
            have hstep := @Json.tells_literal _ valueMachine DecodeState.text text pre rest b
              valueMachine_boundless htext hpre hsplit stack s []
            rw [List.append_nil, List.append_nil] at hstep
            rw [valueTokens, hstep] at h
            by_cases hnil : rest = []
            · rw [if_pos hnil, if_pos hnil] at h
              obtain ⟨x, -, hx⟩ := Option.map_eq_some_iff.mp h
              cases hx
              exact ⟨x.1, rfl⟩
            · rw [if_neg hnil, if_neg hnil, Json.behind_nil] at h
              have hlength : pre.length + 1 = (pre ++ [b]).length := by simp
              rw [hlength] at h
              exact ih (by simp) hnil (by simpa using hsplit) h
          · have hstep : Json.step valueMachine ⟨.literal pre.length (c :: rest), stack⟩ b = none := by
              simp [Json.step, hb]
            rw [valueTokens, Json.valueEnd_reject rfl rfl hstep] at h
            cases h

/-! ## Room for the tokens -/

/-- The workspace around a value. A scalar is read before its field is marked, and a
container behind it, so that the room may differ; `base` frames lie below. -/
structure ValueRoom where
  marks : Bool
  scalarTop : ℕ
  containerTop : ℕ
  base : ℕ
  deriving DecidableEq, Repr

def roomAt (env : Env σ) (top frames : ℕ) : ℕ :=
  if top ≤ frameBytes env frames then 0 else top - frameBytes env frames - 1

theorem tokenLimit_room (env : Env σ) (p : Parser σ) :
    tokenLimit env p = roomAt env p.workspaceTop p.frames.length := rfl

def ValueRoom.top (w : ValueRoom) (depth : ℕ) : ℕ :=
  if depth = 0 then w.scalarTop else w.containerTop

def ValueRoom.framed (env : Env σ) (w : ValueRoom) (depth : ℕ) : Bool :=
  (env.options.maxDepth == 0 || decide (w.base + depth < env.options.maxDepth)) &&
    decide (frameBytes env (w.base + depth + 1) ≤ w.containerTop)

def ValueRoom.fits (env : Env σ) (w : ValueRoom) (depth : ℕ) : Json.Token → Bool
  | .opening _ => w.framed env depth
  | .number text | .literal text =>
    decide (text.length + 2 ≤ roomAt env (w.top depth) (w.base + depth))
  | _ => true

/-- The depth behind a token. -/
def nest (depth : ℕ) : Json.Token → ℕ
  | .opening _ => depth + 1
  | .closing _ => depth - 1
  | _ => depth

def ValueRoom.fitsAll (env : Env σ) (w : ValueRoom) : ℕ → List Json.Token → Bool
  | _, [] => true
  | depth, t :: ts => w.fits env depth t && w.fitsAll env (nest depth t) ts

theorem ValueRoom.fitsAll_append (env : Env σ) (w : ValueRoom) (depth : ℕ)
    (ts ts' : List Json.Token) :
    w.fitsAll env depth (ts ++ ts') =
      (w.fitsAll env depth ts && w.fitsAll env (ts.foldl nest depth) ts') := by
  induction ts generalizing depth with
  | nil => rfl
  | cons t ts ih => simp [fitsAll, ih, Bool.and_assoc]

/-- Tokens that there is room for, up to this depth, and with them for the marks. -/
structure ValueRoom.Grants (env : Env σ) (w : ValueRoom) (ts : List Json.Token) (depth : ℕ) :
    Prop where
  depth : ts.foldl nest 0 = depth
  fits : w.fitsAll env 0 ts = true
  marks : ts ≠ [] → w.marks = true

theorem ValueRoom.grants_nil (env : Env σ) (w : ValueRoom) : w.Grants env [] 0 :=
  ⟨rfl, rfl, absurd rfl⟩

theorem ValueRoom.Grants.token {env : Env σ} {w : ValueRoom} {ts : List Json.Token} {depth : ℕ}
    (h : w.Grants env ts depth) {t : Json.Token} (hmarks : w.marks = true)
    (hfits : w.fits env depth t = true) : w.Grants env (ts ++ [t]) (nest depth t) := by
  refine ⟨?_, ?_, fun _ => hmarks⟩
  · rw [List.foldl_append, h.depth]
    rfl
  · rw [ValueRoom.fitsAll_append, h.fits, h.depth, ValueRoom.fitsAll, hfits]
    rfl

theorem ValueRoom.Grants.marked {env : Env σ} {w : ValueRoom} {ts : List Json.Token} {depth : ℕ}
    (h : w.Grants env ts (depth + 1)) : w.marks = true := by
  apply h.marks
  rintro rfl
  cases h.depth

/-- Tokens that the value may not have: there is no room for them, or they are denied. -/
def ValueRoom.Denies (env : Env σ) (w : ValueRoom) (deny : List Json.Token → Prop)
    (ts : List Json.Token) : Prop :=
  w.marks = false ∨ w.fitsAll env 0 ts = false ∨ deny ts

/-- The value in progress is none, or it is made of tokens that are denied. -/
def Stops (deny : List Json.Token → Prop) (ts : List Json.Token) (st : State DecodeState)
    (s : Text) : Prop :=
  ∀ more ts' r, valueTokens st (s ++ more) = some (ts', r) → deny (ts ++ ts')

section

variable {deny : List Json.Token → Prop} {ts ts' : List Json.Token} {st st' : State DecodeState}
  {s s' : Text}

theorem stops_of_none (h : ∀ more, valueTokens st (s ++ more) = none) : Stops deny ts st s := by
  intro more ts' r hts
  rw [h] at hts
  cases hts

theorem Stops.told (htold : Told st s ts' st' s') (h : Stops deny (ts ++ ts') st' s') :
    Stops deny ts st s := by
  intro more ts'' r hts
  rw [valueTokens, htold] at hts
  obtain ⟨x, hx, heq⟩ := Option.map_eq_some_iff.mp hts
  cases heq
  rw [← List.append_assoc]
  exact h more x.1 x.2 hx

theorem stops_of_reject {b : Byte} (hend : Json.ended st = false)
    (hlast : Json.lastNumber valueMachine st b = none) (hstep : Json.step valueMachine st b = none)
    (s : Text) : Stops deny ts st (b :: s) :=
  stops_of_none fun more => Json.valueEnd_reject hend hlast hstep (s ++ more)

theorem Stops.append (h : Stops deny ts st s) (more : Text) : Stops deny ts st (s ++ more) := by
  intro more' ts' r hts
  rw [List.append_assoc] at hts
  exact h _ _ _ hts

end

/-! ## The recorder -/

/-- The end of a stream touches the counters of the stream and of the heap only. -/
theorem clearJsonStreamValue_same (env : Env σ) (c : Core σ) :
    ∃ allocLive json, clearJsonStreamValue env c = { c with allocLive, json } := by
  have hcleanup : ∃ allocLive json, cleanupJsonStreamPath env c = { c with allocLive, json } := by
    rw [cleanupJsonStreamPath]
    split
    · exact ⟨_, _, rfl⟩
    · exact ⟨_, _, rfl⟩
  obtain ⟨allocLive, json, hcleanup⟩ := hcleanup
  rw [clearJsonStreamValue, hcleanup]
  exact ⟨_, _, rfl⟩

theorem clearJsonStreamValue_depth (env : Env σ) (c : Core σ) :
    (clearJsonStreamValue env c).setJsonDepth c.json.depth = clearJsonStreamValue env c := by
  have hcleanup : (cleanupJsonStreamPath env c).json.depth = c.json.depth := by
    rw [cleanupJsonStreamPath]
    split <;> rfl
  rw [clearJsonStreamValue, hcleanup]
  rfl

theorem setJsonDepth_same {c : Core σ} {n : ℕ} (h : c.json.depth = n) : c.setJsonDepth n = c := by
  rw [← h]
  rfl

/-- The comma or the colon that a captured value repeats. -/
def emitMark (env : Env σ) (c : Core σ) (mark : Byte) : Core σ × Status :=
  if c.json.active && !c.json.parseVisitorActive then jsonValueEmit env c [mark] else (c, .ok)

/-- What is known of the core while a value is streamed to the member at `ptr`: before the
value, between its tokens at a depth, inside a string, and behind the value. `kept` holds
throughout, `deny` of the tokens that are refused. -/
structure Recorder (env : Env σ) (ptr : SlotPtr) where
  visits : Bool
  waits : Core σ → Prop
  inside : ℕ → List Json.Token → Core σ → Prop
  text : ℕ → List Json.Token → Bool → Bytes → Core σ → Prop
  ended : List Json.Token → Core σ → Prop
  kept : Core σ → Prop
  deny : List Json.Token → Prop

section

variable {env : Env σ} {ptr : SlotPtr}

/-- The outcome of an operation that records the last of these tokens. -/
def Recorder.Goes (R : Recorder env ptr) (P : Core σ → Prop) (ts : List Json.Token)
    (r : Core σ × Status) : Prop :=
  r.2 = .ok ∧ P r.1 ∨
    r.2.soft = false ∧ r.1.error.code.soft = false ∧ R.kept r.1 ∧ R.deny ts

/-- The token of a scalar that is the whole value: a captured literal is the text that was
read, but for `null`. -/
def Recorder.valueToken (R : Recorder env ptr) (text : Bytes) : LexMode → Json.Token
  | .number => .number text
  | .true => .literal (if R.visits then trueText else text)
  | .false => .literal (if R.visits then falseText else text)
  | _ => .literal nullText

/-- The token of a scalar inside a container. -/
def scalarToken (text : Bytes) : LexMode → Json.Token
  | .number => .number text
  | mode => .literal (scalarText text mode)

structure Recorder.Lawful (R : Recorder env ptr) : Prop where
  waits_idle : ∀ {c}, R.waits c → c.json.active = false ∧ c.failed = false
  inside_live : ∀ {d ts c}, R.inside d ts c → c.json.active = true ∧
    c.json.parseVisitorActive = R.visits ∧ c.json.depth = d ∧ c.failed = false
  text_live : ∀ {d ts k x c}, R.text d ts k x c → c.json.active = true ∧
    c.json.parseVisitorActive = R.visits ∧ c.failed = false
  ended_idle : ∀ {ts c}, R.ended ts c → c.json.active = false ∧ c.failed = false
  waits_kept : ∀ {c}, R.waits c → R.kept c
  inside_kept : ∀ {d ts c}, R.inside d ts c → R.kept c
  text_kept : ∀ {d ts k x c}, R.text d ts k x c → R.kept c
  ended_kept : ∀ {ts c}, R.ended ts c → R.kept c
  kept_same : ∀ {c c'}, R.kept c → c'.dst = c.dst → c'.world = c.world → R.kept c'
  deny_more : ∀ {ts} ts', R.deny ts → R.deny (ts ++ ts')
  deny_text : ∀ {ts k x y}, x <+: y → R.deny (ts ++ [textToken k x]) →
    R.deny (ts ++ [textToken k y])
  deny_scalar : ∀ {text text' mode}, text'.length = text.length →
    R.deny [R.valueToken text' mode] → R.deny [R.valueToken text mode]
  begins : ∀ {c} n, R.waits c →
    R.Goes (fun c' => c'.json.depth = n ∧ R.inside 0 [] (c'.setJsonDepth 0)) []
      (beginJsonStream env c ptr n)
  opens : ∀ {d ts c kind}, R.inside d ts c →
    if jsonTooDeep (c.setJsonDepth (d + 1)) then R.deny (ts ++ [.opening kind.bracket])
    else R.Goes (R.inside (d + 1) (ts ++ [.opening kind.bracket])) (ts ++ [.opening kind.bracket])
      (jsonOpen env (c.setJsonDepth (d + 1)) kind)
  closes : ∀ {d ts c kind}, R.inside (d + 1) ts c →
    R.Goes (fun c' => c'.json.active = true ∧ c'.json.depth = d + 1 ∧
        R.inside d (ts ++ [.closing kind.bracket]) (c'.setJsonDepth d))
      (ts ++ [.closing kind.bracket]) (jsonClose env c kind)
  ends : ∀ {ts c}, R.inside 0 ts c → R.ended ts (clearJsonStreamValue env c)
  commas : ∀ {d ts c}, R.inside (d + 1) ts c →
    R.Goes (R.inside (d + 1) (ts ++ [.comma])) (ts ++ [.comma]) (emitMark env c 0x2c)
  textBegins : ∀ {d ts c k}, R.inside d ts c →
    R.Goes (R.text d ts k []) (ts ++ [textToken k []]) (jsonValueStringBegin env c k)
  chunks : ∀ {d ts k x c data}, R.text d ts k x c → data ≠ [] →
    R.Goes (R.text d ts k (x ++ data)) (ts ++ [textToken k (x ++ data)])
      (jsonValueStringChunk env c data)
  stringEnds : ∀ {d ts x c}, R.text d ts false x c →
    R.Goes (R.inside d (ts ++ [.string x])) (ts ++ [.string x]) (jsonValueStringEnd env c)
  stringEnd_live : ∀ {d ts k x c}, R.text d ts k x c → (jsonValueStringEnd env c).2 = .ok →
    (jsonValueStringEnd env c).1.json.active = true ∧
      (jsonValueStringEnd env c).1.json.parseVisitorActive = R.visits
  keyEnds : ∀ {d ts x c}, R.text d ts true x c →
    R.Goes (R.inside d (ts ++ [.key x])) (ts ++ [.key x])
      (andThenOk (jsonValueStringEnd env c) fun c => emitMark env c 0x3a)
  scalars : ∀ {d ts c text mode}, R.inside (d + 1) ts c → mode ≠ .none → mode ≠ .string →
    R.Goes (R.inside (d + 1) (ts ++ [scalarToken text mode])) (ts ++ [scalarToken text mode])
      (deliverStreamedScalar env c text mode)
  scalarValue : ∀ {c text mode}, R.waits c → mode ≠ .none → mode ≠ .string →
    R.Goes (R.ended [R.valueToken text mode]) [R.valueToken text mode]
      (assignJsonScalar env c ptr text mode)

end

end Lonejson
