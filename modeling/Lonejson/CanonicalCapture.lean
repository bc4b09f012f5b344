import Lonejson.CapturedText
import Lonejson.CompactText

/-!
# Captured values are compact

What a member captures is the compact text of the value, which spells the same tree and is
captured as it is. The exception is a scalar over which the marks of the object are written
before it is stored.
-/

namespace Lonejson

open Json (Text Tree Spells SpellsItems SpellsMembers)

variable {σ : Type}

/-! ## The tokens of a value -/

/-- A text that spells a tree has the tokens of the tree. -/
theorem valueText_tokens {t : Tree} {v : Text} (h : Spells strictLexis t v []) :
    ValueText v t.tokens := by
  intro b hb
  have hends : Json.EndsAhead valueMachine [b] := by
    refine ⟨b, [], rfl, ?_⟩
    by_contra hnumber
    have hspace := valueMachine_lawful.not_space b (by simpa using hnumber)
    rw [isSpace_eq, hb] at hspace
    cases hspace
  have htells := (h.append strictLexis_extends [b]).tells valueMachine_lawful
    valueMachine_boundless strictLexis_told hends []
  have hend := htells []
  rw [List.append_nil, List.append_nil, Json.valueEnd_ended] at hend
  simpa [Json.behind] using hend

/-- The text of a scalar that a mark of its member may be written over. -/
def markedScalar : Tree → Option Text
  | .number lexeme => some lexeme
  | .bool value => some (Json.boolText value)
  | _ => none

theorem boolText_bytes (value : Bool) : ∀ b ∈ Json.boolText value, 1 < b := by
  cases value <;> simp [Json.boolText, Json.trueText, Json.falseText]

theorem number_bytes {text : Text} (h : JsonNumber text) : ∀ b ∈ text, 1 < b := by
  intro b hb
  have hbyte := h.bytes b hb
  by_contra hsmall
  have hcases : b = 0 ∨ b = 1 := by
    rw [UInt8.not_lt, UInt8.le_iff_toNat_le] at hsmall
    have hle : b.toNat ≤ 1 := hsmall
    rcases Nat.le_one_iff_eq_zero_or_eq_one.mp hle with h | h
    · exact .inl (UInt8.toNat_inj.mp h)
    · exact .inr (UInt8.toNat_inj.mp h)
  rcases hcases with rfl | rfl <;> cases hbyte

theorem exit_bracketed {env : Env σ} {ptr : SlotPtr} (R : Recorder env ptr) (marked : Bytes → Bytes)
    (t t' : Json.Token) (ts : List Json.Token) :
    R.exit marked (t :: (ts ++ [t'])) = t :: (ts ++ [t']) := by
  cases ts <;> rfl

/-- The token of a scalar that can be marked, or tokens that are recorded as they are. -/
theorem spells_scalar {t : Tree} {v r : Text} (h : Spells strictLexis t v r) :
    (∃ text, markedScalar t = some text ∧ t.text escapeText = text ∧ text ≠ nullText ∧
        (t.tokens = [.number text] ∨ t.tokens = [.literal text]) ∧ ∀ b ∈ text, 1 < b) ∨
      (markedScalar t = none ∧ ∀ {env : Env σ} {ptr : SlotPtr} (O : TextOutput σ)
        (marked : Bytes → Bytes), (textRecorder O env ptr).exit marked t.tokens = t.tokens) := by
  cases h with
  | string _ => exact .inr ⟨rfl, fun _ _ => rfl⟩
  | number hnumber =>
      have hbytes := number_bytes hnumber
      refine .inl ⟨_, rfl, rfl, ?_, .inl rfl, hbytes⟩
      rintro rfl
      have hletter := JsonNumber.bytes hnumber 0x6e (by decide)
      cases hletter
  | true => exact .inl ⟨_, rfl, rfl, by decide, .inr rfl, boolText_bytes true⟩
  | false => exact .inl ⟨_, rfl, rfl, by decide, .inr rfl, boolText_bytes false⟩
  | null =>
      refine .inr ⟨rfl, fun O marked => ?_⟩
      simp [Tree.tokens, Recorder.exit, Recorder.exitToken, nullText, Json.nullText]
  | emptyObject _ => exact .inr ⟨rfl, fun _ _ => rfl⟩
  | object _ => exact .inr ⟨rfl, fun _ marked => exit_bracketed _ marked _ _ _⟩
  | emptyArray _ => exact .inr ⟨rfl, fun _ _ => rfl⟩
  | array _ => exact .inr ⟨rfl, fun _ marked => exit_bracketed _ marked _ _ _⟩

/-! ## What is captured -/

/-- However the text `v` is cut, the parser takes it with a blank behind it, and the member
holds the text `c`. -/
def CapturesText (env : Env σ) (ptr : SlotPtr) (start : Parser σ) (v c : Bytes) : Prop :=
  ∀ b, isJsonSpace b = true → ∀ chunks : List Bytes, chunks.flatten = v ++ [b] →
    ∃ q text, feedAll env false start chunks = some (q, text) ∧ q.core.captured ptr = c

/-- What is captured of a text that spells `t` is compact, spells `t`, and is captured as it is. -/
def CapturesCanonically (env : Env σ) (ptr : SlotPtr) (start : Parser σ) (t : Tree) (v : Bytes) :
    Prop :=
  ∃ c, CapturesText env ptr start v c ∧ c = t.text escapeText ∧ Spells strictLexis t c [] ∧
    CapturesText env ptr start c c

section

variable {env : Env σ} {ptr : SlotPtr} {ref : FieldRef} {start : Parser σ} {value : JsonValue}
  {t : Tree} {v c c' : Bytes}

theorem CapturesText.unique (h : CapturesText env ptr start v c) (h' : CapturesText env ptr start v c') :
    c = c' := by
  have hflat : [v ++ [0x20]].flatten = v ++ [0x20] := by simp
  obtain ⟨q, text, hfeed, rfl⟩ := h 0x20 rfl _ hflat
  obtain ⟨q', text', hfeed', rfl⟩ := h' 0x20 rfl _ hflat
  rw [hfeed] at hfeed'
  cases hfeed'
  rfl

/-- The tokens of the value are captured, but for what the mark of the member does. -/
theorem captures_tokens (hbudget : env.options.maxAllocBytes < sizeMax)
    (hstart : AwaitsText env ref ptr false value start) (hv : Spells strictLexis t v [])
    (hafford : Affords env (captureOutput env ptr start.core value) ref start t.tokens) :
    CapturesText env ptr start v (writtenText
      ((textRecorder (captureOutput env ptr start.core value) env ptr).exit
        (start.markedText env ref) t.tokens)) := by
  intro b hb chunks hchunks
  have hO := captureOutput_lawful hbudget hstart.core
  have hrun := feedAll_value hO (hstart.awaits rfl) hb
    (by rw [hchunks]; exact valueText_tokens hv b hb)
  rcases hrun with ⟨-, q, text, hfeed, hended⟩ | ⟨hno, -⟩
  · exact ⟨q, text, hfeed, captured_holds hended.holds⟩
  · exact absurd hafford hno

theorem AwaitsText.field_some {sink : Bool} (h : AwaitsText env ref ptr sink value start) :
    ∃ field, env.maps.field? ref = some field := by
  have hfield := h.field
  cases hsome : env.maps.field? ref with
  | none =>
      rw [hsome] at hfield
      cases hfield
  | some field => exact ⟨field, rfl⟩

/-- The mark of the member leaves the token of a scalar exactly when the marks are not carved
out of it. -/
theorem markedText_iff (hstart : AwaitsText env ref ptr false value start) {text : Text}
    {O : TextOutput σ} {token : Json.Token} (htoken : token = .number text ∨ token = .literal text)
    (hafford : Affords env O ref start [token]) (htext : ∀ b ∈ text, 1 < b) :
    start.markedText env ref text = text ↔ start.marksOver env ref text.length = false := by
  obtain ⟨hmarks, hfits, -⟩ := hafford
  have hroom : text.length + 2 ≤ roomAt env start.workspaceTop start.frames.length := by
    rw [ValueRoom.fitsAll, Bool.and_eq_true] at hfits
    rcases htoken with rfl | rfl <;> exact of_decide_eq_true hfits.1
  have hbelow : tokenBase env start + text.length < start.workspaceTop := by
    rw [roomAt] at hroom
    rw [tokenBase]
    split at hroom <;> omega
  obtain ⟨f, fs, hframes, -⟩ := hstart.frame
  obtain ⟨field, hfield⟩ := hstart.field_some
  have halike : start.MarksAlike
      { start with token := { data := some (tokenBase env start), bytes := text } } :=
    ⟨rfl, f, fs, f, fs, hframes, hframes, rfl, rfl, rfl, rfl⟩
  have hok := (@markFieldSeen_alike _ env _ _ halike ref).1
  have hmarked : (markFieldSeen env start ref).2 = .ok := by
    simpa [Parser.valueRoom] using hmarks
  rw [hmarked] at hok
  exact markFieldSeen_text rfl rfl hfield hok htext hbelow hstart.above

theorem writtenText_tree (t : Tree) : writtenText t.tokens = t.text escapeText :=
  Json.Tree.tokens_text t

/-- The compact text is captured exactly when no mark lies over the token of a scalar. -/
theorem written_exit_iff (hstart : AwaitsText env ref ptr false value start)
    (hv : Spells strictLexis t v []) {O : TextOutput σ}
    (hafford : Affords env O ref start t.tokens) :
    writtenText ((textRecorder O env ptr).exit (start.markedText env ref) t.tokens) =
        t.text escapeText ↔
      ∀ text, markedScalar t = some text → start.marksOver env ref text.length = false := by
  rcases spells_scalar (σ := σ) hv with ⟨text, hmarked, htext, hnull, htokens, hbytes⟩ | ⟨hmarked, hexit⟩
  · rw [hmarked, htext]
    have hwritten : writtenText ((textRecorder O env ptr).exit (start.markedText env ref) t.tokens) =
        start.markedText env ref text := by
      rcases htokens with htokens | htokens
      · rw [htokens]
        simp [Recorder.exit, Recorder.exitToken, writtenText, Json.Token.text]
      · rw [htokens]
        simp [Recorder.exit, Recorder.exitToken, writtenText, Json.Token.text, hnull, textRecorder]
    have hiff : start.markedText env ref text = text ↔
        start.marksOver env ref text.length = false := by
      rcases htokens with htokens | htokens
      · rw [htokens] at hafford
        exact markedText_iff hstart (.inl rfl) hafford hbytes
      · rw [htokens] at hafford
        exact markedText_iff hstart (.inr rfl) hafford hbytes
    rw [hwritten, hiff]
    constructor
    · rintro hfree _ ⟨⟩
      exact hfree
    · exact fun hfree => hfree text rfl
  · rw [hexit, hmarked, writtenText_tree]
    exact iff_of_true rfl fun _ h => by cases h

theorem capturesCanonically_iff (hbudget : env.options.maxAllocBytes < sizeMax)
    (hstart : AwaitsText env ref ptr false value start) (hv : Spells strictLexis t v [])
    (hafford : Affords env (captureOutput env ptr start.core value) ref start t.tokens) :
    CapturesCanonically env ptr start t v ↔
      ∀ text, markedScalar t = some text → start.marksOver env ref text.length = false := by
  have hcaptures := captures_tokens hbudget hstart hv hafford
  rw [← written_exit_iff hstart hv hafford]
  constructor
  · rintro ⟨c, hc, rfl, -, -⟩
    exact hcaptures.unique hc
  · intro hwritten
    have hcompact := hv.compact strictLexis_quotes []
    rw [List.append_nil] at hcompact
    have hagain := captures_tokens hbudget hstart hcompact hafford
    rw [hwritten] at hcaptures hagain
    exact ⟨_, hcaptures, rfl, hcompact, hagain⟩

end

/-- The value `"abc"`, which the member with five bytes takes. -/
theorem capturesCanonically_iff_abc :
    CapturesCanonically .capturing ⟨[], 0⟩ capturingParser (.string [0x61, 0x62, 0x63])
        [0x22, 0x61, 0x62, 0x63, 0x22] ↔
      ∀ text, markedScalar (.string [0x61, 0x62, 0x63]) = some text →
        capturingParser.marksOver .capturing ⟨0, 0⟩ text.length = false := by
  have hstring : StringText [0x61, 0x62, 0x63] [0x61, 0x62, 0x63, 0x22] [] :=
    .plain rfl (.plain rfl (.plain rfl .close))
  refine capturesCanonically_iff (by decide) capturingParser_awaits (.string hstring) ?_
  refine ⟨rfl, rfl, .inl rfl, .inr (by decide), ?_⟩
  intro t ht
  rw [List.mem_singleton.mp ht]
  exact .inl rfl

/-! ## A map of 65 fields -/

/-- A parse into a JSON value and 64 more members. -/
def Env.marking : Env Unit :=
  { Env.bare with
    maps := fun _ => { fields := capturedField ::
      (List.range 64).map fun i => { jsonKey := [0x6d, i.toUInt8], kind := .bool } }
    rootMap := some 0
    options := { clearDestination := false } }

def captureAll : JsonValue :=
  { initialized := true, parseMode := .capture, limits := ⟨0, 0, 0, 0, 0⟩ }

/-- The parser behind `{"k":`. -/
def markingParser : Parser Unit :=
  (parserFeed .marking (parserInit .marking
      ((.jsonValue captureAll, false) :: List.replicate 64 (.bool false, false)) ())
    [0x7b, 0x22, 0x6b, 0x22, 0x3a]).1

theorem markingParser_awaits :
    AwaitsText .marking ⟨0, 0⟩ ⟨[], 0⟩ false captureAll markingParser where
  lex := rfl
  frame := ⟨_, _, rfl, rfl, rfl, rfl, rfl⟩
  field := rfl
  core := ⟨rfl, rfl, rfl, rfl, rfl⟩
  started := rfl
  above := by decide

/-- The digit 1, 3950 times: a number. -/
def longNumber : Text := List.replicate 3950 0x31

/-- The marks are written over the end of the number before it is stored. -/
theorem capturesCanonically_fails :
    Spells strictLexis (.number longNumber) longNumber [] ∧
      Affords .marking (captureOutput .marking ⟨[], 0⟩ markingParser.core captureAll) ⟨0, 0⟩
        markingParser [.number longNumber] ∧
      ¬ CapturesCanonically .marking ⟨[], 0⟩ markingParser (.number longNumber) longNumber := by
  have hspells : Spells strictLexis (.number longNumber) longNumber [] := by
    have hdigits : ∀ b ∈ List.replicate 3949 (0x31 : Byte), isDigit b = true := by
      intro b hb
      rw [List.eq_of_mem_replicate hb]
      rfl
    have hnumber : JsonNumber longNumber :=
      ⟨[], longNumber, [], [], by simp, .inl rfl, .inr ⟨0x31, _, rfl, rfl, by decide, hdigits⟩,
        .inl rfl, .inl rfl⟩
    have hspelled := Spells.number (L := strictLexis) (r := []) hnumber
    rwa [List.append_nil] at hspelled
  have hafford : Affords .marking (captureOutput .marking ⟨[], 0⟩ markingParser.core captureAll)
      ⟨0, 0⟩ markingParser [.number longNumber] := by
    refine ⟨rfl, ?_, .inl rfl, .inl rfl, ?_⟩
    · rw [ValueRoom.fitsAll, ValueRoom.fits, longNumber, List.length_replicate]
      rfl
    · intro t ht
      rw [List.mem_singleton.mp ht]
      trivial
  refine ⟨hspells, hafford, ?_⟩
  rintro ⟨c, hc, rfl, -, -⟩
  have hcaptures := captures_tokens (by decide) markingParser_awaits hspells hafford
  have hsame := (written_exit_iff markingParser_awaits hspells hafford).mp (hcaptures.unique hc)
  have hfree := hsame longNumber rfl
  rw [longNumber, List.length_replicate] at hfree
  exact absurd hfree (by decide)

end Lonejson
