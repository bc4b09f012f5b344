import Lonejson.Transcoding
import Lonejson.Validator

/-!
# Values that are set from a buffer

`lonejson_json_value_set_buffer` takes a text through the transcoder, which looks at the digits of a
`\u` escape only. What is written for the value later is read by the validating parser, which wants
its surrogates in pairs.
-/

namespace Lonejson

open Json (Text Holds Bracket Place Document Rules compact)

variable {σ τ : Type}

/-! ## Failures of the transcoder -/

/-- The status is not one to go on with. -/
def JsonIo.Failed (io : JsonIo τ) : Prop := io.status.soft = false

section

variable {sink : Sink τ}

theorem emit_failed (io : JsonIo τ) (data : Bytes) :
    Holds (fun _ => True) JsonIo.Failed (io.emit sink data) := by
  unfold JsonIo.emit
  dsimp only
  split
  · trivial
  · next hsoft => exact Bool.eq_false_of_not_eq_true hsoft

theorem emitAll_failed (pieces : List Bytes) (io : JsonIo τ) :
    Holds (fun _ => True) JsonIo.Failed (io.emitAll sink pieces) := by
  induction pieces generalizing io with
  | nil => trivial
  | cons piece pieces ih => exact (emit_failed io piece).bind fun io' _ => ih io'

theorem emitIndent_failed (depth : ℕ) (io : JsonIo τ) :
    Holds (fun _ => True) JsonIo.Failed (io.emitIndent sink depth) := by
  unfold JsonIo.emitIndent
  split
  · rfl
  · exact emitAll_failed _ io

theorem copyDigits_failed (n : ℕ) (i : Text) (io : JsonIo τ) :
    Holds (fun x => x.1.length ≤ i.length) JsonIo.Failed (copyDigits sink n i io) := by
  induction n generalizing i io with
  | zero => exact le_rfl
  | succ n ih =>
      cases i with
      | nil => rfl
      | cons digit i =>
          rw [copyDigits]
          split
          · rfl
          · apply (emit_failed io [digit]).bind
            intro io' _
            exact (ih i io').imp fun x hx => hx.trans (Nat.le_succ _)

theorem copyEscape_failed (i : Text) (io : JsonIo τ) :
    Holds (fun x => x.1.length ≤ i.length) JsonIo.Failed (copyEscape sink i io) := by
  cases i with
  | nil => rfl
  | cons esc i =>
      rw [copyEscape]
      split
      · exact (emit_failed io [esc]).map fun _ _ => Nat.le_succ _
      · split
        · apply (emit_failed io [esc]).bind
          intro io' _
          exact (copyDigits_failed 4 i io').imp fun x hx => hx.trans (Nat.le_succ _)
        · rfl

theorem copyString_failed (ahead : Ahead) (n : ℕ) (i : Text) (io : JsonIo τ) (hn : i.length < n) :
    Holds (fun x => x.1.length ≤ i.length) JsonIo.Failed (copyString sink ahead n i io) := by
  induction n generalizing i io with
  | zero => exact absurd hn (Nat.not_lt_zero _)
  | succ n ih =>
      unfold copyString
      split
      · next hrun =>
        have hpos := List.length_pos_of_ne_nil hrun
        have hshort : (i.drop (plainSpan ahead i).length).length < i.length := by
          have hlength := congrArg List.length (plainSpan_append ahead i)
          rw [List.length_append] at hlength
          omega
        apply (emit_failed io (plainSpan ahead i)).bind
        intro io' _
        exact (ih _ io' (by omega)).imp fun x hx => hx.trans hshort.le
      · cases i with
        | nil => rfl
        | cons ch i =>
            have hi : i.length < n := Nat.lt_of_succ_lt_succ hn
            dsimp only
            split
            · rfl
            · apply (emit_failed io [ch]).bind
              intro io' _
              split
              · exact Nat.le_succ _
              · split
                · apply (copyEscape_failed i io').bind
                  intro x hx
                  exact (ih x.1 x.2 (hx.trans_lt hi)).imp fun y hy =>
                    (hy.trans hx).trans (Nat.le_succ _)
                · exact (ih i io' hi).imp fun x hx => hx.trans (Nat.le_succ _)

theorem copyLiteral_failed (rest i : Text) (io : JsonIo τ) :
    Holds (fun x => x.1.length ≤ i.length) JsonIo.Failed (copyLiteral sink rest i io) := by
  induction rest generalizing i io with
  | nil => exact le_rfl
  | cons c rest ih =>
      cases i with
      | nil => rfl
      | cons ch i =>
          rw [copyLiteral]
          split
          · apply (emit_failed io [ch]).bind
            intro io' _
            exact (ih i io').imp fun x hx => hx.trans (Nat.le_succ _)
          · rfl

/-- The transcoder fails only with a status that is one. -/
theorem transcoder_failed (ahead : Ahead) (pretty : Bool) (baseDepth : ℕ) :
    (transcoder sink ahead pretty baseDepth).Keeps (fun _ _ _ _ => True) JsonIo.Failed where
  blank _ _ _ _ _ _ _ := trivial
  string _ i io _ := by
    apply (emit_failed io [0x22]).bind
    intro io' _
    exact (copyString_failed ahead _ i io' (Nat.lt_succ_self _)).imp fun x hx => ⟨hx, trivial⟩
  key _ i io _ := by
    apply (emit_failed io [0x22]).bind
    intro io' _
    exact (copyString_failed ahead _ i io' (Nat.lt_succ_self _)).imp fun x hx => ⟨hx, trivial⟩
  literal _ b rest i io _ _ := by
    apply (emit_failed io [b]).bind
    intro io' _
    exact (copyLiteral_failed rest i io').imp fun x hx => ⟨hx, trivial⟩
  number _ b i io _ _ := by
    change Holds _ _ (jsonParseNumber sink b i io)
    unfold jsonParseNumber
    dsimp only
    split
    · exact (emit_failed io _).map fun _ _ =>
        ⟨(List.dropWhile_suffix isNumberByte).length_le, trivial⟩
    · rfl
  opening c _ _ io _ := (emit_failed io [c.opening]).imp fun _ _ => trivial
  closing c first stack _ io _ := by
    have hindent : Holds (fun _ => True) JsonIo.Failed
        (if pretty && !first then io.emitIndent sink (sizeAdd baseDepth stack.length) else .ok io) := by
      split
      · exact emitIndent_failed _ io
      · trivial
    apply hindent.bind
    intro io' _
    exact (emit_failed io' [c.closing]).imp fun _ _ => trivial
  first c stack _ _ io _ _ _ := by
    change Holds _ _ ((Except.ok io).bind _)
    cases pretty with
    | true => exact (emitIndent_failed _ io).imp fun _ _ => trivial
    | false => trivial
  next c stack _ io _ := by
    apply (emit_failed io [0x2c]).bind
    intro io' _
    cases pretty with
    | true => exact (emitIndent_failed _ io').imp fun _ _ => trivial
    | false => trivial
  colon _ _ io _ := (emit_failed io _).imp fun _ _ => trivial
  noValue _ _ _ _ _ := rfl
  ended _ _ _ _ _ := rfl
  noComma _ _ _ _ _ _ _ _ _ := rfl
  noKey _ _ _ _ _ := rfl
  noColon _ _ _ _ _ := rfl

/-- A transcoding ends well when its text is one of the transcoder's grammar. -/
theorem transcode_soft_iff {text : τ → Bytes} (hsink : sink.Appends text) (hreliable : sink.Reliable)
    (ahead : Ahead) (v : Text) (io : JsonIo τ) :
    (jsonTranscodeCursor sink ahead false 0 v io).status.soft = true ↔
      Document (copyRules .none) v := by
  constructor
  · intro hsoft
    have hreads := (transcoder_reads hsink ahead).text v io
    have hfailed := (@transcoder_failed _ sink ahead false 0).text (i := v) (a := io) trivial
    rw [jsonTranscodeCursor, jsonParseValue] at hsoft
    cases hx : (transcoder sink ahead false 0).value (2 * v.length + 1) 0 v io with
    | error io' =>
        rw [hx] at hsoft hfailed
        exact absurd hsoft (Bool.eq_false_iff.mp hfailed)
    | ok x =>
        obtain ⟨r, io'⟩ := x
        rw [hx] at hsoft hreads
        dsimp only at hsoft
        split at hsoft
        · next hblank =>
          obtain ⟨w, -, hreading⟩ := hreads
          rw [← copyMachine_accepts, Json.accepts_iff_reading _ (Json.Output.silent CopyState Unit)]
          refine ⟨w ++ [], ?_⟩
          rw [hreading, Json.reading_end, decide_eq_true ((dropSpace_eq_nil r).mp hblank),
            Json.checked_true]
          rfl
        · cases hsoft
  · intro hv
    obtain ⟨t, ht⟩ := rawLexis_covers.document hv
    exact (compact_wrote hsink hreliable ahead 0 ht io).1

end

/-! ## The buffer of a value -/

theorem jsonBufferSink_appends : jsonBufferSink.Appends JsonValue.text := by
  intro v data error _
  unfold jsonBufferSink
  split
  · next hdata => rw [hdata, List.append_nil]
  · rfl

theorem jsonBufferSink_reliable : jsonBufferSink.Reliable := by
  intro v data error
  unfold jsonBufferSink
  split <;> rfl

theorem setBuffer_ok_iff (v : JsonValue) (data : Bytes) (error : ErrorInfo) :
    (jsonValueSetBuffer v data error).2.2 = .ok ↔ Document (copyRules .none) data := by
  rw [← transcode_soft_iff jsonBufferSink_appends jsonBufferSink_reliable id data
    { out := jsonValueInit, error }, jsonValueSetBuffer]
  dsimp only
  split
  · next hsoft => exact iff_of_true rfl hsoft
  · next hsoft =>
    refine iff_of_false (fun hok => hsoft ?_) hsoft
    exact congrArg Status.soft hok

/-- The value holds the text without its blanks, and this is what is written for it. -/
theorem setBuffer_written (v : JsonValue) {data : Bytes} (error : ErrorInfo) (source : Bytes)
    (h : Document (copyRules .none) data) :
    (jsonValueSetBuffer v data error).1.written source = compact data := by
  obtain ⟨t, ht⟩ := rawLexis_covers.document h
  obtain ⟨hsoft, htext⟩ := compact_wrote jsonBufferSink_appends jsonBufferSink_reliable id 0 ht
    { out := jsonValueInit, error }
  rw [jsonValueSetBuffer]
  dsimp only
  rw [if_pos hsoft]
  exact htext

/-! ## Surrogates in pairs -/

/-- Behind an escape of a high surrogate that of a low one comes before the next quote, and no other
escape of a low surrogate stands anywhere. The flags say that a backslash is in front of the text,
and that a high surrogate is. -/
def surrogatesPairFrom : Bool → Bool → Text → Bool
  | _, _, [] => true
  | true, pending, _ :: rest => surrogatesPairFrom false pending rest
  | false, pending, b :: rest =>
    if b = 0x22 then !pending && surrogatesPairFrom false false rest
    else
      match nextQuad (b :: rest) with
      | some cp =>
        isLowSurrogate cp == pending && (!pending || !isHighSurrogate cp) &&
          surrogatesPairFrom true (isHighSurrogate cp) rest
      | none => surrogatesPairFrom (b == 0x5c) pending rest

def surrogatesPair (s : Text) : Bool := surrogatesPairFrom false false s

theorem pairFrom_cons {b : Byte} (hback : b ≠ 0x5c) (hquote : b ≠ 0x22) (pending : Bool) (i : Text) :
    surrogatesPairFrom false pending (b :: i) = surrogatesPairFrom false pending i := by
  rw [surrogatesPairFrom, if_neg hquote, nextQuad_eq_none hback]
  dsimp only
  rw [beq_eq_false_iff_ne.mpr hback]

theorem pairFrom_append {t : Text} (ht : ∀ b ∈ t, b ≠ 0x5c ∧ b ≠ 0x22) (pending : Bool) (r : Text) :
    surrogatesPairFrom false pending (t ++ r) = surrogatesPairFrom false pending r := by
  induction t with
  | nil => rfl
  | cons b t ih =>
      obtain ⟨hback, hquote⟩ := ht b List.mem_cons_self
      rw [List.cons_append, pairFrom_cons hback hquote]
      exact ih fun c hc => ht c (List.mem_cons_of_mem b hc)

theorem pairFrom_escape {e ch : Byte} (he : simpleEscape e = some ch) (pending : Bool) (i : Text) :
    surrogatesPairFrom false pending (0x5c :: e :: i) = surrogatesPairFrom false pending i := by
  rw [surrogatesPairFrom, if_neg (by decide), nextQuad_escape he]
  rfl

theorem pairFrom_unit {a b c d : Byte} {cp : ℕ} (hcp : decodeUnicodeQuad a b c d = some cp)
    (pending : Bool) (i : Text) :
    surrogatesPairFrom false pending (0x5c :: 0x75 :: a :: b :: c :: d :: i) =
      (isLowSurrogate cp == pending && (!pending || !isHighSurrogate cp) &&
        surrogatesPairFrom false (isHighSurrogate cp) i) := by
  obtain ⟨va, vb, vc, vd, ha, hb, hc, hd, -⟩ := decodeUnicodeQuad_eq_some.mp hcp
  have hdigits : ∀ x ∈ [a, b, c, d], x ≠ 0x5c ∧ x ≠ 0x22 := by
    intro x hx
    simp only [List.mem_cons, List.not_mem_nil, or_false] at hx
    obtain rfl | rfl | rfl | rfl := hx
    · exact ⟨(hexValue_solid ha).2, (hexValue_solid ha).1⟩
    · exact ⟨(hexValue_solid hb).2, (hexValue_solid hb).1⟩
    · exact ⟨(hexValue_solid hc).2, (hexValue_solid hc).1⟩
    · exact ⟨(hexValue_solid hd).2, (hexValue_solid hd).1⟩
  have hquad : nextQuad (0x5c :: 0x75 :: a :: b :: c :: d :: i) = some cp := hcp
  have hmark : surrogatesPairFrom true (isHighSurrogate cp) (0x75 :: a :: b :: c :: d :: i) =
      surrogatesPairFrom false (isHighSurrogate cp) i :=
    pairFrom_append hdigits (isHighSurrogate cp) i
  rw [surrogatesPairFrom, if_neg (by decide), hquad]
  dsimp only
  rw [hmark]

theorem surrogatesPair_quote (i : Text) : surrogatesPair (0x22 :: i) = surrogatesPair i := rfl

theorem surrogatesPair_blank {b : Byte} (hb : Json.isSpace b = true) (i : Text) :
    surrogatesPair (b :: i) = surrogatesPair i := by
  apply pairFrom_cons
  · rintro rfl
    simp [Json.isSpace] at hb
  · rintro rfl
    simp [Json.isSpace] at hb

theorem surrogatesPair_mark {b : Byte} (hb : b ∈ Json.marks) (i : Text) :
    surrogatesPair (b :: i) = surrogatesPair i := by
  apply pairFrom_cons
  · rintro rfl
    simp at hb
  · rintro rfl
    simp at hb

theorem surrogatesPair_number {num : Text} (hnum : JsonNumber num) (r : Text) :
    surrogatesPair (num ++ r) = surrogatesPair r := by
  refine pairFrom_append (fun b hb => ⟨?_, (isNumberByte_solid (hnum.bytes b hb)).2⟩) false r
  rintro rfl
  exact absurd (hnum.bytes _ hb) (by decide)

theorem surrogatesPair_literal {lit : Text}
    (hlit : lit ∈ [Json.trueText, Json.falseText, Json.nullText]) (r : Text) :
    surrogatesPair (lit ++ r) = surrogatesPair r := by
  refine pairFrom_append ?_ false r
  simp only [List.mem_cons, List.not_mem_nil, or_false] at hlit
  obtain rfl | rfl | rfl := hlit <;> simp [Json.trueText, Json.falseText, Json.nullText]

/-- A string that the transcoder copies is one of the validating parser when its surrogates pair. -/
theorem CopyTail.stringTail {i r : Text} (h : CopyTail i r) {pending : Bool}
    (hi : surrogatesPairFrom false pending i = true) :
    StringTail true pending i r ∧ surrogatesPair r = true := by
  induction h generalizing pending with
  | close =>
      rw [surrogatesPairFrom, if_pos rfl, Bool.and_eq_true, Bool.not_eq_true'] at hi
      obtain ⟨rfl, hr⟩ := hi
      exact ⟨.close, hr⟩
  | @plain b i r hb _ ih =>
      obtain ⟨hquote, hback, -⟩ := isPlain_iff.mp hb
      rw [pairFrom_cons hback hquote] at hi
      obtain ⟨htail, hr⟩ := ih hi
      exact ⟨.plain hb (fun _ => rfl) htail, hr⟩
  | escape he _ ih =>
      rw [pairFrom_escape he] at hi
      obtain ⟨htail, hr⟩ := ih hi
      exact ⟨.escape he (fun _ => rfl) htail, hr⟩
  | @unit a b c d cp i r hcp _ ih =>
      rw [pairFrom_unit hcp, Bool.and_eq_true, Bool.and_eq_true, beq_iff_eq] at hi
      obtain ⟨⟨hlow, hhigh⟩, hrest⟩ := hi
      obtain ⟨htail, hr⟩ := ih hrest
      cases pending with
      | true =>
          rw [low_not_high hlow] at htail
          exact ⟨.low hcp hlow htail, hr⟩
      | false =>
          cases hcase : isHighSurrogate cp with
          | true =>
              rw [hcase] at htail
              exact ⟨.high hcp hcase htail, hr⟩
          | false =>
              rw [hcase] at htail
              exact ⟨.unit hcp hcase hlow htail, hr⟩

theorem StringTail.copied {pending : Bool} {i r : Text} (h : StringTail true pending i r) :
    CopyTail i r := by
  induction h with
  | close => exact .close
  | plain hb _ _ ih => exact .plain hb ih
  | escape he _ _ ih => exact .escape he ih
  | unit hcp _ _ _ ih => exact .unit hcp ih
  | high hcp _ _ ih => exact .unit hcp ih
  | low hcp _ _ ih => exact .unit hcp ih

theorem StringTail.pairs {pending : Bool} {i r : Text} (h : StringTail true pending i r)
    (hr : surrogatesPair r = true) : surrogatesPairFrom false pending i = true := by
  induction h with
  | close => exact hr
  | plain hb _ _ ih =>
      obtain ⟨hquote, hback, -⟩ := isPlain_iff.mp hb
      rw [pairFrom_cons hback hquote]
      exact ih hr
  | escape he _ _ ih =>
      rw [pairFrom_escape he]
      exact ih hr
  | unit hcp hhigh hlow _ ih =>
      rw [pairFrom_unit hcp, hhigh, hlow]
      exact ih hr
  | @high a b c d cp i r hcp hhigh _ ih =>
      have hlow : isLowSurrogate cp = false := by
        by_contra hlow
        rw [low_not_high (Bool.eq_true_of_not_eq_false hlow)] at hhigh
        cases hhigh
      rw [pairFrom_unit hcp, hhigh, hlow]
      exact ih hr
  | low hcp hlow _ ih =>
      rw [pairFrom_unit hcp, hlow, low_not_high hlow]
      exact ih hr

/-! ## Texts of both grammars -/

theorem copyRules_carries (limits : Limits) :
    (copyRules limits).Carries (textRules true limits) 0 (surrogatesPair · = true) where
  blank b i hb hi := by rwa [surrogatesPair_blank hb] at hi
  mark b i hb hi := by rwa [surrogatesPair_mark hb] at hi
  string d i r _ henter htail hi := ⟨henter, CopyTail.stringTail htail hi⟩
  key d i r _ henter htail hi := ⟨henter, CopyTail.stringTail htail hi⟩
  number d num r _ hnum hfits hi := ⟨hnum, hfits, by rwa [surrogatesPair_number hnum] at hi⟩
  literal d lit r _ hlit hfits hi := ⟨hfits, by rwa [surrogatesPair_literal hlit] at hi⟩
  enter _ _ _ _ henter := henter

theorem surrogatesPair_restored (limits : Limits) :
    (textRules true limits).Restores (surrogatesPair · = true) where
  blank b i hb hi := by rwa [surrogatesPair_blank hb]
  mark b i hb hi := by rwa [surrogatesPair_mark hb]
  string d i r htail hr := by
    rw [surrogatesPair_quote]
    exact StringTail.pairs htail hr
  key d i r htail hr := by
    rw [surrogatesPair_quote]
    exact StringTail.pairs htail hr
  number num r hnum hr := by rwa [surrogatesPair_number hnum]
  literal lit r hlit hr := by rwa [surrogatesPair_literal hlit]

theorem textRules_copied (limits : Limits) :
    (textRules true limits).Carries (copyRules limits) 0 fun _ => True where
  blank _ _ _ h := h
  mark _ _ _ h := h
  string _ _ _ _ henter htail _ := ⟨henter, StringTail.copied htail, trivial⟩
  key _ _ _ _ henter htail _ := ⟨henter, StringTail.copied htail, trivial⟩
  number _ _ _ _ hnum hfits _ := ⟨hnum, hfits, trivial⟩
  literal _ _ _ _ _ hfits _ := ⟨hfits, trivial⟩
  enter _ _ _ _ henter := henter

/-- The validating parser reads the texts that the transcoder copies and whose surrogates pair. -/
theorem textRules_iff_pair (limits : Limits) (s : Text) : Document (textRules true limits) s ↔
    Document (copyRules limits) s ∧ surrogatesPair s = true := by
  constructor
  · intro h
    exact ⟨(textRules_copied limits).document h trivial,
      (surrogatesPair_restored limits).document h rfl⟩
  · rintro ⟨h, hpair⟩
    exact (copyRules_carries limits).document h hpair

/-! ## The text that is written -/

/-- Both lexers stand at the same place of a string. -/
def SamePlace : CopyState → StringState → Prop
  | .body, .body _ => True
  | .escape, .escape _ => True
  | .hex needed, .hex _ needed' _ => needed = needed'
  | _, _ => False

theorem afterUnit_body (pending : Bool) (cp : ℕ) :
    afterUnit pending cp = none ∨ ∃ q, afterUnit pending cp = some (.body q) := by
  unfold afterUnit
  split_ifs
  · exact .inr ⟨_, rfl⟩
  · exact .inl rfl
  · exact .inr ⟨_, rfl⟩
  · exact .inl rfl
  · exact .inr ⟨_, rfl⟩

theorem stringLexer_narrower (gap : Bool) : (stringLexer gap).Narrower copyLexer SamePlace := by
  refine ⟨trivial, fun t s b hsame => ?_⟩
  cases s with
  | body pending =>
      cases t with
      | body =>
          simp only [stringLexer, copyLexer]
          split_ifs
          · exact .inl rfl
          · exact .inr (.some .none)
          · exact .inr (.some (.some trivial))
          · exact .inl rfl
          · exact .inl rfl
          · exact .inr (.some (.some trivial))
      | escape | hex => exact hsame.elim
  | escape pending =>
      cases t with
      | escape =>
          simp only [stringLexer, copyLexer]
          cases simpleEscape b with
          | some ch =>
              dsimp only
              split
              · exact .inl rfl
              · exact .inr (.some (.some trivial))
          | none =>
              dsimp only
              split
              · exact .inr (.some (.some rfl))
              · exact .inl rfl
      | body | hex => exact hsame.elim
  | hex pending needed accum =>
      cases t with
      | hex needed' =>
          obtain rfl : needed' = needed := hsame
          simp only [stringLexer, copyLexer]
          cases hexValue b with
          | none => exact .inl rfl
          | some hv =>
              dsimp only
              split
              · exact .inr (.some (.some rfl))
              · rcases afterUnit_body pending (pushHex accum hv) with hnone | ⟨q, hbody⟩
                · rw [hnone]
                  exact .inl rfl
                · rw [hbody]
                  exact .inr (.some (.some trivial))
      | body | escape => exact hsame.elim

/-- Whatever the limits, the text that is written is accepted when the text that was set is. -/
theorem compact_accepted (gap : Bool) (limits : Limits) {data : Bytes}
    (h : Document (copyRules .none) data) :
    Document (textRules gap limits) (compact data) ↔ Document (textRules gap limits) data := by
  obtain ⟨t, ht⟩ := rawLexis_covers.document h
  obtain ⟨hsoft, htext⟩ := compact_wrote jsonBufferSink_appends jsonBufferSink_reliable id 0 ht
    { out := jsonValueInit, error := {} }
  have hfailed := (@transcoder_failed _ jsonBufferSink id false 0).text (i := data)
    (a := { out := jsonValueInit, error := {} }) trivial
  rw [jsonTranscodeCursor, jsonParseValue] at hsoft htext
  cases hx : (transcoder jsonBufferSink id false 0).value (2 * data.length + 1) 0 data
      { out := jsonValueInit, error := {} } with
  | error io =>
      rw [hx] at hsoft hfailed
      exact absurd hsoft (Bool.eq_false_iff.mp hfailed)
  | ok x =>
      obtain ⟨r, io⟩ := x
      obtain ⟨w, hdata, hcopy⟩ := (transcoder_copies jsonBufferSink_appends id false 0).reading
        (O := Json.Output.silent StringState Unit) (textMachine_lawful gap limits) rfl
        (fun _ _ => stringLexer_narrower gap) rfl hx
      rw [hx] at hsoft htext
      dsimp only at hsoft htext hdata hcopy
      split at hsoft
      · next hblank =>
        rw [if_pos hblank] at htext
        have hcompact : io.out.text = compact data := htext
        rw [Json.reading_end, decide_eq_true ((dropSpace_eq_nil r).mp hblank),
          Json.checked_true] at hdata
        have hsame : Json.andThen w (some ([] : List Unit)) = w := by
          cases w <;> simp [Json.andThen]
        rw [← textMachine_accepts, ← textMachine_accepts, Json.accepts_iff_reading _
          (Json.Output.silent StringState Unit), Json.accepts_iff_reading _
          (Json.Output.silent StringState Unit), hdata, hsame, ← hcompact, hcopy]
      · cases hsoft

/-! ## Within the depth -/

/-- The nesting is at most `max_depth`. -/
def Limits.nesting (env : Env σ) : Limits where
  opens d := env.options.maxDepth == 0 || decide (d < env.options.maxDepth)
  number _ _ := true
  literal _ _ := true
  number_mono _ _ _ _ _ := rfl
  literal_mono _ _ _ _ _ := rfl

theorem tokenRoom_mono (env : Env σ) (d n m : ℕ) (hnm : n ≤ m)
    (h : decide (m + 2 ≤ tokenRoom env d) = true) : decide (n + 2 ≤ tokenRoom env d) = true :=
  decide_mono hnm h

/-- The workspace holds the frames of the containers, and the numbers and literals behind them. -/
def Limits.room (env : Env σ) : Limits where
  opens d := decide (frameBytes env (d + 1) ≤ env.workspaceSize)
  number d n := decide (n + 2 ≤ tokenRoom env d)
  literal d n := decide (n + 2 ≤ tokenRoom env d)
  number_mono := tokenRoom_mono env
  literal_mono := tokenRoom_mono env

/-- Wider limits admit more of the texts that the transcoder copies. -/
theorem copyRules_widens {limits limits' : Limits}
    (hopens : ∀ d, limits.opens d = true → limits'.opens d = true)
    (hnumber : ∀ d n, limits.number d n = true → limits'.number d n = true)
    (hliteral : ∀ d n, limits.literal d n = true → limits'.literal d n = true) :
    (copyRules limits).Carries (copyRules limits') 0 fun _ => True where
  blank _ _ _ h := h
  mark _ _ _ h := h
  string d i r _ _ htail _ := ⟨rfl, htail, trivial⟩
  key d i r _ _ htail _ := ⟨rfl, htail, trivial⟩
  number d num r _ hnum hfits _ := ⟨hnum, hnumber _ _ hfits, trivial⟩
  literal d lit r _ _ hfits _ := ⟨hliteral _ _ hfits, trivial⟩
  enter d b _ _ henter := by
    simp only [copyRules, Bool.or_eq_true] at henter ⊢
    exact henter.imp_right (hopens d)

theorem copyRules_validator_iff (env : Env σ) (s : Text) :
    Document (copyRules (Limits.validator env)) s ↔
      Document (copyRules (Limits.nesting env)) s ∧ Document (copyRules (Limits.room env)) s := by
  constructor
  · intro h
    have hnesting : (copyRules (Limits.validator env)).Carries (copyRules (Limits.nesting env)) 0
        fun _ => True :=
      copyRules_widens (fun _ hopens => (Bool.and_eq_true_iff.mp hopens).1) (fun _ _ _ => rfl)
        fun _ _ _ => rfl
    have hroom : (copyRules (Limits.validator env)).Carries (copyRules (Limits.room env)) 0
        fun _ => True :=
      copyRules_widens (fun _ hopens => (Bool.and_eq_true_iff.mp hopens).2) (fun _ _ => id)
        fun _ _ => id
    exact ⟨hnesting.document h trivial, hroom.document h trivial⟩
  · rw [← copyMachine_accepts, ← copyMachine_accepts, ← copyMachine_accepts]
    rintro ⟨hnesting, hroom⟩
    refine Json.Machine.Meets.accepts ?_ hnesting hroom
    refine ⟨fun _ _ => ⟨rfl, rfl⟩, fun _ _ _ _ _ _ h h' => ⟨Option.some.inj (h.symm.trans h'), h⟩,
      ⟨rfl, rfl⟩, ⟨rfl, rfl⟩, ⟨rfl, rfl⟩, fun _ _ _ h => h, fun _ _ _ h => h, ?_⟩
    intro d b h h'
    simp only [copyMachine, Bool.or_eq_true] at h h' ⊢
    rcases h with hquote | hopens
    · exact .inl hquote
    · exact h'.imp_right fun hfits => Bool.and_eq_true_iff.mpr ⟨hopens, hfits⟩

/-- What is written for a value that was set from a buffer, nested within `max_depth`, is accepted
exactly when the surrogates of the buffer are in pairs and its parts fit the workspace. -/
theorem setBuffer_accepted_iff (env : Env σ) (world : σ) (v : JsonValue) (data : Bytes)
    (error : ErrorInfo) (source : Bytes) (hset : (jsonValueSetBuffer v data error).2.2 = .ok)
    (hdepth : Document (copyRules (Limits.nesting env)) data) :
    validateBuffer env world ((jsonValueSetBuffer v data error).1.written source) = .ok ↔
      surrogatesPair data = true ∧ Document (copyRules (Limits.room env)) data := by
  have hdata := (setBuffer_ok_iff v data error).mp hset
  rw [setBuffer_written v error source hdata, validateBuffer_eq_ok, compact_accepted true _ hdata,
    textRules_iff_pair, copyRules_validator_iff, and_comm]
  exact and_congr_right fun _ => and_iff_right hdepth

theorem setBuffer_accepted_one :
    validateBuffer .bare () ((jsonValueSetBuffer {} [0x5b, 0x31, 0x5d] {}).1.written []) = .ok ↔
      surrogatesPair [0x5b, 0x31, 0x5d] = true ∧
        Document (copyRules (Limits.room .bare)) [0x5b, 0x31, 0x5d] :=
  setBuffer_accepted_iff .bare () {} [0x5b, 0x31, 0x5d] {} [] (by decide) (by decide)

/-- The text `"\uD800"`. -/
def loneText : Text := [0x22, 0x5c, 0x75, 0x44, 0x38, 0x30, 0x30, 0x22]

/-- A value takes a text with the first half of a surrogate pair, which is not accepted back. -/
theorem setBuffer_lone : (jsonValueSetBuffer {} loneText {}).2.2 = .ok ∧
    Document (copyRules (Limits.nesting .bare)) loneText ∧
      validateBuffer .bare () ((jsonValueSetBuffer {} loneText {}).1.written []) ≠ .ok :=
  ⟨by decide, by decide, by decide⟩

end Lonejson
