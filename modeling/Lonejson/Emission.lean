import Lonejson.Transcoder

/-!
# Runs into a sink

A run hands piece after piece to its sink, and ends when the sink gives up. What the pieces are
does not depend on the sink: they are those of the run that collects its text.
-/

namespace Lonejson

open Json (Text Bracket Descent Holds)

/-! ## Pieces -/

variable {τ : Type}

/-- A sink that does not look at the error record. -/
def Sink.Steady (sink : Sink τ) : Prop :=
  ∀ s data error, (sink s data error).1 = (sink s data {}).1 ∧
    (sink s data error).2.2 = (sink s data {}).2.2

/-- Pieces are handed to a sink, up to one at which it gives up. -/
def Sink.feed (sink : Sink τ) : τ → List Bytes → Except (τ × Status) τ
  | s, [] => .ok s
  | s, piece :: pieces =>
    let r := sink s piece {}
    if r.2.2.soft then Sink.feed sink r.1 pieces else .error (r.1, r.2.2)

theorem Sink.feed_append (sink : Sink τ) (s : τ) (pieces pieces' : List Bytes) :
    sink.feed s (pieces ++ pieces') = (sink.feed s pieces).bind fun s => sink.feed s pieces' := by
  induction pieces generalizing s with
  | nil => rfl
  | cons piece pieces ih =>
      rw [List.cons_append, Sink.feed, Sink.feed]
      split
      · exact ih _
      · rfl

/-- What a part of a run returns, in the run into the sink and in the one that collects. -/
class IoResult (τ : outParam Type) (β : Type) (β' : outParam Type) where
  io : β → JsonIo τ
  io' : β' → JsonIo Bytes
  same : β → β' → Prop
  partner : τ → ∀ b', ∃ b, same b b' ∧ (io b).status.soft = true

instance : IoResult τ (JsonIo τ) (JsonIo Bytes) where
  io := id
  io' := id
  same _ _ := True
  partner s _ := ⟨{ out := s }, trivial, rfl⟩

instance {α : Type} : IoResult τ (α × JsonIo τ) (α × JsonIo Bytes) where
  io := Prod.snd
  io' := Prod.snd
  same b b' := b.1 = b'.1
  partner s b' := ⟨(b'.1, { out := s }), rfl, rfl⟩

section

variable {β β' γ γ' : Type} [IoResult τ β β'] [IoResult τ γ γ']

variable (τ β) in
/-- The run that collects has gone through some pieces. -/
def Collects (text : Bytes) (pieces : List Bytes) (y : Except (JsonIo Bytes) β') : Prop :=
  Holds (fun b' => (IoResult.io' β b').out = text ++ pieces.flatten ∧
      (IoResult.io' β b').status.soft = true)
    (fun io' => io'.out = text ++ pieces.flatten ∧ io'.status.soft = false) y

/-- A run into a sink, beside the run that collects its text. -/
inductive Mirrors (sink : Sink τ) (s : τ) (text : Bytes) :
    Except (JsonIo τ) β → Except (JsonIo Bytes) β' → Prop where
  | ok {pieces : List Bytes} {b : β} {b' : β'} (hsame : IoResult.same b b')
      (hfed : sink.feed s pieces = .ok (IoResult.io b).out)
      (hsoft : (IoResult.io b).status.soft = true)
      (hcollects : Collects τ β text pieces (.ok b')) : Mirrors sink s text (.ok b) (.ok b')
  | fail {pieces : List Bytes} {io : JsonIo τ} {io' : JsonIo Bytes}
      (hfed : sink.feed s pieces = .ok io.out) (hstatus : io.status = io'.status)
      (hcollects : Collects τ β text pieces (.error io')) :
      Mirrors sink s text (.error io) (.error io')
  | stop {pieces : List Bytes} {io : JsonIo τ} {y : Except (JsonIo Bytes) β'}
      (hfed : sink.feed s pieces = .error (io.out, io.status))
      (hcollects : ∃ more, Collects τ β text (pieces ++ more) y) :
      Mirrors sink s text (.error io) y

variable {sink : Sink τ} {s : τ} {text : Bytes}

theorem Mirrors.collects {x : Except (JsonIo τ) β} {y : Except (JsonIo Bytes) β'}
    (h : Mirrors sink s text x y) : ∃ pieces, Collects τ β text pieces y := by
  cases h with
  | ok _ _ _ hcollects => exact ⟨_, hcollects⟩
  | fail _ _ hcollects => exact ⟨_, hcollects⟩
  | stop _ hcollects => exact ⟨_, hcollects.choose_spec⟩

theorem Collects.behind {pieces pieces' : List Bytes} {y : Except (JsonIo Bytes) γ'}
    (h : Collects τ γ (text ++ pieces.flatten) pieces' y) :
    Collects τ γ text (pieces ++ pieces') y := by
  rw [Collects, List.flatten_append, ← List.append_assoc]
  exact h

/-- The rule with the result of the run that collects at hand. -/
theorem Mirrors.bind_eq {x : Except (JsonIo τ) β} {y : Except (JsonIo Bytes) β'}
    {f : β → Except (JsonIo τ) γ} {f' : β' → Except (JsonIo Bytes) γ'}
    (h : Mirrors sink s text x y)
    (hf : ∀ b b', y = .ok b' → IoResult.same b b' → (IoResult.io b).status.soft = true →
      (IoResult.io' β b').status.soft = true →
      Mirrors sink (IoResult.io b).out (IoResult.io' β b').out (f b) (f' b')) :
    Mirrors sink s text (x.bind f) (y.bind f') := by
  cases h with
  | @ok pieces b b' hsame hfed hsoft hcollects =>
      obtain ⟨hout, hsoft'⟩ := hcollects
      have hnext := hf b b' rfl hsame hsoft hsoft'
      rw [hout] at hnext
      change Mirrors sink s text (f b) (f' b')
      generalize f b = x at hnext ⊢
      generalize f' b' = y at hnext ⊢
      have hfeed (more : List Bytes) :
          sink.feed s (pieces ++ more) = sink.feed (IoResult.io b).out more := by
        rw [Sink.feed_append, hfed]
        rfl
      cases hnext with
      | ok hsame hfed' hsoft hcollects =>
          exact .ok hsame ((hfeed _).trans hfed') hsoft hcollects.behind
      | fail hfed' hstatus hcollects =>
          exact .fail ((hfeed _).trans hfed') hstatus hcollects.behind
      | stop hfed' hcollects =>
          obtain ⟨more, hmore⟩ := hcollects
          refine .stop ((hfeed _).trans hfed') ⟨more, ?_⟩
          rw [List.append_assoc]
          exact hmore.behind
  | fail hfed hstatus hcollects => exact .fail hfed hstatus hcollects
  | @stop pieces io y hfed hcollects =>
      refine .stop hfed ?_
      obtain ⟨more, hmore⟩ := hcollects
      cases y with
      | error io' => exact ⟨more, hmore⟩
      | ok b' =>
          -- what comes behind is known from any state of the sink
          obtain ⟨b, hsame, hsoft⟩ := IoResult.partner (β := β) s b'
          obtain ⟨hout, hsoft'⟩ := hmore
          have hnext := hf b b' rfl hsame hsoft hsoft'
          rw [hout] at hnext
          obtain ⟨more', hmore'⟩ := hnext.collects
          refine ⟨more ++ more', ?_⟩
          rw [← List.append_assoc]
          exact hmore'.behind

theorem Mirrors.bind {x : Except (JsonIo τ) β} {y : Except (JsonIo Bytes) β'}
    {f : β → Except (JsonIo τ) γ} {f' : β' → Except (JsonIo Bytes) γ'}
    (h : Mirrors sink s text x y)
    (hf : ∀ b b', IoResult.same b b' → (IoResult.io b).status.soft = true →
      (IoResult.io' β b').status.soft = true →
      Mirrors sink (IoResult.io b).out (IoResult.io' β b').out (f b) (f' b')) :
    Mirrors sink s text (x.bind f) (y.bind f') :=
  h.bind_eq fun b b' _ => hf b b'

theorem Mirrors.pure {b : β} {b' : β'} (hsame : IoResult.same b b')
    (hsoft : (IoResult.io b).status.soft = true) (hsoft' : (IoResult.io' β b').status.soft = true) :
    Mirrors sink (IoResult.io b).out (IoResult.io' β b').out (.ok b) (.ok b') :=
  @Mirrors.ok τ β β' _ sink _ _ [] b b' hsame rfl hsoft ⟨(List.append_nil _).symm, hsoft'⟩

theorem Mirrors.map {x : Except (JsonIo τ) β} {y : Except (JsonIo Bytes) β'} {f : β → γ}
    {f' : β' → γ'} (h : Mirrors sink s text x y)
    (hsame : ∀ b b', IoResult.same b b' → IoResult.same (f b) (f' b'))
    (hio : ∀ b, IoResult.io (f b) = IoResult.io b)
    (hio' : ∀ b', IoResult.io' γ (f' b') = IoResult.io' β b') :
    Mirrors sink s text (x.map f) (y.map f') := by
  have hbind : Mirrors sink s text (x.bind fun b => .ok (f b)) (y.bind fun b' => .ok (f' b')) := by
    apply h.bind
    intro b b' hb hsoft hsoft'
    rw [← hio] at hsoft ⊢
    rw [← hio'] at hsoft' ⊢
    exact .pure (hsame b b' hb) hsoft hsoft'
  cases x <;> cases y <;> exact hbind

/-- Both runs give up on their own. -/
theorem Mirrors.fault (io : JsonIo τ) (io' : JsonIo Bytes) {code : Status}
    (hcode : code.soft = false) (message : String) :
    @Mirrors τ β β' _ sink io.out io'.out (.error (io.fail code message))
      (.error (io'.fail code message)) :=
  @Mirrors.fail τ β β' _ sink io.out io'.out [] _ _ rfl rfl ⟨(List.append_nil _).symm, hcode⟩

end

/-! ## Tokens -/

section

variable {sink : Sink τ} (hsteady : sink.Steady)
include hsteady

theorem emit_mirrors (io : JsonIo τ) (io' : JsonIo Bytes) (data : Bytes) :
    Mirrors sink io.out io'.out (io.emit sink data) (io'.emit collectSink data) := by
  obtain ⟨hout, hstatus⟩ := hsteady io.out data io.error
  have hcollect : Collects τ (JsonIo τ) io'.out [data] (io'.emit collectSink data) := by
    refine ⟨?_, rfl⟩
    rw [List.flatten_singleton]
    rfl
  have hfeed (h : (sink io.out data {}).2.2.soft = true) :
      sink.feed io.out [data] = .ok (sink io.out data {}).1 := by
    rw [Sink.feed, if_pos h]
    rfl
  by_cases hsoft : (io.call sink data).status.soft = true
  · have hemit : io.emit sink data = .ok (io.call sink data) := if_pos hsoft
    have hsoft' : (sink io.out data {}).2.2.soft = true := by
      rw [← hstatus]
      exact hsoft
    rw [hemit]
    refine .ok trivial ?_ hsoft hcollect
    rw [hfeed hsoft', ← hout]
    rfl
  · have hemit : io.emit sink data = .error (io.call sink data) := if_neg hsoft
    rw [hemit]
    have hcollect' : ∃ more, Collects τ (JsonIo τ) io'.out ([data] ++ more)
        (io'.emit collectSink data) := ⟨[], hcollect⟩
    refine .stop ?_ hcollect'
    rw [Sink.feed, if_neg]
    · rw [← hout, ← hstatus]
      rfl
    · rw [← hstatus]
      exact hsoft

theorem emitAt_mirrors {α : Type} (a : α) (io : JsonIo τ) (io' : JsonIo Bytes) (data : Bytes) :
    Mirrors sink io.out io'.out ((io.emit sink data).map (a, ·))
      ((io'.emit collectSink data).map (a, ·)) :=
  (emit_mirrors hsteady io io' data).map (fun _ _ _ => rfl) (fun _ => rfl) fun _ => rfl

theorem emitAll_mirrors (pieces : List Bytes) : ∀ (io : JsonIo τ) (io' : JsonIo Bytes),
    io.status.soft = true → io'.status.soft = true →
    Mirrors sink io.out io'.out (io.emitAll sink pieces) (io'.emitAll collectSink pieces) := by
  induction pieces with
  | nil => exact fun io io' hsoft hsoft' => @Mirrors.pure τ _ _ _ sink io io' trivial hsoft hsoft'
  | cons piece pieces ih =>
      intro io io' _ _
      exact (emit_mirrors hsteady io io' piece).bind fun b b' _ => ih b b'

theorem emitIndent_mirrors (depth : ℕ) (io : JsonIo τ) (io' : JsonIo Bytes)
    (hsoft : io.status.soft = true) (hsoft' : io'.status.soft = true) :
    Mirrors sink io.out io'.out (io.emitIndent sink depth) (io'.emitIndent collectSink depth) := by
  rw [JsonIo.emitIndent, JsonIo.emitIndent]
  split
  · exact .fault io io' rfl _
  · exact emitAll_mirrors hsteady _ io io' hsoft hsoft'

theorem copyDigits_mirrors (n : ℕ) : ∀ (i : Text) (io : JsonIo τ) (io' : JsonIo Bytes),
    io.status.soft = true → io'.status.soft = true →
    Mirrors sink io.out io'.out (copyDigits sink n i io) (copyDigits collectSink n i io') := by
  induction n with
  | zero =>
      exact fun i io io' hsoft hsoft' =>
        @Mirrors.pure τ _ _ _ sink (i, io) (i, io') rfl hsoft hsoft'
  | succ n ih =>
      intro i io io' _ _
      cases i with
      | nil => exact .fault io io' rfl _
      | cons hx i =>
          rw [copyDigits, copyDigits]
          split
          · exact .fault io io' rfl _
          · exact (emit_mirrors hsteady io io' [hx]).bind fun b b' _ => ih i b b'

theorem copyEscape_mirrors (i : Text) (io : JsonIo τ) (io' : JsonIo Bytes) :
    Mirrors sink io.out io'.out (copyEscape sink i io) (copyEscape collectSink i io') := by
  cases i with
  | nil => exact .fault io io' rfl _
  | cons esc i =>
      rw [copyEscape, copyEscape]
      split
      · exact emitAt_mirrors hsteady i io io' [esc]
      · split
        · exact (emit_mirrors hsteady io io' [esc]).bind fun b b' _ =>
            copyDigits_mirrors hsteady 4 i b b'
        · exact .fault io io' rfl _

omit hsteady in
theorem copyEscape_length (i : Text) (io : JsonIo Bytes) {x : Text × JsonIo Bytes}
    (h : copyEscape collectSink i io = .ok x) : x.1.length ≤ i.length := by
  have hcopies := copyEscape_appends collectSink_appends i io
  rw [h] at hcopies
  obtain ⟨esc, hi, -⟩ := hcopies
  rw [hi, List.length_append]
  exact Nat.le_add_left _ _

theorem copyString_mirrors (ahead : Ahead) (n : ℕ) : ∀ (i : Text) (io : JsonIo τ)
    (io' : JsonIo Bytes), i.length < n →
    Mirrors sink io.out io'.out (copyString sink ahead n i io)
      (copyString collectSink ahead n i io') := by
  induction n with
  | zero => exact fun i _ _ hn => absurd hn (Nat.not_lt_zero _)
  | succ n ih =>
      intro i io io' hn
      rw [copyString.eq_def, copyString.eq_def]
      dsimp only
      split
      · next hspan =>
        have hpos := List.length_pos_of_ne_nil hspan
        have hle := congrArg List.length (plainSpan_append ahead i)
        rw [List.length_append] at hle
        exact (emit_mirrors hsteady io io' _).bind fun b b' _ _ _ => ih _ b b' (by omega)
      · cases i with
        | nil => exact .fault io io' rfl _
        | cons ch i =>
            rw [List.length_cons] at hn
            dsimp only
            split
            · exact .fault io io' rfl _
            · apply (emit_mirrors hsteady io io' [ch]).bind
              intro b b' _ _ _
              split
              · exact @Mirrors.pure τ _ _ _ sink (i, b.done) (i, b'.done) rfl rfl rfl
              · split
                · apply (copyEscape_mirrors hsteady i b b').bind_eq
                  rintro ⟨j, c⟩ ⟨j', c'⟩ heq hsame _ _
                  obtain rfl : j = j' := hsame
                  have hshort : j.length ≤ i.length := copyEscape_length i b' heq
                  exact ih j c c' (by omega)
                · exact ih i b b' (by omega)

theorem jsonParseString_mirrors (ahead : Ahead) (i : Text) (io : JsonIo τ) (io' : JsonIo Bytes) :
    Mirrors sink io.out io'.out (jsonParseString sink ahead i io)
      (jsonParseString collectSink ahead i io') :=
  (emit_mirrors hsteady io io' [0x22]).bind fun b b' _ _ _ =>
    copyString_mirrors hsteady ahead _ i b b' (Nat.lt_succ_self _)

theorem jsonParseNumber_mirrors (first : Byte) (i : Text) (io : JsonIo τ) (io' : JsonIo Bytes) :
    Mirrors sink io.out io'.out (jsonParseNumber sink first i io)
      (jsonParseNumber collectSink first i io') := by
  rw [jsonParseNumber, jsonParseNumber]
  split
  · exact emitAt_mirrors hsteady _ io io' _
  · exact .fault io io' rfl _

theorem copyLiteral_mirrors (rest : Text) : ∀ (i : Text) (io : JsonIo τ) (io' : JsonIo Bytes),
    Mirrors sink io.out io'.out (copyLiteral sink rest i io)
      (copyLiteral collectSink rest i io') := by
  induction rest with
  | nil =>
      intro i io io'
      exact @Mirrors.pure τ _ _ _ sink (i, io.done) (i, io'.done) rfl rfl rfl
  | cons c rest ih =>
      intro i io io'
      cases i with
      | nil => exact .fault io io' rfl _
      | cons ch i =>
          rw [copyLiteral, copyLiteral]
          split
          · exact (emit_mirrors hsteady io io' [ch]).bind fun b b' _ _ _ => ih i b b'
          · exact .fault io io' rfl _

theorem jsonParseLiteral_mirrors (first : Byte) (rest i : Text) (io : JsonIo τ)
    (io' : JsonIo Bytes) :
    Mirrors sink io.out io'.out (jsonParseLiteral sink first rest i io)
      (jsonParseLiteral collectSink first rest i io') :=
  (emit_mirrors hsteady io io' [first]).bind fun b b' _ _ _ =>
    copyLiteral_mirrors hsteady rest i b b'

/-! ## Values -/

variable (ahead : Ahead) (pretty : Bool) (baseDepth : ℕ)

theorem closing_mirrors (c : Bracket) (first : Bool) (d : ℕ) (io : JsonIo τ)
    (io' : JsonIo Bytes) (hsoft : io.status.soft = true) (hsoft' : io'.status.soft = true) :
    Mirrors sink io.out io'.out ((transcoder sink ahead pretty baseDepth).closing c first d io)
      ((transcoder collectSink ahead pretty baseDepth).closing c first d io') := by
  have hindent : Mirrors sink io.out io'.out
      (if pretty && !first then io.emitIndent sink (sizeAdd baseDepth d) else .ok io)
      (if pretty && !first then io'.emitIndent collectSink (sizeAdd baseDepth d)
        else .ok io') := by
    split
    · exact emitIndent_mirrors hsteady _ io io' hsoft hsoft'
    · exact @Mirrors.pure τ _ _ _ sink io io' trivial hsoft hsoft'
  exact hindent.bind fun b b' _ _ _ => emit_mirrors hsteady b b' [c.closing]

theorem item_mirrors (c : Bracket) (first : Bool) (d : ℕ) (io : JsonIo τ)
    (io' : JsonIo Bytes) (hsoft : io.status.soft = true) (hsoft' : io'.status.soft = true) :
    Mirrors sink io.out io'.out ((transcoder sink ahead pretty baseDepth).item c first d io)
      ((transcoder collectSink ahead pretty baseDepth).item c first d io') := by
  have hcomma : Mirrors sink io.out io'.out (if first then .ok io else io.emit sink [0x2c])
      (if first then .ok io' else io'.emit collectSink [0x2c]) := by
    split
    · exact @Mirrors.pure τ _ _ _ sink io io' trivial hsoft hsoft'
    · exact emit_mirrors hsteady io io' [0x2c]
  apply hcomma.bind
  intro b b' _ hb hb'
  split
  · exact emitIndent_mirrors hsteady _ b b' hb hb'
  · exact @Mirrors.pure τ _ _ _ sink b b' trivial hb hb'

theorem separator_mirrors (c : Bracket) (first : Bool) (d : ℕ) (b : Byte) (i : Text)
    (io : JsonIo τ) (io' : JsonIo Bytes) (hsoft : io.status.soft = true)
    (hsoft' : io'.status.soft = true) :
    Mirrors sink io.out io'.out
      ((transcoder sink ahead pretty baseDepth).separator c first d b i io)
      ((transcoder collectSink ahead pretty baseDepth).separator c first d b i io') := by
  have hitem (first : Bool) (j : Text) :
      Mirrors sink io.out io'.out
        (((transcoder sink ahead pretty baseDepth).item c first d io).map (j, ·))
        (((transcoder collectSink ahead pretty baseDepth).item c first d io').map (j, ·)) :=
    (item_mirrors hsteady ahead pretty baseDepth c first d io io' hsoft hsoft').map
      (fun _ _ _ => rfl) (fun _ => rfl) fun _ => rfl
  rw [Descent.separator, Descent.separator]
  split
  · exact hitem true (b :: i)
  · split
    · exact hitem false i
    · exact .fault io io' rfl _

theorem key_mirrors (i : Text) (io : JsonIo τ) (io' : JsonIo Bytes) :
    Mirrors sink io.out io'.out ((transcoder sink ahead pretty baseDepth).key i io)
      ((transcoder collectSink ahead pretty baseDepth).key i io') := by
  rw [Descent.key, Descent.key]
  cases Json.dropSpace i with
  | nil => exact .fault io io' rfl _
  | cons b i =>
      dsimp only
      split
      · apply (jsonParseString_mirrors hsteady ahead i io io').bind
        rintro ⟨j, c⟩ ⟨j', c'⟩ hsame _ _
        obtain rfl : j = j' := hsame
        dsimp only
        cases Json.dropSpace j with
        | nil => exact .fault c c' rfl _
        | cons b j =>
            dsimp only
            split
            · exact emitAt_mirrors hsteady j c c' _
            · exact .fault c c' rfl _
      · exact .fault io io' rfl _

theorem transcoder_mirrors (n : ℕ) :
    (∀ (d : ℕ) (i : Text) (io : JsonIo τ) (io' : JsonIo Bytes),
      Mirrors sink io.out io'.out ((transcoder sink ahead pretty baseDepth).value n d i io)
        ((transcoder collectSink ahead pretty baseDepth).value n d i io')) ∧
    ∀ (c : Bracket) (d : ℕ) (first : Bool) (i : Text) (io : JsonIo τ) (io' : JsonIo Bytes),
      io.status.soft = true → io'.status.soft = true →
      Mirrors sink io.out io'.out ((transcoder sink ahead pretty baseDepth).rest c n d first i io)
        ((transcoder collectSink ahead pretty baseDepth).rest c n d first i io') := by
  induction n with
  | zero =>
      constructor
      · exact fun d i io io' => .fault io io' rfl _
      · intro c d first i io io' _ _
        cases c <;> exact .fault io io' rfl _
  | succ n ih =>
      obtain ⟨ihvalue, ihrest⟩ := ih
      constructor
      · intro d i io io'
        have hopen (c : Bracket) (j : Text) :=
          (emit_mirrors hsteady io io' [c.opening]).bind fun b b' _ =>
            ihrest c d true j b b'
        rw [Descent.value, Descent.value]
        cases Json.dropSpace i with
        | nil => exact .fault io io' rfl _
        | cons b j =>
            dsimp only
            split_ifs with h₁ h₂ h₃ h₄ h₅ h₆ h₇ h₈
            · exact jsonParseString_mirrors hsteady ahead j io io'
            · exact hopen .object j
            · exact hopen .array j
            · exact jsonParseLiteral_mirrors hsteady _ _ j io io'
            · exact jsonParseLiteral_mirrors hsteady _ _ j io io'
            · exact jsonParseLiteral_mirrors hsteady _ _ j io io'
            · exact jsonParseNumber_mirrors hsteady _ j io io'
            · exact absurd h₇ h₈
            · exact absurd ‹_› h₇
            · exact .fault io io' rfl _
      · intro c d first i io io' hsoft hsoft'
        have hclosing (c : Bracket) (j : Text) : Mirrors sink io.out io'.out
            (((transcoder sink ahead pretty baseDepth).closing c first d io).map (j, ·))
            (((transcoder collectSink ahead pretty baseDepth).closing c first d io').map (j, ·)) :=
          (closing_mirrors hsteady ahead pretty baseDepth c first d io io' hsoft hsoft').map
            (fun _ _ _ => rfl) (fun _ => rfl) fun _ => rfl
        cases c with
        | object =>
            change Mirrors _ _ _ (Descent.members _ _ _ _ _ _) (Descent.members _ _ _ _ _ _)
            rw [Descent.members, Descent.members]
            cases Json.dropSpace i with
            | nil => exact .fault io io' rfl _
            | cons b j =>
                dsimp only
                split
                · exact hclosing .object j
                · apply (separator_mirrors hsteady ahead pretty baseDepth .object first d b j io io'
                    hsoft hsoft').bind
                  rintro ⟨k, a⟩ ⟨k', a'⟩ hsame _ _
                  obtain rfl : k = k' := hsame
                  apply (key_mirrors hsteady ahead pretty baseDepth k a a').bind
                  rintro ⟨l, a⟩ ⟨l', a'⟩ hsame _ _
                  obtain rfl : l = l' := hsame
                  apply (ihvalue (d + 1) l a a').bind
                  rintro ⟨m, a⟩ ⟨m', a'⟩ hsame ha ha'
                  obtain rfl : m = m' := hsame
                  exact ihrest .object d false m a a' ha ha'
        | array =>
            change Mirrors _ _ _ (Descent.items _ _ _ _ _ _) (Descent.items _ _ _ _ _ _)
            rw [Descent.items, Descent.items]
            cases Json.dropSpace i with
            | nil => exact .fault io io' rfl _
            | cons b j =>
                dsimp only
                split
                · exact hclosing .array j
                · apply (separator_mirrors hsteady ahead pretty baseDepth .array first d b j io io'
                    hsoft hsoft').bind
                  rintro ⟨k, a⟩ ⟨k', a'⟩ hsame _ _
                  obtain rfl : k = k' := hsame
                  apply (ihvalue (d + 1) k a a').bind
                  rintro ⟨m, a⟩ ⟨m', a'⟩ hsame ha ha'
                  obtain rfl : m = m' := hsame
                  exact ihrest .array d false m a a' ha ha'

end

theorem Sink.feed_hard {sink : Sink τ} {pieces : List Bytes} : ∀ {s s' : τ} {code : Status},
    sink.feed s pieces = .error (s', code) → code.soft = false := by
  induction pieces with
  | nil => rintro s s' code ⟨⟩
  | cons piece pieces ih =>
      intro s s' code h
      rw [Sink.feed] at h
      split at h
      · exact ih h
      · next hhard =>
        cases h
        simpa using hhard

theorem Mirrors.hard {β β' : Type} [IoResult τ β β'] {sink : Sink τ} {s : τ} {text : Bytes}
    {x : Except (JsonIo τ) β} {y : Except (JsonIo Bytes) β'} (h : Mirrors sink s text x y) :
    (∀ io, x = .error io → io.status.soft = false) ∧
      ∀ io', y = .error io' → io'.status.soft = false := by
  cases h with
  | ok _ _ _ _ => exact ⟨nofun, nofun⟩
  | fail _ hstatus hcollects =>
      refine ⟨?_, ?_⟩
      · rintro _ ⟨⟩
        rw [hstatus]
        exact hcollects.2
      · rintro _ ⟨⟩
        exact hcollects.2
  | stop hfed hcollects =>
      refine ⟨?_, ?_⟩
      · rintro _ ⟨⟩
        exact Sink.feed_hard hfed
      · rintro io' rfl
        exact hcollects.choose_spec.2

/-- Behind the value, in `lonejson__json_transcode_cursor`. -/
def transcodeRest (x : Text × JsonIo τ) : Except (JsonIo τ) (JsonIo τ) :=
  if Json.dropSpace x.1 = [] then x.2.checked
  else .error (x.2.fail .invalidJson "embedded JSON must contain exactly one value")

theorem checked_cursor {sink : Sink τ} {ahead : Ahead} {pretty : Bool} {baseDepth : ℕ} {v : Text}
    {io : JsonIo τ}
    (h : ∀ e, (transcoder sink ahead pretty baseDepth).value (2 * v.length + 1) 0 v io = .error e →
      e.status.soft = false) :
    (jsonTranscodeCursor sink ahead pretty baseDepth v io).checked =
      ((transcoder sink ahead pretty baseDepth).value (2 * v.length + 1) 0 v io).bind
        transcodeRest := by
  rw [jsonTranscodeCursor, jsonParseValue]
  cases hx : (transcoder sink ahead pretty baseDepth).value (2 * v.length + 1) 0 v io with
  | error e =>
      have hhard := h e hx
      rw [JsonIo.checked, if_neg (by simp [hhard])]
      rfl
  | ok x =>
      obtain ⟨rest, c⟩ := x
      change _ = transcodeRest (rest, c)
      rw [transcodeRest]
      dsimp only
      split
      · rfl
      · rfl

section

variable {sink : Sink τ} (hsteady : sink.Steady)
include hsteady

theorem jsonTranscodeCursor_mirrors (ahead : Ahead) (pretty : Bool) (baseDepth : ℕ) (v : Text)
    (io : JsonIo τ) (io' : JsonIo Bytes) :
    Mirrors sink io.out io'.out (jsonTranscodeCursor sink ahead pretty baseDepth v io).checked
      (jsonTranscodeCursor collectSink ahead pretty baseDepth v io').checked := by
  have hvalue := (transcoder_mirrors hsteady ahead pretty baseDepth (2 * v.length + 1)).1 0 v io io'
  rw [checked_cursor hvalue.hard.1, checked_cursor hvalue.hard.2]
  apply hvalue.bind
  rintro ⟨rest, c⟩ ⟨rest', c'⟩ hsame hsoft hsoft'
  obtain rfl : rest = rest' := hsame
  rw [transcodeRest, transcodeRest]
  split
  · have hchecked : c.checked = .ok c := if_pos hsoft
    have hchecked' : c'.checked = .ok c' := if_pos hsoft'
    dsimp only
    rw [hchecked, hchecked']
    exact @Mirrors.pure τ _ _ _ sink c c' trivial hsoft hsoft'
  · exact .fault c c' rfl _

theorem call_mirrors (io : JsonIo τ) (io' : JsonIo Bytes) (data : Bytes) :
    Mirrors sink io.out io'.out (io.call sink data).checked (io'.call collectSink data).checked :=
  emit_mirrors hsteady io io' data

theorem jsonTranscode_mirrors (value : JsonValue) (source : Bytes) (ahead : Ahead) (pretty : Bool)
    (baseDepth : ℕ) (io : JsonIo τ) (io' : JsonIo Bytes) :
    Mirrors sink io.out io'.out (jsonTranscode sink value source ahead pretty baseDepth io).checked
      (jsonTranscode collectSink value source ahead pretty baseDepth io').checked := by
  rw [jsonTranscode, jsonTranscode]
  split
  · exact call_mirrors hsteady io io' _
  · split
    · exact jsonTranscodeCursor_mirrors hsteady _ _ _ _ io io'
    · exact call_mirrors hsteady io io' _
  · exact jsonTranscodeCursor_mirrors hsteady _ _ _ _ io io'

end

end Lonejson
