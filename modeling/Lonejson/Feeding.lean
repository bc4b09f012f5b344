import Lonejson.Decoding
import Lonejson.Position

/-!
# Feeding a string

Every turn of the loop of `lonejson__parser_feed_bytes` uses a byte, so a chunk may be fed in
two steps. A string that is fed chunk by chunk is read to its end, and the run goes on with
what is behind it, unless the bytes are no string or its text is denied.
-/

namespace Lonejson

open Json (Text)

variable {σ : Type} {env : Env σ}

/-! ## Every turn uses a byte -/

/-- A scan that uses no byte stays inside the string. -/
theorem stringLoop_stays {sink : StringSink σ} (hsink : sink.Keeps) (fuel : ℕ) (p : Parser σ)
    (bytes : Bytes) (pos : ℕ) :
    (stringLoop sink fuel p bytes pos).1.1.lexMode = p.lexMode ∨
      0 < (stringLoop sink fuel p bytes pos).2 := by
  induction fuel generalizing p bytes pos with
  | zero => exact .inl rfl
  | succ fuel ih =>
      rw [stringLoop_run]
      dsimp only
      generalize hr : (if bytes.takeWhile isPlain = [] then (p, Status.ok)
        else sink.run p (bytes.takeWhile isPlain)) = r
      have hmode : r.1.lexMode = p.lexMode := by
        rw [← hr]
        split
        · rfl
        · exact lexMode_of_registers (hsink.run _ _)
      split
      · exact .inl hmode
      generalize hq : r.1.advance (bytes.takeWhile isPlain).length = q
      have hmode : q.lexMode = p.lexMode := hq ▸ hmode
      rw [← hmode]
      generalize pos + (bytes.takeWhile isPlain).length = pos
      cases htail : bytes.dropWhile isPlain with
      | nil =>
          rw [stringLoop_nil]
          exact .inl rfl
      | cons ch rest =>
          have hch := head_dropWhile_plain htail
          have hcases : ch = 0x22 ∨ ch = 0x5c ∨ ch < 0x20 := by
            by_contra hno
            push Not at hno
            have : isPlain ch = true := isPlain_iff.mpr ⟨hno.1, hno.2.1, by simpa using hno.2.2⟩
            simp [this] at hch
          rcases hcases with rfl | rfl | hcontrol
          · rw [stringLoop_quote]
            split
            · exact .inl rfl
            · exact .inr (Nat.succ_pos _)
          · rw [stringLoop_backslash]
            obtain ⟨s, -, -, -, -, hescape⟩ := @consumeEscape_escapes _ q (0x5c :: rest) _ hsink
            dsimp only
            split
            · exact .inl hescape
            · split
              · rw [← hescape]
                exact ih _ _ _
              · exact .inl hescape
          · rw [stringLoop_control sink fuel _ hcontrol]
            exact .inl rfl

theorem consumeStringFast_stays (p : Parser σ) (bytes : Bytes) :
    (consumeStringFast env p bytes).1.1.lexMode = p.lexMode ∨
      0 < (consumeStringFast env p bytes).2 := by
  rw [consumeStringFast]
  split
  · exact stringLoop_stays (discardSink_steady env).toKeeps _ _ _ _
  · exact stringLoop_stays (directSink_steady env).toKeeps _ _ _ _
  · dsimp only
    split
    · exact .inr (Nat.succ_pos _)
    · exact stringLoop_stays (generalSink_keeps env) _ _ _ _

theorem turnSoft_pos {r : Parser σ × Status} {n used : ℕ} (hn : 0 < n)
    (h : (turnSoft r n).2 = .next used) : 0 < used := by
  rw [turnSoft] at h
  split at h
  · cases h
    exact hn
  · cases h

theorem turnOk_pos {r : Parser σ × Status} {n used : ℕ} (hn : 0 < n)
    (h : (turnOk r n).2 = .next used) : 0 < used := by
  rw [turnOk] at h
  split at h
  · cases h
    exact hn
  · cases h

theorem stringTurn_pos {p : Parser σ} {ch : Byte} {rest : Bytes} {used : ℕ}
    (hmode : p.lexMode = .string) (h : (stringTurn env p ch rest).2 = .next used) : 0 < used := by
  rw [stringTurn] at h
  split at h
  · cases h
  split at h
  · rename_i hmoved
    cases h
    rcases @consumeStringFast_stays _ env p (ch :: rest) with hstays | hpos
    · rw [hstays, hmode] at hmoved
      exact Nat.pos_of_ne_zero (hmoved.resolve_left LexMode.noConfusion)
    · exact hpos
  · exact turnSoft_pos Nat.one_pos h

theorem numberTurn_pos {p : Parser σ} {ch : Byte} {rest : Bytes} {used : ℕ}
    (h : (numberTurn env p ch rest).2 = .next used) : 0 < used := by
  rw [numberTurn] at h
  split at h
  · exact turnSoft_pos Nat.one_pos h
  rename_i hrun
  have hpos := List.length_pos_iff.mpr hrun
  split at h
  · cases h
  split at h
  · cases h
    exact hpos
  · exact turnSoft_pos hpos h

theorem frameTurn_pos {p : Parser σ} {active : Frame} {ch : Byte} {used : ℕ}
    (h : (frameTurn env p active ch).2 = .next used) : 0 < used := by
  unfold frameTurn at h
  dsimp only at h
  repeat' split at h
  all_goals first
    | exact turnSoft_pos Nat.one_pos h
    | exact turnOk_pos Nat.one_pos h
    | (cases h; exact Nat.one_pos)
    | cases h

theorem feedTurn_pos {p : Parser σ} {ch : Byte} {rest : Bytes} {used : ℕ}
    (h : (feedTurn env p ch rest).2 = .next used) : 0 < used := by
  rw [feedTurn] at h
  split at h
  · rename_i hstring
    exact stringTurn_pos hstring.1 h
  split at h
  · exact numberTurn_pos h
  split at h
  · exact frameTurn_pos h
  · exact turnSoft_pos Nat.one_pos h

/-- The loop stops at the end of the chunk, never for lack of fuel. -/
theorem feedLoop_fuel {stopAtRoot : Bool} {fuel fuel' : ℕ} (p : Parser σ) {s : Bytes} (i j : ℕ)
    (hfuel : s.length ≤ fuel) (hfuel' : s.length ≤ fuel') :
    (feedLoop env stopAtRoot fuel p s i).1 = (feedLoop env stopAtRoot fuel' p s j).1 := by
  induction fuel generalizing fuel' p s i j with
  | zero =>
      obtain rfl : s = [] := List.eq_nil_of_length_eq_zero (by omega)
      simp
  | succ fuel ih =>
      cases s with
      | nil => simp
      | cons ch rest =>
          obtain ⟨fuel', rfl⟩ : ∃ n, fuel' = n + 1 :=
            ⟨fuel' - 1, by rw [List.length_cons] at hfuel'; omega⟩
          rw [feedLoop, feedLoop]
          split
          · rfl
          have hpos : ∀ used, (feedTurn env p ch rest).2 = .next used → 0 < used :=
            fun used => feedTurn_pos
          generalize feedTurn env p ch rest = turn at hpos ⊢
          obtain ⟨q, used | ⟨status, consumed⟩⟩ := turn
          · have hused := hpos used rfl
            have hdrop : ((ch :: rest).drop used).length ≤ rest.length := by
              rw [List.length_drop, List.length_cons]
              omega
            rw [List.length_cons] at hfuel hfuel'
            exact ih q _ _ (by omega) (by omega)
          · rfl

theorem parserFeed_alive {p : Parser σ} (halive : p.core.failed = false) (s : Bytes) {fuel : ℕ}
    (hfuel : s.length ≤ fuel) (i : ℕ) :
    parserFeed env p s = (feedLoop env false fuel p s i).1 := by
  rw [parserFeed, feedBytes, halive, if_neg Bool.false_ne_true]
  exact feedLoop_fuel p 0 i (le_refl _) hfuel

/-! ## A byte, and a string, chunk by chunk -/

/-- Calls of `lonejson_parser_feed`, and what is done behind the last one. -/
def feedThen (env : Env σ) (last : Parser σ → Parser σ × Status) :
    Parser σ → List Bytes → Parser σ × Status
  | p, [] => last p
  | p, chunk :: rest =>
    let r := parserFeed env p chunk
    if r.2.soft then feedThen env last r.1 rest else r

/-- What is left of a run behind a turn: the rest of the input, unless the turn fails. -/
def afterTurn {α : Type} (go : Parser σ → α → Parser σ × Status) (r : Parser σ × Status)
    (rest : α) : Parser σ × Status :=
  if r.2.soft then go r.1 rest else (r.1.fail, r.2)

theorem parserFeed_nil {p : Parser σ} (halive : p.core.failed = false) :
    (parserFeed env p []).1 = p ∧ (parserFeed env p []).2.soft = true := by
  rw [parserFeed, feedBytes, halive, if_neg Bool.false_ne_true, feedLoop_nil]
  refine ⟨rfl, ?_⟩
  dsimp only
  rw [Parser.softStatus]
  split <;> rfl

theorem feedThen_empty (last : Parser σ → Parser σ × Status) {p : Parser σ}
    (halive : p.core.failed = false) {chunks : List Bytes} (hchunks : chunks.flatten = []) :
    feedThen env last p chunks = last p := by
  induction chunks with
  | nil => rfl
  | cons chunk rest ih =>
      obtain ⟨rfl, hrest⟩ := List.append_eq_nil_iff.mp hchunks
      obtain ⟨hsame, hsoft⟩ := @parserFeed_nil _ env _ halive
      rw [feedThen, if_pos hsoft, hsame]
      exact ih hrest

theorem feedChunks_then (env : Env σ) : feedChunks env = feedThen env (parserFinish env) := by
  funext p chunks
  induction chunks generalizing p with
  | nil => rfl
  | cons chunk rest ih => rw [feedChunks, feedThen, ih]

/-- A turn that uses the first byte, whatever is behind it in its chunk. -/
theorem feedThen_turn (last : Parser σ → Parser σ × Status) {p : Parser σ} {ch : Byte}
    {r : Parser σ × Status} (halive : p.core.failed = false)
    (hturn : ∀ rest, feedTurn env p ch rest = turnSoft r 1)
    (hlive : r.2.soft = true → r.1.core.failed = false) {chunks : List Bytes} {s : Bytes}
    (hchunks : chunks.flatten = ch :: s) :
    ∃ chunks', chunks'.flatten = s ∧
      feedThen env last p chunks = afterTurn (feedThen env last) r chunks' := by
  induction chunks with
  | nil => cases hchunks
  | cons chunk rest ih =>
      rw [feedThen]
      cases chunk with
      | nil =>
          obtain ⟨hsame, hsoft⟩ := @parserFeed_nil _ env _ halive
          rw [if_pos hsoft, hsame]
          exact ih hchunks
      | cons b tail =>
          rw [List.flatten_cons, List.cons_append, List.cons.injEq] at hchunks
          obtain ⟨rfl, rfl⟩ := hchunks
          refine ⟨tail :: rest, rfl, ?_⟩
          have hfeed : parserFeed env p (b :: tail) = afterTurn (parserFeed env) r tail := by
            rw [parserFeed_alive halive _ (le_refl _) 0, List.length_cons, feedLoop,
              if_neg (by simp), hturn, turnSoft, afterTurn]
            by_cases hsoft : r.2.soft = true
            · rw [if_pos hsoft, if_pos hsoft]
              exact (parserFeed_alive (hlive hsoft) tail (le_refl _) _).symm
            · rw [if_neg hsoft, if_neg hsoft]
          rw [hfeed]
          unfold afterTurn
          by_cases hsoft : r.2.soft = true
          · rw [if_pos hsoft, if_pos hsoft, feedThen]
          · rw [if_neg hsoft, if_neg hsoft, if_neg hsoft]

theorem feedChunks_turn {p : Parser σ} {ch : Byte} {r : Parser σ × Status}
    (halive : p.core.failed = false) (hturn : ∀ rest, feedTurn env p ch rest = turnSoft r 1)
    (hlive : r.2.soft = true → r.1.core.failed = false) {chunks : List Bytes} {s : Bytes}
    (hchunks : chunks.flatten = ch :: s) :
    ∃ chunks', chunks'.flatten = s ∧ feedChunks env p chunks = afterTurn (feedChunks env) r chunks' := by
  rw [feedChunks_then]
  exact feedThen_turn _ halive hturn hlive hchunks

/-- What feeding needs of a sink that keeps the text of a string. -/
structure FeedsString (env : Env σ) (R : Bytes → Parser σ → Prop) (K : Parser σ → Prop)
    (deny : Bytes → Prop) (sink : StringSink σ) : Prop extends Fills env R K deny sink where
  scan : ∀ {text p} bytes, R text p → consumeStringFast env p bytes = scanString sink p bytes
  alive : ∀ {text p}, R text p → p.core.failed = false
  fail : ∀ {p}, K p → K p.fail
  finish : ∀ {text p}, R text p → (sink.finish { p with lexMode := .none }).2.soft = true →
    (sink.finish { p with lexMode := .none }).1.core.failed = false

section

variable {R : Bytes → Parser σ → Prop} {K : Parser σ → Prop} {deny : Bytes → Prop}
  {sink : StringSink σ} {p : Parser σ} {q : DecodeState}

/-- A run that reads a string to its end goes on behind it. -/
def Completes {α : Type} (R : Bytes → Parser σ → Prop) (sink : StringSink σ) (q : DecodeState)
    (s : Text) (text : α → Text) (go : Parser σ → α → Parser σ × Status)
    (r : Parser σ × Status) : Prop :=
  ∃ (body : Bytes) (p' : Parser σ) (rest : α), R body p' ∧
    (∀ more : Text, closes q (s ++ more) = some (body, text rest ++ more)) ∧
    r = afterTurn go (sink.finish { p' with lexMode := .none }) rest

/-- The rest of a chunk, from the middle of a string. -/
theorem feedLoop_string (hfeed : FeedsString env R K deny sink) (fuel : ℕ) (h : StringAt R p q)
    (s : Bytes) (hfuel : s.length ≤ fuel) (i : ℕ) :
    let r := (feedLoop env false fuel p s i).1
    (r.2.soft = true ∧ ∃ q', StringAt R r.1 q' ∧ Onward q s q' []) ∨
      Completes R sink q s id (parserFeed env) r ∨ Refused K deny q s r := by
  induction fuel generalizing p q s i with
  | zero =>
      obtain rfl : s = [] := List.eq_nil_of_length_eq_zero (by omega)
      refine .inl ⟨?_, q, h, fun _ => rfl⟩
      rw [feedLoop_nil, Parser.softStatus]
      split <;> rfl
  | succ fuel ih =>
      cases s with
      | nil =>
          refine .inl ⟨?_, q, h, fun _ => rfl⟩
          rw [feedLoop_nil, Parser.softStatus]
          split <;> rfl
      | cons ch rest =>
          have hturn := feedTurn_reads hfeed.toFills h ch rest (hfeed.scan _ h.text)
          have hlength (n : ℕ) (hn : 0 < n) : ((ch :: rest).drop n).length ≤ fuel := by
            rw [List.length_cons] at hfuel
            rw [List.length_drop, List.length_cons]
            omega
          rw [feedLoop, if_neg (by simp)]
          rcases hturn with ⟨n, q', hnext, hpos, -, hat, honward⟩ |
            ⟨n, body, p', hpos, -, hbody, hr, hclose⟩ | ⟨status, used, hstop, hrefused⟩
          · generalize feedTurn env p ch rest = turn at hnext hat ⊢
            obtain ⟨p', used⟩ := turn
            obtain rfl : used = .next n := hnext
            rcases ih hat _ (hlength n hpos) (i + n) with ⟨hsoft, q'', hat', honward'⟩ |
              ⟨body, p'', rest', hbody, hclose, hr⟩ | ⟨hhard, hkeeps, hno⟩
            · exact .inl ⟨hsoft, q'', hat', honward.trans honward'⟩
            · exact .inr (.inl ⟨body, p'', rest', hbody,
                fun more => (honward more).trans (hclose more), hr⟩)
            · refine .inr (.inr ⟨hhard, hkeeps, ?_⟩)
              rcases hno with hno | ⟨q'', s', honward', hdeny⟩
              · exact .inl fun more => (honward more).trans (hno more)
              · exact .inr ⟨q'', s', honward.trans honward', hdeny⟩
          · refine .inr (.inl ⟨body, p', (ch :: rest).drop n, hbody, hclose, ?_⟩)
            have halive := hfeed.finish hbody
            rw [hr, turnSoft, afterTurn]
            by_cases hsoft : (sink.finish { p' with lexMode := .none }).2.soft = true
            · rw [if_pos hsoft, if_pos hsoft]
              exact (parserFeed_alive (halive hsoft) _ (hlength n hpos) _).symm
            · rw [if_neg hsoft, if_neg hsoft]
          · generalize feedTurn env p ch rest = turn at hstop hrefused ⊢
            obtain ⟨p', used'⟩ := turn
            obtain rfl : used' = .stop status used := hstop
            exact .inr (.inr ⟨hrefused.1, hfeed.fail hrefused.2.1, hrefused.2.2⟩)

/-- The end of the input in the middle of a string. -/
theorem parserFinish_string (hfeed : FeedsString env R K deny sink) (h : StringAt R p q) :
    (parserFinish env p).2.soft = false ∧ K (parserFinish env p).1 := by
  have hfinish : parserFinish env p =
      p.setError .invalidJson "incomplete JSON token at end of input" := by
    simp [parserFinish, finishNumber, hfeed.alive h.text, h.lex]
  rw [hfinish]
  exact ⟨rfl, hfeed.error _ _ _ (hfeed.keeps h.text)⟩

/-- The chunks that are left, from the middle of a string: they end before it does, or the run
goes on with the chunks behind the string, or it fails. -/
theorem feedThen_string (hfeed : FeedsString env R K deny sink)
    (last : Parser σ → Parser σ × Status) (chunks : List Bytes) (h : StringAt R p q) :
    (∃ p' q', StringAt R p' q' ∧ Onward q chunks.flatten q' [] ∧
        feedThen env last p chunks = last p') ∨
      Completes R sink q chunks.flatten List.flatten (feedThen env last)
        (feedThen env last p chunks) ∨
      Refused K deny q chunks.flatten (feedThen env last p chunks) := by
  induction chunks generalizing p q with
  | nil => exact .inl ⟨p, q, h, fun _ => rfl, rfl⟩
  | cons chunk rest ih =>
      have hchunk := feedLoop_string hfeed chunk.length h chunk (le_refl _) 0
      rw [← parserFeed_alive (hfeed.alive h.text) chunk (le_refl _)] at hchunk
      rw [feedThen, List.flatten_cons]
      generalize parserFeed env p chunk = r at hchunk
      rcases hchunk with ⟨hsoft, q', hat, honward⟩ | ⟨body, p', tail, hbody, hclose, rfl⟩ |
        ⟨hhard, hkeeps, hno⟩
      · rw [if_pos hsoft]
        rcases ih hat with ⟨p'', q'', hat', honward', hend⟩ |
          ⟨body, p', rest', hbody, hclose, hr⟩ | ⟨hhard, hkeeps, hno⟩
        · exact .inl ⟨p'', q'', hat', (honward.append rest.flatten).trans honward', hend⟩
        · refine .inr (.inl ⟨body, p', rest', hbody, fun more => ?_, hr⟩)
          exact (honward.append rest.flatten more).trans (hclose more)
        · refine .inr (.inr ⟨hhard, hkeeps, ?_⟩)
          rcases hno with hno | ⟨q'', s', honward', hdeny⟩
          · exact .inl fun more => (honward.append rest.flatten more).trans (hno more)
          · exact .inr ⟨q'', s', (honward.append rest.flatten).trans honward', hdeny⟩
      · refine .inr (.inl ⟨body, p', tail :: rest, hbody, fun more => ?_, ?_⟩)
        · rw [List.append_assoc, hclose, List.flatten_cons, List.append_assoc]
          rfl
        · unfold afterTurn
          by_cases hsoft : (sink.finish { p' with lexMode := .none }).2.soft = true
          · rw [if_pos hsoft, if_pos hsoft, feedThen]
          · rw [if_neg hsoft, if_neg hsoft, if_neg hsoft]
      · rw [if_neg (by simp [hhard])]
        refine .inr (.inr ⟨hhard, hkeeps, ?_⟩)
        rcases hno with hno | ⟨q'', s', honward', hdeny⟩
        · exact .inl fun more => by rw [List.append_assoc, hno]
        · exact .inr ⟨q'', s' ++ rest.flatten, honward'.append rest.flatten, hdeny⟩

/-- A run to the end of the input fails where the string does not end. -/
theorem feedChunks_string (hfeed : FeedsString env R K deny sink) (chunks : List Bytes)
    (h : StringAt R p q) :
    (∃ q', Onward q chunks.flatten q' []) ∧ (feedChunks env p chunks).2.soft = false ∧
        K (feedChunks env p chunks).1 ∨
      Completes R sink q chunks.flatten List.flatten (feedChunks env) (feedChunks env p chunks) ∨
      Refused K deny q chunks.flatten (feedChunks env p chunks) := by
  rw [feedChunks_then]
  rcases feedThen_string hfeed (parserFinish env) chunks h with
    ⟨p', q', hat, honward, hend⟩ | hrest
  · rw [hend]
    exact .inl ⟨⟨q', honward⟩, parserFinish_string hfeed hat⟩
  · exact .inr hrest

end

end Lonejson
