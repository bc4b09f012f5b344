import Lonejson.Skim

/-!
# Runs of parsers that store nothing

The turns inside numbers and literals, the dispatch loop over a chunk and the end of
the input. A parser that stores nothing accepts exactly the texts its machine accepts.
-/

namespace Lonejson

open Json (Text Mode State Bracket Lexer Machine Reaches)

variable {σ S : Type} {env : Env σ} {lexer : Bool → ℕ → Lexer S}

/-! ## Numbers -/

/-- The room for a token that is being read. -/
theorem tokenFits_iff {p : Parser σ} (hq : Quiet env p) (hplace : TokenPlace env p)
    (hcap : p.token.cap = tokenLimit env p) (n : ℕ) :
    tokenFits env p.brackets.length n = true ↔ n + 2 ≤ p.token.cap := by
  rw [hcap, tokenLimit_eq env hq, Parser.brackets_length]
  cases hp : p.frames with
  | nil => simp [tokenFits, (hplace.root hp).2.1]
  | cons f fs => simp [tokenFits]

/-- A number that is not one leaves the code of its error in the record. -/
theorem deliverToken_invalid {p : Parser σ} (hq : Quiet env p) (hplace : TokenPlace env p)
    (hkey : p.lexIsKey = false) (hnumber : isValidJsonNumber p.token.bytes = false) :
    (deliverToken env p .number).1.core.error.code = .invalidJson := by
  obtain ⟨hq', hframes, hbytes, -, hkey', hstarted⟩ := scratchCstr_quiet env hq
  rw [← hbytes] at hnumber
  rw [hkey] at hkey'
  have hroot := hplace.root
  rw [← hframes, ← hstarted] at hroot
  unfold deliverToken
  clear hq hplace hkey hbytes hstarted hframes
  generalize p.scratchCstr = p at *
  simp only [hkey', Bool.false_eq_true, if_false]
  split
  · next hp =>
    obtain ⟨hstarted, hvalidate, -⟩ := hroot hp
    simp [deliverRootScalar, hstarted, hvalidate, hnumber, Parser.setError, Parser.onCore,
      Core.setError]
  · next f fs hp =>
    have hf : f.Idle env := hq'.frames f (by simp [hp])
    have htarget : mappedNumericTarget env f = false := by
      cases hkind : f.kind <;>
        simp [mappedNumericTarget, hkind, Frame.pending?, Frame.field?, hf.pending, hf.field]
    simp [htarget, hnumber, Parser.setError, Parser.onCore, Core.setError]

variable (lexer) in
/-- One byte of a number, or the byte behind it. -/
theorem consumeNumberChar_agrees (reads : Parser σ → S → Prop) {p : Parser σ} (hq : Quiet env p)
    (hplace : TokenPlace env p) (hkey : p.lexIsKey = false)
    (hlex : p.lexMode = .number) (hcap : p.token.cap = tokenLimit env p) (ch : Byte) :
    Agrees env reads (consumeNumberChar env p ch)
      (Json.step (readerMachine env lexer) ⟨.number p.token.bytes, p.brackets⟩ ch) := by
  have hfits : (readerMachine env lexer).fitsNumber = tokenFits env := rfl
  have hbyte : (readerMachine env lexer).numberByte = isNumberByte := rfl
  have hvalid : (readerMachine env lexer).number = isValidJsonNumber := rfl
  unfold consumeNumberChar
  simp only [Json.step, hbyte, hfits, hvalid]
  cases hch : isNumberByte ch with
  | true =>
      simp only [if_true, Parser.scratchAppend]
      by_cases hroom : p.token.bytes.length + 1 + 2 ≤ p.token.cap
      · rw [if_pos (by omega), if_pos ((tokenFits_iff hq hplace hcap _).mpr hroom)]
        refine ⟨rfl, .number ⟨hq.core, hq.top, hq.frames, hq.started, hq.finished⟩ hlex ?_ hkey hcap⟩
        exact ⟨hplace.root, hplace.key⟩
      · rw [if_neg (by omega), if_neg fun h => hroom ((tokenFits_iff hq hplace hcap _).mp h)]
        rfl
  | false =>
      simp only [Bool.false_eq_true, if_false]
      have hq' : Quiet env { p with lexMode := .none } :=
        ⟨hq.core, hq.top, hq.frames, hq.started, hq.finished⟩
      have hplace' : TokenPlace env { p with lexMode := .none } := ⟨hplace.root, hplace.key⟩
      have hdeliver := deliverToken_agrees env reads hq' rfl hplace' hkey .number
      have herror := deliverToken_invalid hq' hplace' hkey
      cases hnumber : isValidJsonNumber p.token.bytes with
      | false =>
          simp only [afterScalar, hnumber, and_self, if_true] at hdeliver
          rw [if_pos (Status.ne_ok_of_hard hdeliver), herror hnumber]
          rfl
      | true =>
          simp only [afterScalar, hnumber, and_false, if_false, Bool.true_eq_false] at hdeliver
          obtain ⟨hok, htracks⟩ := hdeliver
          rw [if_neg (by simp [hok]), if_pos rfl]
          obtain ⟨hquiet, hnone, hstack, hmode⟩ := htracks.after_inv
          have hstack' : p.brackets =
              (deliverToken env { p with lexMode := .none } .number).1.brackets := hstack.symm
          rw [hstack']
          exact consumeStructuralChar_after env reads hquiet hnone hmode ch

/-- A turn inside a number. -/
theorem numberTurn_agrees {reads : Bytes → Parser σ → S → Prop} {single : Prop}
    {p : Parser σ} (hq : Quiet env p)
    (hplace : TokenPlace env p) (hkey : p.lexIsKey = false) (hlex : p.lexMode = .number)
    (hcap : p.token.cap = tokenLimit env p) (ch : Byte) (rest : Bytes) :
    TurnAgrees env lexer reads single (numberTurn env p ch rest)
      ⟨.number p.token.bytes, p.brackets⟩ (ch :: rest) := by
  set ds := (ch :: rest).takeWhile isNumberByte with hds
  unfold numberTurn
  rw [← hds]
  by_cases hnil : ds = []
  · rw [if_pos hnil]
    have hmoved : Quiet env { p with pos := p.pos.step ch } := hq.move _
    have hchar := consumeNumberChar_agrees lexer
      (fun p q => ∀ ahead, reads ahead p q) hmoved
      ⟨hplace.root, hplace.key⟩ hkey hlex hcap ch
    have hturn : charTurn env p ch =
        turnSoft (consumeNumberChar env { p with pos := p.pos.step ch } ch) 1 := by
      simp [charTurn, consumeChar, hlex]
    rw [hturn]
    exact turnSoft_agrees rest hchar
  · set tail := (ch :: rest).dropWhile isNumberByte with htail
    have hsplit : ch :: rest = ds ++ tail := (List.takeWhile_append_dropWhile).symm
    have hdrop : (ch :: rest).drop ds.length = tail := by rw [hsplit, List.drop_left]
    have htake : (ch :: rest).take ds.length = ds := by rw [hsplit, List.take_left]
    have hrun := Json.run_number _ (readerMachine_lawful env lexer) p.brackets p.token.bytes ds hnil
      fun b hb => List.mem_takeWhile_imp hb
    have hfits : (readerMachine env lexer).fitsNumber p.brackets.length
        (List.length p.token.bytes + ds.length) = true ↔
          p.token.bytes.length + ds.length + 2 ≤ p.token.cap :=
      tokenFits_iff hq hplace hcap _
    rw [if_neg hnil, Parser.scratchAppendBytes]
    by_cases hroom : p.token.bytes.length + ds.length + 2 ≤ p.token.cap
    · rw [if_pos (by omega)]
      rw [if_pos (hfits.mpr hroom)] at hrun
      dsimp only
      set p' := ({ p with token := { p.token with bytes := p.token.bytes ++ ds } } : Parser σ).advance
        ds.length with hp'
      have hq' : Quiet env p' := ⟨hq.core, hq.top, hq.frames, hq.started, hq.finished⟩
      have hplace' : TokenPlace env p' := ⟨hplace.root, hplace.key⟩
      split
      · refine ⟨List.length_pos_of_ne_nil hnil, ⟨.number (p.token.bytes ++ ds), p.brackets⟩, ?_,
          .inl (.number hq' hlex hplace' hkey hcap)⟩
        rw [htake]
        exact .run hrun
      · next hlen =>
        obtain ⟨b, more, hb⟩ : ∃ b more, tail = b :: more := by
          refine List.exists_cons_of_ne_nil fun h => hlen ?_
          rw [hsplit, h, List.append_nil]
        have hnot : isNumberByte b = false := by
          have h := List.head?_dropWhile_not isNumberByte (ch :: rest)
          rw [← htail, hb] at h
          simpa using h
        have hq'' : Quiet env { p' with lexMode := .none } :=
          ⟨hq.core, hq.top, hq.frames, hq.started, hq.finished⟩
        have hdeliver := deliverToken_agrees env (reads tail) hq'' rfl
          ⟨hplace.root, hplace.key⟩ hkey .number
        unfold turnSoft
        have hbytes : ({ p' with lexMode := .none } : Parser σ).token.bytes =
            p.token.bytes ++ ds := rfl
        rw [hbytes] at hdeliver
        cases hnumber : isValidJsonNumber (p.token.bytes ++ ds) with
        | false =>
            rw [afterScalar, if_pos ⟨rfl, hnumber⟩] at hdeliver
            have hhard : (deliverToken env { p' with lexMode := .none } .number).2.soft = false :=
              hdeliver
            rw [if_neg (by simp [hhard])]
            refine ⟨hhard, .inl ?_⟩
            rw [hsplit, Json.run_append, hrun, hb]
            simp [Json.step, readerMachine, hnot, hnumber]
        | true =>
            rw [afterScalar, if_neg (by simp [hnumber])] at hdeliver
            obtain ⟨hok, htracks⟩ := hdeliver
            rw [if_pos (by simp [hok])]
            refine ⟨List.length_pos_of_ne_nil hnil, ⟨.after, p.brackets⟩, ?_, .inl ?_⟩
            · rw [htake, hdrop, hb]
              exact .early hrun hnumber hnot
            · rwa [hdrop]
    · rw [if_neg (by omega)]
      rw [if_neg fun h => hroom (hfits.mp h)] at hrun
      refine ⟨rfl, .inl ?_⟩
      rw [hsplit, Json.run_append, hrun]
      simp

/-! ## Literals -/

variable (lexer) in
/-- One byte of a literal. -/
theorem consumeLiteralChar_agrees (reads : Parser σ → S → Prop) {p : Parser σ} {rest : Bytes}
    (hq : Quiet env p) (hplace : TokenPlace env p) (hkey : p.lexIsKey = false)
    (hlex : literalText? p.lexMode = some (p.token.bytes ++ rest)) (hrest : rest ≠ [])
    (hcap : p.token.cap = tokenLimit env p) (ch : Byte) :
    Agrees env reads (consumeLiteralChar env p (p.token.bytes ++ rest) ch)
      (Json.step (readerMachine env lexer) ⟨.literal p.token.bytes.length rest, p.brackets⟩ ch) := by
  obtain ⟨c, rest, rfl⟩ := List.exists_cons_of_ne_nil hrest
  have hfits : (readerMachine env lexer).fitsLiteral p.brackets.length
      (List.length p.token.bytes + 1) = true ↔ p.token.bytes.length + 1 + 2 ≤ p.token.cap :=
    tokenFits_iff hq hplace hcap _
  unfold consumeLiteralChar
  simp only [Json.step, List.getElem?_append_right (le_refl _), Nat.sub_self,
    List.getElem?_cons_zero, Option.some.injEq, Parser.scratchAppend]
  by_cases hc : c = ch
  · subst hc
    by_cases hroom : p.token.bytes.length + 1 + 2 ≤ p.token.cap
    · rw [if_pos rfl, if_pos (by omega), if_pos ⟨rfl, hfits.mpr hroom⟩]
      dsimp only
      set p' : Parser σ := { p with token := { p.token with bytes := p.token.bytes ++ [c] } } with hp'
      have hq' : Quiet env p' := ⟨hq.core, hq.top, hq.frames, hq.started, hq.finished⟩
      by_cases hnil : rest = []
      · subst hnil
        rw [if_pos (by simp), if_pos rfl]
        have hq'' : Quiet env { p' with lexMode := .none } :=
          ⟨hq.core, hq.top, hq.frames, hq.started, hq.finished⟩
        have hdeliver := deliverToken_agrees env reads hq'' rfl ⟨hplace.root, hplace.key⟩ hkey
          p.lexMode
        rw [afterScalar, if_neg] at hdeliver
        · exact hdeliver
        · rintro ⟨h, -⟩
          simp [h, literalText?] at hlex
      · have hlen : rest.length ≠ 0 := by simpa using hnil
        rw [if_neg (by simp; omega), if_neg hnil]
        refine ⟨rfl, ?_⟩
        have htracks : Tracks env reads p' ⟨.literal p'.token.bytes.length rest, p'.brackets⟩ :=
          .literal hq' (by simpa [hp'] using hlex) hnil ⟨hplace.root, hplace.key⟩ hkey hcap
        rw [hp', List.length_append, List.length_singleton] at htracks
        exact htracks
    · rw [if_pos rfl, if_neg (by omega), if_neg fun h => hroom (hfits.mp h.2)]
      rfl
  · rw [if_neg hc, if_neg fun h => hc h.1.symm]
    rfl

/-! ## The dispatch loop -/

/-- The first byte of the document, or a byte behind it. -/
theorem rootTurn_agrees (R : StringReader env lexer) {p : Parser σ} (hq : Quiet env p)
    (hlex : p.lexMode = .none) (hp : p.frames = [])
    (hrequired : env.validateOnly = false → requiredCountForMap env.maps env.rootMap = 0)
    (ch : Byte) (rest : Bytes) :
    TurnAgrees env lexer R.reads R.single (charTurn env p ch) ⟨p.mode, p.brackets⟩ (ch :: rest) := by
  rw [charTurn_between hlex]
  refine turnSoft_agrees rest ?_
  cases hstarted : p.rootStarted with
  | true =>
      have hmode : p.mode (S := S) = .after := by simp [Parser.mode, hp, hstarted]
      rw [hmode]
      exact consumeStructuralChar_after env R.always hq hlex hmode ch
  | false =>
      have hmode : p.mode (S := S) = .value := by simp [Parser.mode, hp, hstarted]
      have hmoved := hq.move (p.pos.step ch)
      rw [hmode]
      unfold consumeStructuralChar Json.step
      dsimp only
      split
      · next hspace =>
        rw [if_pos (show Json.isSpace ch = true from hspace)]
        exact ⟨rfl, .of_between hmoved hlex hmode rfl⟩
      · next hspace =>
        rw [if_neg (show ¬ Json.isSpace ch = true from hspace), if_pos (by simp [hstarted])]
        exact consumeRootChar_agrees R hmoved hlex hp hstarted hrequired ch

/-- One turn of the loop. -/
theorem feedTurn_agrees (R : StringReader env lexer)
    (hrequired : env.validateOnly = false → requiredCountForMap env.maps env.rootMap = 0)
    {p : Parser σ} {st : State S} (ch : Byte) (rest : Bytes)
    (h : Tracks env (R.reads (ch :: rest)) p st)
    (hknown : R.known st (ch :: rest)) :
    TurnAgrees env lexer R.reads R.single (feedTurn env p ch rest) st (ch :: rest) := by
  cases h with
  | between hq hlex =>
      unfold feedTurn
      rw [if_neg (by simp [hlex]), if_neg (by simp [hlex])]
      split
      · next f fs _ hp => exact frameTurn_agrees R hq hlex hp hrequired ch rest
      · next hne =>
        have hp : p.frames = [] := by
          cases hp : p.frames with
          | nil => rfl
          | cons f fs => exact absurd hp (hne f fs hlex)
        exact rootTurn_agrees R hq hlex hp hrequired ch rest
  | string hq hlex hplace hreads => exact R.turn p _ ch rest hq hlex hplace hreads hknown
  | number hq hlex hplace hkey hcap =>
      unfold feedTurn
      rw [if_neg (by simp [hlex]), if_pos hlex]
      exact numberTurn_agrees hq hplace hkey hlex hcap ch rest
  | @literal tail hq hlex hrest hplace hkey hcap =>
      have hne : p.lexMode ≠ .string ∧ p.lexMode ≠ .number ∧ p.lexMode ≠ .none := by
        refine ⟨?_, ?_, ?_⟩ <;> (intro h; simp [h, literalText?] at hlex)
      have hmoved : Quiet env { p with pos := p.pos.step ch } := hq.move _
      have hchar := consumeLiteralChar_agrees lexer R.always hmoved
        ⟨hplace.root, hplace.key⟩ hkey hlex hrest hcap ch
      have hturn : charTurn env p ch = turnSoft (consumeLiteralChar env
          { p with pos := p.pos.step ch } (p.token.bytes ++ tail) ch) 1 := by
        unfold charTurn consumeChar
        cases hmode : p.lexMode with
        | none => exact absurd hmode hne.2.2
        | string => exact absurd hmode hne.1
        | number => exact absurd hmode hne.2.1
        | _ =>
            rw [hmode, literalText?, Option.some.injEq] at hlex
            rw [← hlex]
      unfold feedTurn
      rw [if_neg (by simp [hne.1]), if_neg hne.2.1]
      split
      · next h _ => exact absurd h hne.2.2
      · rw [hturn]
        exact turnSoft_agrees rest hchar

@[simp] theorem feedLoop_nil (stopAtRoot : Bool) (fuel : ℕ) (p : Parser σ) (i : ℕ) :
    feedLoop env stopAtRoot fuel p [] i = ((p, p.softStatus), i) := by
  cases fuel <;> rfl

/-- What is left of a chunk after some turns. -/
theorem feedLoop_agrees (R : StringReader env lexer)
    (hrequired : env.validateOnly = false → requiredCountForMap env.maps env.rootMap = 0)
    (fuel : ℕ) {p : Parser σ} {st : State S} (s : Bytes)
    (h : Tracks env (R.reads s) p st)
    (hfuel : s.length ≤ fuel) (hknown : R.known st s) (i : ℕ) :
    let r := feedLoop env false fuel p s i
    (r.1.2 = .ok ∧ ∃ st', Json.run (readerMachine env lexer) (some st) s = some st' ∧
        (Tracks env (R.reads []) r.1.1 st' ∨ Dangles R.single r.1.1 st')) ∨
      (r.1.2.soft = false ∧ (Json.run (readerMachine env lexer) (some st) s = none ∨
        R.single ∧ (Json.run (readerMachine env lexer) (some st) s).any
          (Json.accepting (readerMachine env lexer)) = false)) := by
  induction fuel generalizing p st s i with
  | zero =>
      obtain rfl : s = [] := List.eq_nil_of_length_eq_zero (by omega)
      have hsoft : p.softStatus = .ok := by simp [Parser.softStatus, h.quiet.core.whole]
      exact .inl ⟨hsoft, st, rfl, .inl h⟩
  | succ fuel ih =>
      cases s with
      | nil =>
          have hsoft : p.softStatus = .ok := by simp [Parser.softStatus, h.quiet.core.whole]
          exact .inl ⟨hsoft, st, rfl, .inl h⟩
      | cons ch rest =>
          have hturn := feedTurn_agrees R hrequired ch rest h hknown
          unfold feedLoop
          rw [if_neg (by simp)]
          cases hresult : feedTurn env p ch rest with
          | mk p' turn =>
              rw [hresult] at hturn
              cases turn with
              | stop status consumed => exact .inr hturn
              | next n =>
                  obtain ⟨hpos, st', hreaches, hstate⟩ := hturn
                  have hsplit : ch :: rest = (ch :: rest).take n ++ (ch :: rest).drop n :=
                    (List.take_append_drop n _).symm
                  have hrun := hreaches.run_append
                  rw [← hsplit] at hrun
                  rw [hrun]
                  have hknown' : R.known st' ((ch :: rest).drop n) :=
                    R.known_reaches (by rwa [← hsplit]) hreaches
                  have hfuel' : ((ch :: rest).drop n).length ≤ fuel := by
                    simp only [List.length_drop, List.length_cons] at hfuel ⊢
                    omega
                  rcases hstate with htracks | ⟨hnil, hdangles⟩
                  · exact ih _ htracks hfuel' hknown' _
                  · obtain ⟨q, hsingle, hcore, hlex, rfl⟩ := hdangles
                    have hsoft : p'.softStatus = .ok := by
                      simp [Parser.softStatus, show p'.core.error.truncated = false from hcore.whole]
                    dsimp only
                    rw [hnil, feedLoop_nil]
                    exact .inl ⟨hsoft, _, rfl, .inr ⟨q, hsingle, hcore, hlex, rfl⟩⟩

/-! ## The end of the input -/

variable (lexer) in
/-- The end of the input between tokens. -/
theorem finish_between {p : Parser σ} (hq : Quiet env p) (hlex : p.lexMode = .none) :
    (if p.lexMode ≠ .none then p.setError .invalidJson "incomplete JSON token at end of input"
      else if !p.rootStarted || !p.rootFinished || !p.frames.isEmpty then
        p.setError .invalidJson "incomplete JSON document"
      else (p, p.softStatus)).2 = .ok ↔
        Json.accepting (readerMachine env lexer) ⟨p.mode, p.brackets⟩ = true := by
  have hsoft : p.softStatus = .ok := by simp [Parser.softStatus, hq.core.whole]
  rw [if_neg (by simp [hlex])]
  cases hp : p.frames with
  | nil =>
      have hfinished := hq.finished hp
      cases hstarted : p.rootStarted <;>
        simp [hfinished, hstarted, hsoft, Json.accepting, Parser.mode, hp, Parser.brackets]
  | cons f fs =>
      have hbrackets := p.brackets_cons hp
      have hmode := p.mode_cons (S := S) hp
      cases hstate : f.state <;> cases hcomma : f.afterComma <;>
        simp [hbrackets, hmode, hstate, hcomma, Json.accepting, frameMode]

/-- The end of the input accepts what the machine accepts. -/
theorem parserFinish_agrees (R : StringReader env lexer) {p : Parser σ} {st : State S}
    (h : Tracks env (R.reads []) p st ∨ Dangles R.single p st) :
    (parserFinish env p).2 = .ok ↔ Json.accepting (readerMachine env lexer) st = true := by
  rcases h with h | ⟨q, -, hcore, hlex, rfl⟩
  · unfold parserFinish
    rw [if_neg (by simp [h.quiet.core.failed])]
    cases h with
    | between hq hlex =>
        have hfinish : finishNumber env p = (p, .ok) := by simp [finishNumber, hlex]
        rw [hfinish]
        exact finish_between lexer hq hlex
    | string hq hlex => simp [finishNumber, hlex, Json.accepting]
    | number hq hlex hplace hkey hcap =>
        have hq' : Quiet env { p with lexMode := .none } :=
          ⟨hq.core, hq.top, hq.frames, hq.started, hq.finished⟩
        have hplace' : TokenPlace env { p with lexMode := .none } := ⟨hplace.root, hplace.key⟩
        have hdeliver := deliverToken_agrees env (R.reads []) hq' rfl hplace' hkey .number
        rw [finishNumber, if_pos hlex]
        cases hnumber : isValidJsonNumber p.token.bytes with
        | false =>
            rw [afterScalar, if_pos ⟨rfl, hnumber⟩] at hdeliver
            have herror := deliverToken_invalid hq' hplace' hkey hnumber
            rw [if_pos (Status.ne_ok_of_hard hdeliver), herror]
            simp [Json.accepting, readerMachine, hnumber]
        | true =>
            rw [afterScalar, if_neg (by simp [hnumber])] at hdeliver
            obtain ⟨hok, htracks⟩ := hdeliver
            obtain ⟨hquiet, hnone, hstack, hmode⟩ := htracks.after_inv
            rw [if_neg (by simp [hok])]
            have hend := finish_between lexer hquiet hnone
            rw [hmode, hstack] at hend
            refine hend.trans ?_
            simp [Json.accepting, readerMachine, hnumber, Parser.brackets]
    | literal hq hlex hrest hplace hkey hcap =>
        have hne : p.lexMode ≠ .number ∧ p.lexMode ≠ .none := by
          refine ⟨?_, ?_⟩ <;> (intro h; simp [h, literalText?] at hlex)
        simp [finishNumber, hne, Json.accepting]
  · simp [parserFinish, hcore.failed, finishNumber, hlex, Json.accepting]

/-- What one chunk leads to. -/
theorem parserFeed_agrees (R : StringReader env lexer)
    (hrequired : env.validateOnly = false → requiredCountForMap env.maps env.rootMap = 0)
    {p : Parser σ} {st : State S} (s : Bytes)
    (h : Tracks env (R.reads s) p st)
    (hknown : R.known st s) :
    ((parserFeed env p s).2 = .ok ∧ ∃ st', Json.run (readerMachine env lexer) (some st) s = some st' ∧
        (Tracks env (R.reads []) (parserFeed env p s).1 st' ∨
          Dangles R.single (parserFeed env p s).1 st')) ∨
      ((parserFeed env p s).2.soft = false ∧
        (Json.run (readerMachine env lexer) (some st) s = none ∨
          R.single ∧ (Json.run (readerMachine env lexer) (some st) s).any
            (Json.accepting (readerMachine env lexer)) = false)) := by
  unfold parserFeed feedBytes
  rw [if_neg (by simp [h.quiet.core.failed])]
  exact feedLoop_agrees R hrequired s.length s h (le_refl _) hknown 0

/-- A text in one chunk is accepted when the machine accepts it. -/
theorem feedChunks_single (R : StringReader env lexer)
    (hrequired : env.validateOnly = false → requiredCountForMap env.maps env.rootMap = 0)
    {p : Parser σ} {st : State S} (s : Bytes)
    (h : Tracks env (R.reads s) p st)
    (hknown : R.known st s) :
    (feedChunks env p [s]).2 = .ok ↔
      (Json.run (readerMachine env lexer) (some st) s).any
        (Json.accepting (readerMachine env lexer)) = true := by
  unfold feedChunks
  rcases parserFeed_agrees R hrequired s h hknown with ⟨hok, st', hrun, hstate⟩ | ⟨hhard, hno⟩
  · rw [if_pos (by simp [hok]), hrun]
    exact parserFinish_agrees R hstate
  · rw [if_neg (by simp [hhard])]
    have hno' : (Json.run (readerMachine env lexer) (some st) s).any
        (Json.accepting (readerMachine env lexer)) = false := by
      rcases hno with hnone | ⟨-, hno⟩
      · simp [hnone]
      · exact hno
    simpa [hno'] using Status.ne_ok_of_hard hhard

/-- When strings are read the same way across chunks, so is the whole text. -/
theorem feedChunks_agrees (R : StringReader env lexer)
    (hrequired : env.validateOnly = false → requiredCountForMap env.maps env.rootMap = 0)
    (hsingle : ¬ R.single) (hknown : ∀ st s, R.known st s)
    (hahead : ∀ s p q, R.reads [] p q → R.reads s p q) {p : Parser σ} {st : State S}
    (h : Tracks env (R.reads []) p st) (chunks : List Bytes) :
    (feedChunks env p chunks).2 = .ok ↔
      (Json.run (readerMachine env lexer) (some st) chunks.flatten).any
        (Json.accepting (readerMachine env lexer)) = true := by
  induction chunks generalizing p st with
  | nil => exact parserFinish_agrees R (.inl h)
  | cons s chunks ih =>
      rw [List.flatten_cons, Json.run_append]
      unfold feedChunks
      rcases parserFeed_agrees R hrequired s (h.mono (hahead s)) (hknown st s) with
        ⟨hok, st', hrun, hstate⟩ | ⟨hhard, hno⟩
      · rw [if_pos (by simp [hok]), hrun]
        rcases hstate with htracks | ⟨q, hq, -⟩
        · exact ih htracks
        · exact absurd hq hsingle
      · rw [if_neg (by simp [hhard])]
        rcases hno with hnone | ⟨hq, -⟩
        · simpa [hnone] using Status.ne_ok_of_hard hhard
        · exact absurd hq hsingle

end Lonejson
