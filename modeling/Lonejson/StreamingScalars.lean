import Lonejson.StreamingStrings

/-!
# The scalars of a streamed value

Numbers and literals are gathered in the token before they are delivered. A scalar that is the
whole value is read while the parser still waits for it, and its field is marked before the
token is stored.
-/

namespace Lonejson

open Json (Text Mode State Bracket)

variable {σ : Type}

section

variable {env : Env σ} {ptr : SlotPtr} {R : Recorder env ptr} {ref : FieldRef} {start : Parser σ}
  {ts : List Json.Token} {p : Parser σ} {inner : List Frame}

/-! ## Room for a scalar -/

theorem Located.limit (hat : Located env ptr ref start ts inner p) :
    tokenLimit env p = roomAt env ((start.valueRoom env ref).top inner.length)
      ((start.valueRoom env ref).base + inner.length) := by
  rw [tokenLimit_room, hat.top, hat.length]
  rfl

/-- A scalar that is longer than the room is denied. -/
theorem scalar_denied (hat : Located env ptr ref start ts inner p) {text : Bytes}
    (hlong : tokenLimit env p < text.length + 2) {t : Json.Token}
    (ht : t = .number text ∨ t = .literal text) (ts' : List Json.Token) :
    Denied env R ref start (ts ++ t :: ts') := by
  apply denied_token hat.granted.depth
  rw [hat.limit] at hlong
  rcases ht with rfl | rfl <;> exact decide_eq_false (Nat.not_le.mpr hlong)

theorem stops_number (hat : Located env ptr ref start ts inner p) {text : Bytes}
    (hlong : tokenLimit env p < text.length + 2) (stack : List Bracket) (s : Text) :
    Stops (Denied env R ref start) ts ⟨.number text, stack⟩ s := by
  intro more ts' r hts
  obtain ⟨num, ts'', rfl, hprefix⟩ := valueTokens_number hts
  apply scalar_denied hat ?_ (.inl rfl)
  exact lt_of_lt_of_le hlong (Nat.add_le_add_right hprefix.length_le 2)

theorem stops_literal (hat : Located env ptr ref start ts inner p) {text pre rest : Bytes}
    (htext : text ∈ [trueText, falseText, nullText]) (hpre : pre ≠ []) (hrest : rest ≠ [])
    (hsplit : text = pre ++ rest) (hlong : tokenLimit env p < text.length + 2)
    (stack : List Bracket) (s : Text) :
    Stops (Denied env R ref start) ts ⟨.literal pre.length rest, stack⟩ s := by
  intro more ts' r hts
  obtain ⟨ts'', rfl⟩ := valueTokens_literal htext hpre hrest hsplit hts
  exact scalar_denied hat hlong (.inr rfl) ts''

/-! ## The first character -/

/-- The registers of a scalar and an empty token. -/
def Parser.startScalar (env : Env σ) (p : Parser σ) (mode : LexMode) : Parser σ :=
  { p with lexMode := mode, lexIsKey := false,
           token := { data := some (tokenBase env p), cap := tokenLimit env p } }

/-- A scalar starts when there is room for its first character. -/
theorem beginScalar_starts (hR : R.Lawful) (hat : Located env ptr ref start ts inner p)
    (hcore : ScalarCore env R ts inner p.core) (mode : LexMode) (ch : Byte) (message : String) :
    let r := andThenOk (prepareToken env { p with lexMode := mode, lexIsKey := false }) fun p =>
      p.orFull (p.scratchAppend ch) message
    (r.2 = .ok ∧ ScalarAt env R ref start ts inner r.1 ∧ r.1.lexMode = mode ∧
        r.1.token.bytes = [ch]) ∨
      (Fails env R r ∧ tokenLimit env p < 3) := by
  have hkept : R.kept p.core := by
    rw [ScalarCore] at hcore
    split at hcore
    · exact hR.waits_kept hcore.2
    · exact hR.inside_kept hcore
  have hprepare : prepareToken env { p with lexMode := mode, lexIsKey := false } =
      if tokenLimit env p = 0 then
        (p.startScalar env mode).setError .overflow "parser workspace exhausted by token"
      else (p.startScalar env mode, .ok) := rfl
  intro r
  by_cases hnone : tokenLimit env p = 0
  · rw [if_pos hnone] at hprepare
    have hr : r = (p.startScalar env mode).setError .overflow
        "parser workspace exhausted by token" := by
      simp only [r]
      rw [hprepare, andThenOk, if_neg (by simp [Parser.setError, Parser.onCore, Core.setError])]
    refine .inr ⟨?_, by omega⟩
    rw [hr]
    exact fails_error hR hkept rfl _ _
  rw [if_neg hnone] at hprepare
  have hr : r = (p.startScalar env mode).orFull ((p.startScalar env mode).scratchAppend ch)
      message := by
    simp only [r]
    rw [hprepare, andThenOk_ok]
  by_cases hroom : 3 ≤ tokenLimit env p
  · have happend : (p.startScalar env mode).scratchAppend ch =
        some { p.startScalar env mode with
          token := { (p.startScalar env mode).token with bytes := [ch] } } := by
      rw [Parser.scratchAppend, if_pos (by exact hroom)]
      rfl
    rw [hr, happend]
    refine .inl ⟨rfl, ?_, rfl, rfl⟩
    exact ⟨hat.same rfl rfl rfl, hcore, rfl, rfl, rfl, hroom⟩
  · have hfull : (p.startScalar env mode).scratchAppend ch = none := by
      rw [Parser.scratchAppend, if_neg (by exact hroom)]
    rw [hr, hfull]
    refine .inr ⟨?_, by omega⟩
    exact fails_error hR hkept rfl _ _

theorem beginNumberLex_follows (hR : R.Lawful) (hat : Located env ptr ref start ts inner p)
    (hcore : ScalarCore env R ts inner p.core) (ch : Byte) :
    ((beginNumberLex env p ch).2 = .ok ∧
        Streams env R ref start ts (beginNumberLex env p ch).1 ⟨.number [ch], brackets inner⟩) ∨
      (Fails env R (beginNumberLex env p ch) ∧
        ∀ s, Stops (Denied env R ref start) ts ⟨.number [ch], brackets inner⟩ s) := by
  rcases beginScalar_starts hR hat hcore .number ch "failed to append number" with
    ⟨hok, hscalar, hmode, hbytes⟩ | ⟨hfails, hlimit⟩
  · refine .inl ⟨hok, ?_⟩
    have hstreams := Streams.number hscalar hmode
    rw [hbytes] at hstreams
    exact hstreams
  · refine .inr ⟨hfails, ?_⟩
    have hlong : tokenLimit env p < [ch].length + 2 := hlimit
    exact stops_number hat hlong _

theorem beginLiteralLex_follows (hR : R.Lawful) (hat : Located env ptr ref start ts inner p)
    (hcore : ScalarCore env R ts inner p.core) {mode : LexMode} {ch : Byte} {rest : Bytes}
    (hmode : literalText? mode = some (ch :: rest)) :
    ((beginLiteralLex env p mode ch).2 = .ok ∧
        Streams env R ref start ts (beginLiteralLex env p mode ch).1
          ⟨.literal 1 rest, brackets inner⟩) ∨
      (Fails env R (beginLiteralLex env p mode ch) ∧
        ∀ s, Stops (Denied env R ref start) ts ⟨.literal 1 rest, brackets inner⟩ s) := by
  have htext : ch :: rest ∈ [trueText, falseText, nullText] := by
    cases mode <;> simp_all [literalText?]
  have hlength : 4 ≤ (ch :: rest).length := by
    simp only [List.mem_cons, List.not_mem_nil, or_false] at htext
    rcases htext with h | h | h <;> rw [h] <;> decide
  have hrest : rest ≠ [] := by
    rintro rfl
    simp at hlength
  rcases beginScalar_starts hR hat hcore mode ch "failed to append literal" with
    ⟨hok, hscalar, hlex, hbytes⟩ | ⟨hfails, hlimit⟩
  · refine .inl ⟨hok, ?_⟩
    have hsplit : literalText? (beginLiteralLex env p mode ch).1.lexMode =
        some ((beginLiteralLex env p mode ch).1.token.bytes ++ rest) := by
      rw [beginLiteralLex, hlex, hbytes, hmode]
      rfl
    have hstreams := Streams.literal hscalar hsplit (by rw [hbytes]; simp) hrest
    rw [hbytes] at hstreams
    exact hstreams
  · refine .inr ⟨hfails, ?_⟩
    have hlong : tokenLimit env p < (ch :: rest).length + 2 := by omega
    have hpre : [ch] ≠ [] := List.cons_ne_nil ch []
    exact stops_literal hat htext hpre hrest rfl hlong _

/-! ## The delivery of a scalar -/

theorem Frame.store_same {f : Frame} {offset : ℕ} (value : Byte)
    (h : ∀ seen, f.seenFields = some seen → offset < seen.offset) : f.store offset value = f := by
  rw [Frame.store]
  split
  · rfl
  · rename_i seen hseen
    rw [if_neg (by have := h seen hseen; omega)]

theorem Frame.Waits.store {f : Frame} (h : f.Waits ref ptr) (offset : ℕ) (value : Byte) :
    (f.store offset value).Waits ref ptr := by
  rw [Frame.store]
  split
  · exact h
  · split
    · exact ⟨h.kind, h.state, h.pending, h.slot⟩
    · exact h

/-- The NUL behind the token reaches no frame of the value, and no mark before it. -/
theorem ScalarAt.cstr (hstart : AwaitsValue env R ref start) (hat : ScalarAt env R ref start ts inner p) :
    Located env ptr ref start ts inner p.scratchCstr := by
  obtain ⟨base, outer, hframes, hbase, hlength⟩ := hat.located.frames
  have hcstr : p.scratchCstr.frames = p.frames.map fun frame =>
      frame.store (tokenBase env p + p.token.bytes.length) 0 := by
    rw [Parser.scratchCstr, hat.data]
  have htop : p.scratchCstr.workspaceTop = p.workspaceTop := by
    rw [Parser.scratchCstr, hat.data]
  have hstarted : p.scratchCstr.rootStarted = p.rootStarted := by
    rw [Parser.scratchCstr, hat.data]
  have hinner : ∀ f ∈ inner, f.store (tokenBase env p + p.token.bytes.length) 0 = f := by
    intro f hf
    apply Frame.store_same
    intro seen hseen
    rw [(hat.located.open_frames f hf).seen] at hseen
    cases hseen
  have hsame : inner.map (fun frame => frame.store (tokenBase env p + p.token.bytes.length) 0) =
      inner := (List.map_congr_left hinner).trans (List.map_id inner)
  have hsplit : p.scratchCstr.frames =
      inner ++ base.store (tokenBase env p + p.token.bytes.length) 0 ::
        outer.map fun frame => frame.store (tokenBase env p + p.token.bytes.length) 0 := by
    rw [hcstr, hframes, List.map_append, List.map_cons, hsame]
  refine ⟨⟨_, _, hsplit, hbase.store _ _, by rw [List.length_map, hlength]⟩, ?_,
    hat.located.open_frames, htop.trans hat.located.top, hstarted.trans hat.located.started,
    hat.located.granted⟩
  rintro rfl
  have hhome := hat.located.home rfl
  have hroom : tokenBase env p + p.token.bytes.length < start.workspaceTop := by
    have hlimit := hat.fits
    have hstartTop : p.workspaceTop = start.workspaceTop := hat.located.top
    rw [hat.cap, tokenLimit, hstartTop] at hlimit
    rw [tokenBase]
    split at hlimit
    · omega
    · omega
  rw [hcstr, hhome]
  refine (List.map_congr_left fun f hf => ?_).trans (List.map_id _)
  apply Frame.store_same
  intro seen hseen
  exact lt_of_lt_of_le hroom (hstart.above f hf seen hseen)

/-- A number, or the text of a literal. -/
def ScalarText (mode : LexMode) (text : Bytes) : Prop :=
  mode = .number ∧ isValidJsonNumber text = true ∨ literalText? mode = some text

theorem ScalarText.mode_ne {mode : LexMode} {text : Bytes} (h : ScalarText mode text) :
    mode ≠ .none ∧ mode ≠ .string := by
  rcases h with ⟨rfl, -⟩ | h
  · exact ⟨LexMode.noConfusion, LexMode.noConfusion⟩
  · constructor <;> rintro rfl <;> cases h

theorem ScalarText.number {mode : LexMode} {text : Bytes} (h : ScalarText mode text)
    (hmode : mode = .number) : isValidJsonNumber text = true := by
  rcases h with ⟨-, h⟩ | h
  · exact h
  · subst hmode
    cases h

theorem ScalarText.token {mode : LexMode} {text : Bytes} (h : ScalarText mode text) :
    scalarToken text mode = .number text ∨ scalarToken text mode = .literal text := by
  rcases h with ⟨rfl, -⟩ | h
  · exact .inl rfl
  · cases mode <;> cases h <;> exact .inr rfl

/-- A scalar that was read had its room. -/
theorem ScalarAt.granted (hat : ScalarAt env R ref start ts inner p)
    (hmarks : (start.valueRoom env ref).marks = true) {mode : LexMode}
    (hmode : ScalarText mode p.token.bytes) :
    (start.valueRoom env ref).Grants env (ts ++ [scalarToken p.token.bytes mode]) inner.length := by
  have hfits := hat.fits
  rw [hat.cap, hat.located.limit] at hfits
  rcases hmode.token with htoken | htoken
  · rw [htoken]
    exact hat.located.granted.token hmarks (decide_eq_true hfits)
  · rw [htoken]
    exact hat.located.granted.token hmarks (decide_eq_true hfits)

/-- A scalar inside a container. -/
theorem deliverScalar_nested (hR : R.Lawful) (hstart : AwaitsValue env R ref start) {f : Frame}
    (hat : ScalarAt env R ref start ts (f :: inner) p) (hlex : p.lexMode = .none) {mode : LexMode}
    (hmode : ScalarText mode p.token.bytes) :
    ((deliverToken env p mode).2 = .ok ∧
        Follows env R ref start (ts ++ [scalarToken p.token.bytes mode]) (deliverToken env p mode).1
          ⟨.after, brackets (f :: inner)⟩) ∨
      (Fails env R (deliverToken env p mode) ∧
        Denied env R ref start (ts ++ [scalarToken p.token.bytes mode])) := by
  have hlocated := hat.cstr hstart
  obtain ⟨base, outer, hframes, hbase, hlength⟩ := hlocated.frames
  have hf := hat.located.open_frames f (by simp)
  have hinside : R.inside (inner.length + 1) ts p.core := by
    have hcore := hat.core
    rw [ScalarCore, if_neg (List.cons_ne_nil f inner)] at hcore
    exact hcore
  have hlex' : p.scratchCstr.lexMode = .none := by
    rw [Parser.scratchCstr, hat.data]
    exact hlex
  obtain ⟨afterComma, hdeliver⟩ := @deliverToken_nested _ env p f _ mode hframes hf hat.key
    (hR.inside_live hinside).1 hmode.number
  have hgoes := @Recorder.Lawful.scalars _ _ _ _ hR _ _ _ p.token.bytes mode hinside
    hmode.mode_ne.1 hmode.mode_ne.2
  rw [hdeliver, andThenOk]
  by_cases hok : (deliverStreamedScalar env p.core p.token.bytes mode).2 = .ok
  swap
  · obtain ⟨hfails, hdeny⟩ := @Fails.of_goes _ _ _ _ _ p.scratchCstr _ _ hgoes hok
    rw [if_neg (by exact hok)]
    exact .inr ⟨hfails, .inr (.inr hdeny)⟩
  obtain ⟨-, hinside'⟩ := hgoes.resolve_right fun h => by simp [hok] at h
  rw [if_pos (by exact hok)]
  refine .inl ?_
  refine complete_follows ({ f with afterComma } :: inner)
    (Parser.modifyTop_cons (by exact hframes) _) hbase hlength ?_ ?_ hlocated.started hlex'
    (hat.granted hlocated.granted.marked hmode) (by simp) (fun h => by cases h) fun _ => hinside'
  · intro g hg
    rcases List.mem_cons.mp hg with rfl | hg
    · exact ⟨hf.map, hf.pending, hf.seen, hf.field, hf.kind⟩
    · exact hat.located.open_frames g (by simp [hg])
  · intro _
    exact hlocated.top

theorem markedText_length (text : Bytes) :
    (start.markedText env ref text).length = text.length :=
  markFieldSeen_length ref

/-- A scalar that is the whole value is recorded as the mark leaves it. -/
theorem exit_scalar {mode : LexMode} {text : Bytes} (hmode : ScalarText mode text)
    (marked : Bytes → Bytes) :
    R.exit marked [scalarToken text mode] = [R.valueToken (marked text) mode] := by
  rcases hmode with ⟨rfl, -⟩ | h
  · rfl
  · cases mode <;> cases h
    · simp [Recorder.exit, Recorder.exitToken, scalarToken, scalarText, Recorder.valueToken,
        trueText, nullText]
    · simp [Recorder.exit, Recorder.exitToken, scalarToken, scalarText, Recorder.valueToken,
        falseText, nullText]
    · simp [Recorder.exit, Recorder.exitToken, scalarToken, scalarText, Recorder.valueToken]

theorem valueToken_eq {mode : LexMode} {text : Bytes} (hmode : ScalarText mode text) :
    R.valueToken text mode = scalarToken text mode := by
  rcases hmode with ⟨rfl, -⟩ | h
  · rfl
  · cases mode <;> cases h <;> simp [Recorder.valueToken, scalarToken, scalarText]

/-- The field of the value is marked, and the token is stored. -/
theorem deliverToken_value {q : Parser σ} {f : Frame} {outer : List Frame} {mode : LexMode}
    (hq : p.scratchCstr = q) (hframes : q.frames = f :: outer) (hwaits : f.Waits ref ptr)
    (hkey : q.lexIsKey = false)
    (hactive : q.core.json.active = false) (hmode : ScalarText mode q.token.bytes) :
    deliverToken env p mode =
      let r := handleScalarForField env q (some ref) mode
      if r.2.soft then completeParentAfterValue r.1 else r := by
  rw [deliverToken]
  dsimp only
  rw [hq, hkey, if_neg Bool.false_ne_true, hframes]
  dsimp only
  rw [if_neg fun h => h.2.2 (hmode.number h.1), hwaits.kind]
  dsimp only
  rw [if_neg (by rw [hactive]; simp), hwaits.pending]

theorem deliverScalar_value (hR : R.Lawful) (hstart : AwaitsValue env R ref start)
    (hat : ScalarAt env R ref start ts [] p) (hlex : p.lexMode = .none) {mode : LexMode}
    (hmode : ScalarText mode p.token.bytes) :
    ((deliverToken env p mode).2 = .ok ∧
        Follows env R ref start (ts ++ [scalarToken p.token.bytes mode]) (deliverToken env p mode).1
          ⟨.after, []⟩) ∨
      (Fails env R (deliverToken env p mode) ∧
        Denied env R ref start (ts ++ [scalarToken p.token.bytes mode])) := by
  obtain ⟨f, outer, hstartFrames, hwaits⟩ := hstart.frame
  obtain ⟨field, hfield, hkind⟩ := hstart.field_kind
  obtain ⟨rfl, hcore⟩ : ts = [] ∧ R.waits p.core := hat.core
  have hlocated := hat.cstr hstart
  have hbase : tokenBase env p = tokenBase env start := by
    rw [tokenBase, tokenBase, hat.located.home rfl]
  have hcstr : p.scratchCstr = { p with
      token := { p.token with terminator := 0 }, frames := p.scratchCstr.frames } := by
    rw [Parser.scratchCstr, hat.data]
  generalize p.scratchCstr.frames = frames at hcstr
  generalize hq : p.scratchCstr = q at hlocated hcstr
  have hframes : q.frames = f :: outer := (hlocated.home rfl).trans hstartFrames
  have hqcore : q.core = p.core := by rw [hcstr]
  have hqbytes : q.token.bytes = p.token.bytes := by rw [hcstr]
  have hgranted (hmarks : (start.valueRoom env ref).marks = true) := hat.granted hmarks hmode
  have hqdata : q.token.data = some (tokenBase env start) := by
    rw [hcstr, ← hbase]
    exact hat.data
  have hqlex : q.lexMode = .none := by
    rw [hcstr]
    exact hlex
  have hqkey : q.lexIsKey = false := by
    rw [hcstr]
    exact hat.key
  rw [← hqbytes] at hmode hgranted ⊢
  rw [← hqcore] at hcore
  rw [deliverToken_value hq hframes hwaits hqkey (hR.waits_idle hcore).1 hmode]
  have hmark := mark_follows (p := q) hR hstartFrames hframes hlocated.top hwaits ⟨rfl, rfl, rfl⟩
    (hR.waits_kept hcore)
  rcases hmark with ⟨hmarks, hok, base, token, hbase', hmarked⟩ | ⟨hmarks, hfails⟩
  swap
  · rw [handleScalarForField, andThenOk, if_neg (Status.ne_ok_of_hard hfails.1)]
    dsimp only
    rw [if_neg (by simp [hfails.1])]
    exact .inr ⟨hfails, .inl hmarks⟩
  -- The token that is stored is the one that the mark has left.
  have htoken : token.bytes = start.markedText env ref q.token.bytes := by
    have halike : Parser.MarksAlike
        { start with token := { data := some (tokenBase env start), bytes := q.token.bytes } } q :=
      ⟨hlocated.top, f, outer, f, outer, hstartFrames, hframes, rfl, rfl, rfl, rfl⟩
    have hsame := ((@markFieldSeen_alike _ env _ _ halike ref).2.2 hqdata rfl).2
    rw [hmarked] at hsame
    exact hsame
  have hassign : handleScalarForField env q (some ref) mode =
      (markFieldSeen env q ref).1.onCore
        (assignJsonScalar env q.core ptr (start.markedText env ref q.token.bytes) mode) := by
    rw [handleScalarForField, andThenOk, if_pos hok, hmarked]
    dsimp only
    rw [hfield]
    dsimp only
    rw [assignScalar.eq_def, if_neg hmode.mode_ne.1, if_pos hkind, hbase'.slot, htoken]
  have hgoes := @Recorder.Lawful.scalarValue _ _ _ _ hR _
    (start.markedText env ref q.token.bytes) mode hcore hmode.mode_ne.1 hmode.mode_ne.2
  rw [hassign]
  rcases hgoes with ⟨hgood, hended⟩ | ⟨hhard, hcode, hkept, hdeny⟩
  · have hsoft : (assignJsonScalar env q.core ptr (start.markedText env ref q.token.bytes)
        mode).2.soft = true := by rw [hgood]; rfl
    have hlength : outer.length + 1 = start.frames.length := by
      rw [hstartFrames]
      rfl
    dsimp only [Parser.onCore]
    rw [if_pos hsoft, hmarked]
    refine .inl ?_
    refine complete_follows [] rfl hbase' hlength (fun _ h => by cases h) (absurd rfl ·)
      hlocated.started hqlex (hgranted hmarks) (by simp) ?_ (absurd rfl ·)
    intro _
    rw [List.nil_append, exit_scalar hmode]
    exact hended
  · dsimp only [Parser.onCore]
    rw [if_neg (by simp [hhard])]
    refine .inr ⟨⟨hhard, hcode, hkept⟩, .inr (.inr ?_)⟩
    have hdeny' := hR.deny_scalar (markedText_length _) hdeny
    rw [valueToken_eq hmode] at hdeny'
    exact hdeny'

/-- The delivery of a number or of a literal. -/
theorem deliverScalar_follows (hR : R.Lawful) (hstart : AwaitsValue env R ref start)
    (hat : ScalarAt env R ref start ts inner p) (hlex : p.lexMode = .none) {mode : LexMode}
    (hmode : ScalarText mode p.token.bytes) :
    ((deliverToken env p mode).2 = .ok ∧
        Follows env R ref start (ts ++ [scalarToken p.token.bytes mode]) (deliverToken env p mode).1
          ⟨.after, brackets inner⟩) ∨
      (Fails env R (deliverToken env p mode) ∧
        Denied env R ref start (ts ++ [scalarToken p.token.bytes mode])) := by
  cases inner with
  | nil => exact deliverScalar_value hR hstart hat hlex hmode
  | cons f fs => exact deliverScalar_nested hR hstart hat hlex hmode

end

end Lonejson
