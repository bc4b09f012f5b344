import Lonejson.StreamingScalars

/-!
# The steps of a streamed value

One byte inside the value is one step of the machine, or the step fails.
-/

namespace Lonejson

open Json (Text Mode State Bracket Place)

variable {σ : Type}

section

variable {env : Env σ} {ptr : SlotPtr} {R : Recorder env ptr} {ref : FieldRef} {start : Parser σ}
  {ts : List Json.Token} {p : Parser σ} {inner : List Frame}

/-! ## Steps -/

theorem StreamStep.of_told {st st' : State DecodeState} {b : Byte} {ts' : List Json.Token}
    {r : Parser σ × Status} (htold : ∀ s, Told st (b :: s) ts' st' s)
    (h : (r.2 = .ok ∧ Follows env R ref start (ts ++ ts') r.1 st') ∨
      (Fails env R r ∧ ∀ s, Stops (Denied env R ref start) (ts ++ ts') st' s)) :
    StreamStep env R ref start ts st b r := by
  rcases h with ⟨hok, hfollows⟩ | ⟨hfails, hstops⟩
  · exact .inl ⟨hok, ts', st', htold, hfollows⟩
  · exact .inr ⟨hfails, fun s => (hstops s).told (htold s)⟩

/-- A byte that a state leaves to another. -/
theorem StreamStep.before {st st' : State DecodeState} {b : Byte} {r : Parser σ × Status}
    (htold : ∀ s, Told st (b :: s) [] st' (b :: s)) (h : StreamStep env R ref start ts st' b r) :
    StreamStep env R ref start ts st b r := by
  rcases h with ⟨hok, ts', st'', htold', hfollows⟩ | ⟨hfails, hstops⟩
  · exact .inl ⟨hok, ts', st'', fun s => (htold s).trans (htold' s), hfollows⟩
  · refine .inr ⟨hfails, fun s => (Stops.told (htold s) ?_)⟩
    rw [List.append_nil]
    exact hstops s

/-- A byte that the machine does not take either. -/
theorem StreamStep.of_reject (hR : R.Lawful) {st : State DecodeState} {b : Byte}
    (hkept : R.kept p.core) (hend : Json.ended st = false)
    (hlast : Json.lastNumber valueMachine st b = none) (hstep : Json.step valueMachine st b = none)
    (message : String) : StreamStep env R ref start ts st b (p.setError .invalidJson message) :=
  .inr ⟨fails_error hR hkept rfl _ _, fun s => stops_of_reject hend hlast hstep s⟩

/-! ## Blanks -/

theorem Streams.moved {st : State DecodeState} (h : Streams env R ref start ts p st) (pos : Pos)
    (hlex : p.lexMode = .none) : Streams env R ref start ts { p with pos } st := by
  cases h with
  | waits hat hnil _ hcore => exact .waits (hat.same rfl rfl rfl) hnil hlex hcore
  | between hat _ hcore => exact .between (hat.same rfl rfl rfl) hlex hcore
  | text hat =>
      rw [hat.lex] at hlex
      cases hlex
  | number hat hnumber =>
      rw [hnumber] at hlex
      cases hlex
  | literal hat hliteral =>
      rw [hlex] at hliteral
      cases hliteral

/-- Between tokens the machine is at a place. -/
theorem Streams.place {st : State DecodeState} (h : Streams env R ref start ts p st)
    (hlex : p.lexMode = .none) :
    ∃ (place : Place) (stack : List Bracket), st = ⟨place.mode, stack⟩ ∧ place.Fits stack ∧
      (place ≠ .after ∨ stack ≠ []) := by
  cases h with
  | waits => exact ⟨.value, [], rfl, trivial, .inl Place.noConfusion⟩
  | @between f fs hat _ _ =>
      have hkind := (hat.open_frames f (by simp)).kind
      have hne : brackets (f :: fs) ≠ [] := List.cons_ne_nil _ _
      have hobject (h : f.kind = .object) : ∃ outer, brackets (f :: fs) = .object :: outer :=
        ⟨brackets fs, by rw [brackets, List.map_cons, h]; rfl⟩
      have harray (h : f.kind = .array) : ∃ outer, brackets (f :: fs) = .array :: outer :=
        ⟨brackets fs, by rw [brackets, List.map_cons, h]; rfl⟩
      cases hstate : f.state with
      | objectKeyOrEnd =>
          rw [hstate] at hkind
          cases f.afterComma
          · exact ⟨.keyOrEnd, _, rfl, hobject hkind.symm, .inr hne⟩
          · exact ⟨.key, _, rfl, hobject hkind.symm, .inr hne⟩
      | objectColon =>
          rw [hstate] at hkind
          exact ⟨.colon, _, rfl, hobject hkind.symm, .inr hne⟩
      | objectValue => exact ⟨.value, _, rfl, trivial, .inr hne⟩
      | objectCommaOrEnd => exact ⟨.after, _, rfl, trivial, .inr hne⟩
      | arrayValueOrEnd =>
          rw [hstate] at hkind
          cases f.afterComma
          · exact ⟨.itemOrEnd, _, rfl, harray hkind.symm, .inr hne⟩
          · exact ⟨.value, _, rfl, trivial, .inr hne⟩
      | arrayCommaOrEnd => exact ⟨.after, _, rfl, trivial, .inr hne⟩
  | text hat =>
      rw [hat.lex] at hlex
      cases hlex
  | number hat hnumber =>
      rw [hnumber] at hlex
      cases hlex
  | literal hat hliteral =>
      rw [hlex] at hliteral
      cases hliteral

theorem blank_step {st : State DecodeState} (h : Streams env R ref start ts p st)
    (hlex : p.lexMode = .none) {b : Byte} (hb : isJsonSpace b = true) (pos : Pos) :
    StreamStep env R ref start ts st b ({ p with pos }, .ok) := by
  obtain ⟨place, stack, rfl, hfits, hopen⟩ := h.place hlex
  refine .inl ⟨rfl, [], ⟨place.mode, stack⟩, ?_, .inl ?_⟩
  · intro s
    exact Json.tells_blank hfits hopen hb s
  · rw [List.append_nil]
    exact h.moved pos hlex

/-! ## A value -/

variable (env R ref start ts inner) in
/-- A parser that waits for a value. -/
structure AtValue (p : Parser σ) : Prop where
  located : Located env ptr ref start ts inner p
  core : ScalarCore env R ts inner p.core
  lex : p.lexMode = .none

theorem AtValue.kept (hR : R.Lawful) (h : AtValue env R ref start ts inner p) : R.kept p.core := by
  have hcore := h.core
  rw [ScalarCore] at hcore
  split at hcore
  · exact hR.waits_kept hcore.2
  · exact hR.inside_kept hcore

theorem quote_step (hR : R.Lawful) (hstart : AwaitsValue env R ref start)
    (hat : AtValue env R ref start ts inner p) {field : Option FieldRef} {ptr' : SlotPtr}
    (hvalue : inner = [] → field = some ref ∧ ptr' = ptr) (hitem : inner ≠ [] → field = none) :
    StreamStep env R ref start ts ⟨.value, brackets inner⟩ 0x22
      (beginStringValueLex env p field ptr') := by
  have htold (s : Text) : Told ⟨.value, brackets inner⟩ (0x22 :: s) []
      ⟨.string false {}, brackets inner⟩ s := Json.tells_quote valueMachine_boundless _ s
  apply StreamStep.of_told htold
  rw [List.append_nil]
  have hcore := hat.core
  cases inner with
  | nil =>
      obtain ⟨rfl, rfl⟩ := hvalue rfl
      obtain ⟨rfl, hwaits⟩ := hcore
      rcases beginStringValueLex_value hR hstart hat.located hwaits with ⟨hok, h⟩ | h
      · exact .inl ⟨hok, .inl h⟩
      · exact .inr h
  | cons f fs =>
      obtain rfl := hitem (List.cons_ne_nil f fs)
      rw [ScalarCore, if_neg (List.cons_ne_nil f fs)] at hcore
      rcases beginStringValueLex_nested hR hat.located hcore ptr' with ⟨hok, h⟩ | h
      · exact .inl ⟨hok, .inl h⟩
      · exact .inr h

theorem openObject_step (hR : R.Lawful) (hstart : AwaitsValue env R ref start)
    (hat : AtValue env R ref start ts inner p) :
    StreamStep env R ref start ts ⟨.value, brackets inner⟩ 0x7b (beginObjectValue env p) := by
  have htold (s : Text) : Told ⟨.value, brackets inner⟩ (0x7b :: s) [.opening .object]
      ⟨.keyOrEnd, .object :: brackets inner⟩ s :=
    Json.tells_opening valueMachine_boundless .object _ s
  apply StreamStep.of_told htold
  have hcore := hat.core
  cases inner with
  | nil =>
      obtain ⟨rfl, hwaits⟩ := hcore
      rcases beginObjectValue_value hR hstart hat.located hat.lex hwaits with
        ⟨hok, h⟩ | ⟨hfails, hdenied⟩
      · exact .inl ⟨hok, .inl h⟩
      · exact .inr ⟨hfails, fun s => stops_denied hR (hdenied []) _ s⟩
  | cons f fs =>
      rw [ScalarCore, if_neg (List.cons_ne_nil f fs)] at hcore
      rcases beginObjectValue_nested hR hat.located hat.lex hcore with
        ⟨hok, h⟩ | ⟨hfails, hdenied⟩
      · exact .inl ⟨hok, .inl h⟩
      · exact .inr ⟨hfails, fun s => stops_denied hR (hdenied []) _ s⟩

theorem openArray_step (hR : R.Lawful) (hstart : AwaitsValue env R ref start)
    (hat : AtValue env R ref start ts inner p) :
    StreamStep env R ref start ts ⟨.value, brackets inner⟩ 0x5b (beginArrayValue env p) := by
  have htold (s : Text) : Told ⟨.value, brackets inner⟩ (0x5b :: s) [.opening .array]
      ⟨.itemOrEnd, .array :: brackets inner⟩ s :=
    Json.tells_opening valueMachine_boundless .array _ s
  apply StreamStep.of_told htold
  have hcore := hat.core
  cases inner with
  | nil =>
      obtain ⟨rfl, hwaits⟩ := hcore
      rcases beginArrayValue_value hR hstart hat.located hat.lex hwaits with
        ⟨hok, h⟩ | ⟨hfails, hdenied⟩
      · exact .inl ⟨hok, .inl h⟩
      · exact .inr ⟨hfails, fun s => stops_denied hR (hdenied []) _ s⟩
  | cons f fs =>
      rw [ScalarCore, if_neg (List.cons_ne_nil f fs)] at hcore
      rcases beginArrayValue_nested hR hat.located hat.lex hcore with
        ⟨hok, h⟩ | ⟨hfails, hdenied⟩
      · exact .inl ⟨hok, .inl h⟩
      · exact .inr ⟨hfails, fun s => stops_denied hR (hdenied []) _ s⟩

/-- The first character of a number or of a literal. -/
theorem scalar_step (hR : R.Lawful) (hat : AtValue env R ref start ts inner p) {b : Byte}
    {r : Parser σ × Status} (hr : beginScalar env p b = some r) :
    StreamStep env R ref start ts ⟨.value, brackets inner⟩ b r := by
  rw [beginScalar] at hr
  split at hr
  · rename_i hb
    cases hr
    have hnumber : valueMachine.numberStart b = true := by
      simpa [valueMachine, isNumberStart] using hb
    have htold (s : Text) : Told ⟨.value, brackets inner⟩ (b :: s) [] ⟨.number [b], brackets inner⟩ s :=
      Json.tells_numberStart valueMachine_boundless valueMachine_lawful hnumber _ s
    apply StreamStep.of_told htold
    rw [List.append_nil]
    rcases beginNumberLex_follows hR hat.located hat.core b with ⟨hok, h⟩ | h
    · exact .inl ⟨hok, .inl h⟩
    · exact .inr h
  · split at hr
    · rename_i hb
      cases hr
      obtain ⟨rest, hmode, htext⟩ : ∃ rest, literalText? (literalMode b) = some (b :: rest) ∧
          b :: rest ∈ [trueText, falseText, nullText] := by
        rcases hb with rfl | rfl | rfl
        · exact ⟨_, rfl, by decide⟩
        · exact ⟨_, rfl, by decide⟩
        · exact ⟨_, rfl, by decide⟩
      have htold (s : Text) : Told ⟨.value, brackets inner⟩ (b :: s) []
          ⟨.literal 1 rest, brackets inner⟩ s :=
        Json.tells_literalStart valueMachine_boundless htext _ s
      apply StreamStep.of_told htold
      rw [List.append_nil]
      rcases beginLiteralLex_follows hR hat.located hat.core hmode with ⟨hok, h⟩ | h
      · exact .inl ⟨hok, .inl h⟩
      · exact .inr h
    · cases hr

theorem value_reject (stack : List Bracket) {b : Byte} (hspace : isJsonSpace b = false)
    (hquote : b ≠ 0x22) (hobject : b ≠ 0x7b) (harray : b ≠ 0x5b)
    (hscalar : beginScalar env p b = none) :
    Json.step valueMachine ⟨.value, stack⟩ b = none := by
  rw [beginScalar] at hscalar
  split_ifs at hscalar with hnumber hliteral
  have hstart : isNumberStart b = false := by
    simpa [isNumberStart] using hnumber
  push Not at hliteral
  simp [Json.step, Json.stepValue, isSpace_eq, hspace, hquote, hobject, harray, hliteral,
    valueMachine, hstart]

/-- A value that starts with none of these is an error. -/
theorem badValue_step (hR : R.Lawful) (hat : AtValue env R ref start ts inner p) {b : Byte}
    (hspace : isJsonSpace b = false) (hquote : b ≠ 0x22) (hobject : b ≠ 0x7b) (harray : b ≠ 0x5b)
    (hscalar : beginScalar env p b = none) (message : String) :
    StreamStep env R ref start ts ⟨.value, brackets inner⟩ b (p.setError .invalidJson message) := by
  apply StreamStep.of_reject hR (hat.kept hR)
  · cases inner <;> rfl
  · rfl
  · exact value_reject _ hspace hquote hobject harray hscalar

/-- Behind the quote of a string every byte that may start a value is tried. -/
theorem valueChar_step (hR : R.Lawful) (hstart : AwaitsValue env R ref start)
    (hat : AtValue env R ref start ts inner p) {b : Byte} (hspace : isJsonSpace b = false)
    (hquote : b ≠ 0x22) (message : String) :
    StreamStep env R ref start ts ⟨.value, brackets inner⟩ b
      (if b = 0x7b then beginObjectValue env p
       else if b = 0x5b then beginArrayValue env p
       else (beginScalar env p b).getD (p.setError .invalidJson message)) := by
  split_ifs with hobject harray
  · subst hobject
    exact openObject_step hR hstart hat
  · subst harray
    exact openArray_step hR hstart hat
  · cases hscalar : beginScalar env p b with
    | none => exact badValue_step hR hat hspace hquote hobject harray hscalar message
    | some r => exact scalar_step hR hat hscalar

/-! ## Turns between tokens -/

theorem feedTurn_between {f : Frame} {fs : List Frame} (hlex : p.lexMode = .none)
    (hframes : p.frames = f :: fs) (ch : Byte) (rest : Bytes) :
    feedTurn env p ch rest = frameTurn env p f ch := by
  rw [feedTurn, if_neg fun h => by simp [hlex] at h, if_neg (by simp [hlex]), hlex, hframes]

theorem structuralChar_eq {f : Frame} {fs : List Frame} (hframes : p.frames = f :: fs)
    (hstarted : p.rootStarted = true) (ch : Byte) :
    consumeStructuralChar env p ch =
      if isJsonSpace ch then ({ p with pos := p.pos.step ch }, .ok)
      else consumeFrameChar env { p with pos := p.pos.step ch } f ch := by
  rw [consumeStructuralChar]
  dsimp only
  rw [hstarted, hframes]
  rfl

theorem beginScalar_not_space {ch : Byte} {r : Parser σ × Status}
    (h : beginScalar env p ch = some r) : isJsonSpace ch = false := by
  rw [beginScalar] at h
  split at h
  · rename_i hnumber
    have hstart : isNumberStart ch = true := by simpa [isNumberStart] using hnumber
    exact valueMachine_lawful.not_space ch (valueMachine_lawful.start_byte ch hstart)
  · split at h
    · rename_i hliteral
      rcases hliteral with rfl | rfl | rfl <;> rfl
    · cases h

/-- A turn that is one step of the machine. -/
def SteppedTurn (env : Env σ) (R : Recorder env ptr) (ref : FieldRef) (start : Parser σ)
    (ts : List Json.Token) (p : Parser σ) (st : State DecodeState) (ch : Byte) : Prop :=
  ∃ r, StreamStep env R ref start ts st ch r ∧ ∀ rest, feedTurn env p ch rest = turnSoft r 1

theorem AtValue.moved (h : AtValue env R ref start ts inner p) (pos : Pos) :
    AtValue env R ref start ts inner { p with pos } :=
  ⟨h.located.same rfl rfl rfl, h.core, h.lex⟩

/-- The value of a member: the one that is streamed, or one inside it. -/
theorem member_turn (hR : R.Lawful) (hstart : AwaitsValue env R ref start)
    (hat : AtValue env R ref start ts inner p) (hstreams : Streams env R ref start ts p
      ⟨.value, brackets inner⟩) {f : Frame} {fs : List Frame}
    (hframes : p.frames = f :: fs) (hkind : f.kind = .object) (hstate : f.state = .objectValue)
    (hvalue : inner = [] → f.Waits ref ptr) (hmember : inner ≠ [] → f.pendingField = none)
    (ch : Byte) : SteppedTurn env R ref start ts p ⟨.value, brackets inner⟩ ch := by
  have hturn (rest : Bytes) := @feedTurn_between _ env p f fs hat.lex hframes ch rest
  have hstructural := @structuralChar_eq _ env p f fs hframes hat.located.started ch
  have hchar := @charTurn_between _ env _ hat.lex ch
  by_cases hquote : ch = 0x22
  · subst hquote
    have hstep : StreamStep env R ref start ts ⟨.value, brackets inner⟩ 0x22
        (beginStringValueLex env (p.advance 1) f.pendingField
          ((f.pendingField.map f.slot).getD { obj := [], idx := 0 })) := by
      refine quote_step hR hstart (hat.moved (p.advance 1).pos) ?_ hmember
      intro hnil
      have hwaits := hvalue hnil
      rw [hwaits.pending]
      exact ⟨rfl, hwaits.slot⟩
    refine ⟨_, hstep, ?_⟩
    intro rest
    have hfilter : (f.pending? env).filter fieldIsArrayStream = none := by
      by_cases hnil : inner = []
      · obtain ⟨field, hfield, hjson⟩ := hstart.field_kind
        simp [Frame.pending?, (hvalue hnil).pending, hfield, fieldIsArrayStream, hjson]
      · simp [Frame.pending?, hmember hnil]
    rw [hturn, frameTurn, hkind, hstate]
    dsimp only
    rw [if_pos rfl, hfilter]
  cases hscalar : beginScalar env (p.advance 1) ch with
  | some r =>
      refine ⟨r, scalar_step hR (hat.moved (p.advance 1).pos) hscalar, fun rest => ?_⟩
      rw [hturn, frameTurn, hkind, hstate]
      dsimp only
      rw [if_neg hquote, hscalar]
  | none =>
      refine ⟨consumeStructuralChar env p ch, ?_, fun rest => ?_⟩
      · rw [hstructural]
        split
        · rename_i hspace
          exact blank_step hstreams hat.lex hspace _
        · rename_i hspace
          have hchars := valueChar_step hR hstart (hat.moved (p.pos.step ch))
            (by simpa using hspace) hquote "expected JSON value"
          have htrue : ch ≠ 0x74 := by
            rintro rfl
            rw [beginScalar, if_neg (by decide), if_pos (.inl rfl)] at hscalar
            cases hscalar
          rw [consumeFrameChar, hkind, hstate]
          dsimp only
          rw [consumeMemberValue]
          dsimp only
          rw [if_neg hquote, if_neg htrue]
          exact hchars
      · rw [hturn, frameTurn, hkind, hstate]
        dsimp only
        rw [if_neg hquote, hscalar]
        exact hchar

theorem Located.inner_frame {f : Frame} (hat : Located env ptr ref start ts (f :: inner) p) :
    (∃ fs, p.frames = f :: fs) ∧ f.Inner env := by
  obtain ⟨base, outer, hframes, -⟩ := hat.frames
  exact ⟨⟨_, hframes⟩, hat.open_frames f (by simp)⟩

/-- A bracket that closes the innermost container. -/
theorem close_step (hR : R.Lawful) {f : Frame} (hat : Located env ptr ref start ts (f :: inner) p)
    (hlex : p.lexMode = .none) (hcore : R.inside (inner.length + 1) ts p.core)
    {b : Byte} (hb : b = f.kind.bracket.closing) (first : Bool) {st : State DecodeState}
    (hst : st = ⟨(if first then f.kind.bracket.inside else .after).mode, brackets (f :: inner)⟩) :
    StreamStep env R ref start ts st b (closeContainer env p f.kind) := by
  subst hb
  have htold (s : Text) : Told st (f.kind.bracket.closing :: s) [.closing f.kind.bracket]
      ⟨.after, brackets inner⟩ s := by
    subst hst
    exact Json.tells_closing f.kind.bracket first (brackets inner) s
  apply StreamStep.of_told htold
  rcases closeContainer_follows hR hat hlex hcore f.kind with h | ⟨hfails, hdenied⟩
  · exact .inl h
  · exact .inr ⟨hfails, fun s => stops_denied hR hdenied _ s⟩

/-- The key of a member, or the end of the object. -/
theorem key_turn (hR : R.Lawful) {f : Frame} (hat : Located env ptr ref start ts (f :: inner) p)
    (hlex : p.lexMode = .none) (hcore : R.inside (inner.length + 1) ts p.core)
    (hstate : f.state = .objectKeyOrEnd) (ch : Byte) :
    SteppedTurn env R ref start ts p ⟨frameMode f.state f.afterComma, brackets (f :: inner)⟩ ch := by
  obtain ⟨⟨fs, hframes⟩, hf⟩ := hat.inner_frame
  have hkind : f.kind = .object := by
    rw [← hf.kind, hstate]
    rfl
  have hstreams := Streams.between hat hlex hcore
  have hbrackets : brackets (f :: inner) = .object :: brackets inner := by
    rw [brackets, List.map_cons, hkind]
    rfl
  have hturn (rest : Bytes) := @feedTurn_between _ env p f fs hlex hframes ch rest
  by_cases hquote : ch = 0x22
  · subst hquote
    have htold (s : Text) : Told ⟨frameMode f.state f.afterComma, brackets (f :: inner)⟩ (0x22 :: s) []
        ⟨.string true {}, brackets (f :: inner)⟩ s := by
      rw [hstate, hbrackets]
      cases f.afterComma
      · exact Json.tells_keyQuote valueMachine_boundless (.inr rfl) _ s
      · exact Json.tells_keyQuote valueMachine_boundless (.inl rfl) _ s
    have hmoved : Located env ptr ref start ts (f :: inner) (p.advance 1) := hat.same rfl rfl rfl
    have hstep : StreamStep env R ref start ts
        ⟨frameMode f.state f.afterComma, brackets (f :: inner)⟩ 0x22
        (beginStringLex env (p.advance 1) true) := by
      apply StreamStep.of_told htold
      rw [List.append_nil]
      rcases beginStringLex_follows hR hmoved hcore hstate with ⟨hok, h⟩ | h
      · exact .inl ⟨hok, .inl h⟩
      · exact .inr h
    refine ⟨_, hstep, fun rest => ?_⟩
    rw [hturn, frameTurn, hkind, hstate]
    rfl
  refine ⟨consumeStructuralChar env p ch, ?_, fun rest => ?_⟩
  swap
  · rw [hturn, frameTurn, hkind, hstate]
    dsimp only
    rw [if_neg hquote, charTurn_between hlex]
  rw [structuralChar_eq hframes hat.started]
  split
  · rename_i hspace
    exact blank_step hstreams hlex hspace _
  rename_i hspace
  have hmoved : Located env ptr ref start ts (f :: inner) { p with pos := p.pos.step ch } :=
    hat.same rfl rfl rfl
  have hkept := hR.inside_kept hcore
  rw [consumeFrameChar, hkind, hstate]
  dsimp only
  rw [if_pos hquote]
  split
  · rename_i hclose
    subst hclose
    cases hcomma : f.afterComma with
    | true =>
        rw [if_pos rfl]
        apply StreamStep.of_reject hR (by exact hkept)
        · rfl
        · rfl
        · rw [hbrackets]
          rfl
    | false =>
        have hfinal := @finalizeObject_inner _ env { p with pos := p.pos.step 0x7d } f fs hframes hf
        rw [if_neg Bool.false_ne_true, hfinal, ← hkind]
        apply close_step hR hmoved hlex hcore (by rw [hkind]; rfl) true
        rw [hkind]
        rfl
  · rename_i hclose
    apply StreamStep.of_reject hR (by exact hkept)
    · cases f.afterComma <;> rfl
    · cases f.afterComma <;> rfl
    · have hspace : isJsonSpace ch = false := by simpa using hspace
      rw [hbrackets]
      cases f.afterComma <;>
        simp [Json.step, frameMode, Json.stepKey, isSpace_eq, hspace, hclose, hquote]

/-- The colon of a member. -/
theorem colon_turn (hR : R.Lawful) {f : Frame} (hat : Located env ptr ref start ts (f :: inner) p)
    (hlex : p.lexMode = .none) (hcore : R.inside (inner.length + 1) ts p.core)
    (hstate : f.state = .objectColon) (ch : Byte) :
    SteppedTurn env R ref start ts p ⟨frameMode f.state f.afterComma, brackets (f :: inner)⟩ ch := by
  obtain ⟨⟨fs, hframes⟩, hf⟩ := hat.inner_frame
  have hkind : f.kind = .object := by
    rw [← hf.kind, hstate]
    rfl
  have hstreams := Streams.between hat hlex hcore
  have hbrackets : brackets (f :: inner) = .object :: brackets inner := by
    rw [brackets, List.map_cons, hkind]
    rfl
  have hturn (rest : Bytes) := @feedTurn_between _ env p f fs hlex hframes ch rest
  by_cases hcolon : ch = 0x3a
  · subst hcolon
    have htold (s : Text) : Told ⟨frameMode f.state f.afterComma, brackets (f :: inner)⟩ (0x3a :: s) []
        ⟨.value, brackets (f :: inner)⟩ s := by
      rw [hstate, hbrackets]
      exact Json.tells_colon _ s
    obtain ⟨base, outer, hframes', hbase, hlength⟩ := hat.frames
    have hlocated : Located env ptr ref start ts ({ f with state := .objectValue } :: inner)
        ((p.advance 1).modifyTop fun f => { f with state := .objectValue }) := by
      refine ⟨⟨base, outer, ?_, hbase, hlength⟩, (fun h => by cases h), ?_, hat.top, hat.started, hat.granted⟩
      · exact Parser.modifyTop_cons (by exact hframes') _
      · intro g hg
        rcases List.mem_cons.mp hg with rfl | hg
        · exact ⟨hf.map, hf.pending, hf.seen, hf.field, hkind.symm⟩
        · exact hat.open_frames g (by simp [hg])
    refine ⟨((p.advance 1).modifyTop fun f => { f with state := .objectValue }, .ok), ?_, ?_⟩
    · apply StreamStep.of_told htold
      rw [List.append_nil]
      exact .inl ⟨rfl, .inl (.between hlocated hlex hcore)⟩
    · intro rest
      rw [hturn, frameTurn, hkind, hstate]
      rfl
  refine ⟨consumeStructuralChar env p ch, ?_, fun rest => ?_⟩
  swap
  · rw [hturn, frameTurn, hkind, hstate]
    dsimp only
    rw [if_neg hcolon, charTurn_between hlex]
  rw [structuralChar_eq hframes hat.started]
  split
  · rename_i hspace
    exact blank_step hstreams hlex hspace _
  rename_i hspace
  rw [consumeFrameChar, hkind, hstate]
  dsimp only
  rw [if_pos hcolon]
  apply StreamStep.of_reject hR (by exact hR.inside_kept hcore)
  · rfl
  · rfl
  · have hspace : isJsonSpace ch = false := by simpa using hspace
    rw [hbrackets]
    simp [Json.step, frameMode, isSpace_eq, hspace, hcolon]

/-- An item, or the end of the array. -/
theorem item_turn (hR : R.Lawful) (hstart : AwaitsValue env R ref start) {f : Frame}
    (hat : Located env ptr ref start ts (f :: inner) p) (hlex : p.lexMode = .none)
    (hcore : R.inside (inner.length + 1) ts p.core) (hstate : f.state = .arrayValueOrEnd) (ch : Byte) :
    SteppedTurn env R ref start ts p ⟨frameMode f.state f.afterComma, brackets (f :: inner)⟩ ch := by
  obtain ⟨⟨fs, hframes⟩, hf⟩ := hat.inner_frame
  have hkind : f.kind = .array := by
    rw [← hf.kind, hstate]
    rfl
  have hfield := hf.array_field hkind
  have hstreams := Streams.between hat hlex hcore
  have hbrackets : brackets (f :: inner) = .array :: brackets inner := by
    rw [brackets, List.map_cons, hkind]
    rfl
  have hscalarCore : ScalarCore env R ts (f :: inner) p.core := by
    rw [ScalarCore, if_neg (List.cons_ne_nil f inner)]
    exact hcore
  have hvalue : AtValue env R ref start ts (f :: inner) p := ⟨hat, hscalarCore, hlex⟩
  have hturn (rest : Bytes) := @feedTurn_between _ env p f fs hlex hframes ch rest
  -- A first item is read as any other value.
  have hbefore (hspace : isJsonSpace ch = false) (hclose : ch ≠ 0x5d) (s : Text) :
      Told ⟨frameMode f.state f.afterComma, brackets (f :: inner)⟩ (ch :: s) []
        ⟨.value, brackets (f :: inner)⟩ (ch :: s) := by
    rw [hstate, hbrackets]
    cases f.afterComma
    · exact Json.tells_first .array _ hspace hclose s
    · exact Json.Tells.refl _ _
  by_cases hquote : ch = 0x22
  · subst hquote
    have hstep : StreamStep env R ref start ts ⟨.value, brackets (f :: inner)⟩ 0x22
        (beginStringValueLex env (p.advance 1) f.field
          ((f.field.map f.slot).getD { obj := [], idx := 0 })) :=
      quote_step hR hstart (hvalue.moved (p.advance 1).pos) (fun h => by cases h) fun _ => hfield
    refine ⟨_, StreamStep.before (hbefore rfl (by decide)) hstep, fun rest => ?_⟩
    rw [hturn, frameTurn, hkind, hstate]
    rfl
  cases hscalar : beginScalar env (p.advance 1) ch with
  | some r =>
      have hstep := scalar_step hR (hvalue.moved (p.advance 1).pos) hscalar
      refine ⟨r, StreamStep.before (hbefore ?_ ?_) hstep, fun rest => ?_⟩
      · exact beginScalar_not_space hscalar
      · rintro rfl
        cases hscalar
      · rw [hturn, frameTurn, hkind, hstate]
        dsimp only
        rw [if_neg hquote, hscalar]
  | none =>
      refine ⟨consumeStructuralChar env p ch, ?_, fun rest => ?_⟩
      swap
      · rw [hturn, frameTurn, hkind, hstate]
        dsimp only
        rw [if_neg hquote, hscalar]
        exact charTurn_between hlex ch
      rw [structuralChar_eq hframes hat.started]
      split
      · rename_i hspace
        exact blank_step hstreams hlex hspace _
      rename_i hspace
      have hspace : isJsonSpace ch = false := by simpa using hspace
      have hmoved : Located env ptr ref start ts (f :: inner) { p with pos := p.pos.step ch } :=
        hat.same rfl rfl rfl
      rw [consumeFrameChar, hkind, hstate]
      dsimp only
      rw [consumeItemValue]
      split
      · rename_i hclose
        subst hclose
        cases hcomma : f.afterComma with
        | true =>
            rw [if_pos rfl]
            apply StreamStep.of_reject hR (by exact hR.inside_kept hcore)
            · rfl
            · rfl
            · rw [hbrackets]
              rfl
        | false =>
            have hfinal := @finalizeArray_inner _ env { p with pos := p.pos.step 0x5d } f fs hframes
              hf hkind
            rw [if_neg Bool.false_ne_true, hfinal, ← hkind]
            apply close_step hR hmoved hlex hcore (by rw [hkind]; rfl) true
            rw [hkind]
            rfl
      · rename_i hclose
        have htold := hbefore hspace hclose
        rw [hstate] at htold
        apply StreamStep.before htold
        have hcleared : AtValue env R ref start ts ({ f with afterComma := false } :: inner)
            (Parser.modifyTop { p with pos := p.pos.step ch } fun f => { f with afterComma := false }) :=
          ⟨hmoved.clearComma, hscalarCore, hlex⟩
        exact valueChar_step hR hstart hcleared hspace hquote "expected array value"

/-! ## Behind a value -/

/-- The place behind a comma. -/
def ContainerKind.next : ContainerKind → FrameState
  | .object => .objectKeyOrEnd
  | .array => .arrayValueOrEnd

theorem consumeComma_eq (next : FrameState) :
    consumeComma env p next = andThenOk (p.onCore (emitMark env p.core 0x2c)) fun p =>
      (p.modifyTop fun f => { f with state := next, afterComma := true }, .ok) := by
  rw [consumeComma, emitMark]
  split <;> rfl

theorem comma_step (hR : R.Lawful) {f : Frame} (hat : Located env ptr ref start ts (f :: inner) p)
    (hlex : p.lexMode = .none) (hcore : R.inside (inner.length + 1) ts p.core) :
    StreamStep env R ref start ts ⟨.after, brackets (f :: inner)⟩ 0x2c
      (consumeComma env p f.kind.next) := by
  have htold (s : Text) : Told ⟨.after, brackets (f :: inner)⟩ (0x2c :: s) [.comma]
      ⟨f.kind.bracket.next.mode, brackets (f :: inner)⟩ s :=
    Json.tells_comma f.kind.bracket (brackets inner) s
  apply StreamStep.of_told htold
  have hgoes := hR.commas hcore
  rw [consumeComma_eq, andThenOk]
  by_cases hok : (emitMark env p.core 0x2c).2 = .ok
  swap
  · obtain ⟨hfails, hdeny⟩ := @Fails.of_goes _ _ _ _ _ p _ _ hgoes hok
    rw [if_neg (by exact hok)]
    exact .inr ⟨hfails, fun s => stops_denied hR (.inr (.inr hdeny)) _ s⟩
  obtain ⟨-, hinside⟩ := hgoes.resolve_right fun h => by simp [hok] at h
  rw [if_pos (by exact hok)]
  obtain ⟨base, outer, hframes, hbase, hlength⟩ := hat.frames
  have hf := hat.open_frames f (by simp)
  have hlocated : Located env ptr ref start (ts ++ [.comma])
      ({ f with state := f.kind.next, afterComma := true } :: inner)
      (Parser.modifyTop (p.onCore (emitMark env p.core 0x2c)).1 fun g =>
        { g with state := f.kind.next, afterComma := true }) := by
    refine ⟨⟨base, outer, ?_, hbase, hlength⟩, (fun h => by cases h), ?_, hat.top, hat.started,
      hat.granted.token hat.granted.marked rfl⟩
    · exact Parser.modifyTop_cons (by exact hframes) _
    · intro g hg
      rcases List.mem_cons.mp hg with rfl | hg
      · refine ⟨hf.map, hf.pending, hf.seen, hf.field, ?_⟩
        cases hkind : f.kind <;> rfl
      · exact hat.open_frames g (by simp [hg])
  have hmode : frameMode (S := DecodeState) f.kind.next true = f.kind.bracket.next.mode := by
    cases f.kind <;> rfl
  refine .inl ⟨rfl, .inl ?_⟩
  have hstreams := Streams.between hlocated hlex hinside
  rw [hmode] at hstreams
  exact hstreams

/-- A comma, or a bracket, behind a value inside the value. -/
theorem after_step (hR : R.Lawful) {f : Frame} (hat : Located env ptr ref start ts (f :: inner) p)
    (hlex : p.lexMode = .none) (hcore : R.inside (inner.length + 1) ts p.core)
    (hstate : f.state = .objectCommaOrEnd ∨ f.state = .arrayCommaOrEnd) (ch : Byte) :
    StreamStep env R ref start ts ⟨.after, brackets (f :: inner)⟩ ch
      (consumeStructuralChar env p ch) := by
  obtain ⟨⟨fs, hframes⟩, hf⟩ := hat.inner_frame
  have hstreams : Streams env R ref start ts p ⟨.after, brackets (f :: inner)⟩ := by
    have h := Streams.between hat hlex hcore
    rcases hstate with hstate | hstate <;> rwa [hstate] at h
  rw [structuralChar_eq hframes hat.started]
  split
  · rename_i hspace
    exact blank_step hstreams hlex hspace _
  rename_i hspace
  have hspace : isJsonSpace ch = false := by simpa using hspace
  have hmoved : Located env ptr ref start ts (f :: inner) { p with pos := p.pos.step ch } :=
    hat.same rfl rfl rfl
  -- The bracket that is expected depends on the container.
  have hframeChar : consumeFrameChar env { p with pos := p.pos.step ch } f ch =
      if ch = 0x2c then consumeComma env { p with pos := p.pos.step ch } f.kind.next
      else if ch = f.kind.bracket.closing then
        closeContainer env { p with pos := p.pos.step ch } f.kind
      else { p with pos := p.pos.step ch }.setError .invalidJson
        (match f.kind with
          | .object => "expected ',' or '\x7d' in object"
          | .array => "expected ',' or ']' in array") := by
    cases hkind : f.kind with
    | object =>
        have hstate : f.state = .objectCommaOrEnd := by
          rcases hstate with h | h
          · exact h
          · have := hf.kind
            rw [h, hkind] at this
            cases this
        have hfinal := @finalizeObject_inner _ env { p with pos := p.pos.step ch } f fs hframes hf
        rw [consumeFrameChar, hkind, hstate, hfinal]
        rfl
    | array =>
        have hstate : f.state = .arrayCommaOrEnd := by
          rcases hstate with h | h
          · have := hf.kind
            rw [h, hkind] at this
            cases this
          · exact h
        have hfinal := @finalizeArray_inner _ env { p with pos := p.pos.step ch } f fs hframes hf hkind
        rw [consumeFrameChar, hkind, hstate, hfinal]
        rfl
  rw [hframeChar]
  split_ifs with hcomma hclose
  · subst hcomma
    exact comma_step hR hmoved hlex hcore
  · exact close_step hR hmoved hlex hcore hclose false rfl
  · apply StreamStep.of_reject hR (by exact hR.inside_kept hcore)
    · rfl
    · rfl
    · simp only [Json.step, Json.stepAfter, isSpace_eq, hspace, brackets, List.map_cons]
      cases hkind : f.kind with
      | object =>
          rw [hkind] at hclose
          simpa [ContainerKind.bracket, hcomma, Json.Bracket.closing] using hclose
      | array =>
          rw [hkind] at hclose
          simpa [ContainerKind.bracket, hcomma, Json.Bracket.closing] using hclose

theorem turnSoft_ok {r : Parser σ × Status} (h : r.2 = .ok) (n : ℕ) :
    turnSoft r n = (r.1, .next n) := by
  rw [turnSoft, if_pos (by rw [h]; rfl)]

theorem turnSoft_hard {r : Parser σ × Status} (h : r.2.soft = false) (n : ℕ) :
    turnSoft r n = (r.1, .stop r.2 n) := by
  rw [turnSoft, if_neg (by simp [h])]

theorem turnOk_eq {r : Parser σ × Status} (h : r.2 = .ok ∨ r.2.soft = false) (n : ℕ) :
    turnOk r n = turnSoft r n := by
  rw [turnOk, turnSoft]
  rcases h with h | h
  · rw [if_pos h, if_pos (by rw [h]; rfl)]
  · rw [if_neg (Status.ne_ok_of_hard h), if_neg (by simp [h])]

/-- Behind a value the loop does what `lonejson__parser_consume_char` does. -/
theorem feedTurn_after {f : Frame} {fs : List Frame} (hlex : p.lexMode = .none)
    (hframes : p.frames = f :: fs) (hstarted : p.rootStarted = true)
    (hafter : f.kind = .object ∧ f.state = .objectCommaOrEnd ∨
      f.kind = .array ∧ f.state = .arrayCommaOrEnd)
    (hcomma : (emitMark env p.core 0x2c).2 = .ok ∨ (emitMark env p.core 0x2c).2.soft = false)
    (ch : Byte) (rest : Bytes) :
    feedTurn env p ch rest = turnSoft (consumeStructuralChar env p ch) 1 := by
  have hcomma' (next : FrameState) : (consumeComma env (p.advance 1) next).2 = .ok ∨
      (consumeComma env (p.advance 1) next).2.soft = false := by
    have hcore : (p.advance 1).core = p.core := rfl
    rw [consumeComma_eq, andThenOk, hcore]
    split
    · exact .inl rfl
    · exact hcomma
  have hadvance (hch : ch ≠ 0x0a) : ({ p with pos := p.pos.step ch } : Parser σ) = p.advance 1 := by
    rw [Pos.step, if_neg hch]
    rfl
  rw [feedTurn_between hlex hframes, frameTurn]
  rcases hafter with ⟨hkind, hstate⟩ | ⟨hkind, hstate⟩
  · rw [hkind, hstate]
    dsimp only
    split_ifs with hch hch
    · subst hch
      rw [turnOk_eq (hcomma' _), structuralChar_eq hframes hstarted, hadvance (by decide),
        if_neg (by decide), consumeFrameChar, hkind, hstate]
      rfl
    · subst hch
      rw [structuralChar_eq hframes hstarted, hadvance (by decide), if_neg (by decide),
        consumeFrameChar, hkind, hstate]
      rfl
    · exact charTurn_between hlex ch
  · rw [hkind, hstate]
    dsimp only
    split_ifs with hch hch
    · subst hch
      rw [turnOk_eq (hcomma' _), structuralChar_eq hframes hstarted, hadvance (by decide),
        if_neg (by decide), consumeFrameChar, hkind, hstate]
      rfl
    · subst hch
      rw [structuralChar_eq hframes hstarted, hadvance (by decide), if_neg (by decide),
        consumeFrameChar, hkind, hstate]
      rfl
    · exact charTurn_between hlex ch

theorem after_turn (hR : R.Lawful) {f : Frame} (hat : Located env ptr ref start ts (f :: inner) p)
    (hlex : p.lexMode = .none) (hcore : R.inside (inner.length + 1) ts p.core)
    (hstate : f.state = .objectCommaOrEnd ∨ f.state = .arrayCommaOrEnd) (ch : Byte) :
    SteppedTurn env R ref start ts p ⟨.after, brackets (f :: inner)⟩ ch := by
  obtain ⟨⟨fs, hframes⟩, hf⟩ := hat.inner_frame
  refine ⟨_, after_step hR hat hlex hcore hstate ch, ?_⟩
  apply feedTurn_after hlex hframes hat.started
  · rcases hstate with hstate | hstate
    · refine .inl ⟨?_, hstate⟩
      rw [← hf.kind, hstate]
      rfl
    · refine .inr ⟨?_, hstate⟩
      rw [← hf.kind, hstate]
      rfl
  · rcases hR.commas hcore with ⟨hok, -⟩ | ⟨hhard, -⟩
    · exact .inl hok
    · exact .inr hhard

/-- Between tokens every turn is a step. -/
theorem between_turn (hR : R.Lawful) (hstart : AwaitsValue env R ref start) {st : State DecodeState}
    (h : Streams env R ref start ts p st) (hlex : p.lexMode = .none) (ch : Byte) :
    SteppedTurn env R ref start ts p st ch := by
  have hstreams := h
  cases h with
  | waits hat hnil _ hcore =>
      obtain ⟨f, fs, hframes, hwaits⟩ := hstart.frame
      have hvalue : AtValue env R ref start ts [] p := ⟨hat, ⟨hnil, hcore⟩, hlex⟩
      exact member_turn hR hstart hvalue hstreams ((hat.home rfl).trans hframes) hwaits.kind
        hwaits.state (fun _ => hwaits) (absurd rfl ·) ch
  | @between f fs hat _ hcore =>
      obtain ⟨⟨outer, hframes⟩, hf⟩ := hat.inner_frame
      cases hstate : f.state with
      | objectKeyOrEnd => exact hstate ▸ key_turn hR hat hlex hcore hstate ch
      | objectColon => exact hstate ▸ colon_turn hR hat hlex hcore hstate ch
      | objectValue =>
          have hscalar : ScalarCore env R ts (f :: fs) p.core := by
            rw [ScalarCore, if_neg (List.cons_ne_nil f fs)]
            exact hcore
          have hkind : f.kind = .object := by
            rw [← hf.kind, hstate]
            rfl
          rw [hstate] at hstreams
          exact member_turn hR hstart ⟨hat, hscalar, hlex⟩ hstreams hframes hkind hstate
            (fun h => by cases h) (fun _ => hf.pending) ch
      | objectCommaOrEnd => exact after_turn hR hat hlex hcore (.inl hstate) ch
      | arrayValueOrEnd => exact hstate ▸ item_turn hR hstart hat hlex hcore hstate ch
      | arrayCommaOrEnd => exact after_turn hR hat hlex hcore (.inr hstate) ch
  | text hat =>
      rw [hat.lex] at hlex
      cases hlex
  | number hat hnumber =>
      rw [hnumber] at hlex
      cases hlex
  | literal hat hliteral =>
      rw [hlex] at hliteral
      cases hliteral

/-! ## Literals -/

theorem ScalarAt.append (hat : ScalarAt env R ref start ts inner p) (data : Bytes)
    (hroom : p.token.bytes.length + data.length + 2 ≤ p.token.cap) :
    ScalarAt env R ref start ts inner
      { p with token := { p.token with bytes := p.token.bytes ++ data } } where
  located := hat.located.same rfl rfl rfl
  core := hat.core
  key := hat.key
  data := hat.data
  cap := hat.cap
  fits := by
    rw [List.length_append]
    exact hroom

theorem ScalarAt.moved (hat : ScalarAt env R ref start ts inner p) (pos : Pos) (mode : LexMode) :
    ScalarAt env R ref start ts inner { p with pos, lexMode := mode } where
  located := hat.located.same rfl rfl rfl
  core := hat.core
  key := hat.key
  data := hat.data
  cap := hat.cap
  fits := hat.fits

theorem ScalarAt.kept (hR : R.Lawful) (hat : ScalarAt env R ref start ts inner p) :
    R.kept p.core := by
  have hcore := hat.core
  rw [ScalarCore] at hcore
  split at hcore
  · exact hR.waits_kept hcore.2
  · exact hR.inside_kept hcore

theorem literal_mem {mode : LexMode} {text : Bytes} (h : literalText? mode = some text) :
    text ∈ [trueText, falseText, nullText] := by
  cases mode <;> cases h <;> simp

theorem scalarToken_literal {mode : LexMode} {text : Bytes} (h : literalText? mode = some text) :
    scalarToken text mode = .literal text := by
  cases mode <;> cases h <;> rfl

/-- A character of a literal. -/
theorem literal_step (hR : R.Lawful) (hstart : AwaitsValue env R ref start)
    (hat : ScalarAt env R ref start ts inner p) {mode : LexMode} {c : Byte} {rest : Bytes}
    (hlex : p.lexMode = mode) (hmode : literalText? mode = some (p.token.bytes ++ c :: rest))
    (hne : p.token.bytes ≠ []) (ch : Byte) :
    StreamStep env R ref start ts ⟨.literal p.token.bytes.length (c :: rest), brackets inner⟩ ch
      (consumeLiteralChar env p (p.token.bytes ++ c :: rest) ch) := by
  have htext := literal_mem hmode
  have hat? : (p.token.bytes ++ c :: rest)[p.token.bytes.length]? = some c := by simp
  rw [consumeLiteralChar, hat?]
  by_cases hch : ch = c
  swap
  · rw [if_neg (by simpa using fun h => hch h.symm)]
    apply StreamStep.of_reject hR (hat.kept hR)
    · rfl
    · rfl
    · simp [Json.step, hch]
  subst hch
  rw [if_pos rfl]
  have htold (s : Text) := @Json.tells_literal _ valueMachine DecodeState.text _ _ rest ch
    valueMachine_boundless htext hne rfl (brackets inner) s
  by_cases hroom : p.token.bytes.length + 2 + 1 ≤ p.token.cap
  swap
  · have hfull : p.scratchAppend ch = none := by rw [Parser.scratchAppend, if_neg hroom]
    have hlong : tokenLimit env p < (p.token.bytes ++ ch :: rest).length + 2 := by
      rw [← hat.cap, List.length_append, List.length_cons]
      omega
    rw [hfull]
    refine .inr ⟨fails_error hR (hat.kept hR) rfl _ _, fun s => ?_⟩
    exact stops_literal hat.located htext hne (List.cons_ne_nil _ _) rfl hlong _ _
  have happend : p.scratchAppend ch =
      some { p with token := { p.token with bytes := p.token.bytes ++ [ch] } } := by
    rw [Parser.scratchAppend, if_pos hroom]
  have hat' := hat.append [ch] (by rw [List.length_singleton]; omega)
  rw [happend]
  dsimp only
  by_cases hrest : rest = []
  · subst hrest
    rw [if_pos (by simp)]
    have hlocated := hat'.moved p.pos .none
    have hscalar := deliverScalar_follows hR hstart hlocated rfl (.inr hmode)
    rw [scalarToken_literal hmode] at hscalar
    rw [hlex]
    apply StreamStep.of_told htold
    rcases hscalar with h | ⟨hfails, hdenied⟩
    · exact .inl h
    · exact .inr ⟨hfails, fun s => stops_denied hR hdenied _ s⟩
  · have hlength : (p.token.bytes ++ [ch]).length ≠ (p.token.bytes ++ ch :: rest).length := by
      have := List.length_pos_iff.mpr hrest
      simp only [List.length_append, List.length_cons, List.length_nil]
      omega
    rw [if_neg hlength]
    apply StreamStep.of_told htold
    rw [if_neg hrest, if_neg hrest, List.append_nil]
    refine .inl ⟨rfl, .inl ?_⟩
    have hsplit : literalText? p.lexMode = some ((p.token.bytes ++ [ch]) ++ rest) := by
      rw [hlex, hmode]
      simp
    have hstreams := Streams.literal hat' hsplit (by simp) hrest
    simpa using hstreams

theorem literal_turn (hR : R.Lawful) (hstart : AwaitsValue env R ref start)
    (hat : ScalarAt env R ref start ts inner p) {rest : Bytes}
    (hlex : literalText? p.lexMode = some (p.token.bytes ++ rest)) (hne : p.token.bytes ≠ [])
    (hrest : rest ≠ []) (ch : Byte) :
    SteppedTurn env R ref start ts p ⟨.literal p.token.bytes.length rest, brackets inner⟩ ch := by
  obtain ⟨c, rest, rfl⟩ := List.exists_cons_of_ne_nil hrest
  have hmoved := hat.moved (p.pos.step ch) p.lexMode
  refine ⟨_, literal_step hR hstart hmoved rfl hlex hne ch, fun s => ?_⟩
  have hchar : feedTurn env p ch s = charTurn env p ch := by
    rw [feedTurn]
    cases hmode : p.lexMode <;> rw [hmode] at hlex <;> first | cases hlex | simp
  have hconsume : consumeChar env p ch = consumeLiteralChar env { p with pos := p.pos.step ch }
      (p.token.bytes ++ c :: rest) ch := by
    rw [consumeChar]
    cases hmode : p.lexMode <;> rw [hmode] at hlex <;>
      first | cases hlex | rw [← Option.some.inj hlex]
  rw [hchar, charTurn, hconsume]

/-! ## Numbers -/

variable (env R ref start ts) in
/-- The outcome of a turn: the machine is taken on, or the value has ended before this turn,
or the turn stops on bytes that are refused. -/
def TurnStreams (p : Parser σ) (st : State DecodeState) (ch : Byte) (rest : Bytes) : Prop :=
  (∃ n ts' st', (feedTurn env p ch rest).2 = .next n ∧ 0 < n ∧ n ≤ (ch :: rest).length ∧
      Told st (ch :: rest) ts' st' ((ch :: rest).drop n) ∧
      Follows env R ref start (ts ++ ts') (feedTurn env p ch rest).1 st') ∨
    (∃ ts' q, Finished env R ref start (ts ++ ts') q ∧ Told st (ch :: rest) ts' ⟨.after, []⟩ (ch :: rest) ∧
      feedTurn env p ch rest = feedTurn env q ch rest) ∨
    (∃ status n, (feedTurn env p ch rest).2 = .stop status n ∧ status.soft = false ∧
      R.kept (feedTurn env p ch rest).1.core ∧ Stops (Denied env R ref start) ts st (ch :: rest))

/-- A turn that is one step of the machine. -/
theorem SteppedTurn.streams {st : State DecodeState} {ch : Byte}
    (h : SteppedTurn env R ref start ts p st ch) (rest : Bytes) :
    TurnStreams env R ref start ts p st ch rest := by
  obtain ⟨r, hstep, hturn⟩ := h
  rcases hstep with ⟨hok, ts', st', htold, hfollows⟩ | ⟨⟨hhard, -, hkept⟩, hstops⟩
  · refine .inl ⟨1, ts', st', ?_, Nat.one_pos, by simp, htold rest, ?_⟩
    · rw [hturn, turnSoft, if_pos (by rw [hok]; rfl)]
    · rw [hturn, turnSoft, if_pos (by rw [hok]; rfl)]
      exact hfollows
  · refine .inr (.inr ⟨r.2, 1, ?_, hhard, ?_, hstops rest⟩)
    · rw [hturn, turnSoft, if_neg (by simp [hhard])]
    · rw [hturn, turnSoft, if_neg (by simp [hhard])]
      exact hkept

/-- Behind the value, or a value inside it, the loop reads on from the next byte. -/
theorem feedTurn_behind (hR : R.Lawful) {stack : List Bracket}
    (h : Follows env R ref start ts p ⟨.after, stack⟩) (ch : Byte) (rest : Bytes) :
    feedTurn env p ch rest = turnSoft (consumeStructuralChar env p ch) 1 := by
  rcases h with h | ⟨-, h⟩
  · generalize hst : (⟨.after, stack⟩ : State DecodeState) = st at h
    cases h with
    | waits => cases hst
    | @between f fs hat hlex hcore =>
        obtain ⟨⟨outer, hframes⟩, hf⟩ := hat.inner_frame
        have hmode : frameMode (S := DecodeState) f.state f.afterComma = .after :=
          (congrArg State.mode hst).symm
        apply feedTurn_after hlex hframes hat.started
        · have hkind := hf.kind
          cases hstate : f.state with
          | objectCommaOrEnd =>
              rw [hstate] at hkind
              exact .inl ⟨hkind.symm, rfl⟩
          | arrayCommaOrEnd =>
              rw [hstate] at hkind
              exact .inr ⟨hkind.symm, rfl⟩
          | objectKeyOrEnd | arrayValueOrEnd =>
              rw [hstate] at hmode
              cases hcomma : f.afterComma <;> rw [hcomma] at hmode <;> cases hmode
          | objectColon | objectValue =>
              rw [hstate] at hmode
              cases hmode
        · rcases hR.commas hcore with ⟨hok, -⟩ | ⟨hhard, -⟩
          · exact .inl hok
          · exact .inr hhard
    | text => cases hst
    | number => cases hst
    | literal => cases hst
  · obtain ⟨f, fs, hframes, hkind, hstate, -⟩ := h.frame
    apply feedTurn_after h.lex hframes h.started (.inl ⟨hkind, hstate⟩)
    rw [emitMark, (hR.ended_idle h.core).1]
    exact .inl rfl

theorem deliverNumber_invalid (hR : R.Lawful) (hstart : AwaitsValue env R ref start)
    (hat : ScalarAt env R ref start ts inner p) (hbad : isValidJsonNumber p.token.bytes = false) :
    Fails env R (deliverToken env p .number) := by
  have hlocated := hat.cstr hstart
  have hbytes : p.scratchCstr.token.bytes = p.token.bytes := by
    rw [Parser.scratchCstr, hat.data]
  have hkey : p.scratchCstr.lexIsKey = false := by
    rw [Parser.scratchCstr, hat.data]
    exact hat.key
  have htarget : ∀ f fs, p.scratchCstr.frames = f :: fs → mappedNumericTarget env f = false := by
    intro f fs hframes
    cases inner with
    | nil =>
        obtain ⟨base, outer, hhome, hwaits, -⟩ := hlocated.frames
        obtain ⟨field, hfield, hkind⟩ := hstart.field_kind
        obtain ⟨rfl, -⟩ : f = base ∧ fs = outer := by simpa using hframes.symm.trans hhome
        rw [mappedNumericTarget, hwaits.kind]
        dsimp only
        rw [Frame.pending?, hwaits.pending, Option.bind_some, hfield]
        simp [hkind]
    | cons g gs =>
        obtain ⟨⟨outer, hhome⟩, hg⟩ := hlocated.inner_frame
        obtain ⟨rfl, -⟩ : f = g ∧ fs = outer := by simpa using hframes.symm.trans hhome
        rw [mappedNumericTarget]
        cases hkind : f.kind with
        | object => simp [Frame.pending?, hg.pending]
        | array => simp [Frame.field?, hg.array_field hkind]
  obtain ⟨base, outer, hframes, -⟩ := hlocated.frames
  obtain ⟨f, fs, hcons⟩ : ∃ f fs, p.scratchCstr.frames = f :: fs := by
    rw [hframes]
    cases inner with
    | nil => exact ⟨_, _, rfl⟩
    | cons g gs => exact ⟨_, _, rfl⟩
  rw [deliverToken]
  dsimp only
  rw [hkey, if_neg Bool.false_ne_true, hcons]
  dsimp only
  rw [if_pos ⟨rfl, .inr (by simp [htarget f fs hcons]), by rw [hbytes, hbad]; simp⟩]
  have hkept : R.kept p.scratchCstr.core := by
    rw [scratchCstr_core]
    exact hat.kept hR
  exact fails_error hR hkept rfl _ _

/-- A number ends before a byte that is not of it. -/
theorem deliverNumber_follows (hR : R.Lawful) (hstart : AwaitsValue env R ref start)
    (hat : ScalarAt env R ref start ts inner p) (hlex : p.lexMode = .none) {b : Byte}
    (hb : isNumberByte b = false) (s : Text) :
    ((deliverToken env p .number).2 = .ok ∧
        Told ⟨.number p.token.bytes, brackets inner⟩ (b :: s) [.number p.token.bytes]
          ⟨.after, brackets inner⟩ (b :: s) ∧
        Follows env R ref start (ts ++ [.number p.token.bytes]) (deliverToken env p .number).1
          ⟨.after, brackets inner⟩) ∨
      (Fails env R (deliverToken env p .number) ∧
        Stops (Denied env R ref start) ts ⟨.number p.token.bytes, brackets inner⟩ (b :: s)) := by
  cases hnumber : isValidJsonNumber p.token.bytes with
  | false =>
      refine .inr ⟨deliverNumber_invalid hR hstart hat hnumber, ?_⟩
      apply stops_of_none
      intro more
      exact valueTokens_badNumber hb hnumber _ _
  | true =>
      have htold : Told ⟨.number p.token.bytes, brackets inner⟩ (b :: s) [.number p.token.bytes]
          ⟨.after, brackets inner⟩ (b :: s) :=
        Json.tells_numberEnd (by exact hnumber) (by exact hb) _ s
      rcases deliverScalar_follows hR hstart hat hlex (.inl ⟨rfl, hnumber⟩) with
        ⟨hok, h⟩ | ⟨hfails, hdenied⟩
      · exact .inl ⟨hok, htold, h⟩
      · exact .inr ⟨hfails, Stops.told htold (stops_denied hR hdenied _ _)⟩

theorem Streams.behind_lex {stack : List Bracket}
    (h : Streams env R ref start ts p ⟨.after, stack⟩) : p.lexMode = .none := by
  generalize hst : (⟨.after, stack⟩ : State DecodeState) = st at h
  cases h with
  | waits _ _ hlex => exact hlex
  | between _ hlex => exact hlex
  | text => cases hst
  | number => cases hst
  | literal => cases hst

/-- A turn that first tells a token without a byte of its own. -/
theorem TurnStreams.told {st st' : State DecodeState} {ch : Byte} {rest : Bytes}
    {ts' : List Json.Token} {q : Parser σ} (htold : Told st (ch :: rest) ts' st' (ch :: rest))
    (hturn : feedTurn env p ch rest = feedTurn env q ch rest)
    (h : TurnStreams env R ref start (ts ++ ts') q st' ch rest) :
    TurnStreams env R ref start ts p st ch rest := by
  rcases h with ⟨n, ts'', st'', hnext, hpos, hle, htold', hfollows⟩ |
    ⟨ts'', q', hfinished, htold', hsame⟩ | ⟨status, n, hstop, hhard, hkept, hstops⟩
  · rw [List.append_assoc] at hfollows
    rw [← hturn] at hnext hfollows
    exact .inl ⟨n, ts' ++ ts'', st'', hnext, hpos, hle, htold.trans htold', hfollows⟩
  · rw [List.append_assoc] at hfinished
    exact .inr (.inl ⟨ts' ++ ts'', q', hfinished, htold.trans htold', hturn.trans hsame⟩)
  · rw [← hturn] at hstop hkept
    exact .inr (.inr ⟨status, n, hstop, hhard, hkept, hstops.told htold⟩)

theorem takeWhile_nil {ch : Byte} {rest : Bytes} (h : (ch :: rest).takeWhile isNumberByte = []) :
    isNumberByte ch = false := by
  by_contra hch
  rw [Bool.not_eq_false] at hch
  simp [hch] at h

/-- A turn inside a number. -/
theorem number_turn (hR : R.Lawful) (hstart : AwaitsValue env R ref start)
    (hat : ScalarAt env R ref start ts inner p) (hlex : p.lexMode = .number) (ch : Byte)
    (rest : Bytes) :
    TurnStreams env R ref start ts p ⟨.number p.token.bytes, brackets inner⟩ ch rest := by
  have hfeed : feedTurn env p ch rest = numberTurn env p ch rest := by
    rw [feedTurn, if_neg fun h => by simp [hlex] at h, if_pos hlex]
  by_cases hrun : (ch :: rest).takeWhile isNumberByte = []
  · -- The number has ended with the chunk before, and this byte is read behind it.
    have hch := takeWhile_nil hrun
    have hat' := hat.moved (p.pos.step ch) .none
    have hconsume : numberTurn env p ch rest = charTurn env p ch := by
      rw [numberTurn]
      dsimp only
      rw [if_pos hrun]
    rcases deliverNumber_follows hR hstart hat' rfl hch rest with
      ⟨hok, htold, hfollows⟩ | ⟨⟨hhard, hcode, hkept⟩, hstops⟩
    · have hturn : feedTurn env p ch rest =
          feedTurn env (deliverToken env { p with pos := p.pos.step ch, lexMode := .none } .number).1
            ch rest := by
        rw [hfeed, hconsume, feedTurn_behind hR hfollows, charTurn, consumeChar, hlex]
        dsimp only
        rw [consumeNumberChar, hch, if_neg Bool.false_ne_true]
        dsimp only
        rw [if_neg (by simpa using hok)]
      rcases hfollows with hstreams | ⟨hst, hfinished⟩
      · exact .told htold hturn
          ((between_turn hR hstart hstreams hstreams.behind_lex ch).streams rest)
      · obtain ⟨-, hnil⟩ := State.mk.inj hst
        rw [hnil] at htold ⊢
        exact .inr (.inl ⟨_, _, hfinished, htold, hturn⟩)
    · have hturn : feedTurn env p ch rest = turnSoft
          ((deliverToken env { p with pos := p.pos.step ch, lexMode := .none } .number).1,
            (deliverToken env { p with pos := p.pos.step ch, lexMode := .none }
              .number).1.core.error.code) 1 := by
        rw [hfeed, hconsume, charTurn, consumeChar, hlex]
        dsimp only
        rw [consumeNumberChar, hch, if_neg Bool.false_ne_true]
        dsimp only
        rw [if_pos (Status.ne_ok_of_hard hhard)]
      refine .inr (.inr ⟨_, 1, ?_, hcode, ?_, hstops⟩)
      · rw [hturn, turnSoft, if_neg (by simp [hcode])]
      · rw [hturn, turnSoft, if_neg (by simp [hcode])]
        exact hkept
  have hnumber : ∀ b ∈ (ch :: rest).takeWhile isNumberByte, isNumberByte b = true :=
    fun b hb => List.mem_takeWhile_imp hb
  have hsplit : (ch :: rest).takeWhile isNumberByte ++ (ch :: rest).dropWhile isNumberByte =
      ch :: rest := List.takeWhile_append_dropWhile
  have hdrop : (ch :: rest).drop ((ch :: rest).takeWhile isNumberByte).length =
      (ch :: rest).dropWhile isNumberByte := by
    have h := @List.drop_left _ ((ch :: rest).takeWhile isNumberByte)
      ((ch :: rest).dropWhile isNumberByte)
    rwa [hsplit] at h
  have hpos := List.length_pos_iff.mpr hrun
  have hle : ((ch :: rest).takeWhile isNumberByte).length ≤ (ch :: rest).length :=
    (List.takeWhile_prefix _).length_le
  have hend : ∀ b tail', (ch :: rest).dropWhile isNumberByte = b :: tail' → isNumberByte b = false := by
    intro b tail' h
    have hhead := List.head?_dropWhile_not isNumberByte (ch :: rest)
    rw [h] at hhead
    simpa using hhead
  have htold : Told ⟨.number p.token.bytes, brackets inner⟩ (ch :: rest) []
      ⟨.number (p.token.bytes ++ (ch :: rest).takeWhile isNumberByte), brackets inner⟩
      ((ch :: rest).dropWhile isNumberByte) := by
    have h := @Json.tells_numberMore _ valueMachine DecodeState.text valueMachine_boundless
      valueMachine_lawful _ hnumber p.token.bytes (brackets inner)
      ((ch :: rest).dropWhile isNumberByte)
    rwa [hsplit] at h
  rw [numberTurn] at hfeed
  dsimp only at hfeed
  rw [if_neg hrun] at hfeed
  generalize (ch :: rest).takeWhile isNumberByte = run at *
  generalize (ch :: rest).dropWhile isNumberByte = tail at *
  by_cases hroom : p.token.bytes.length + run.length + 1 + 1 ≤ p.token.cap
  swap
  · have hfull : p.scratchAppendBytes run = none := by
      rw [Parser.scratchAppendBytes, if_neg hroom]
    have hlong : tokenLimit env p < (p.token.bytes ++ run).length + 2 := by
      rw [← hat.cap, List.length_append]
      omega
    rw [hfull] at hfeed
    refine .inr (.inr ⟨.allocationFailed, 0, by rw [hfeed], rfl, ?_, ?_⟩)
    · rw [hfeed]
      exact hR.kept_same (hat.kept hR) rfl rfl
    · have hstops := @stops_number _ _ _ R _ _ ts _ _ hat.located _ hlong (brackets inner) tail
      rw [← List.append_nil ts] at hstops
      exact hstops.told htold
  have happend : p.scratchAppendBytes run =
      some { p with token := { p.token with bytes := p.token.bytes ++ run } } := by
    rw [Parser.scratchAppendBytes, if_pos hroom]
  have hat' := hat.append run hroom
  rw [happend] at hfeed
  dsimp only at hfeed
  by_cases hwhole : run.length = (ch :: rest).length
  · rw [if_pos hwhole] at hfeed
    refine .inl ⟨run.length, [], _, by rw [hfeed], hpos, hle, hdrop ▸ htold, .inl ?_⟩
    rw [hfeed, List.append_nil]
    have hmoved := hat'.moved (p.advance run.length).pos .number
    have hstreams := Streams.number hmoved rfl
    rw [← hlex] at hstreams
    exact hstreams
  rw [if_neg hwhole] at hfeed
  cases tail with
  | nil =>
      rw [List.append_nil] at hsplit
      exact absurd (congrArg List.length hsplit) hwhole
  | cons b tail =>
      have hmoved := hat'.moved (p.advance run.length).pos .none
      rcases deliverNumber_follows hR hstart hmoved rfl (hend b tail rfl) tail with
        ⟨hok, htold', hfollows⟩ | ⟨⟨hhard, hcode, hkept⟩, hstops⟩
      · have hturn := hfeed.trans (turnSoft_ok hok _)
        refine .inl ⟨run.length, [.number (p.token.bytes ++ run)], ⟨.after, brackets inner⟩,
          by rw [hturn], hpos, hle, ?_, ?_⟩
        · rw [hdrop]
          exact htold.trans htold'
        · rw [hturn]
          exact hfollows
      · have hturn := hfeed.trans (turnSoft_hard hhard _)
        refine .inr (.inr ⟨_, run.length, by rw [hturn], hhard, ?_, ?_⟩)
        · rw [hturn]
          exact hkept
        · rw [← List.append_nil ts] at hstops
          exact Stops.told htold hstops

/-! ## Strings -/

theorem denied_text (hR : R.Lawful) {isKey : Bool} {x y : Bytes} (hxy : x <+: y)
    (h : Denied env R ref start (ts ++ [textToken isKey x])) :
    Denied env R ref start (ts ++ [textToken isKey y]) := by
  rcases h with h | h | h
  · exact .inl h
  · refine .inr (.inl ?_)
    rw [ValueRoom.fitsAll_append] at h ⊢
    cases isKey <;> exact h
  · exact .inr (.inr (hR.deny_text hxy h))

theorem told_onward {isKey : Bool} {stack : List Bracket} {q q' : DecodeState} {s s' : Text}
    (h : Onward q s q' s') : Told ⟨.string isKey q, stack⟩ s [] ⟨.string isKey q', stack⟩ s' := by
  intro more
  have hbefore := valueTokens_string isKey stack q (s ++ more)
  rw [h more, ← valueTokens_string isKey stack q' (s' ++ more)] at hbefore
  rw [Json.behind_nil]
  exact hbefore

theorem told_closes {isKey : Bool} {stack : List Bracket} {q : DecodeState} {s s' : Text} {x : Bytes}
    (h : ∀ more, closes q (s ++ more) = some (x, s' ++ more)) :
    Told ⟨.string isKey q, stack⟩ s [textToken isKey x] ⟨Json.afterString isKey, stack⟩ s' := by
  intro more
  have htokens := valueTokens_string isKey stack q (s ++ more)
  rw [h more, Option.bind_some] at htokens
  exact htokens

/-- A turn inside a string. -/
theorem string_turn (hR : R.Lawful) (hstart : AwaitsValue env R ref start) {q : DecodeState}
    {isKey : Bool} (hat : StringAt (TextAt env R ref start ts inner isKey) p q) (ch : Byte)
    (rest : Bytes) :
    TurnStreams env R ref start ts p ⟨.string isKey q, brackets inner⟩ ch rest := by
  rcases feedTurn_reads (text_fills hR isKey) hat ch rest (hat.text.scan _) with
    ⟨n, q', hnext, hpos, hle, hat', honward⟩ | ⟨n, x, p', hpos, hle, htext, hturn, hclose⟩ |
    ⟨status, used, hstop, hhard, hkept, hrefused⟩
  · refine .inl ⟨n, [], _, hnext, hpos, hle, told_onward honward, .inl ?_⟩
    rw [List.append_nil]
    exact .text hat'
  · have htold := @told_closes isKey (brackets inner) _ _ _ _ hclose
    have htext' : TextAt env R ref start ts inner isKey x { p' with lexMode := .none } :=
      ⟨htext.located.same rfl rfl rfl, htext.core, htext.capture, htext.token, htext.key,
        htext.object⟩
    have hfinish := @generalSink_finish _ env { p' with lexMode := .none } htext.capture
    rw [hfinish] at hturn
    rcases finishText_follows hR hstart htext' rfl with ⟨hok, hfollows⟩ | ⟨⟨hhard, -, hkept⟩, hdenied⟩
    · rw [turnSoft_ok hok] at hturn
      refine .inl ⟨n, _, _, by rw [hturn], hpos, hle, htold, ?_⟩
      rw [hturn]
      exact hfollows
    · rw [turnSoft_hard hhard] at hturn
      refine .inr (.inr ⟨_, n, by rw [hturn], hhard, ?_, (stops_denied hR hdenied _ _).told htold⟩)
      rw [hturn]
      exact hkept
  · refine .inr (.inr ⟨status, used, hstop, hhard, hkept, ?_⟩)
    rcases hrefused with hno | ⟨q', s', honward, hdeny⟩
    · apply stops_of_none
      intro more
      rw [valueTokens_string, hno]
      rfl
    · intro more ts' r hts
      have htold := @told_onward isKey (brackets inner) _ _ _ _ honward more
      rw [Json.behind_nil] at htold
      rw [valueTokens, htold, ← valueTokens, valueTokens_string] at hts
      obtain ⟨⟨x, s''⟩, hx, hbehind⟩ := Option.bind_eq_some_iff.mp hts
      obtain ⟨y, -, hy⟩ := Option.map_eq_some_iff.mp hbehind
      cases hy
      have hdenied := denied_text hR (closes_text hx) hdeny
      simpa using denied_more hR hdenied y.1

/-! ## Any turn -/

/-- A turn inside the value. -/
theorem feedTurn_streams (hR : R.Lawful) (hstart : AwaitsValue env R ref start)
    {st : State DecodeState} (h : Streams env R ref start ts p st) (ch : Byte) (rest : Bytes) :
    TurnStreams env R ref start ts p st ch rest := by
  have hstreams := h
  cases h with
  | waits _ _ hlex => exact (between_turn hR hstart hstreams hlex ch).streams rest
  | between _ hlex => exact (between_turn hR hstart hstreams hlex ch).streams rest
  | text hat => exact string_turn hR hstart hat ch rest
  | number hat hlex => exact number_turn hR hstart hat hlex ch rest
  | literal hat hlex hne hrest =>
      exact (literal_turn hR hstart hat hlex hne hrest ch).streams rest

end

end Lonejson
