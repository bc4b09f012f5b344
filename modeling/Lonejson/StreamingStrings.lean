import Lonejson.Feeding
import Lonejson.Streaming

/-!
# The strings of a streamed value

Keys and strings are recorded run by run, from the opening quote to the closing one. What
follows a string is found in the same way whether the text is captured or a visitor is called.
-/

namespace Lonejson

open Json (Text Mode State Bracket)

variable {σ : Type}

section

variable {env : Env σ} {ptr : SlotPtr} {R : Recorder env ptr} {ref : FieldRef} {start : Parser σ}
  {ts : List Json.Token} {p : Parser σ} {inner : List Frame}

/-! ## The opening quote -/

/-- The parser behind the opening quote of a string. -/
def Parser.inText (p : Parser σ) (isKey : Bool) (c : Core σ) : Parser σ :=
  { p.startString isKey with core := c }.capture .jsonVisitor

theorem startText_follows (hR : R.Lawful) (hat : Located env ptr ref start ts inner p)
    {c : Core σ} (hcore : R.inside inner.length ts c) (isKey : Bool)
    (hobject : isKey = true → ∃ f fs, inner = f :: fs ∧ f.state = .objectKeyOrEnd) :
    ((jsonValueStringBegin env c isKey).2 = .ok ∧
        Streams env R ref start ts (p.inText isKey (jsonValueStringBegin env c isKey).1)
          ⟨.string isKey {}, brackets inner⟩) ∨
      ((jsonValueStringBegin env c isKey).2.soft = false ∧
        (jsonValueStringBegin env c isKey).1.error.code.soft = false ∧
        R.kept (jsonValueStringBegin env c isKey).1 ∧
        ∀ s, Stops (Denied env R ref start) ts ⟨.string isKey {}, brackets inner⟩ s) := by
  rcases hR.textBegins (k := isKey) hcore with ⟨hok, htext⟩ | ⟨hhard, hcode, hkept, hdeny⟩
  · refine .inl ⟨hok, .text ⟨rfl, rfl, ⟨rfl, rfl⟩, ?_⟩⟩
    exact ⟨hat.same rfl rfl rfl, htext, rfl, rfl, rfl, hobject⟩
  · refine .inr ⟨hhard, hcode, hkept, ?_⟩
    intro s more ts' r hts
    rw [valueTokens_string] at hts
    obtain ⟨⟨x, s'⟩, -, hx⟩ := Option.bind_eq_some_iff.mp hts
    obtain ⟨y, -, hy⟩ := Option.map_eq_some_iff.mp hx
    cases hy
    have hdenied : Denied env R ref start (ts ++ [textToken isKey x]) :=
      .inr (.inr (hR.deny_text List.nil_prefix hdeny))
    simpa using denied_more hR hdenied y.1

/-- The opening quote of a key. -/
theorem beginStringLex_follows (hR : R.Lawful) {f : Frame}
    (hat : Located env ptr ref start ts (f :: inner) p)
    (hcore : R.inside (inner.length + 1) ts p.core) (hstate : f.state = .objectKeyOrEnd) :
    ((beginStringLex env p true).2 = .ok ∧
        Streams env R ref start ts (beginStringLex env p true).1
          ⟨.string true {}, brackets (f :: inner)⟩) ∨
      (Fails env R (beginStringLex env p true) ∧
        ∀ s, Stops (Denied env R ref start) ts ⟨.string true {}, brackets (f :: inner)⟩ s) := by
  have hactive := (hR.inside_live hcore).1
  have hbegin : beginStringLex env p true =
      if (jsonValueStringBegin env p.core true).2 = .ok then
        (p.inText true (jsonValueStringBegin env p.core true).1, .ok)
      else
        let r := (p.startString true).onCore (jsonValueStringBegin env p.core true)
        let json := { r.1.core.json with textBytes := 0, textIsKey := false }
        ({ r.1 with core := { r.1.core with json } }, r.2) := by
    have hlive : (p.startString true).core.json.active = true := hactive
    rw [beginStringLex]
    dsimp only
    rw [hlive]
    rfl
  rw [hbegin]
  rcases startText_follows hR hat hcore true (fun _ => ⟨f, inner, rfl, hstate⟩) with
    ⟨hok, hstreams⟩ | ⟨hhard, hcode, hkept, hstops⟩
  · rw [if_pos hok]
    exact .inl ⟨rfl, hstreams⟩
  · rw [if_neg (Status.ne_ok_of_hard hhard)]
    exact .inr ⟨⟨hhard, hcode, hR.kept_same hkept rfl rfl⟩, hstops⟩

/-- The opening quote of a string inside a container. -/
theorem beginStringValueLex_nested (hR : R.Lawful) {f : Frame}
    (hat : Located env ptr ref start ts (f :: inner) p)
    (hcore : R.inside (inner.length + 1) ts p.core) (ptr' : SlotPtr) :
    ((beginStringValueLex env p none ptr').2 = .ok ∧
        Streams env R ref start ts (beginStringValueLex env p none ptr').1
          ⟨.string false {}, brackets (f :: inner)⟩) ∨
      (Fails env R (beginStringValueLex env p none ptr') ∧
        ∀ s, Stops (Denied env R ref start) ts ⟨.string false {}, brackets (f :: inner)⟩ s) := by
  have hactive := (hR.inside_live hcore).1
  have hbegin : beginStringValueLex env p none ptr' =
      if (jsonValueStringBegin env p.core false).2 = .ok then
        (p.inText false (jsonValueStringBegin env p.core false).1, .ok)
      else (p.startString false).onCore (jsonValueStringBegin env p.core false) := by
    have hlive : (p.startString false).core.json.active = true := hactive
    simp only [beginStringValueLex, Option.bind_none, Option.any_none, Bool.false_eq_true, if_false,
      andThenOk_ok, Option.isNone_none, Bool.true_or, Bool.true_and, hlive, if_true]
    rfl
  rw [hbegin]
  rcases startText_follows hR hat hcore false (fun h => by cases h) with
    ⟨hok, hstreams⟩ | ⟨hhard, hcode, hkept, hstops⟩
  · rw [if_pos hok]
    exact .inl ⟨rfl, hstreams⟩
  · rw [if_neg (Status.ne_ok_of_hard hhard)]
    exact .inr ⟨⟨hhard, hcode, hkept⟩, hstops⟩

/-- The opening quote of a string that is the value. -/
theorem beginStringValueLex_value (hR : R.Lawful) (hstart : AwaitsValue env R ref start)
    (hat : Located env ptr ref start [] [] p) (hcore : R.waits p.core) :
    ((beginStringValueLex env p (some ref) ptr).2 = .ok ∧
        Streams env R ref start [] (beginStringValueLex env p (some ref) ptr).1
          ⟨.string false {}, []⟩) ∨
      (Fails env R (beginStringValueLex env p (some ref) ptr) ∧
        ∀ s, Stops (Denied env R ref start) [] ⟨.string false {}, []⟩ s) := by
  obtain ⟨field, hfield, hkind⟩ := hstart.field_kind
  have hjson : (Option.bind (some ref) env.maps.field?).any (·.kind == .jsonValue) = true := by
    simp [hfield, hkind]
  have hbegins := hR.begins 0 hcore
  by_cases hok : (beginJsonStream env p.core ptr 0).2 = .ok
  swap
  · obtain ⟨hfails, hdeny⟩ := Fails.of_goes (p := p) hbegins hok
    have hbegin : beginStringValueLex env p (some ref) ptr =
        p.onCore (beginJsonStream env p.core ptr 0) := by
      rw [beginStringValueLex]
      simp only [hjson, if_true]
      rw [andThenOk, if_neg (by exact hok)]
    rw [hbegin]
    exact .inr ⟨hfails, fun s => stops_denied hR (.inr (.inr hdeny)) _ _⟩
  obtain ⟨-, hdepth, hinside⟩ := hbegins.resolve_right fun h => by simp [hok] at h
  rw [setJsonDepth_same hdepth] at hinside
  have hactive := (hR.inside_live hinside).1
  have hbegin : beginStringValueLex env p (some ref) ptr =
      if (jsonValueStringBegin env (beginJsonStream env p.core ptr 0).1 false).2 = .ok then
        (p.inText false (jsonValueStringBegin env (beginJsonStream env p.core ptr 0).1 false).1, .ok)
      else
        let r := (p.startString false).onCore
          (jsonValueStringBegin env (beginJsonStream env p.core ptr 0).1 false)
        ({ r.1 with core := clearJsonStreamValue env r.1.core }, r.2) := by
    rw [beginStringValueLex]
    simp only [hjson, if_true]
    rw [andThenOk, if_pos (by exact hok)]
    simp only [Parser.onCore, Parser.startString, hactive, Bool.or_true, Bool.and_true, if_true]
    rfl
  rw [hbegin]
  rcases startText_follows hR hat (by exact hinside) false (fun h => by cases h) with
    ⟨hok, hstreams⟩ | ⟨hhard, hcode, hkept, hstops⟩
  · rw [if_pos hok]
    exact .inl ⟨rfl, hstreams⟩
  · rw [if_neg (Status.ne_ok_of_hard hhard)]
    obtain ⟨allocLive, json, hclear⟩ := clearJsonStreamValue_same env
      (jsonValueStringBegin env (beginJsonStream env p.core ptr 0).1 false).1
    refine .inr ⟨⟨hhard, ?_, ?_⟩, hstops⟩
    · dsimp only [Parser.onCore]
      rw [hclear]
      exact hcode
    · dsimp only [Parser.onCore]
      rw [hclear]
      exact hR.kept_same hkept rfl rfl

/-! ## The end of a string -/

theorem TextAt.live (hR : R.Lawful) {isKey : Bool} {x : Bytes}
    (hat : TextAt env R ref start ts inner isKey x p) :
    p.core.json.active = true ∧ p.core.json.parseVisitorActive = R.visits ∧ p.core.failed = false :=
  hR.text_live hat.core

theorem scratchCstr_noToken (h : p.token.data = none) : p.scratchCstr = p := by
  rw [Parser.scratchCstr, h]

/-- There is always room for a string. -/
theorem granted_text {w : ValueRoom} {depth : ℕ} (h : w.Grants env ts depth) (hmarks : w.marks = true)
    (isKey : Bool) (x : Bytes) : w.Grants env (ts ++ [textToken isKey x]) depth := by
  cases isKey
  · exact h.token hmarks rfl
  · exact h.token hmarks rfl

/-- A key that ends: in both modes the frame waits for the colon, and a captured key is
followed by it. -/
theorem completeKey_eq {f : Frame} {rest : List Frame} (hframes : p.frames = f :: rest)
    (hpending : f.pendingField = none) (hkind : f.kind = .object)
    (hstate : f.state = .objectKeyOrEnd) (hkey : p.lexIsKey = true)
    (htoken : p.token.data = none) (hactive : p.core.json.active = true) :
    (if !p.core.json.parseVisitorActive || streamedJsonValueScalarFieldActive env p then
        completeStreamedStringToken env p
      else deliverString env p) =
      andThenOk (p.onCore (emitMark env p.core 0x3a)) fun p =>
        (p.modifyTop fun f => { f with state := .objectColon }, .ok) := by
  have hsame : (p.modifyTop fun f => { f with pendingField := none }) = p := by
    have hf : { f with pendingField := none } = f := by rw [← hpending]
    rw [Parser.modifyTop, hframes, List.modify_zero_cons, hf, ← hframes]
  have hscalar : streamedJsonValueScalarFieldActive env p = false := by
    simp [streamedJsonValueScalarFieldActive, hkey]
  rw [hscalar, Bool.or_false]
  cases hmode : p.core.json.parseVisitorActive with
  | false =>
      rw [if_pos (by rfl), emitMark, completeStreamedStringToken, hkey, hframes]
      dsimp only
      rw [if_neg (by simp [hkind, hstate]), hsame, hactive, hmode]
      rfl
  | true =>
      rw [if_neg (by simp), deliverString, deliverToken, scratchCstr_noToken htoken]
      dsimp only
      rw [if_pos hkey, deliverKeyText, hframes]
      dsimp only
      rw [if_neg (by simp [hkind, hstate]), if_pos hmode, hsame, emitMark, hmode, Bool.not_true,
        Bool.and_false, if_neg Bool.false_ne_true]
      rfl

/-- The closing quote of a key. -/
theorem finishText_key (hR : R.Lawful) {x : Bytes}
    (hat : TextAt env R ref start ts inner true x p) (hlex : p.lexMode = .none) :
    ((finishJsonString env p).2 = .ok ∧
        Follows env R ref start (ts ++ [.key x]) (finishJsonString env p).1
          ⟨.colon, brackets inner⟩) ∨
      (Fails env R (finishJsonString env p) ∧ Denied env R ref start (ts ++ [.key x])) := by
  obtain ⟨f, fs, rfl, hstate⟩ := hat.object rfl
  obtain ⟨base, outer, hframes, hbase, hlength⟩ := hat.located.frames
  have hf := hat.located.open_frames f (by simp)
  have hkind : f.kind = .object := by
    rw [← hf.kind, hstate]
    rfl
  have hgoes := hR.keyEnds hat.core
  by_cases hok : (jsonValueStringEnd env p.core).2 = .ok
  swap
  · have hfinish : finishJsonString env p = p.onCore (jsonValueStringEnd env p.core) := by
      rw [finishJsonString, andThenOk, if_neg (by exact hok)]
    rw [andThenOk, if_neg (by exact hok)] at hgoes
    obtain ⟨hfails, hdeny⟩ := Fails.of_goes (p := p) hgoes hok
    rw [hfinish]
    exact .inr ⟨hfails, .inr (.inr hdeny)⟩
  obtain ⟨hactive, hvisits⟩ := hR.stringEnd_live hat.core hok
  rw [andThenOk, if_pos (by exact hok)] at hgoes
  have hfinish : finishJsonString env p =
      andThenOk (p.onCore (emitMark env (jsonValueStringEnd env p.core).1 0x3a)) fun p =>
        (p.modifyTop fun f => { f with state := .objectColon }, .ok) := by
    rw [finishJsonString, andThenOk, if_pos (by exact hok)]
    exact completeKey_eq (p := { p with core := (jsonValueStringEnd env p.core).1 }) hframes
      hf.pending hkind hstate hat.key hat.token hactive
  rw [hfinish]
  by_cases hmark : (emitMark env (jsonValueStringEnd env p.core).1 0x3a).2 = .ok
  swap
  · obtain ⟨hfails, hdeny⟩ := Fails.of_goes (p := p) hgoes hmark
    rw [andThenOk, if_neg (by exact hmark)]
    exact .inr ⟨hfails, .inr (.inr hdeny)⟩
  obtain ⟨-, hinside⟩ := hgoes.resolve_right fun h => by simp [hmark] at h
  rw [andThenOk, if_pos (by exact hmark)]
  refine .inl ⟨rfl, .inl ?_⟩
  have hlocated : Located env ptr ref start (ts ++ [.key x])
      ({ f with state := .objectColon } :: fs)
      (Parser.modifyTop (p.onCore (emitMark env (jsonValueStringEnd env p.core).1 0x3a)).1
        fun f => { f with state := .objectColon }) := by
    refine ⟨⟨base, outer, ?_, hbase, hlength⟩, (fun h => by cases h), ?_, hat.located.top,
      hat.located.started, granted_text hat.located.granted hat.located.granted.marked true x⟩
    · exact Parser.modifyTop_cons (by exact hframes) _
    · intro g hg
      rcases List.mem_cons.mp hg with rfl | hg
      · exact ⟨hf.map, hf.pending, hf.seen, hf.field, hkind.symm⟩
      · exact hat.located.open_frames g (by simp [hg])
  have hstreams := Streams.between (R := R) hlocated hlex hinside
  simpa [frameMode, brackets] using hstreams

theorem scratchCstr_core : p.scratchCstr.core = p.core := by
  rw [Parser.scratchCstr]
  split <;> rfl

/-- A token inside a container is a value of it. -/
theorem deliverToken_nested {f : Frame} {rest : List Frame} {mode : LexMode}
    (hframes : p.scratchCstr.frames = f :: rest) (hf : f.Inner env) (hkey : p.lexIsKey = false)
    (hactive : p.core.json.active = true)
    (hnumber : mode = .number → isValidJsonNumber p.token.bytes = true) :
    ∃ afterComma, deliverToken env p mode =
      andThenOk (p.scratchCstr.onCore (deliverStreamedScalar env p.core p.token.bytes mode))
        fun p => completeParentAfterValue (p.modifyTop fun f => { f with afterComma }) := by
  have hbytes : p.scratchCstr.token.bytes = p.token.bytes := by
    rw [Parser.scratchCstr]
    split <;> rfl
  have hkey : p.scratchCstr.lexIsKey = false := by
    rw [Parser.scratchCstr]
    split <;> exact hkey
  have hcore : p.scratchCstr.core = p.core := scratchCstr_core
  rw [deliverToken]
  dsimp only
  rw [← hbytes] at hnumber ⊢
  rw [← hcore] at hactive ⊢
  generalize p.scratchCstr = q at *
  rw [hkey, if_neg Bool.false_ne_true, hframes]
  dsimp only
  rw [if_neg fun h => h.2.2 (hnumber h.1)]
  cases hkind : f.kind with
  | object =>
      refine ⟨f.afterComma, ?_⟩
      dsimp only
      rw [if_pos ⟨hactive, by rw [hf.pending]; rfl⟩, andThenOk, andThenOk]
      have hsame (c : Core σ) : (Parser.modifyTop { q with core := c }
          fun g => { g with afterComma := f.afterComma }) = { q with core := c } := by
        simp only [Parser.modifyTop, hframes, List.modify_zero_cons]
      rw [Parser.onCore, hsame]
  | array =>
      refine ⟨false, ?_⟩
      dsimp only
      rw [hf.array_field hkind]
      dsimp only
      rw [if_pos hactive, andThenOk, andThenOk]
      have hcomplete (c : Core σ) : completeParentAfterValue (Parser.modifyTop { q with core := c }
            fun f => { f with afterComma := false }) =
          (Parser.modifyTop { q with core := c }
            fun f => { f with afterComma := false, state := .arrayCommaOrEnd }, .ok) := by
        rw [completeParentAfterValue_array (Parser.modifyTop_cons (by exact hframes) _) hkind]
        simp only [Parser.modifyTop, hframes, List.modify_zero_cons]
      rw [Parser.onCore, hcomplete]

/-- A string inside a container that ends is a value of it. -/
theorem completeString_eq {f : Frame} {rest : List Frame} (hframes : p.frames = f :: rest)
    (hf : f.Inner env) (hkey : p.lexIsKey = false) (htoken : p.token.data = none)
    (hactive : p.core.json.active = true) :
    ∃ afterComma, (if !p.core.json.parseVisitorActive || streamedJsonValueScalarFieldActive env p then
        completeStreamedStringToken env p
      else deliverString env p) =
      completeParentAfterValue (p.modifyTop fun f => { f with afterComma }) := by
  have hscalar : streamedJsonValueScalarFieldActive env p = false := by
    simp [streamedJsonValueScalarFieldActive, hframes, hkey, Frame.pending?, hf.pending]
  rw [hscalar, Bool.or_false]
  cases hmode : p.core.json.parseVisitorActive with
  | false =>
      refine ⟨f.afterComma, ?_⟩
      have hsame : (p.modifyTop fun g => { g with afterComma := f.afterComma }) = p := by
        rw [Parser.modifyTop, hframes, List.modify_zero_cons, ← hframes]
      rw [hsame, if_pos (by rfl), completeStreamedStringToken, hkey, hframes]
      dsimp only
      cases hkind : f.kind with
      | object =>
          dsimp only
          rw [hf.pending]
      | array =>
          dsimp only
          rw [hf.array_field hkind]
          rfl
  | true =>
      have hcstr := scratchCstr_noToken htoken
      obtain ⟨afterComma, hdeliver⟩ := @deliverToken_nested _ env p f rest .string
        (by rw [hcstr]; exact hframes) hf hkey hactive (fun h => by cases h)
      refine ⟨afterComma, ?_⟩
      have hvisit : deliverStreamedScalar env p.core p.token.bytes .string = (p.core, .ok) := by
        rw [deliverStreamedScalar, if_pos hmode]
        rfl
      rw [if_neg (by simp), deliverString, hdeliver, hvisit, hcstr]
      rfl

/-- The closing quote of a string inside a container. -/
theorem finishText_nested (hR : R.Lawful) {x : Bytes} {f : Frame}
    (hat : TextAt env R ref start ts (f :: inner) false x p) (hlex : p.lexMode = .none) :
    ((finishJsonString env p).2 = .ok ∧
        Follows env R ref start (ts ++ [.string x]) (finishJsonString env p).1
          ⟨.after, brackets (f :: inner)⟩) ∨
      (Fails env R (finishJsonString env p) ∧ Denied env R ref start (ts ++ [.string x])) := by
  obtain ⟨base, outer, hframes, hbase, hlength⟩ := hat.located.frames
  have hf := hat.located.open_frames f (by simp)
  have hgoes := hR.stringEnds hat.core
  by_cases hok : (jsonValueStringEnd env p.core).2 = .ok
  swap
  · have hfinish : finishJsonString env p = p.onCore (jsonValueStringEnd env p.core) := by
      rw [finishJsonString, andThenOk, if_neg (by exact hok)]
    obtain ⟨hfails, hdeny⟩ := Fails.of_goes (p := p) hgoes hok
    rw [hfinish]
    exact .inr ⟨hfails, .inr (.inr hdeny)⟩
  obtain ⟨-, hinside⟩ := hgoes.resolve_right fun h => by simp [hok] at h
  obtain ⟨hactive, -⟩ := hR.stringEnd_live hat.core hok
  obtain ⟨afterComma, hfinish⟩ : ∃ afterComma, finishJsonString env p =
      completeParentAfterValue (Parser.modifyTop
        { p with core := (jsonValueStringEnd env p.core).1 } fun f => { f with afterComma }) := by
    rw [finishJsonString, andThenOk, if_pos (by exact hok)]
    exact completeString_eq (p := { p with core := (jsonValueStringEnd env p.core).1 }) hframes
      hf hat.key hat.token hactive
  rw [hfinish]
  have htop := Parser.modifyTop_cons
    (p := { p with core := (jsonValueStringEnd env p.core).1 }) hframes fun f => { f with afterComma }
  refine .inl ?_
  refine complete_follows ({ f with afterComma } :: inner) htop hbase hlength ?_ ?_
    hat.located.started hlex (granted_text hat.located.granted hat.located.granted.marked false x)
    (by simp) (fun h => by cases h) fun _ => hinside
  · intro g hg
    rcases List.mem_cons.mp hg with rfl | hg
    · exact ⟨hf.map, hf.pending, hf.seen, hf.field, hf.kind⟩
    · exact hat.located.open_frames g (by simp [hg])
  · intro _
    exact hat.located.top

theorem exit_append (R : Recorder env ptr) (marked : Bytes → Bytes) (x : Bytes) :
    R.exit marked (ts ++ [.string x]) = ts ++ [.string x] := by
  cases ts with
  | nil => rfl
  | cons t ts => cases ts <;> rfl

/-- The closing quote of a string that is the value. -/
theorem finishText_value (hR : R.Lawful) (hstart : AwaitsValue env R ref start) {x : Bytes}
    (hat : TextAt env R ref start ts [] false x p) (hlex : p.lexMode = .none) :
    ((finishJsonString env p).2 = .ok ∧
        Follows env R ref start (ts ++ [.string x]) (finishJsonString env p).1 ⟨.after, []⟩) ∨
      (Fails env R (finishJsonString env p) ∧ Denied env R ref start (ts ++ [.string x])) := by
  obtain ⟨f, outer, hstartFrames, hwaits⟩ := hstart.frame
  obtain ⟨field, hfield, hkind⟩ := hstart.field_kind
  have hframes : p.frames = f :: outer := (hat.located.home rfl).trans hstartFrames
  have hgoes := hR.stringEnds hat.core
  by_cases hok : (jsonValueStringEnd env p.core).2 = .ok
  swap
  · have hfinish : finishJsonString env p = p.onCore (jsonValueStringEnd env p.core) := by
      rw [finishJsonString, andThenOk, if_neg (by exact hok)]
    obtain ⟨hfails, hdeny⟩ := Fails.of_goes (p := p) hgoes hok
    rw [hfinish]
    exact .inr ⟨hfails, .inr (.inr hdeny)⟩
  obtain ⟨-, hinside⟩ := hgoes.resolve_right fun h => by simp [hok] at h
  generalize hq : ({ p with core := (jsonValueStringEnd env p.core).1 } : Parser σ) = q
  have hcore : R.inside 0 (ts ++ [.string x]) q.core := hq ▸ hinside
  have hqframes : q.frames = f :: outer := by rw [← hq]; exact hframes
  have hqlex : q.lexMode = .none := by rw [← hq]; exact hlex
  have hqkey : q.lexIsKey = false := by rw [← hq]; exact hat.key
  have hqstarted : q.rootStarted = true := by rw [← hq]; exact hat.located.started
  have hqtop : q.workspaceTop = start.workspaceTop := by rw [← hq]; exact hat.located.top
  have hfinish : finishJsonString env p = andThenOk (markFieldSeen env q ref) fun p =>
      completeParentAfterValue (p.endJsonStream env) := by
    have hscalar : streamedJsonValueScalarFieldActive env q = true := by
      simp [streamedJsonValueScalarFieldActive, hqframes, hqkey, Frame.pending?, hwaits.kind,
        hwaits.pending, hfield, hkind]
    rw [finishJsonString, andThenOk, if_pos (by exact hok), Parser.onCore, hq]
    dsimp only
    rw [hscalar, Bool.or_true, if_pos rfl, completeStreamedStringToken, hqkey, hqframes]
    dsimp only
    rw [hwaits.kind]
    dsimp only
    rw [hwaits.pending]
    dsimp only
    rw [if_pos (by simp [hfield, hkind])]
  rw [hfinish]
  have hmark := mark_follows (p := q) hR hstartFrames hqframes hqtop hwaits ⟨rfl, rfl, rfl⟩
    (hR.inside_kept hcore)
  rcases hmark with ⟨hmarks, hok, base, token, hbase, hmarked⟩ | ⟨hmarks, hfails⟩
  · have hlength : outer.length + 1 = start.frames.length := by
      rw [hstartFrames]
      rfl
    have hended : (clearJsonStreamValue env q.core).setJsonDepth 0 =
        clearJsonStreamValue env q.core := by
      rw [← clearJsonStreamValue_depth env q.core, (hR.inside_live hcore).2.2.1]
      rfl
    rw [andThenOk, if_pos hok, hmarked, Parser.endJsonStream]
    dsimp only
    rw [hended]
    refine .inl ?_
    refine complete_follows [] rfl hbase hlength (fun _ h => by cases h) (absurd rfl ·)
      hqstarted hqlex (granted_text hat.located.granted hmarks false x) (by simp) ?_ (absurd rfl ·)
    intro _
    rw [exit_append]
    exact hR.ends hcore
  · rw [andThenOk, if_neg (Status.ne_ok_of_hard hfails.1)]
    exact .inr ⟨hfails, .inl hmarks⟩

/-- The closing quote of a string. -/
theorem finishText_follows (hR : R.Lawful) (hstart : AwaitsValue env R ref start) {isKey : Bool}
    {x : Bytes} (hat : TextAt env R ref start ts inner isKey x p) (hlex : p.lexMode = .none) :
    ((finishJsonString env p).2 = .ok ∧
        Follows env R ref start (ts ++ [textToken isKey x]) (finishJsonString env p).1
          ⟨Json.afterString isKey, brackets inner⟩) ∨
      (Fails env R (finishJsonString env p) ∧ Denied env R ref start (ts ++ [textToken isKey x])) := by
  cases isKey with
  | true => exact finishText_key hR hat hlex
  | false =>
      cases inner with
      | nil => exact finishText_value hR hstart hat hlex
      | cons f fs => exact finishText_nested hR hat hlex

/-! ## Reading a string -/

theorem TextAt.chunk (hR : R.Lawful) {isKey : Bool} {x data : Bytes}
    (hat : TextAt env R ref start ts inner isKey x p) (hdata : data ≠ []) :
    Filled (TextAt env R ref start ts inner isKey) (fun p => R.kept p.core)
      (fun x => Denied env R ref start (ts ++ [textToken isKey x])) p (x ++ data)
      (p.onCore (jsonValueStringChunk env p.core data)) := by
  rcases hR.chunks hat.core hdata with ⟨hok, htext⟩ | ⟨hhard, -, hkept, hdeny⟩
  · refine .inl ⟨hok, ?_, rfl⟩
    exact ⟨hat.located.same rfl rfl rfl, htext, hat.capture, hat.token, hat.key, hat.object⟩
  · exact .inr ⟨hhard, hkept, .inr (.inr hdeny)⟩

theorem appendStringByte_json (h : p.captureMode = .jsonVisitor) (ch : Byte) :
    appendStringByte env p ch = p.onCore (jsonValueStringChunk env p.core [ch]) := by
  rw [appendStringByte, h]

theorem appendUnicodeCodepoint_json (h : p.captureMode = .jsonVisitor) {cp : ℕ} {data : Bytes}
    (hdata : utf8Encode cp = some data) :
    appendUnicodeCodepoint env p cp = p.onCore (jsonValueStringChunk env p.core data) := by
  rw [appendUnicodeCodepoint, h]
  dsimp only
  rw [hdata]

theorem appendUnicodeCodepoint_none (h : p.captureMode = .jsonVisitor) {cp : ℕ}
    (hinvalid : utf8Encode cp = none) :
    appendUnicodeCodepoint env p cp = p.setError .invalidJson "invalid unicode codepoint" := by
  rw [appendUnicodeCodepoint, h]
  dsimp only
  rw [hinvalid]

theorem generalSink_run (h : p.captureMode = .jsonVisitor) (data : Bytes) :
    (generalSink env).run p data = p.onCore (jsonValueStringChunk env p.core data) := by
  simp only [generalSink, h]

theorem generalSink_finish (h : p.captureMode = .jsonVisitor) :
    (generalSink env).finish p = finishJsonString env p := by
  simp only [generalSink, h]

/-- The general loop reads a string of the value. -/
theorem text_fills (hR : R.Lawful) (isKey : Bool) :
    Fills env (TextAt env R ref start ts inner isKey) (fun p => R.kept p.core)
      (fun x => Denied env R ref start (ts ++ [textToken isKey x])) (generalSink env) where
  moved _ _ _ _ _ h := ⟨h.located.same rfl rfl rfl, h.core, h.capture, h.token, h.key, h.object⟩
  keeps h := hR.text_kept h.core
  error _ _ _ h := hR.kept_same h rfl rfl
  run h hdata _ := by
    rw [generalSink_run h.capture]
    exact h.chunk hR hdata
  byte {_ _ ch} h _ := by
    have hchunk := h.chunk hR (List.cons_ne_nil ch [])
    rw [← appendStringByte_json h.capture] at hchunk
    exact hchunk
  codepoint h hdata := by
    have hchunk := h.chunk hR (utf8Encode_ne_nil hdata)
    rw [← appendUnicodeCodepoint_json h.capture hdata] at hchunk
    exact hchunk
  invalid {_ p _} h hinvalid := by
    have hcodepoint := @appendUnicodeCodepoint_none _ env _ h.capture _ hinvalid
    simp only [generalSink, hcodepoint]
    exact ⟨rfl, hR.kept_same (hR.text_kept h.core) rfl rfl⟩
  charByte {_ _ ch} h _ := by
    rw [appendStringByte_json h.capture]
    exact h.chunk hR (List.cons_ne_nil ch [])
  charCodepoint h hdata := by
    rw [appendUnicodeCodepoint_json h.capture hdata]
    exact h.chunk hR (utf8Encode_ne_nil hdata)
  charInvalid h hinvalid := by
    rw [appendUnicodeCodepoint_none h.capture hinvalid]
    exact ⟨rfl, hR.kept_same (hR.text_kept h.core) rfl rfl⟩

theorem TextAt.scan {isKey : Bool} {x : Bytes} (h : TextAt env R ref start ts inner isKey x p)
    (bytes : Bytes) : consumeStringFast env p bytes = scanString (generalSink env) p bytes := by
  rw [consumeStringFast, h.capture]
  dsimp only
  rw [if_neg fun hkey => by cases hkey.2.1]

end

end Lonejson
