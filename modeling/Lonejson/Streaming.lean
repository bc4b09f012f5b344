import Lonejson.Marking
import Lonejson.Recording

/-!
# A value that is streamed

A parser inside the value of a JSON value member steps as the machine of the grammar does,
and hands each token to the recorder, until the value ends or a step fails. A step fails
on bytes that are no value, and on tokens that are denied.
-/

namespace Lonejson

open Json (Text Mode State Bracket)

variable {σ : Type}

/-! ## Where the value is -/

/-- The frame whose member is being read. -/
structure Frame.Waits (ref : FieldRef) (ptr : SlotPtr) (f : Frame) : Prop where
  kind : f.kind = .object
  state : f.state = .objectValue
  pending : f.pendingField = some ref
  slot : f.slot ref = ptr

/-- A container inside the value. -/
structure Frame.Inner (env : Env σ) (f : Frame) : Prop where
  map : f.map = none
  pending : f.pendingField = none
  seen : f.seenFields = none
  field : f.field = none ∨ f.kind = .object ∧ (f.field? env).any (·.kind == .jsonValue) = true
  kind : f.state.kind = f.kind

theorem Frame.Inner.array_field {env : Env σ} {f : Frame} (h : f.Inner env)
    (hkind : f.kind = .array) : f.field = none := by
  rcases h.field with h | ⟨h, -⟩
  · exact h
  · rw [hkind] at h
    cases h

def Parser.valueRoom (env : Env σ) (ref : FieldRef) (p : Parser σ) : ValueRoom where
  marks := (markFieldSeen env p ref).2 == .ok
  scalarTop := p.workspaceTop
  containerTop := (markFieldSeen env p ref).1.workspaceTop
  base := p.frames.length

/-- What the mark of the field leaves of a token at the token base. -/
def Parser.markedText (env : Env σ) (ref : FieldRef) (p : Parser σ) (text : Bytes) : Bytes :=
  (markFieldSeen env { p with token := { data := some (tokenBase env p), bytes := text } }
    ref).1.token.bytes

/-- A parser at the value of a JSON value member. The marks lie above the room. -/
structure AwaitsValue (env : Env σ) {ptr : SlotPtr} (R : Recorder env ptr) (ref : FieldRef)
    (p : Parser σ) : Prop where
  lex : p.lexMode = .none
  frame : ∃ f fs, p.frames = f :: fs ∧ f.Waits ref ptr
  field : (env.maps.field? ref).any (·.kind == .jsonValue) = true
  core : R.waits p.core
  started : p.rootStarted = true
  above : ∀ f ∈ p.frames, ∀ seen, f.seenFields = some seen → p.workspaceTop ≤ seen.offset

/-- A scalar as it is recorded when the mark of its field lies over it. -/
def Recorder.exitToken {env : Env σ} {ptr : SlotPtr} (R : Recorder env ptr)
    (marked : Bytes → Bytes) : Json.Token → Json.Token
  | .number text => .number (marked text)
  | .literal text => .literal (if R.visits ∨ text = nullText then text else marked text)
  | t => t

/-- The tokens that are recorded for those that were read. -/
def Recorder.exit {env : Env σ} {ptr : SlotPtr} (R : Recorder env ptr) (marked : Bytes → Bytes) :
    List Json.Token → List Json.Token
  | [t] => [R.exitToken marked t]
  | ts => ts

section

variable (env : Env σ) {ptr : SlotPtr} (R : Recorder env ptr) (ref : FieldRef) (start : Parser σ)

variable (ptr) in
/-- A parser inside the value, with the containers that are open there. -/
structure Located (ts : List Json.Token) (inner : List Frame) (p : Parser σ) : Prop where
  frames : ∃ base outer, p.frames = inner ++ base :: outer ∧ base.Waits ref ptr ∧
    outer.length + 1 = start.frames.length
  home : inner = [] → p.frames = start.frames
  open_frames : ∀ f ∈ inner, f.Inner env
  top : p.workspaceTop = (start.valueRoom env ref).top inner.length
  started : p.rootStarted = true
  granted : (start.valueRoom env ref).Grants env ts inner.length

def brackets (inner : List Frame) : List Bracket := inner.map (·.kind.bracket)

/-- The recorder while a scalar is read. -/
def ScalarCore (ts : List Json.Token) (inner : List Frame) (c : Core σ) : Prop :=
  if inner = [] then ts = [] ∧ R.waits c else R.inside inner.length ts c

/-- A number or a literal inside the value. -/
structure ScalarAt (ts : List Json.Token) (inner : List Frame) (p : Parser σ) : Prop where
  located : Located env ptr ref start ts inner p
  core : ScalarCore env R ts inner p.core
  key : p.lexIsKey = false
  data : p.token.data = some (tokenBase env p)
  cap : p.token.cap = tokenLimit env p
  fits : p.token.bytes.length + 2 ≤ p.token.cap

/-- A string inside the value. -/
structure TextAt (ts : List Json.Token) (inner : List Frame) (isKey : Bool) (x : Bytes)
    (p : Parser σ) : Prop where
  located : Located env ptr ref start ts inner p
  core : R.text inner.length ts isKey x p.core
  capture : p.captureMode = .jsonVisitor
  token : p.token.data = none
  key : p.lexIsKey = isKey
  object : isKey = true → ∃ f fs, inner = f :: fs ∧ f.state = .objectKeyOrEnd

/-- A parser before the value or inside it, and the state of the machine. -/
inductive Streams (ts : List Json.Token) : Parser σ → State DecodeState → Prop where
  | waits {p : Parser σ} (hat : Located env ptr ref start ts [] p) (hnil : ts = [])
      (hlex : p.lexMode = .none) (hcore : R.waits p.core) : Streams ts p ⟨.value, []⟩
  | between {p : Parser σ} {f : Frame} {fs : List Frame}
      (hat : Located env ptr ref start ts (f :: fs) p) (hlex : p.lexMode = .none)
      (hcore : R.inside (fs.length + 1) ts p.core) :
      Streams ts p ⟨frameMode f.state f.afterComma, brackets (f :: fs)⟩
  | text {p : Parser σ} {q : DecodeState} {inner : List Frame} {isKey : Bool}
      (hat : StringAt (TextAt env R ref start ts inner isKey) p q) :
      Streams ts p ⟨.string isKey q, brackets inner⟩
  | number {p : Parser σ} {inner : List Frame} (hat : ScalarAt env R ref start ts inner p)
      (hlex : p.lexMode = .number) : Streams ts p ⟨.number p.token.bytes, brackets inner⟩
  | literal {p : Parser σ} {inner : List Frame} {rest : Bytes}
      (hat : ScalarAt env R ref start ts inner p)
      (hlex : literalText? p.lexMode = some (p.token.bytes ++ rest)) (hne : p.token.bytes ≠ [])
      (hrest : rest ≠ []) : Streams ts p ⟨.literal p.token.bytes.length rest, brackets inner⟩

/-- A parser behind the value, with the tokens that are recorded. -/
structure Finished (ts : List Json.Token) (p : Parser σ) : Prop where
  lex : p.lexMode = .none
  frame : ∃ f fs, p.frames = f :: fs ∧ f.kind = .object ∧ f.state = .objectCommaOrEnd ∧
    f.pendingField = none ∧ fs.length + 1 = start.frames.length
  started : p.rootStarted = true
  told : ts ≠ []
  granted : (start.valueRoom env ref).Grants env ts 0
  core : R.ended (R.exit (start.markedText env ref) ts) p.core

/-- A parser inside the value, or behind it. -/
def Follows (ts : List Json.Token) (p : Parser σ) (st : State DecodeState) : Prop :=
  Streams env R ref start ts p st ∨ st = ⟨.after, []⟩ ∧ Finished env R ref start ts p

def Denied (ts : List Json.Token) : Prop := (start.valueRoom env ref).Denies env R.deny ts

/-- A step that gives up. -/
def Fails (r : Parser σ × Status) : Prop :=
  r.2.soft = false ∧ r.1.core.error.code.soft = false ∧ R.kept r.1.core

/-- The step of one byte: the machine goes on, or the value in progress is refused. -/
def StreamStep (ts : List Json.Token) (st : State DecodeState) (b : Byte)
    (r : Parser σ × Status) : Prop :=
  (r.2 = .ok ∧ ∃ ts' st', (∀ s, Told st (b :: s) ts' st' s) ∧
      Follows env R ref start (ts ++ ts') r.1 st') ∨
    (Fails env R r ∧ ∀ s, Stops (Denied env R ref start) ts st (b :: s))

end

section

variable {env : Env σ} {ptr : SlotPtr} {R : Recorder env ptr} {ref : FieldRef} {start : Parser σ}
  {ts : List Json.Token} {p : Parser σ} {inner : List Frame}

/-! ## What is denied -/

theorem denied_more (hR : R.Lawful) (h : Denied env R ref start ts) (ts' : List Json.Token) :
    Denied env R ref start (ts ++ ts') := by
  rcases h with h | h | h
  · exact .inl h
  · refine .inr (.inl ?_)
    rw [ValueRoom.fitsAll_append, h, Bool.false_and]
  · exact .inr (.inr (hR.deny_more ts' h))

theorem denied_token {t : Json.Token} {depth : ℕ} (hdepth : ts.foldl nest 0 = depth)
    (hfits : (start.valueRoom env ref).fits env depth t = false) (ts' : List Json.Token) :
    Denied env R ref start (ts ++ t :: ts') := by
  refine .inr (.inl ?_)
  rw [ValueRoom.fitsAll_append, hdepth, ValueRoom.fitsAll, hfits, Bool.false_and, Bool.and_false]

theorem stops_denied (hR : R.Lawful) (h : Denied env R ref start ts) (st : State DecodeState)
    (s : Text) : Stops (Denied env R ref start) ts st s :=
  fun _ ts' _ _ => denied_more hR h ts'

theorem fails_error (hR : R.Lawful) (hkept : R.kept p.core) {code : Status}
    (hcode : code.soft = false) (message : String) (arg : Bytes) :
    Fails env R (p.setError code message arg) :=
  ⟨hcode, hcode, hR.kept_same hkept rfl rfl⟩

theorem Fails.of_goes {P : Core σ → Prop} {r : Core σ × Status} (h : R.Goes P ts r)
    (hno : r.2 ≠ .ok) : Fails env R (p.onCore r) ∧ R.deny ts := by
  rcases h with ⟨hok, -⟩ | ⟨hhard, hcode, hkept, hdeny⟩
  · exact absurd hok hno
  · exact ⟨⟨hhard, hcode, hkept⟩, hdeny⟩

/-! ## The end of a value -/

variable (inner) in
/-- A complete value leaves its container behind a value, or ends the whole. -/
theorem complete_follows {base : Frame} {outer : List Frame}
    (hframes : p.frames = inner ++ base :: outer) (hbase : base.Waits ref ptr)
    (hlength : outer.length + 1 = start.frames.length) (hinner : ∀ f ∈ inner, f.Inner env)
    (htop : inner ≠ [] → p.workspaceTop = (start.valueRoom env ref).containerTop)
    (hstarted : p.rootStarted = true) (hlex : p.lexMode = .none)
    (hgranted : (start.valueRoom env ref).Grants env ts inner.length) (htold : ts ≠ [])
    (hended : inner = [] → R.ended (R.exit (start.markedText env ref) ts) p.core)
    (hinside : inner ≠ [] → R.inside inner.length ts p.core) :
    (completeParentAfterValue p).2 = .ok ∧
      Follows env R ref start ts (completeParentAfterValue p).1 ⟨.after, brackets inner⟩ := by
  cases inner with
  | nil =>
      rw [completeParentAfterValue_object hframes hbase.kind]
      exact ⟨rfl, .inr ⟨rfl, hlex, ⟨_, _, rfl, hbase.kind, rfl, rfl, hlength⟩, hstarted,
        htold, hgranted, hended rfl⟩⟩
  | cons f fs =>
      have hf := hinner f (by simp)
      have hat (g : Frame) (hg : g.Inner env) : Located env ptr ref start ts (g :: fs)
          { p with frames := g :: (fs ++ base :: outer) } := by
        refine ⟨⟨base, outer, rfl, hbase, hlength⟩, (nomatch ·), ?_, ?_, hstarted, hgranted⟩
        · intro x hx
          rcases List.mem_cons.mp hx with rfl | hx
          · exact hg
          · exact hinner x (by simp [hx])
        · exact htop (by simp)
      cases hkind : f.kind with
      | object =>
          rw [completeParentAfterValue_object hframes hkind]
          refine ⟨rfl, .inl ?_⟩
          have hstreams := @Streams.between _ env _ R _ _ _ _ _ _
            (hat { f with state := .objectCommaOrEnd, pendingField := none }
              ⟨hf.map, rfl, hf.seen, hf.field, hkind.symm⟩) hlex (hinside (by simp))
          simpa [brackets, frameMode] using hstreams
      | array =>
          rw [completeParentAfterValue_array hframes hkind]
          refine ⟨rfl, .inl ?_⟩
          have hstreams := @Streams.between _ env _ R _ _ _ _ _ _
            (hat { f with state := .arrayCommaOrEnd }
              ⟨hf.map, hf.pending, hf.seen, hf.field, hkind.symm⟩) hlex (hinside (by simp))
          simpa [brackets, frameMode] using hstreams

/-! ## Closing brackets -/

/-- The end of a container: its bracket, and then the end of its value. -/
def closeContainer (env : Env σ) (p : Parser σ) (kind : ContainerKind) : Parser σ × Status :=
  andThenSoft (closeStreamedContainer env p kind) fun p =>
    completeParentAfterValue (leaveStreamedContainer env (popFrame p))

theorem finalizeObject_inner {f : Frame} {fs : List Frame} (hframes : p.frames = f :: fs)
    (hf : f.Inner env) : finalizeObject env p = closeContainer env p .object := by
  have hfinish (c : Core σ) :
      mappedArrayStreamFinishItem env { p with core := c } = ({ p with core := c }, .ok) := by
    simp only [mappedArrayStreamFinishItem, hframes]
    rcases hf.field with hnone | ⟨-, hjson⟩
    · rw [hnone]
    · split
      · rename_i field _ hfield
        rw [hfield] at hjson
        have hkind : field.kind = .jsonValue := by simpa using hjson
        rw [if_pos (by simp [hkind])]
      · rfl
  have hclose : ∃ c, (closeStreamedContainer env p .object).1 = { p with core := c } := by
    unfold closeStreamedContainer
    split
    · exact ⟨_, rfl⟩
    · exact ⟨p.core, rfl⟩
  obtain ⟨c, hc⟩ := hclose
  unfold finalizeObject closeContainer
  simp only [hframes, hf.map, Option.isSome_none, Bool.false_and, Bool.false_eq_true, if_false,
    missingRequired]
  unfold andThenSoft
  rw [hc]
  dsimp only
  rw [hfinish]
  rfl

theorem finalizeArray_inner {f : Frame} {fs : List Frame} (hframes : p.frames = f :: fs)
    (hf : f.Inner env) (hkind : f.kind = .array) :
    finalizeArray env p = closeContainer env p .array := by
  have hfield := hf.array_field hkind
  unfold finalizeArray closeContainer
  simp only [hframes, hfield]

theorem closeContainer_follows (hR : R.Lawful) {f : Frame}
    (hat : Located env ptr ref start ts (f :: inner) p) (hlex : p.lexMode = .none)
    (hcore : R.inside (inner.length + 1) ts p.core) (kind : ContainerKind) :
    ((closeContainer env p kind).2 = .ok ∧
        Follows env R ref start (ts ++ [.closing kind.bracket]) (closeContainer env p kind).1
          ⟨.after, brackets inner⟩) ∨
      (Fails env R (closeContainer env p kind) ∧
        Denied env R ref start (ts ++ [.closing kind.bracket])) := by
  obtain ⟨base, outer, hframes, hbase, hlength⟩ := hat.frames
  have hactive := (hR.inside_live hcore).1
  have hgoes : R.Goes _ _ (jsonClose env p.core kind) := hR.closes hcore
  have hclose : closeStreamedContainer env p kind = p.onCore (jsonClose env p.core kind) := by
    rw [closeStreamedContainer, if_pos hactive]
  rw [closeContainer, hclose]
  by_cases hok : (jsonClose env p.core kind).2 = .ok
  swap
  · obtain ⟨hfails, hdeny⟩ := Fails.of_goes (p := p) hgoes hok
    rw [andThenSoft, if_neg (by simp [hfails.1])]
    exact .inr ⟨hfails, .inr (.inr hdeny)⟩
  obtain ⟨-, hlive, hdepth, hinside⟩ := hgoes.resolve_right fun h => by simp [hok] at h
  rw [Parser.onCore, hok]
  generalize (jsonClose env p.core kind).1 = c at hlive hdepth hinside ⊢
  have hseen := (hat.open_frames f (by simp)).seen
  have hpop : popFrame { p with core := c } =
      { p with core := c, frames := inner ++ base :: outer } := by
    simp [popFrame, hframes, hseen]
  have hleave : leaveStreamedContainer env { p with core := c, frames := inner ++ base :: outer } =
      { p with
        frames := inner ++ base :: outer
        core := if inner = [] then clearJsonStreamValue env (c.setJsonDepth 0)
          else c.setJsonDepth inner.length } := by
    simp only [leaveStreamedContainer, hlive, hdepth, Nat.add_sub_cancel]
    cases inner with
    | nil => rfl
    | cons g gs => rfl
  have hgranted : (start.valueRoom env ref).Grants env (ts ++ [.closing kind.bracket])
      inner.length := hat.granted.token hat.granted.marked rfl
  refine .inl ?_
  have hrest (q : Parser σ) (k : Parser σ → Parser σ × Status) : andThenSoft (q, .ok) k = k q := rfl
  rw [hrest, hpop, hleave]
  refine complete_follows inner rfl hbase hlength ?_ ?_ hat.started hlex hgranted (by simp) ?_ ?_
  · exact fun x hx => hat.open_frames x (by simp [hx])
  · intro _
    exact hat.top
  · rintro rfl
    have hexit : R.exit (start.markedText env ref) (ts ++ [.closing kind.bracket]) =
        ts ++ [.closing kind.bracket] := by
      cases ts with
      | nil => rfl
      | cons t ts => cases ts <;> rfl
    rw [hexit]
    exact hR.ends hinside
  · intro hne
    dsimp only
    rw [if_neg hne]
    exact hinside

/-! ## Opening brackets -/

/-- One more frame, when there is room for it. -/
theorem pushFrame_framed {depth : ℕ} (hlength : p.frames.length = start.frames.length + depth)
    (htop : p.workspaceTop = (start.valueRoom env ref).containerTop) (frame : Frame) :
    if (start.valueRoom env ref).framed env depth then
      pushFrame env p frame = ({ p with frames := frame :: p.frames }, .ok)
    else ∃ message, pushFrame env p frame = p.failError .overflow message := by
  have hframed : (start.valueRoom env ref).framed env depth = true ↔
      ¬ (env.options.maxDepth ≠ 0 ∧ p.frames.length ≥ env.options.maxDepth) ∧
        ¬ frameBytes env (p.frames.length + 1) > p.workspaceTop := by
    have hbase : (start.valueRoom env ref).base = start.frames.length := rfl
    rw [htop, hlength]
    generalize (start.valueRoom env ref) = room at hbase
    simp only [ValueRoom.framed, hbase, Bool.and_eq_true, Bool.or_eq_true, beq_iff_eq,
      decide_eq_true_eq]
    omega
  rw [pushFrame]
  split
  · rename_i hroom
    obtain ⟨hdepth, hspace⟩ := hframed.mp hroom
    rw [if_neg hdepth, if_neg hspace]
  · rename_i hroom
    rw [hframed, not_and_or, not_not, not_not] at hroom
    split_ifs with hdepth hspace
    · exact ⟨_, rfl⟩
    · exact ⟨_, rfl⟩
    · tauto

theorem pushFrame_core {frame : Frame} (h : (pushFrame env p frame).2 = .ok) :
    (pushFrame env p frame).1.core = p.core := by
  rw [pushFrame] at h ⊢
  split_ifs at h ⊢
  · cases h
  · cases h
  · rfl

theorem fails_failError (hR : R.Lawful) (hkept : R.kept p.core) {code : Status}
    (hcode : code.soft = false) (message : String) (arg : Bytes) :
    Fails env R (p.failError code message arg) :=
  ⟨hcode, hcode, hR.kept_same hkept rfl rfl⟩

/-- A parser whose innermost container is not behind a comma. -/
theorem Located.clearComma {f : Frame} (hat : Located env ptr ref start ts (f :: inner) p) :
    Located env ptr ref start ts ({ f with afterComma := false } :: inner)
      (p.modifyTop fun f => { f with afterComma := false }) := by
  obtain ⟨base, outer, hframes, hbase, hlength⟩ := hat.frames
  have hf := hat.open_frames f (by simp)
  refine ⟨⟨base, outer, ?_, hbase, hlength⟩, (nomatch ·), ?_, hat.top, hat.started, hat.granted⟩
  · exact p.modifyTop_cons hframes _
  · intro x hx
    rcases List.mem_cons.mp hx with rfl | hx
    · exact ⟨hf.map, hf.pending, hf.seen, hf.field, hf.kind⟩
    · exact hat.open_frames x (by simp [hx])

theorem Located.length (hat : Located env ptr ref start ts inner p) :
    p.frames.length = start.frames.length + inner.length := by
  obtain ⟨base, outer, hframes, -, hlength⟩ := hat.frames
  rw [hframes, List.length_append, List.length_cons, hlength, Nat.add_comm]

theorem Located.same (hat : Located env ptr ref start ts inner p) {q : Parser σ}
    (hframes : q.frames = p.frames) (htop : q.workspaceTop = p.workspaceTop)
    (hstarted : q.rootStarted = p.rootStarted) : Located env ptr ref start ts inner q where
  frames := hframes ▸ hat.frames
  home h := hframes.trans (hat.home h)
  open_frames := hat.open_frames
  top := htop.trans hat.top
  started := hstarted.trans hat.started
  granted := hat.granted

/-- One more container inside the value. -/
theorem Located.push (hat : Located env ptr ref start ts inner p) {frame : Frame}
    (hframe : frame.Inner env) (htop : p.workspaceTop = (start.valueRoom env ref).containerTop)
    (hmarks : (start.valueRoom env ref).marks = true)
    (hframed : (start.valueRoom env ref).framed env inner.length = true) (c : Bracket)
    (core : Core σ) :
    Located env ptr ref start (ts ++ [.opening c]) (frame :: inner)
      { p with frames := frame :: p.frames, core } := by
  obtain ⟨base, outer, hframes, hbase, hlength⟩ := hat.frames
  refine ⟨⟨base, outer, ?_, hbase, hlength⟩, (nomatch ·), ?_, htop, hat.started,
    hat.granted.token hmarks hframed⟩
  · rw [hframes]
    rfl
  · intro x hx
    rcases List.mem_cons.mp hx with rfl | hx
    · exact hframe
    · exact hat.open_frames x hx

theorem newFrame_inner (kind : ContainerKind) {objectPtr : Option ObjPath}
    {field : Option FieldRef} {requiredRemaining : ℕ}
    (hfield : field = none ∨ kind = .object ∧
      (field.bind env.maps.field?).any (·.kind == .jsonValue) = true) :
    Frame.Inner env { newFrame kind with objectPtr, field, requiredRemaining } := by
  refine ⟨rfl, rfl, rfl, hfield, ?_⟩
  cases kind <;> rfl

/-- The bracket of a container inside another. -/
theorem openNested_follows (hR : R.Lawful) {f frame : Frame}
    (hat : Located env ptr ref start ts (f :: inner) p) (hlex : p.lexMode = .none)
    (hcore : R.inside (inner.length + 1) ts p.core) (kind : ContainerKind)
    (hframe : frame.Inner env) {r : Parser σ × Status}
    (hr : r = if (pushFrame env p frame).2 ≠ .ok then pushFrame env p frame
      else openStreamedContainer env (pushFrame env p frame).1 kind false true) :
    (r.2 = .ok ∧ Streams env R ref start (ts ++ [.opening kind.bracket]) r.1
        ⟨frameMode frame.state frame.afterComma, brackets (frame :: f :: inner)⟩) ∨
      (Fails env R r ∧ ∀ ts', Denied env R ref start (ts ++ .opening kind.bracket :: ts')) := by
  have htop : p.workspaceTop = (start.valueRoom env ref).containerTop := hat.top
  have hpush := pushFrame_framed hat.length htop frame
  split at hpush
  · rename_i hframed
    rw [hpush, if_neg (by simp)] at hr
    have hopens := @Recorder.Lawful.opens _ _ _ _ hR _ _ _ kind hcore
    have hdepth := (hR.inside_live hcore).2.2.1
    rw [openStreamedContainer, if_neg (by simp), if_pos rfl] at hr
    dsimp only at hr
    rw [hdepth] at hr
    split at hopens
    · rename_i hdeep
      rw [if_pos hdeep] at hr
      refine .inr ⟨?_, fun ts' => ?_⟩
      · rw [hr]
        apply fails_error hR
        · exact hR.kept_same (hR.inside_kept hcore) rfl rfl
        · rfl
      · have hdenied : Denied env R ref start (ts ++ [.opening kind.bracket]) :=
          .inr (.inr hopens)
        simpa using denied_more hR hdenied ts'
    · rename_i hdeep
      rw [if_neg hdeep] at hr
      by_cases hok : (jsonOpen env (p.core.setJsonDepth (inner.length + 1 + 1)) kind).2 = .ok
      · have hinside := (hopens.resolve_right fun h => by simp [hok] at h).2
        refine .inl ⟨by rw [hr]; exact hok, ?_⟩
        rw [hr]
        exact .between (hat.push hframe htop hat.granted.marked hframed kind.bracket _) hlex hinside
      · obtain ⟨hfails, hdeny⟩ := Fails.of_goes
          (p := { p with frames := frame :: p.frames }) hopens hok
        have hdenied : Denied env R ref start (ts ++ [.opening kind.bracket]) := .inr (.inr hdeny)
        refine .inr ⟨hr ▸ hfails, fun ts' => ?_⟩
        simpa using denied_more hR hdenied ts'
  · rename_i hframed
    obtain ⟨message, hpush⟩ := hpush
    rw [hpush, if_pos (by simp)] at hr
    refine .inr ⟨?_, fun ts' => denied_token hat.granted.depth (by simpa [ValueRoom.fits] using hframed) ts'⟩
    rw [hr]
    apply fails_failError hR
    · exact hR.inside_kept hcore
    · rfl

/-- An object whose target is found. -/
theorem beginObjectValue_target {q : Parser σ} {t : ObjectTarget} (hstarted : p.rootStarted = true)
    (htarget : objectTarget env p = .ok (q, t)) (hstream : t.mappedStream = none)
    {frame : Frame} (hframe : frame = { newFrame .object with
      map := t.map, objectPtr := t.objectPtr, field := t.field,
      requiredRemaining := requiredCountForMap env.maps t.map }) :
    beginObjectValue env p = if (pushFrame env q frame).2 ≠ .ok then pushFrame env q frame
      else openStreamedContainer env (pushFrame env q frame).1 .object false
        (!t.startedCapture && q.core.json.active && t.map.isNone && t.field.isNone &&
          !p.frames.isEmpty) := by
  subst hframe
  rw [beginObjectValue, htarget, hstarted]
  dsimp only
  rw [hstream]
  split
  · rfl
  · rename_i hok
    rw [pushFrame_core (not_not.mp hok)]
    rfl

/-- An array whose target is found. -/
theorem beginArrayValue_target {q : Parser σ} {t : ArrayTarget} (hstarted : p.rootStarted = true)
    (htarget : arrayTarget env p = .ok (q, t)) (hfield : t.field = none) {frame : Frame}
    (hframe : frame = { newFrame .array with objectPtr := t.objectPtr, field := t.field }) :
    beginArrayValue env p = if (pushFrame env q frame).2 ≠ .ok then pushFrame env q frame
      else openStreamedContainer env (pushFrame env q frame).1 .array false
        (!t.startedCapture && q.core.json.active && !p.frames.isEmpty) := by
  subst hframe
  rw [beginArrayValue, htarget, hstarted]
  dsimp only
  rw [hfield]
  split
  · rfl
  · rename_i hok
    rw [pushFrame_core (not_not.mp hok)]
    simp

theorem beginObjectValue_nested (hR : R.Lawful) {f : Frame}
    (hat : Located env ptr ref start ts (f :: inner) p) (hlex : p.lexMode = .none)
    (hcore : R.inside (inner.length + 1) ts p.core) :
    ((beginObjectValue env p).2 = .ok ∧
        Streams env R ref start (ts ++ [.opening .object]) (beginObjectValue env p).1
          ⟨.keyOrEnd, .object :: brackets (f :: inner)⟩) ∨
      (Fails env R (beginObjectValue env p) ∧
        ∀ ts', Denied env R ref start (ts ++ .opening .object :: ts')) := by
  obtain ⟨base, outer, hframes, -⟩ := hat.frames
  have hf := hat.open_frames f (by simp)
  have htarget : objectTarget env p = .ok (p.modifyTop fun f => { f with afterComma := false }, {}) := by
    simp only [objectTarget, hat.started, Bool.not_true, Bool.false_eq_true, if_false, hframes,
      List.cons_append]
    cases hkind : f.kind with
    | object => simp [objectTargetInObject, hf.pending]
    | array =>
        have hfield := hf.array_field hkind
        simp [objectTargetInArray, hfield]
  have hactive := (hR.inside_live hcore).1
  have hframe : Frame.Inner env { newFrame .object with
      map := none, objectPtr := none, field := none,
      requiredRemaining := requiredCountForMap env.maps none } :=
    newFrame_inner .object (.inl rfl)
  refine openNested_follows hR hat.clearComma hlex hcore .object hframe ?_
  rw [beginObjectValue_target hat.started htarget rfl rfl]
  have hnonempty : p.frames.isEmpty = false := by
    rw [hframes]
    rfl
  have hlive : (p.modifyTop fun f => { f with afterComma := false }).core.json.active = true :=
    hactive
  rw [hlive, hnonempty]
  rfl

theorem beginArrayValue_nested (hR : R.Lawful) {f : Frame}
    (hat : Located env ptr ref start ts (f :: inner) p) (hlex : p.lexMode = .none)
    (hcore : R.inside (inner.length + 1) ts p.core) :
    ((beginArrayValue env p).2 = .ok ∧
        Streams env R ref start (ts ++ [.opening .array]) (beginArrayValue env p).1
          ⟨.itemOrEnd, .array :: brackets (f :: inner)⟩) ∨
      (Fails env R (beginArrayValue env p) ∧
        ∀ ts', Denied env R ref start (ts ++ .opening .array :: ts')) := by
  obtain ⟨base, outer, hframes, -⟩ := hat.frames
  have hf := hat.open_frames f (by simp)
  have htarget : ∃ objectPtr, arrayTarget env p =
      .ok (p.modifyTop fun f => { f with afterComma := false }, { objectPtr }) := by
    have hstarted : { p with rootStarted := true } = p := by
      have := hat.started
      cases p
      simp_all
    have hparent : p.frames = f :: (inner ++ base :: outer) := hframes
    rw [arrayTarget, if_neg (by simp [hat.started])]
    dsimp only
    rw [hstarted]
    simp only [hparent]
    cases hkind : f.kind with
    | object =>
        refine ⟨f.objectPtr, ?_⟩
        simp [arrayTargetInObject, hf.pending]
    | array =>
        have hfield := hf.array_field hkind
        refine ⟨none, ?_⟩
        simp [Frame.field?, hfield]
  obtain ⟨objectPtr, htarget⟩ := htarget
  have hactive := (hR.inside_live hcore).1
  have hframe : Frame.Inner env { newFrame .array with objectPtr, field := none } :=
    newFrame_inner .array (.inl rfl)
  refine openNested_follows hR hat.clearComma hlex hcore .array hframe ?_
  rw [beginArrayValue_target hat.started htarget rfl rfl]
  have hnonempty : p.frames.isEmpty = false := by
    rw [hframes]
    rfl
  have hlive : (p.modifyTop fun f => { f with afterComma := false }).core.json.active = true :=
    hactive
  rw [hlive, hnonempty]
  rfl

/-- A bracket that starts the stream. -/
theorem beginJsonContainer_follows {α : Type} (hR : R.Lawful) (hcore : R.waits p.core)
    (kind : ContainerKind) (target : α) :
    (∃ c, beginJsonContainer env p ptr kind target = .ok ({ p with core := c }, target) ∧
        R.inside 1 [.opening kind.bracket] c) ∨
      ∃ r, beginJsonContainer env p ptr kind target = .error r ∧ Fails env R r ∧
        R.deny [.opening kind.bracket] := by
  have hbegins := hR.begins 1 hcore
  rw [beginJsonContainer, orReturn]
  by_cases hok : (beginJsonStream env p.core ptr 1).2 = .ok
  swap
  · obtain ⟨hfails, hdeny⟩ := Fails.of_goes (p := p) hbegins hok
    rw [if_neg (by exact hok)]
    exact .inr ⟨_, rfl, hfails, hR.deny_more [.opening kind.bracket] hdeny⟩
  obtain ⟨-, hdepth, hinside⟩ := hbegins.resolve_right fun h => by simp [hok] at h
  rw [if_pos (by exact hok)]
  unfold Parser.onCore
  generalize (beginJsonStream env p.core ptr 1).1 = c at hdepth hinside ⊢
  have hsame : (c.setJsonDepth 0).setJsonDepth 1 = c := setJsonDepth_same hdepth
  have hopens := @Recorder.Lawful.opens _ _ _ _ hR _ _ _ kind hinside
  rw [hsame] at hopens
  have hvisits : c.json.parseVisitorActive = R.visits := (hR.inside_live hinside).2.1
  dsimp only
  split at hopens
  · rename_i hdeep
    rw [if_pos hdeep]
    refine .inr ⟨_, rfl, ?_, hopens⟩
    apply fails_error hR
    · obtain ⟨allocLive, json, hclear⟩ := clearJsonStreamValue_same env c
      rw [Parser.endJsonStream, hclear]
      exact hR.kept_same (hR.inside_kept hinside) rfl rfl
    · rfl
  rename_i hdeep
  rw [if_neg hdeep]
  rcases hopens with ⟨hopen, hinside'⟩ | ⟨hhard, hcode, hkept, hdeny⟩
  · refine .inl ⟨_, ?_, hinside'⟩
    rw [hopen]
    simp
  · obtain ⟨allocLive, json, hclear⟩ := clearJsonStreamValue_same env (jsonOpen env c kind).1
    unfold Parser.endJsonStream
    rw [hclear]
    have hended : R.kept (Core.setJsonDepth { (jsonOpen env c kind).1 with allocLive, json } 0) :=
      hR.kept_same hkept rfl rfl
    split
    · rw [if_neg (by simp [hhard])]
      exact .inr ⟨_, rfl, ⟨hhard, hcode, hended⟩, hdeny⟩
    · rw [if_neg (Status.ne_ok_of_hard hhard)]
      exact .inr ⟨_, rfl, ⟨hcode, hcode, hended⟩, hdeny⟩

/-- The mark of the field, while its frame is the innermost one. -/
theorem mark_follows (hR : R.Lawful) {f base : Frame} {outer : List Frame}
    (hstart : start.frames = f :: outer) (hframes : p.frames = base :: outer)
    (htop : p.workspaceTop = start.workspaceTop) (hwaits : base.Waits ref ptr)
    (hmarks : base.map = f.map ∧ base.seenMask = f.seenMask ∧ base.seenFields = f.seenFields)
    (hkept : R.kept p.core) :
    ((start.valueRoom env ref).marks = true ∧ (markFieldSeen env p ref).2 = .ok ∧
        ∃ base' token, base'.Waits ref ptr ∧ (markFieldSeen env p ref).1 =
          { p with frames := base' :: outer, token,
                   workspaceTop := (start.valueRoom env ref).containerTop }) ∨
      ((start.valueRoom env ref).marks = false ∧ Fails env R (markFieldSeen env p ref)) := by
  have halike : start.MarksAlike p :=
    ⟨htop, f, outer, base, outer, hstart, hframes, rfl, hmarks⟩
  obtain ⟨hstatus, hcontainer, -⟩ := @markFieldSeen_alike _ env _ _ halike ref
  by_cases hok : (markFieldSeen env p ref).2 = .ok
  · refine .inl ⟨?_, hok, ?_⟩
    · rw [Parser.valueRoom, ← hstatus, hok]
      rfl
    · have hmarked := (@markFieldSeen_cases _ env p ref).resolve_right fun h => by
        simp [hok] at h
      obtain ⟨-, frames, top', token, hq, hcases⟩ := hmarked
      have htop' : top' = (start.valueRoom env ref).containerTop := by
        rw [Parser.valueRoom, ← hcontainer, hq]
      rw [hq, htop']
      rcases hcases with rfl | ⟨g, g', gs, hg, rfl, marks, fields, remaining, rfl⟩
      · exact ⟨base, token, hwaits, by rw [hframes]⟩
      · obtain ⟨rfl, rfl⟩ : base = g ∧ outer = gs := by simpa using hframes.symm.trans hg
        refine ⟨{ base with
          seenMask := marks, seenFields := fields, requiredRemaining := remaining }, token, ?_, rfl⟩
        exact ⟨hwaits.kind, hwaits.state, hwaits.pending, hwaits.slot⟩
  · obtain ⟨hhard, hcode, hdst, hworld⟩ := markFieldSeen_fails ref hok
    refine .inr ⟨?_, hhard, by rw [hcode, hhard], hR.kept_same hkept hdst hworld⟩
    rw [Parser.valueRoom, ← hstatus]
    exact beq_eq_false_iff_ne.mpr hok

/-- The frame of the container that is the value. -/
theorem openFirst_follows (hR : R.Lawful) {base frame : Frame} {outer : List Frame}
    (hframes : p.frames = base :: outer) (hwaits : base.Waits ref ptr)
    (hlength : outer.length + 1 = start.frames.length)
    (htop : p.workspaceTop = (start.valueRoom env ref).containerTop)
    (hstarted : p.rootStarted = true) (hlex : p.lexMode = .none)
    (hmarks : (start.valueRoom env ref).marks = true) {kind : ContainerKind}
    (hcore : R.inside 1 [.opening kind.bracket] p.core) (hframe : frame.Inner env)
    {r : Parser σ × Status}
    (hr : r = if (pushFrame env p frame).2 ≠ .ok then pushFrame env p frame
      else ((pushFrame env p frame).1, .ok)) :
    (r.2 = .ok ∧ Streams env R ref start [.opening kind.bracket] r.1
        ⟨frameMode frame.state frame.afterComma, brackets [frame]⟩) ∨
      (Fails env R r ∧ ∀ ts', Denied env R ref start (.opening kind.bracket :: ts')) := by
  have hlength' : p.frames.length = start.frames.length + 0 := by
    rw [hframes, ← hlength]
    rfl
  have hpush := pushFrame_framed hlength' htop frame
  split at hpush
  · rename_i hframed
    rw [hpush, if_neg (by simp)] at hr
    subst hr
    have hgranted : (start.valueRoom env ref).Grants env [.opening kind.bracket] 1 :=
      (ValueRoom.grants_nil env _).token hmarks hframed
    refine .inl ⟨rfl, @Streams.between _ _ _ _ _ _ _ _ _ [] ⟨⟨base, outer, ?_, hwaits, hlength⟩,
      (nomatch ·), ?_, htop, hstarted, hgranted⟩ hlex hcore⟩
    · rw [hframes]
      rfl
    · intro x hx
      obtain rfl := List.mem_singleton.mp hx
      exact hframe
  · rename_i hframed
    obtain ⟨message, hpush⟩ := hpush
    rw [hpush, if_pos (by simp)] at hr
    refine .inr ⟨?_, fun ts' => ?_⟩
    · rw [hr]
      apply fails_failError hR
      · exact hR.inside_kept hcore
      · rfl
    · have hfits : (start.valueRoom env ref).fits env 0 (.opening kind.bracket) = false := by
        simpa [ValueRoom.fits] using hframed
      exact @denied_token _ _ _ _ _ _ [] _ 0 rfl hfits ts'

/-- The target of a container that is the value. -/
theorem valueTarget_follows {α : Type} (hR : R.Lawful) (hstart : AwaitsValue env R ref start)
    (hat : Located env ptr ref start ts [] p) (hcore : R.waits p.core) (kind : ContainerKind)
    (target : α) :
    ∃ f outer, p.frames = f :: outer ∧ f.Waits ref ptr ∧
      let q := p.modifyTop fun f => { f with afterComma := false }
      let o := orReturn (markFieldSeen env q ref) fun p => beginJsonContainer env p ptr kind target
      (∃ base c token, base.Waits ref ptr ∧ R.inside 1 [.opening kind.bracket] c ∧
        (start.valueRoom env ref).marks = true ∧
        o = .ok ({ q with frames := base :: outer, token, core := c,
                          workspaceTop := (start.valueRoom env ref).containerTop }, target)) ∨
      ∃ r, o = .error r ∧ Fails env R r ∧
        ∀ ts', Denied env R ref start (.opening kind.bracket :: ts') := by
  obtain ⟨f, outer, hframes, hwaits⟩ := hstart.frame
  have hhome : p.frames = f :: outer := (hat.home rfl).trans hframes
  refine ⟨f, outer, hhome, hwaits, ?_⟩
  intro q o
  have hq : q.frames = { f with afterComma := false } :: outer := p.modifyTop_cons hhome _
  have hwaits' : Frame.Waits ref ptr { f with afterComma := false } :=
    ⟨hwaits.kind, hwaits.state, hwaits.pending, hwaits.slot⟩
  have hmark := mark_follows (p := q) hR hframes hq hat.top hwaits' ⟨rfl, rfl, rfl⟩
    (hR.waits_kept hcore)
  rcases hmark with ⟨hmarks, hok, base, token, hbase, hmarked⟩ | ⟨hmarks, hfails⟩
  · have hbegin := beginJsonContainer_follows
      (p := { q with frames := base :: outer, token,
                     workspaceTop := (start.valueRoom env ref).containerTop }) hR hcore kind target
    have ho : o = beginJsonContainer env { q with
        frames := base :: outer, token,
        workspaceTop := (start.valueRoom env ref).containerTop } ptr kind target := by
      simp only [o, orReturn]
      rw [if_pos hok, hmarked]
    rcases hbegin with ⟨c, hc, hinside⟩ | ⟨r, hr, hfails, hdeny⟩
    · exact .inl ⟨base, c, token, hbase, hinside, hmarks, ho.trans hc⟩
    · exact .inr ⟨r, ho.trans hr, hfails, fun ts' =>
        .inr (.inr (@Recorder.Lawful.deny_more _ _ _ _ hR [.opening kind.bracket] ts' hdeny))⟩
  · refine .inr ⟨_, ?_, hfails, fun _ => .inl hmarks⟩
    simp only [o, orReturn]
    rw [if_neg (Status.ne_ok_of_hard hfails.1)]

theorem AwaitsValue.field_kind (h : AwaitsValue env R ref start) :
    ∃ field, env.maps.field? ref = some field ∧ field.kind = .jsonValue := by
  have hany := h.field
  cases hfield : env.maps.field? ref with
  | none =>
      rw [hfield] at hany
      cases hany
  | some field =>
      rw [hfield] at hany
      exact ⟨field, rfl, by simpa using hany⟩

theorem beginObjectValue_value (hR : R.Lawful) (hstart : AwaitsValue env R ref start)
    (hat : Located env ptr ref start ts [] p) (hlex : p.lexMode = .none) (hcore : R.waits p.core) :
    ((beginObjectValue env p).2 = .ok ∧
        Streams env R ref start [.opening .object] (beginObjectValue env p).1
          ⟨.keyOrEnd, [.object]⟩) ∨
      (Fails env R (beginObjectValue env p) ∧
        ∀ ts', Denied env R ref start (.opening .object :: ts')) := by
  obtain ⟨f, outer, hframes, hwaits, hcases⟩ := valueTarget_follows hR hstart hat hcore .object
    ({ field := some ref, startedCapture := true } : ObjectTarget)
  obtain ⟨field, hfield, hkind⟩ := hstart.field_kind
  have htarget : objectTarget env p =
      orReturn (markFieldSeen env (p.modifyTop fun f => { f with afterComma := false }) ref)
        fun p => beginJsonContainer env p ptr .object { field := some ref, startedCapture := true } := by
    rw [objectTarget, if_neg (by simp [hat.started])]
    simp only [hframes, hwaits.kind, objectTargetInObject, hwaits.pending, Frame.pending?,
      Option.bind_some, hfield, hkind, if_true, hwaits.slot]
  rcases hcases with ⟨base, c, token, hbase, hinside, hmarks, ho⟩ | ⟨r, hr, hfails, hdenied⟩
  · rw [ho] at htarget
    have hframe : Frame.Inner env { newFrame .object with
        map := none, objectPtr := none, field := some ref,
        requiredRemaining := requiredCountForMap env.maps none } :=
      newFrame_inner .object (.inr ⟨rfl, hstart.field⟩)
    have hlength : outer.length + 1 = start.frames.length := by
      rw [← hat.home rfl, hframes]
      rfl
    have hvalue := beginObjectValue_target hat.started htarget rfl rfl
    exact openFirst_follows hR (by rfl) hbase hlength (by rfl) (by exact hat.started)
      (by exact hlex) hmarks hinside hframe hvalue
  · refine .inr ?_
    rw [beginObjectValue, htarget.trans hr]
    exact ⟨hfails, hdenied⟩

theorem beginArrayValue_value (hR : R.Lawful) (hstart : AwaitsValue env R ref start)
    (hat : Located env ptr ref start ts [] p) (hlex : p.lexMode = .none) (hcore : R.waits p.core) :
    ((beginArrayValue env p).2 = .ok ∧
        Streams env R ref start [.opening .array] (beginArrayValue env p).1
          ⟨.itemOrEnd, [.array]⟩) ∨
      (Fails env R (beginArrayValue env p) ∧
        ∀ ts', Denied env R ref start (.opening .array :: ts')) := by
  obtain ⟨f, outer, hframes, hwaits, hcases⟩ := valueTarget_follows hR hstart hat hcore .array
    ({ startedCapture := true } : ArrayTarget)
  obtain ⟨field, hfield, hkind⟩ := hstart.field_kind
  have hstarted : { p with rootStarted := true } = p := by
    have := hat.started
    cases p
    simp_all
  have htarget : arrayTarget env p =
      orReturn (markFieldSeen env (p.modifyTop fun f => { f with afterComma := false }) ref)
        fun p => beginJsonContainer env p ptr .array { startedCapture := true } := by
    rw [arrayTarget, if_neg (by simp [hat.started])]
    dsimp only
    rw [hstarted]
    simp only [hframes, hwaits.kind, arrayTargetInObject, hwaits.pending, Frame.pending?,
      Option.bind_some, hfield, hkind, if_true, hwaits.slot]
  rcases hcases with ⟨base, c, token, hbase, hinside, hmarks, ho⟩ | ⟨r, hr, hfails, hdenied⟩
  · rw [ho] at htarget
    have hframe : Frame.Inner env { newFrame .array with objectPtr := none, field := none } :=
      newFrame_inner .array (.inl rfl)
    have hlength : outer.length + 1 = start.frames.length := by
      rw [← hat.home rfl, hframes]
      rfl
    have hvalue := beginArrayValue_target hat.started htarget rfl rfl
    exact openFirst_follows hR (by rfl) hbase hlength (by rfl) (by exact hat.started)
      (by exact hlex) hmarks hinside hframe hvalue
  · refine .inr ?_
    rw [beginArrayValue, htarget.trans hr]
    exact ⟨hfails, hdenied⟩

end

end Lonejson
