import Lonejson.Engine
import Lonejson.TextRules

/-!
# Parsers that store nothing

A parser in which no field waits for a value only reads: the validating parser, and a
parser of records between fields it does not know. Such a parser steps as the stack
machine of the grammar does, whichever of its fast paths it takes. How strings are read
is left to a `StringReader`.
-/

namespace Lonejson

open Json (Text Mode State Bracket Lexer Machine Reaches)

variable {σ S : Type}

/-! ## The machine -/

/-- `lonejson__token_limit` when the marks of no frame are in the workspace. -/
def tokenRoom (env : Env σ) (depth : ℕ) : ℕ :=
  if env.workspaceSize ≤ frameBytes env depth then 0
  else env.workspaceSize - frameBytes env depth - 1

/-- Whether a number or a literal of a length may stand at a depth. -/
def tokenFits (env : Env σ) (depth n : ℕ) : Bool :=
  (env.validateOnly || depth != 0) && decide (n + 2 ≤ tokenRoom env depth)

/-- Whether one more frame fits. -/
def frameFits (env : Env σ) (depth : ℕ) : Bool :=
  (env.options.maxDepth == 0 || decide (depth < env.options.maxDepth)) &&
    decide (frameBytes env (depth + 1) ≤ env.workspaceSize)

/-- Whether a quote, a brace or a bracket may open something at a depth. -/
def canOpen (env : Env σ) (depth : ℕ) (b : Byte) : Bool :=
  if b = 0x22 then env.validateOnly || (depth != 0 && tokenRoom env depth != 0)
  else (env.validateOnly || depth != 0 || b == 0x7b) && frameFits env depth

/-- The machine of a parser that stores nothing. -/
def readerMachine (env : Env σ) (lexer : Bool → ℕ → Lexer S) : Machine S where
  lexer := lexer
  numberStart := isNumberStart
  numberByte := isNumberByte
  number := isValidJsonNumber
  fitsNumber := tokenFits env
  fitsLiteral := tokenFits env
  enter := canOpen env

/-- Longer tokens need more room. -/
theorem tokenFits_mono (env : Env σ) (d n m : ℕ) (hnm : n ≤ m) (h : tokenFits env d m = true) :
    tokenFits env d n = true := by
  simp only [tokenFits, Bool.and_eq_true, decide_eq_true_eq] at h ⊢
  exact ⟨h.1, by omega⟩

/-- The number bytes of the library make a lawful machine. -/
theorem lawful_of_numbers {M : Machine S} (hstart : M.numberStart = isNumberStart)
    (hbyte : M.numberByte = isNumberByte) (hnumber : M.number = isValidJsonNumber)
    (hfits : ∀ d n m, n ≤ m → M.fitsNumber d m = true → M.fitsNumber d n = true)
    (hliteral : ∀ d n m, n ≤ m → M.fitsLiteral d m = true → M.fitsLiteral d n = true) :
    M.Lawful where
  start_byte b hb := by
    rw [hstart, isNumberStart, Bool.or_eq_true, beq_iff_eq] at hb
    simp only [hbyte, isNumberByte, Bool.or_eq_true, beq_iff_eq]
    tauto
  not_space b hb := by
    simp only [hbyte, isNumberByte, isDigit, Json.isSpace] at hb ⊢
    grind
  not_close b hb := by
    refine ⟨?_, ?_, ?_⟩ <;> (rintro rfl; simp [hbyte, isNumberByte, isDigit] at hb)
  not_open b hb := by
    refine ⟨?_, ?_, ?_, ?_, ?_, ?_⟩ <;>
      (rintro rfl; simp [hstart, isNumberStart, isDigit] at hb)
  number_start t ht := by
    rw [hnumber, isValidJsonNumber_iff] at ht
    rw [hstart]
    exact ht.start
  number_bytes t ht := by
    rw [hnumber, isValidJsonNumber_iff] at ht
    rw [hbyte]
    exact ht.bytes
  fits_mono := hfits
  literal_mono := hliteral

theorem readerMachine_lawful (env : Env σ) (lexer : Bool → ℕ → Lexer S) :
    (readerMachine env lexer).Lawful :=
  lawful_of_numbers rfl rfl rfl (tokenFits_mono env) (tokenFits_mono env)

/-! ## The state of the parser -/

/-- The container of a frame state. -/
def FrameState.kind : FrameState → ContainerKind
  | .objectKeyOrEnd | .objectColon | .objectValue | .objectCommaOrEnd => .object
  | .arrayValueOrEnd | .arrayCommaOrEnd => .array

/-- A core that no streamed value uses. -/
structure Core.Idle (c : Core σ) : Prop where
  json : c.json.active = false
  visitor : c.json.parseVisitorActive = false
  stream : c.stream.active = false
  failed : c.failed = false
  whole : c.error.truncated = false

/-- A frame in which no field waits. -/
structure Frame.Idle (env : Env σ) (f : Frame) : Prop where
  field : f.field = none
  pending : f.pendingField = none
  seen : f.seenFields = none
  map : f.map = none ∨
    env.validateOnly = false ∧ f.map = env.rootMap ∧ f.requiredRemaining = 0
  kind : f.state.kind = f.kind

/-- A parser in which no field waits. -/
structure Quiet (env : Env σ) (p : Parser σ) : Prop where
  core : p.core.Idle
  top : p.workspaceTop = env.workspaceSize
  frames : ∀ f ∈ p.frames, f.Idle env
  started : p.frames ≠ [] → p.rootStarted = true
  finished : p.frames = [] → p.rootFinished = p.rootStarted

def ContainerKind.bracket : ContainerKind → Bracket
  | .object => .object
  | .array => .array

/-- The open containers. -/
def Parser.brackets (p : Parser σ) : List Bracket := p.frames.map (·.kind.bracket)

@[simp] theorem Parser.brackets_length (p : Parser σ) : p.brackets.length = p.frames.length := by
  simp [brackets]

/-- What a frame expects next. -/
def frameMode : FrameState → Bool → Mode S
  | .objectKeyOrEnd, afterComma => if afterComma then .key else .keyOrEnd
  | .objectColon, _ => .colon
  | .objectValue, _ => .value
  | .objectCommaOrEnd, _ => .after
  | .arrayValueOrEnd, afterComma => if afterComma then .value else .itemOrEnd
  | .arrayCommaOrEnd, _ => .after

/-- What a parser expects next between tokens. -/
def Parser.mode (p : Parser σ) : Mode S :=
  match p.frames with
  | [] => if p.rootStarted then .after else .value
  | frame :: _ => frameMode frame.state frame.afterComma

/-- Where a key or another token may be read. -/
structure TokenPlace (env : Env σ) (p : Parser σ) : Prop where
  root : p.frames = [] → p.rootStarted = false ∧ env.validateOnly = true ∧ p.lexIsKey = false
  key : p.lexIsKey = true → ∀ f ∈ p.frames.head?, f.state = .objectKeyOrEnd

/-- The text of a literal mode. -/
def literalText? : LexMode → Option Bytes
  | .true => some trueText
  | .false => some falseText
  | .null => some nullText
  | _ => none

/-- The parser and the machine are at the same place. -/
inductive Tracks (env : Env σ) (reads : Parser σ → S → Prop) : Parser σ → State S → Prop where
  | between {p : Parser σ} (hq : Quiet env p) (hlex : p.lexMode = .none) :
      Tracks env reads p ⟨p.mode, p.brackets⟩
  | string {p : Parser σ} {q : S} (hq : Quiet env p) (hlex : p.lexMode = .string)
      (hplace : TokenPlace env p) (hreads : reads p q) :
      Tracks env reads p ⟨.string p.lexIsKey q, p.brackets⟩
  | number {p : Parser σ} (hq : Quiet env p) (hlex : p.lexMode = .number)
      (hplace : TokenPlace env p) (hkey : p.lexIsKey = false)
      (hcap : p.token.cap = tokenLimit env p) :
      Tracks env reads p ⟨.number p.token.bytes, p.brackets⟩
  | literal {p : Parser σ} {rest : Bytes} (hq : Quiet env p)
      (hlex : literalText? p.lexMode = some (p.token.bytes ++ rest)) (hrest : rest ≠ [])
      (hplace : TokenPlace env p) (hkey : p.lexIsKey = false)
      (hcap : p.token.cap = tokenLimit env p) :
      Tracks env reads p ⟨.literal p.token.bytes.length rest, p.brackets⟩

/-- A step of the parser does what the machine does. -/
def Agrees (env : Env σ) (reads : Parser σ → S → Prop) (r : Parser σ × Status) :
    Option (State S) → Prop
  | some st => r.2 = .ok ∧ Tracks env reads r.1 st
  | none => r.2.soft = false

theorem Status.ne_ok_of_hard {s : Status} (h : s.soft = false) : s ≠ .ok := by
  rintro rfl
  cases h

section

variable (env : Env σ) (reads : Parser σ → S → Prop)

variable {env reads} in
theorem Tracks.of_between {p : Parser σ} {st : State S} (hq : Quiet env p)
    (hlex : p.lexMode = .none) (hmode : p.mode = st.mode) (hstack : p.brackets = st.stack) :
    Tracks env reads p st := by
  obtain ⟨mode, stack⟩ := st
  obtain rfl : p.mode = mode := hmode
  obtain rfl : p.brackets = stack := hstack
  exact .between hq hlex

@[simp] theorem Parser.setError_status (p : Parser σ) (code : Status) (message : String)
    (arg : Bytes) : (p.setError code message arg).2 = code := rfl

@[simp] theorem Parser.failError_status (p : Parser σ) (code : Status) (message : String)
    (arg : Bytes) : (p.failError code message arg).2 = code := rfl

theorem Parser.modifyTop_cons {p : Parser σ} {x : Frame} {xs : List Frame}
    (h : p.frames = x :: xs) (f : Frame → Frame) : (p.modifyTop f).frames = f x :: xs := by
  simp [modifyTop, h]

theorem tokenLimit_eq {p : Parser σ} (hq : Quiet env p) :
    tokenLimit env p = tokenRoom env p.frames.length := by
  simp [tokenLimit, tokenRoom, hq.top]

/-! ## The end of a value -/

/-- The innermost frame of a parser between tokens changes. -/
theorem modifyTop_agrees {p : Parser σ} {f : Frame} {fs : List Frame} (hq : Quiet env p)
    (hlex : p.lexMode = .none) (hp : p.frames = f :: fs) (change : Frame → Frame)
    (hidle : (change f).Idle env) (hkind : (change f).kind = f.kind) :
    Agrees env reads (p.modifyTop change, .ok)
      (some ⟨frameMode (change f).state (change f).afterComma, p.brackets⟩) := by
  have htop := p.modifyTop_cons hp change
  refine ⟨rfl, .of_between ⟨hq.core, hq.top, ?_, fun _ => hq.started (by simp [hp]), ?_⟩ hlex ?_ ?_⟩
  · intro g hg
    rw [htop] at hg
    rcases List.mem_cons.mp hg with rfl | hg
    · exact hidle
    · exact hq.frames g (by simp [hp, hg])
  · simp [htop]
  · simp [Parser.mode, htop]
  · simp [Parser.brackets, htop, hp, hkind]

/-- A complete value leaves its container behind a value. -/
theorem completeParentAfterValue_agrees {p : Parser σ} (hcore : p.core.Idle)
    (htop : p.workspaceTop = env.workspaceSize) (hframes : ∀ f ∈ p.frames, f.Idle env)
    (hstarted : p.rootStarted = true) (hlex : p.lexMode = .none) :
    Agrees env reads (completeParentAfterValue p) (some ⟨.after, p.brackets⟩) := by
  cases hp : p.frames with
  | nil =>
      have hcomplete : completeParentAfterValue p = ({ p with rootFinished := true }, .ok) := by
        simp [completeParentAfterValue, hp]
      rw [hcomplete]
      refine ⟨rfl, .of_between ⟨hcore, htop, hframes, fun _ => hstarted, ?_⟩ hlex ?_ rfl⟩
      · exact fun _ => hstarted.symm
      · simp [Parser.mode, hp, hstarted]
  | cons f fs =>
      have hq : Quiet env p := ⟨hcore, htop, hframes, fun _ => hstarted, by simp [hp]⟩
      have hf : f.Idle env := hframes f (by simp [hp])
      cases hkind : f.kind with
      | object =>
          have hcomplete : completeParentAfterValue p = (p.modifyTop fun f =>
              { f with state := .objectCommaOrEnd, pendingField := none }, .ok) := by
            simp [completeParentAfterValue, hp, hkind]
          rw [hcomplete]
          exact modifyTop_agrees env reads hq hlex hp _
            ⟨hf.field, rfl, hf.seen, hf.map, hkind.symm⟩ rfl
      | array =>
          have hcomplete : completeParentAfterValue p = (p.modifyTop fun f =>
              { f with state := .arrayCommaOrEnd }, .ok) := by
            simp [completeParentAfterValue, hp, hkind]
          rw [hcomplete]
          exact modifyTop_agrees env reads hq hlex hp _
            ⟨hf.field, hf.pending, hf.seen, hf.map, hkind.symm⟩ rfl

/-- A container that is popped completes its parent. -/
theorem pop_agrees {p : Parser σ} {f : Frame} {fs : List Frame} (hq : Quiet env p)
    (hlex : p.lexMode = .none) (hp : p.frames = f :: fs) :
    Agrees env reads (completeParentAfterValue (popFrame p))
      (some ⟨.after, fs.map (·.kind.bracket)⟩) := by
  have hf : f.Idle env := hq.frames f (by simp [hp])
  have hpop : popFrame p = { p with frames := fs } := by
    simp [popFrame, hp, hf.seen]
  rw [hpop]
  exact completeParentAfterValue_agrees env reads hq.core hq.top
    (fun g hg => hq.frames g (by simp [hp, hg])) (hq.started (by simp [hp])) hlex

theorem closeStreamedContainer_idle {p : Parser σ} (hcore : p.core.Idle) (kind : ContainerKind) :
    closeStreamedContainer env p kind = (p, .ok) := by
  simp [closeStreamedContainer, hcore.json]

theorem leaveStreamedContainer_idle {p : Parser σ} (hcore : p.core.Idle) :
    leaveStreamedContainer env p = p := by
  simp [leaveStreamedContainer, hcore.json]

/-- The end of an object. -/
theorem finalizeObject_agrees {p : Parser σ} {f : Frame} {fs : List Frame} (hq : Quiet env p)
    (hlex : p.lexMode = .none) (hp : p.frames = f :: fs) :
    Agrees env reads (finalizeObject env p) (some ⟨.after, fs.map (·.kind.bracket)⟩) := by
  have hf : f.Idle env := hq.frames f (by simp [hp])
  have hpop : (popFrame p).core = p.core := by simp [popFrame, hp]
  have hpopped := pop_agrees env reads hq hlex hp
  unfold finalizeObject
  simp only [hp]
  split
  · exact hpopped
  · next hmap =>
    have hnone : f.map = none := by
      rcases hf.map with h | ⟨-, -, h⟩
      · exact h
      · simpa [h, Frame.field?, hf.field] using hmap
    have hfinish : mappedArrayStreamFinishItem env p = (p, .ok) := by
      simp [mappedArrayStreamFinishItem, hp, hf.field]
    have hidle : (popFrame p).core.Idle := hpop ▸ hq.core
    simpa [missingRequired, hnone, closeStreamedContainer_idle env hq.core, andThenSoft, andThenOk,
      hfinish, leaveStreamedContainer_idle env hidle] using hpopped

/-- The end of an array. -/
theorem finalizeArray_agrees {p : Parser σ} {f : Frame} {fs : List Frame} (hq : Quiet env p)
    (hlex : p.lexMode = .none) (hp : p.frames = f :: fs) :
    Agrees env reads (finalizeArray env p) (some ⟨.after, fs.map (·.kind.bracket)⟩) := by
  have hf : f.Idle env := hq.frames f (by simp [hp])
  have hidle : (popFrame p).core.Idle := by simpa [popFrame, hp] using hq.core
  have hfinal : finalizeArray env p = completeParentAfterValue (popFrame p) := by
    unfold finalizeArray
    split
    · next h => simp [hp] at h
    · next g gs h =>
      obtain ⟨rfl, rfl⟩ : f = g ∧ fs = gs := by simpa using hp.symm.trans h
      simp only [closeStreamedContainer_idle env hq.core, andThenSoft, Status.soft_ok, if_true,
        hf.field, leaveStreamedContainer_idle env hidle]
  rw [hfinal]
  exact pop_agrees env reads hq hlex hp

/-! ## Numbers and literals -/

/-- The outcome of a scalar: only a number can be wrong. -/
def afterScalar (mode : LexMode) (text : Bytes) (stack : List Bracket) : Option (State S) :=
  if mode = .number ∧ isValidJsonNumber text = false then none else some ⟨.after, stack⟩

/-- A scalar that is the whole document. -/
theorem deliverRootScalar_agrees {p : Parser σ} (hq : Quiet env p) (hlex : p.lexMode = .none)
    (hp : p.frames = []) (hstarted : p.rootStarted = false) (hvalidate : env.validateOnly = true)
    (mode : LexMode) :
    Agrees env reads (deliverRootScalar env p mode) (afterScalar mode p.token.bytes []) := by
  unfold deliverRootScalar afterScalar
  by_cases hnumber : mode = .number ∧ isValidJsonNumber p.token.bytes = false
  · simp [hstarted, hvalidate, hnumber, Agrees, Status.soft]
  · have hnumber' : ¬ (mode = .number ∧ ¬ isValidJsonNumber p.token.bytes = true) := by
      simpa using hnumber
    simp only [hstarted, hvalidate, hnumber, hnumber', hq.core.json, Bool.not_false, Bool.and_self,
      if_true, if_false, true_or, Bool.false_eq_true]
    refine ⟨rfl, .of_between ⟨hq.core, hq.top, hq.frames, fun _ => rfl, fun _ => rfl⟩ hlex ?_ ?_⟩
    · simp [Parser.mode, hp]
    · simp [Parser.brackets, hp]

variable {env reads} in
theorem Tracks.quiet {p : Parser σ} {st : State S} (h : Tracks env reads p st) : Quiet env p := by
  cases h <;> assumption

variable {env reads} in
theorem Tracks.after_inv {p : Parser σ} {stack : List Bracket}
    (h : Tracks env reads p ⟨.after, stack⟩) :
    Quiet env p ∧ p.lexMode = .none ∧ p.brackets = stack ∧ p.mode (S := S) = .after := by
  generalize hst : (⟨.after, stack⟩ : State S) = st at h
  cases h with
  | between hq hlex =>
      obtain ⟨hmode, rfl⟩ : Mode.after = p.mode (S := S) ∧ stack = p.brackets := by
        simpa using hst
      exact ⟨hq, hlex, rfl, hmode.symm⟩
  | string => simp at hst
  | number => simp at hst
  | literal => simp at hst

/-- The terminator of a token changes nothing that a parser without marks reads. -/
theorem scratchCstr_quiet {p : Parser σ} (hq : Quiet env p) :
    Quiet env p.scratchCstr ∧ p.scratchCstr.frames = p.frames ∧
      p.scratchCstr.token.bytes = p.token.bytes ∧ p.scratchCstr.lexMode = p.lexMode ∧
      p.scratchCstr.lexIsKey = p.lexIsKey ∧ p.scratchCstr.rootStarted = p.rootStarted := by
  unfold Parser.scratchCstr
  split
  · exact ⟨hq, rfl, rfl, rfl, rfl, rfl⟩
  · next base _ =>
    have hstore : p.frames.map (fun frame => frame.store (base + p.token.bytes.length) 0) =
        p.frames := by
      refine List.map_congr_left (fun f hf => ?_) |>.trans (List.map_id p.frames)
      simp [Frame.store, (hq.frames f hf).seen]
    rw [hstore]
    exact ⟨⟨hq.core, hq.top, hq.frames, hq.started, hq.finished⟩, rfl, rfl, rfl, rfl, rfl⟩

/-- A member that no field waits for is complete. -/
theorem skipMember_agrees {p : Parser σ} (hq : Quiet env p) (hlex : p.lexMode = .none)
    (hp : p.frames ≠ []) (mode : LexMode) :
    Agrees env reads
      (let r := handleScalarForField env p none mode
        if r.2.soft then completeParentAfterValue r.1 else r) (some ⟨.after, p.brackets⟩) := by
  have hfirst := completeParentAfterValue_agrees env reads hq.core hq.top hq.frames
    (hq.started hp) hlex
  obtain ⟨hok, htracks⟩ := hfirst
  obtain ⟨hq', hlex', hbrackets, -⟩ := htracks.after_inv
  have hp' : (completeParentAfterValue p).1.frames ≠ [] := by
    intro h
    have : p.brackets = [] := by rw [← hbrackets, Parser.brackets, h, List.map_nil]
    simp [Parser.brackets, hp] at this
  simp only [handleScalarForField, hok, Status.soft_ok, if_true]
  rw [← hbrackets]
  exact completeParentAfterValue_agrees env reads hq'.core hq'.top hq'.frames
    (hq'.started hp') hlex'

/-- A scalar that no field waits for is complete. -/
theorem deliverToken_agrees {p : Parser σ} (hq : Quiet env p) (hlex : p.lexMode = .none)
    (hplace : TokenPlace env p) (hkey : p.lexIsKey = false) (mode : LexMode) :
    Agrees env reads (deliverToken env p mode) (afterScalar mode p.token.bytes p.brackets) := by
  obtain ⟨hq', hframes, hbytes, hlex', hkey', hstarted⟩ := scratchCstr_quiet env hq
  rw [hlex] at hlex'
  rw [hkey] at hkey'
  have hbrackets : p.brackets = p.scratchCstr.brackets := by simp [Parser.brackets, hframes]
  unfold deliverToken
  rw [← hbytes, hbrackets]
  have hroot := hplace.root
  rw [← hframes, ← hstarted] at hroot
  clear hq hlex hplace hkey hbytes hstarted hframes hbrackets
  generalize p.scratchCstr = p at *
  simp only [hkey', Bool.false_eq_true, if_false]
  split
  · next hp =>
    obtain ⟨hstarted, hvalidate, -⟩ := hroot hp
    have hbrackets : p.brackets = [] := by simp [Parser.brackets, hp]
    rw [hbrackets]
    exact deliverRootScalar_agrees env reads hq' hlex' hp hstarted hvalidate mode
  · next f fs hp =>
    have hf : f.Idle env := hq'.frames f (by simp [hp])
    have htarget : mappedNumericTarget env f = false := by
      cases hkind : f.kind <;>
        simp [mappedNumericTarget, hkind, Frame.pending?, Frame.field?, hf.pending, hf.field]
    simp only [htarget, Bool.false_eq_true, not_false_eq_true, or_true, true_and,
      Bool.not_eq_true]
    unfold afterScalar
    split
    · rfl
    · split
      · simp only [hq'.core.json, Bool.false_eq_true, false_and, if_false, hf.pending]
        exact skipMember_agrees env reads hq' hlex' (by simp [hp]) mode
      · next hkind =>
        simp only [hf.field, hq'.core.json, Bool.false_eq_true, if_false, andThenOk, if_true]
        exact modifyTop_agrees env reads hq' hlex' hp
          (fun f => { f with afterComma := false, state := .arrayCommaOrEnd })
          ⟨hf.field, hf.pending, hf.seen, hf.map, hkind.symm⟩ rfl

/-- A number or a literal starts when its first byte fits. -/
theorem beginToken_eq {p : Parser σ} (hq : Quiet env p) (mode : LexMode) (ch : Byte)
    (message : String) :
    let r := andThenOk (prepareToken env { p with lexMode := mode, lexIsKey := false }) fun p =>
      p.orFull (p.scratchAppend ch) message
    if 3 ≤ tokenRoom env p.frames.length then
      r = ({ p with lexMode := mode, lexIsKey := false,
                    token := { data := some (tokenBase env p), bytes := [ch],
                               cap := tokenLimit env p } }, .ok)
    else r.2.soft = false := by
  rw [← tokenLimit_eq env hq]
  have hlimit : tokenLimit env { p with lexMode := mode, lexIsKey := false } = tokenLimit env p :=
    rfl
  have hbase : tokenBase env { p with lexMode := mode, lexIsKey := false } = tokenBase env p := rfl
  intro r
  by_cases hzero : tokenLimit env p = 0
  · simp [r, prepareToken, hlimit, hzero, andThenOk, Status.soft]
  · by_cases hroom : 3 ≤ tokenLimit env p
    · simp [r, prepareToken, hlimit, hbase, hzero, hroom, andThenOk, Parser.scratchAppend,
        Parser.orFull]
    · simp [r, prepareToken, hlimit, hzero, hroom, andThenOk, Parser.scratchAppend,
        Parser.orFull, Status.soft]

/-- A place where a value may start. -/
def ValuePlace (p : Parser σ) : Prop :=
  p.frames = [] → p.rootStarted = false ∧ env.validateOnly = true

theorem tokenFits_one {p : Parser σ} (hplace : ValuePlace env p) :
    tokenFits env p.brackets.length 1 = decide (3 ≤ tokenRoom env p.frames.length) := by
  cases hp : p.frames with
  | nil => simp [tokenFits, (hplace hp).2, hp]
  | cons f fs => simp [tokenFits, hp]

/-- The first byte of a number. -/
theorem beginNumberLex_agrees {p : Parser σ} (hq : Quiet env p) (hplace : ValuePlace env p)
    (ch : Byte) :
    Agrees env reads (beginNumberLex env p ch)
      (if tokenFits env p.brackets.length 1 then some ⟨.number [ch], p.brackets⟩ else none) := by
  have hbegin := beginToken_eq env hq .number ch "failed to append number"
  rw [tokenFits_one env hplace]
  by_cases hroom : 3 ≤ tokenRoom env p.frames.length
  · simp only [hroom, if_true, decide_true] at hbegin ⊢
    unfold beginNumberLex
    rw [hbegin]
    refine ⟨rfl, .number ⟨hq.core, hq.top, hq.frames, hq.started, hq.finished⟩ rfl ?_ rfl rfl⟩
    exact ⟨fun h => ⟨(hplace h).1, (hplace h).2, rfl⟩, by simp⟩
  · simp only [hroom, if_false, decide_false] at hbegin ⊢
    exact hbegin

/-- The first byte of a literal. -/
theorem beginLiteralLex_agrees {p : Parser σ} (hq : Quiet env p) (hplace : ValuePlace env p)
    (mode : LexMode) (ch : Byte) (rest : Bytes) (hmode : literalText? mode = some (ch :: rest))
    (hrest : rest ≠ []) :
    Agrees env reads (beginLiteralLex env p mode ch)
      (if tokenFits env p.brackets.length 1 then some ⟨.literal 1 rest, p.brackets⟩ else none) := by
  have hbegin := beginToken_eq env hq mode ch "failed to append literal"
  rw [tokenFits_one env hplace]
  by_cases hroom : 3 ≤ tokenRoom env p.frames.length
  · simp only [hroom, if_true, decide_true] at hbegin ⊢
    unfold beginLiteralLex
    rw [hbegin]
    refine ⟨rfl, .literal ⟨hq.core, hq.top, hq.frames, hq.started, hq.finished⟩ hmode hrest ?_ rfl
      rfl⟩
    exact ⟨fun h => ⟨(hplace h).1, (hplace h).2, rfl⟩, by simp⟩
  · simp only [hroom, if_false, decide_false] at hbegin ⊢
    exact hbegin

/-! ## Opening containers -/

/-- One more frame. -/
theorem pushFrame_agrees {p : Parser σ} (hcore : p.core.Idle)
    (htop : p.workspaceTop = env.workspaceSize) (hframes : ∀ f ∈ p.frames, f.Idle env)
    (hstarted : p.rootStarted = true) (hlex : p.lexMode = .none) {frame : Frame}
    (hframe : frame.Idle env) :
    Agrees env reads (pushFrame env p frame)
      (if frameFits env p.brackets.length then
        some ⟨frameMode frame.state frame.afterComma, frame.kind.bracket :: p.brackets⟩
      else none) := by
  have hfits : frameFits env p.brackets.length = true ↔
      ¬ (env.options.maxDepth ≠ 0 ∧ p.frames.length ≥ env.options.maxDepth) ∧
        ¬ frameBytes env (p.frames.length + 1) > p.workspaceTop := by
    simp only [frameFits, Parser.brackets_length, htop, Bool.and_eq_true, Bool.or_eq_true,
      beq_iff_eq, decide_eq_true_eq]
    omega
  unfold pushFrame
  by_cases hdepth : env.options.maxDepth ≠ 0 ∧ p.frames.length ≥ env.options.maxDepth
  · have hno : frameFits env p.brackets.length = false := by
      rw [← Bool.not_eq_true, hfits]
      exact fun h => h.1 hdepth
    rw [if_pos hdepth, hno]
    rfl
  · by_cases hspace : frameBytes env (p.frames.length + 1) > p.workspaceTop
    · have hno : frameFits env p.brackets.length = false := by
        rw [← Bool.not_eq_true, hfits]
        exact fun h => h.2 hspace
      rw [if_neg hdepth, if_pos hspace, hno]
      rfl
    · rw [if_neg hdepth, if_neg hspace, if_pos (hfits.mpr ⟨hdepth, hspace⟩)]
      refine ⟨rfl, .of_between ⟨hcore, htop, ?_, fun _ => hstarted, by simp⟩ hlex rfl rfl⟩
      intro g hg
      rcases List.mem_cons.mp hg with rfl | hg
      · exact hframe
      · exact hframes g hg

theorem openStreamedContainer_idle (p : Parser σ) (kind : ContainerKind) :
    openStreamedContainer env p kind false false = (p, .ok) := rfl

/-- The parent of a value is no longer behind a comma. -/
theorem clearComma_quiet {p : Parser σ} (hq : Quiet env p) :
    Quiet env (p.modifyTop fun f => { f with afterComma := false }) := by
  cases hp : p.frames with
  | nil =>
      have hmodify : (p.modifyTop fun f => { f with afterComma := false }) = p := by
        cases p
        simp_all [Parser.modifyTop]
      rw [hmodify]
      exact hq
  | cons f fs =>
      have hcons := p.modifyTop_cons hp fun f => { f with afterComma := false }
      have hf : f.Idle env := hq.frames f (by simp [hp])
      refine ⟨hq.core, hq.top, ?_, fun _ => hq.started (by simp [hp]), by simp [hcons]⟩
      intro g hg
      rw [hcons] at hg
      rcases List.mem_cons.mp hg with rfl | hg
      · exact ⟨hf.field, hf.pending, hf.seen, hf.map, hf.kind⟩
      · exact hq.frames g (by simp [hp, hg])

theorem clearComma_brackets (p : Parser σ) :
    (p.modifyTop fun f => { f with afterComma := false }).brackets = p.brackets := by
  cases hp : p.frames <;> simp [Parser.brackets, Parser.modifyTop, hp]

/-- An object for which no field waits. -/
theorem beginObjectValue_agrees {p : Parser σ} (hq : Quiet env p) (hlex : p.lexMode = .none)
    (hroot : p.frames = [] → p.rootStarted = false)
    (hrequired : env.validateOnly = false → requiredCountForMap env.maps env.rootMap = 0) :
    Agrees env reads (beginObjectValue env p)
      (if canOpen env p.brackets.length 0x7b then some ⟨.keyOrEnd, .object :: p.brackets⟩
      else none) := by
  have htarget : ∃ p' t, objectTarget env p = .ok (p', t) ∧ p'.core = p.core ∧
      p'.workspaceTop = p.workspaceTop ∧ (∀ f ∈ p'.frames, f.Idle env) ∧ p'.rootStarted = true ∧
      p'.lexMode = .none ∧ p'.brackets = p.brackets ∧ t.field = none ∧ t.mappedStream = none ∧
      (t.map = none ∨ env.validateOnly = false ∧ t.map = env.rootMap ∧
        requiredCountForMap env.maps t.map = 0) := by
    unfold objectTarget
    cases hstarted : p.rootStarted with
    | false =>
        refine ⟨_, _, rfl, rfl, rfl, hq.frames, rfl, hlex, rfl, ?_, ?_, ?_⟩ <;>
          cases hvalidate : env.validateOnly <;> simp [hvalidate, hrequired]
    | true =>
        cases hp : p.frames with
        | nil => simp [hroot hp] at hstarted
        | cons f fs =>
            have hf : f.Idle env := hq.frames f (by simp [hp])
            have hq' := clearComma_quiet env hq
            refine ⟨p.modifyTop fun f => { f with afterComma := false }, {}, ?_, rfl, rfl,
              hq'.frames, hstarted, hlex, clearComma_brackets p, rfl, rfl, .inl rfl⟩
            cases hkind : f.kind <;>
              simp [hkind, objectTargetInObject, objectTargetInArray, hf.pending, hf.field]
  obtain ⟨p', t, htarget, hcore, htop, hframes, hstarted, hlex', hbrackets, hfield, hstream,
    hmap⟩ := htarget
  have hcore' : p'.core.Idle := hcore ▸ hq.core
  have hframe : Frame.Idle env { newFrame .object with
      map := t.map, objectPtr := t.objectPtr, field := t.field,
      requiredRemaining := requiredCountForMap env.maps t.map } :=
    ⟨hfield, rfl, rfl, hmap, rfl⟩
  have hpush := pushFrame_agrees env reads hcore' (htop.trans hq.top) hframes hstarted hlex' hframe
  have hopen : canOpen env p.brackets.length 0x7b = frameFits env p'.brackets.length := by
    simp [canOpen, hbrackets]
  rw [hopen]
  unfold beginObjectValue
  rw [htarget]
  dsimp only
  cases hfits : frameFits env p'.brackets.length with
  | false =>
      simp only [hfits, Bool.false_eq_true, if_false] at hpush ⊢
      simp only [Status.ne_ok_of_hard hpush, ne_eq, not_false_eq_true, if_true, hstream]
      exact hpush
  | true =>
      simp only [hfits, if_true] at hpush ⊢
      obtain ⟨hok, htracks⟩ := hpush
      simp only [hok, htracks.quiet.core.json, hq.core.json, Bool.and_false, Bool.false_and,
        ne_eq, not_true_eq_false, if_false, openStreamedContainer_idle]
      rw [← hbrackets]
      exact ⟨rfl, htracks⟩

/-- An array for which no field waits. -/
theorem beginArrayValue_agrees {p : Parser σ} (hq : Quiet env p) (hlex : p.lexMode = .none)
    (hroot : p.frames = [] → p.rootStarted = false) :
    Agrees env reads (beginArrayValue env p)
      (if canOpen env p.brackets.length 0x5b then some ⟨.itemOrEnd, .array :: p.brackets⟩
      else none) := by
  by_cases hobject : !p.rootStarted && !env.validateOnly
  · have hp : p.frames = [] := by
      by_contra h
      simp [hq.started h] at hobject
    have hvalidate : env.validateOnly = false := by simp_all
    have hopen : canOpen env p.brackets.length 0x5b = false := by
      simp [canOpen, hp, hvalidate]
    rw [hopen]
    simp [beginArrayValue, arrayTarget, hobject, Agrees, Status.soft]
  have hq' : Quiet env (p.modifyTop fun f => { f with afterComma := false }) :=
    clearComma_quiet env hq
  have htarget : ∃ p' t, arrayTarget env p = .ok (p', t) ∧ p'.core = p.core ∧
      p'.workspaceTop = p.workspaceTop ∧ (∀ f ∈ p'.frames, f.Idle env) ∧ p'.rootStarted = true ∧
      p'.lexMode = .none ∧ p'.brackets = p.brackets ∧ t.field = none := by
    unfold arrayTarget
    rw [if_neg hobject]
    cases hp : p.frames with
    | nil =>
        refine ⟨{ p with rootStarted := true }, {}, by simp [hp], rfl, rfl, ?_, rfl, hlex, rfl, rfl⟩
        exact hq.frames
    | cons f fs =>
        have hf : f.Idle env := hq.frames f (by simp [hp])
        refine ⟨{ p with rootStarted := true }.modifyTop fun f => { f with afterComma := false },
          { objectPtr := if f.kind = .object then f.objectPtr else none }, ?_, rfl, rfl, hq'.frames,
          rfl, hlex, clearComma_brackets p, rfl⟩
        cases hkind : f.kind <;>
          simp [hkind, arrayTargetInObject, Frame.field?, hf.pending, hf.field, hp]
  obtain ⟨p', ⟨objectPtr, field, capture⟩, htarget, hcore, htop, hframes, hstarted, hlex',
    hbrackets, hfield⟩ := htarget
  obtain rfl : field = none := hfield
  have hcore' : p'.core.Idle := hcore ▸ hq.core
  have hframe : Frame.Idle env { newFrame .array with objectPtr, field := none } :=
    ⟨rfl, rfl, rfl, .inl rfl, rfl⟩
  have hpush := pushFrame_agrees env reads hcore' (htop.trans hq.top) hframes hstarted hlex' hframe
  have hopen : canOpen env p.brackets.length 0x5b = frameFits env p'.brackets.length := by
    have hplace : (env.validateOnly || p.brackets.length != 0) = true := by
      cases hp : p.frames with
      | nil => simpa [hroot hp, hp] using hobject
      | cons f fs => simp [hp]
    simp only [canOpen, hbrackets, hplace]
    rfl
  rw [hopen]
  unfold beginArrayValue
  rw [htarget]
  dsimp only
  cases hfits : frameFits env p'.brackets.length with
  | false =>
      simp only [hfits, Bool.false_eq_true, if_false] at hpush ⊢
      simp only [Status.ne_ok_of_hard hpush, ne_eq, not_false_eq_true, if_true]
      exact hpush
  | true =>
      simp only [hfits, if_true] at hpush ⊢
      obtain ⟨hok, htracks⟩ := hpush
      simp only [hok, htracks.quiet.core.json, hq.core.json, Bool.and_false, Bool.false_and,
        ne_eq, not_true_eq_false, if_false, openStreamedContainer_idle]
      rw [← hbrackets]
      exact ⟨rfl, htracks⟩

/-! ## Between tokens -/

theorem Quiet.move {env : Env σ} {p : Parser σ} (hq : Quiet env p) (pos : Pos) :
    Quiet env { p with pos } :=
  ⟨hq.core, hq.top, hq.frames, hq.started, hq.finished⟩

/-- A comma goes on to the next member or item. -/
theorem consumeComma_agrees {p : Parser σ} {f : Frame} {fs : List Frame} (hq : Quiet env p)
    (hlex : p.lexMode = .none) (hp : p.frames = f :: fs) (next : FrameState)
    (hkind : next.kind = f.kind) :
    Agrees env reads (consumeComma env p next) (some ⟨frameMode next true, p.brackets⟩) := by
  have hf : f.Idle env := hq.frames f (by simp [hp])
  simp only [consumeComma, hq.core.json, Bool.false_and, Bool.false_eq_true, if_false, andThenOk,
    if_true]
  exact modifyTop_agrees env reads hq hlex hp
    (fun f => { f with state := next, afterComma := true })
    ⟨hf.field, hf.pending, hf.seen, hf.map, hkind⟩ rfl

/-- Behind a value only a comma and the closing bracket go on. -/
theorem consumeFrameChar_after {p : Parser σ} {f : Frame} {fs : List Frame} (hq : Quiet env p)
    (hlex : p.lexMode = .none) (hp : p.frames = f :: fs)
    (hmode : frameMode (S := S) f.state f.afterComma = .after) {ch : Byte}
    (hspace : isJsonSpace ch = false) :
    Agrees env reads (consumeFrameChar env p f ch) (Json.stepAfter p.brackets ch) := by
  have hf : f.Idle env := hq.frames f (by simp [hp])
  have hspace' : Json.isSpace ch = false := hspace
  have hbrackets : p.brackets = f.kind.bracket :: fs.map (·.kind.bracket) := by
    simp [Parser.brackets, hp]
  have hkind := hf.kind
  unfold consumeFrameChar Json.stepAfter
  cases hstate : f.state with
  | objectCommaOrEnd =>
      rw [hstate] at hkind
      have hobject : f.kind = .object := hkind.symm
      simp only [hobject, hbrackets, ContainerKind.bracket, hspace', Bool.false_eq_true, if_false]
      split
      · simpa [hbrackets, hobject, frameMode, ContainerKind.bracket] using
          consumeComma_agrees env reads hq hlex hp .objectKeyOrEnd hobject.symm
      · split
        · exact finalizeObject_agrees env reads hq hlex hp
        · rfl
  | arrayCommaOrEnd =>
      rw [hstate] at hkind
      have harray : f.kind = .array := hkind.symm
      simp only [harray, hbrackets, ContainerKind.bracket, hspace', Bool.false_eq_true, if_false]
      split
      · simpa [hbrackets, harray, frameMode, ContainerKind.bracket] using
          consumeComma_agrees env reads hq hlex hp .arrayValueOrEnd harray.symm
      · split
        · exact finalizeArray_agrees env reads hq hlex hp
        · rfl
  | _ => cases hcomma : f.afterComma <;> simp [hstate, hcomma, frameMode] at hmode

/-- A byte that is no blank, once the document has started. -/
theorem consumeStructuralChar_solid {p : Parser σ} (hstarted : p.rootStarted = true) {ch : Byte}
    (hspace : isJsonSpace ch = false) :
    consumeStructuralChar env p ch =
      match p.frames with
      | [] => { p with pos := p.pos.step ch }.setError .invalidJson "unexpected trailing data"
      | frame :: _ => consumeFrameChar env { p with pos := p.pos.step ch } frame ch := by
  have hblank : ¬ isJsonSpace ch = true := by simp [hspace]
  have hroot : ¬ (!p.rootStarted) = true := by simp [hstarted]
  exact (if_neg hblank).trans (if_neg hroot)

/-- A blank between tokens. -/
theorem consumeStructuralChar_blank {p : Parser σ} {ch : Byte} (hspace : isJsonSpace ch = true) :
    consumeStructuralChar env p ch = ({ p with pos := p.pos.step ch }, .ok) := by
  unfold consumeStructuralChar
  rw [if_pos hspace]

/-- The byte behind a value. -/
theorem consumeStructuralChar_after {p : Parser σ} (hq : Quiet env p) (hlex : p.lexMode = .none)
    (hmode : p.mode (S := S) = .after) (ch : Byte) :
    Agrees env reads (consumeStructuralChar env p ch) (Json.stepAfter p.brackets ch) := by
  have hq' := hq.move (p.pos.step ch)
  cases hspace : isJsonSpace ch with
  | true =>
      have hspace' : Json.isSpace ch = true := hspace
      rw [consumeStructuralChar_blank env hspace]
      simp only [Json.stepAfter, hspace', if_true]
      exact ⟨rfl, .of_between hq' hlex hmode rfl⟩
  | false =>
      have hspace' : Json.isSpace ch = false := hspace
      have hstarted : p.rootStarted = true := by
        cases hp : p.frames with
        | nil =>
            by_contra h
            simp [Parser.mode, hp, h] at hmode
        | cons f fs => exact hq.started (by simp [hp])
      rw [consumeStructuralChar_solid env hstarted hspace]
      split
      · next hp =>
        have hbrackets : p.brackets = [] := by simp [Parser.brackets, hp]
        simp [hbrackets, Json.stepAfter, hspace', Agrees, Status.soft]
      · next f fs hp =>
        refine consumeFrameChar_after env reads hq' hlex hp ?_ hspace
        simpa [Parser.mode, hp] using hmode

end

/-! ## Strings -/

/-- The registers at the start of a string. -/
structure StringStart (env : Env σ) (p : Parser σ) : Prop where
  escape : p.lexEscape = false
  high : p.unicodePendingHigh = 0
  digits : p.unicodeDigitsNeeded = 0
  discard : env.validateOnly = true → p.captureMode = .discard
  token : env.validateOnly = false →
    p.captureMode = .token ∧ p.token.bytes = [] ∧ p.token.cap = tokenLimit env p

/-- A parser that has read the only chunk of its input and stands inside a string. -/
def Dangles (single : Prop) (p : Parser σ) (st : State S) : Prop :=
  ∃ q, single ∧ p.core.Idle ∧ p.lexMode = .string ∧ st = ⟨.string p.lexIsKey q, p.brackets⟩

/-- A turn of the loop does what the machine does on the bytes used. -/
def TurnAgrees (env : Env σ) (lexer : Bool → ℕ → Lexer S) (reads : Bytes → Parser σ → S → Prop)
    (single : Prop) (r : Parser σ × Turn) (st : State S) (s : Text) : Prop :=
  match r.2 with
  | .next n =>
    0 < n ∧ ∃ st', Reaches (readerMachine env lexer) st (s.take n) (s.drop n) st' ∧
      (Tracks env (reads (s.drop n)) r.1 st' ∨ s.drop n = [] ∧ Dangles single r.1 st')
  | .stop status _ =>
    status.soft = false ∧
      (Json.run (readerMachine env lexer) (some st) s = none ∨
        single ∧ (Json.run (readerMachine env lexer) (some st) s).any
          (Json.accepting (readerMachine env lexer)) = false)

/-- How the strings of a parser that stores nothing are read: the lexers, what ties the
registers to them before the bytes ahead, and what one turn of the loop does. `known` is
what is known of the bytes ahead, and `single` that there is one chunk only. -/
structure StringReader (env : Env σ) (lexer : Bool → ℕ → Lexer S) where
  reads : Bytes → Parser σ → S → Prop
  single : Prop
  known : State S → Text → Prop
  known_reaches : ∀ {st st' : State S} {used rest : Text}, known st (used ++ rest) →
    Reaches (readerMachine env lexer) st used rest st' → known st' rest
  start : ∀ p : Parser σ, Quiet env p → p.lexMode = .string → StringStart env p →
    ∀ ahead, reads ahead p (lexer p.lexIsKey p.frames.length).start
  turn : ∀ (p : Parser σ) (q : S) (ch : Byte) (rest : Bytes), Quiet env p → p.lexMode = .string →
    TokenPlace env p → reads (ch :: rest) p q → known ⟨.string p.lexIsKey q, p.brackets⟩ (ch :: rest) →
    TurnAgrees env lexer reads single (feedTurn env p ch rest)
      ⟨.string p.lexIsKey q, p.brackets⟩ (ch :: rest)

/-- What ties the registers to the lexers whatever bytes are ahead. -/
def StringReader.always {env : Env σ} {lexer : Bool → ℕ → Lexer S} (R : StringReader env lexer)
    (p : Parser σ) (q : S) : Prop :=
  ∀ ahead, R.reads ahead p q

section

variable {env : Env σ} {lexer : Bool → ℕ → Lexer S} (R : StringReader env lexer)

theorem Tracks.mono {reads reads' : Parser σ → S → Prop} (himp : ∀ p q, reads p q → reads' p q)
    {p : Parser σ} {st : State S} (h : Tracks env reads p st) : Tracks env reads' p st := by
  cases h with
  | between hq hlex => exact .between hq hlex
  | string hq hlex hplace hreads => exact .string hq hlex hplace (himp _ _ hreads)
  | number hq hlex hplace hkey hcap => exact .number hq hlex hplace hkey hcap
  | literal hq hlex hrest hplace hkey hcap => exact .literal hq hlex hrest hplace hkey hcap

/-- A turn of one byte. -/
theorem turnSoft_agrees {reads : Bytes → Parser σ → S → Prop} {single : Prop}
    {r : Parser σ × Status} {st : State S} {ch : Byte} (rest : Bytes)
    (h : Agrees env (fun p q => ∀ ahead, reads ahead p q) r (Json.step (readerMachine env lexer) st ch)) :
    TurnAgrees env lexer reads single (turnSoft r 1) st (ch :: rest) := by
  unfold turnSoft
  cases hstep : Json.step (readerMachine env lexer) st ch with
  | none =>
      rw [hstep] at h
      simp [TurnAgrees, show r.2.soft = false from h, hstep]
  | some st' =>
      rw [hstep] at h
      obtain ⟨hok, htracks⟩ := h
      rw [hok, Status.soft_ok, if_pos rfl]
      exact ⟨Nat.one_pos, st', .run (by simpa using hstep), .inl (htracks.mono fun _ _ h => h _)⟩

/-- A turn of one byte that stops on truncation. -/
theorem turnOk_agrees {reads : Bytes → Parser σ → S → Prop} {single : Prop}
    {r : Parser σ × Status} {st : State S} {ch : Byte} (rest : Bytes)
    (h : Agrees env (fun p q => ∀ ahead, reads ahead p q) r (Json.step (readerMachine env lexer) st ch)) :
    TurnAgrees env lexer reads single (turnOk r 1) st (ch :: rest) := by
  have hturn : turnOk r 1 = turnSoft r 1 := by
    unfold turnOk turnSoft
    cases hstep : Json.step (readerMachine env lexer) st ch with
    | none =>
        rw [hstep] at h
        have hhard : r.2.soft = false := h
        simp [hhard, Status.ne_ok_of_hard hhard]
    | some st' =>
        rw [hstep] at h
        simp [h.1]
  rw [hturn]
  exact turnSoft_agrees rest h

/-- The start of a string for which no field waits. -/
def startToken (env : Env σ) (p : Parser σ) (isKey : Bool) : Parser σ × Status :=
  if env.validateOnly then ((p.startString isKey).capture .discard, .ok)
  else prepareToken env (p.startString isKey)

theorem beginStringLex_eq {p : Parser σ} (hcore : p.core.Idle) (isKey : Bool) :
    beginStringLex env p isKey = startToken env p isKey := by
  have hjson : (p.startString isKey).core.json.active = false := hcore.json
  unfold beginStringLex startToken
  rw [if_pos (by simp [hjson])]

theorem beginStringValueLex_eq {p : Parser σ} (hcore : p.core.Idle) (ptr : SlotPtr) :
    beginStringValueLex env p none ptr = startToken env p false := by
  have hjson : (p.startString false).core.json.active = false := hcore.json
  unfold beginStringValueLex startToken
  simp [hjson, andThenOk]

theorem startToken_agrees {p : Parser σ} (hq : Quiet env p) (isKey : Bool)
    (hroot : p.frames = [] → p.rootStarted = false ∧ env.validateOnly = true ∧ isKey = false)
    (hkey : isKey = true → ∀ f ∈ p.frames.head?, f.state = .objectKeyOrEnd) :
    Agrees env R.always (startToken env p isKey)
      (if canOpen env p.brackets.length 0x22 then
        some ⟨.string isKey (lexer isKey p.brackets.length).start, p.brackets⟩
      else none) := by
  unfold startToken
  cases hvalidate : env.validateOnly with
  | true =>
      simp only [if_true, canOpen, hvalidate, Bool.true_or]
      have hq' : Quiet env ((p.startString isKey).capture .discard) :=
        ⟨hq.core, hq.top, hq.frames, hq.started, hq.finished⟩
      have hreads := R.start _ hq' rfl
        ⟨rfl, rfl, rfl, fun _ => rfl, fun h => by simp [hvalidate] at h⟩
      rw [Parser.brackets_length]
      exact ⟨rfl, .string hq' rfl ⟨hroot, hkey⟩ hreads⟩
  | false =>
      have hlen : p.frames.length ≠ 0 := by
        intro h
        have := (hroot (List.eq_nil_of_length_eq_zero h)).2.1
        simp [hvalidate] at this
      have hq' : Quiet env (p.startString isKey) :=
        ⟨hq.core, hq.top, hq.frames, hq.started, hq.finished⟩
      have hlimit : tokenLimit env (p.startString isKey) = tokenRoom env p.frames.length :=
        tokenLimit_eq env hq'
      simp only [canOpen, hvalidate, if_true, Bool.false_eq_true, if_false, Bool.false_or,
        Parser.brackets_length, prepareToken, hlimit]
      by_cases hroom : tokenRoom env p.frames.length = 0
      · simp [hroom, Agrees, Status.soft]
      · have hopen : (p.frames.length != 0 && tokenRoom env p.frames.length != 0) = true := by
          simp [hlen, hroom]
        rw [if_neg hroom, if_pos hopen]
        refine ⟨rfl, .string ⟨hq.core, hq.top, hq.frames, hq.started, hq.finished⟩ rfl
          ⟨fun h => absurd (congrArg List.length (show p.frames = [] from h)) hlen, hkey⟩ ?_⟩
        refine R.start _ ⟨hq.core, hq.top, hq.frames, hq.started, hq.finished⟩ rfl
          ⟨rfl, rfl, rfl, fun h => by simp [hvalidate] at h, fun _ => ⟨rfl, rfl, ?_⟩⟩
        exact (tokenLimit_eq env hq).symm

/-! ## Values -/

/-- The bytes that `beginScalar` knows. -/
def isScalarStart (ch : Byte) : Bool := isNumberStart ch || ch == 0x74 || ch == 0x66 || ch == 0x6e

theorem beginScalar_eq_none {p : Parser σ} {ch : Byte} (h : isScalarStart ch = false) :
    beginScalar env p ch = none := by
  simp only [isScalarStart, isNumberStart, Bool.or_eq_false_iff, beq_eq_false_iff_ne] at h
  simp [beginScalar, h]

variable (lexer) in
/-- A number or a literal for which no field waits. -/
theorem beginScalar_agrees (reads : Parser σ → S → Prop) {p : Parser σ} (hq : Quiet env p)
    (hplace : ValuePlace env p) {ch : Byte} (h : isScalarStart ch = true) :
    ∃ r, beginScalar env p ch = some r ∧
      Agrees env reads r (Json.stepValue (readerMachine env lexer) p.brackets ch) := by
  by_cases hnumber : ch = 0x2d ∨ isDigit ch = true
  · have hstart : isNumberStart ch = true := by simpa [isNumberStart] using hnumber
    obtain ⟨h₁, h₂, h₃, h₄, h₅, h₆⟩ := (readerMachine_lawful env lexer).not_open ch hstart
    have hstep : Json.stepValue (readerMachine env lexer) p.brackets ch =
        if tokenFits env p.brackets.length 1 then some ⟨.number [ch], p.brackets⟩ else none := by
      simp only [Json.stepValue, h₁, h₂, h₃, h₄, h₅, h₆, if_false]
      exact if_pos hstart
    refine ⟨_, if_pos hnumber, ?_⟩
    rw [hstep]
    exact beginNumberLex_agrees env reads hq hplace ch
  · have hliteral : ch = 0x74 ∨ ch = 0x66 ∨ ch = 0x6e := by
      simp only [isScalarStart, isNumberStart, Bool.or_eq_true, beq_iff_eq] at h
      tauto
    refine ⟨_, by rw [beginScalar, if_neg hnumber, if_pos hliteral], ?_⟩
    rcases hliteral with rfl | rfl | rfl
    · exact beginLiteralLex_agrees env reads hq hplace .true 0x74 [0x72, 0x75, 0x65] rfl (by simp)
    · exact beginLiteralLex_agrees env reads hq hplace .false 0x66 [0x61, 0x6c, 0x73, 0x65] rfl
        (by simp)
    · exact beginLiteralLex_agrees env reads hq hplace .null 0x6e [0x75, 0x6c, 0x6c] rfl (by simp)

/-- No other value starts with a byte that is no bracket and no quote. -/
theorem stepValue_none {stack : List Bracket} {ch : Byte} (hscalar : isScalarStart ch = false)
    (hquote : ch ≠ 0x22) (hbrace : ch ≠ 0x7b) (hbracket : ch ≠ 0x5b) :
    Json.stepValue (readerMachine env lexer) stack ch = none := by
  simp only [isScalarStart, Bool.or_eq_false_iff, beq_eq_false_iff_ne] at hscalar
  simp [Json.stepValue, readerMachine, hquote, hbrace, hbracket, hscalar]

/-- A token at the root of a document that must be an object. -/
theorem beginToken_hard {p : Parser σ} (hq : Quiet env p) (mode : LexMode) (ch : Byte)
    (message : String) (k : Parser σ → Parser σ × Status) (hk : ∀ p, (k p).2.soft = false) :
    (andThenOk (andThenOk (prepareToken env { p with lexMode := mode, lexIsKey := false }) fun p =>
      p.orFull (p.scratchAppend ch) message) k).2.soft = false := by
  have hbegin := beginToken_eq env hq mode ch message
  dsimp only at hbegin
  split at hbegin
  · rw [hbegin]
    exact hk _
  · rw [andThenOk, if_neg (Status.ne_ok_of_hard hbegin)]
    exact hbegin

/-- The first byte of the document. -/
theorem consumeRootChar_agrees {p : Parser σ} (hq : Quiet env p) (hlex : p.lexMode = .none)
    (hp : p.frames = []) (hstarted : p.rootStarted = false)
    (hrequired : env.validateOnly = false → requiredCountForMap env.maps env.rootMap = 0)
    (ch : Byte) :
    Agrees env R.always (consumeRootChar env p ch)
      (Json.stepValue (readerMachine env lexer) p.brackets ch) := by
  have hbrackets : p.brackets = [] := by simp [Parser.brackets, hp]
  by_cases hbrace : ch = 0x7b
  · subst hbrace
    exact beginObjectValue_agrees env R.always hq hlex (fun _ => hstarted) hrequired
  by_cases hbracket : ch = 0x5b
  · subst hbracket
    exact beginArrayValue_agrees env R.always hq hlex fun _ => hstarted
  by_cases hquote : ch = 0x22
  · subst hquote
    cases hvalidate : env.validateOnly with
    | true =>
        have hroot : consumeRootChar env p 0x22 = startToken env p false := by
          simp [consumeRootChar, startToken, hvalidate, Parser.startStringChar, Parser.startString,
            Parser.capture, Parser.noToken, hq.core.json]
        rw [hroot]
        exact startToken_agrees R hq false (fun _ => ⟨hstarted, hvalidate, rfl⟩) (by simp)
    | false =>
        have hstep : Json.stepValue (readerMachine env lexer) p.brackets 0x22 = none := by
          simp [Json.stepValue, readerMachine, canOpen, hvalidate, hbrackets]
        rw [hstep]
        simp only [consumeRootChar, hvalidate, prepareToken, andThenOk]
        split_ifs <;> simp_all [Agrees, Status.soft]
  cases hscalar : isScalarStart ch with
  | false =>
      rw [stepValue_none hscalar hquote hbrace hbracket]
      simp only [isScalarStart, isNumberStart, Bool.or_eq_false_iff, beq_eq_false_iff_ne] at hscalar
      cases hvalidate : env.validateOnly <;>
        simp [consumeRootChar, hbrace, hbracket, hquote, hscalar, hvalidate, Agrees, Status.soft]
  | true =>
      cases hvalidate : env.validateOnly with
      | true =>
          obtain ⟨r, hr, hagrees⟩ := beginScalar_agrees lexer R.always hq
            (fun _ => ⟨hstarted, hvalidate⟩) hscalar
          have hroot : consumeRootChar env p ch = r := by
            unfold beginScalar at hr
            unfold consumeRootChar
            simp only [hbrace, hbracket, hquote, hvalidate, if_true, if_false, andThenOk_pure]
            split_ifs at hr with hnumber hliteral
            · rw [if_pos hnumber]
              exact Option.some.inj hr
            · rw [if_neg hnumber, if_pos hliteral]
              exact Option.some.inj hr
          rw [hroot]
          exact hagrees
      | false =>
          have hfits (n : ℕ) : tokenFits env 0 n = false := by simp [tokenFits, hvalidate]
          have hstep : Json.stepValue (readerMachine env lexer) p.brackets ch = none := by
            simp [Json.stepValue, Json.stepLiteral, readerMachine, hbrackets, hfits, hbrace,
              hbracket, hquote]
          rw [hstep]
          unfold consumeRootChar
          simp only [hbrace, hbracket, hquote, hvalidate, if_false, Bool.false_eq_true]
          split_ifs
          · exact beginToken_hard hq .number ch _ _ fun p => rfl
          · exact beginToken_hard hq (literalMode ch) ch _ _ fun p => rfl
          · rfl

/-! ## Turns inside a container -/

theorem Parser.mode_cons {p : Parser σ} {f : Frame} {fs : List Frame} (hp : p.frames = f :: fs) :
    p.mode (S := S) = frameMode f.state f.afterComma := by
  simp [Parser.mode, hp]

theorem Parser.brackets_cons {p : Parser σ} {f : Frame} {fs : List Frame}
    (hp : p.frames = f :: fs) : p.brackets = f.kind.bracket :: fs.map (·.kind.bracket) := by
  simp [Parser.brackets, hp]

/-- A byte between tokens, told by the frame alone: blanks are skipped. -/
theorem consumeStructuralChar_frame (reads : Parser σ → S → Prop) {p : Parser σ} {f : Frame}
    {fs : List Frame} (hq : Quiet env p) (hlex : p.lexMode = .none) (hp : p.frames = f :: fs)
    (ch : Byte)
    (hblank : isJsonSpace ch = true →
      Json.step (readerMachine env lexer) ⟨p.mode, p.brackets⟩ ch = some ⟨p.mode, p.brackets⟩)
    (hsolid : isJsonSpace ch = false → ∀ p' : Parser σ, Quiet env p' → p'.lexMode = .none →
      p'.frames = p.frames → Agrees env reads (consumeFrameChar env p' f ch)
        (Json.step (readerMachine env lexer) ⟨p.mode, p.brackets⟩ ch)) :
    Agrees env reads (consumeStructuralChar env p ch)
      (Json.step (readerMachine env lexer) ⟨p.mode, p.brackets⟩ ch) := by
  have hq' := hq.move (p.pos.step ch)
  cases hspace : isJsonSpace ch with
  | true =>
      rw [hblank hspace, consumeStructuralChar_blank env hspace]
      exact ⟨rfl, .of_between hq' hlex rfl rfl⟩
  | false =>
      rw [consumeStructuralChar_solid env (hq.started (by simp [hp])) hspace]
      simp only [hp]
      have h := hsolid hspace { p with pos := p.pos.step ch } hq' hlex rfl
      simpa only [hp] using h

/-- A byte where a key is expected, when it is no quote. -/
theorem consumeStructuralChar_key (reads : Parser σ → S → Prop) {p : Parser σ} {f : Frame}
    {fs : List Frame} (hq : Quiet env p) (hlex : p.lexMode = .none) (hp : p.frames = f :: fs)
    (hstate : f.state = .objectKeyOrEnd) {ch : Byte} (hquote : ch ≠ 0x22) :
    Agrees env reads (consumeStructuralChar env p ch)
      (Json.step (readerMachine env lexer) ⟨p.mode, p.brackets⟩ ch) := by
  have hkind : f.kind = .object := by
    simpa [hstate, FrameState.kind] using ((hq.frames f (by simp [hp])).kind).symm
  have hmode := p.mode_cons (S := S) hp
  have hbrackets := p.brackets_cons hp
  refine consumeStructuralChar_frame reads hq hlex hp ch ?_ ?_
  · intro hspace
    have hspace' : Json.isSpace ch = true := hspace
    cases hcomma : f.afterComma <;>
      simp [hmode, hbrackets, hstate, hkind, hcomma, frameMode, ContainerKind.bracket, Json.step,
        hspace']
  · intro hspace p' hq' hlex' hp'
    have hspace' : Json.isSpace ch = false := hspace
    rw [hp] at hp'
    have hfinal := finalizeObject_agrees env reads hq' hlex' hp'
    unfold consumeFrameChar
    simp only [hkind, hstate]
    cases hcomma : f.afterComma with
    | true =>
        simp only [hmode, hbrackets, hstate, hkind, hcomma, frameMode, ContainerKind.bracket,
          Json.step, Json.stepKey, hspace', hquote, if_true, if_false, false_and, ne_eq,
          not_false_eq_true, Bool.false_eq_true]
        split <;> rfl
    | false =>
        simp only [hmode, hbrackets, hstate, hkind, hcomma, frameMode, ContainerKind.bracket,
          Json.step, Json.stepKey, hspace', hquote, if_true, if_false, false_and, ne_eq,
          not_false_eq_true, Bool.false_eq_true]
        split
        · exact hfinal
        · rfl

/-- A byte where a colon is expected, when it is none. -/
theorem consumeStructuralChar_colon (reads : Parser σ → S → Prop) {p : Parser σ} {f : Frame}
    {fs : List Frame} (hq : Quiet env p) (hlex : p.lexMode = .none) (hp : p.frames = f :: fs)
    (hstate : f.state = .objectColon) {ch : Byte} (hcolon : ch ≠ 0x3a) :
    Agrees env reads (consumeStructuralChar env p ch)
      (Json.step (readerMachine env lexer) ⟨p.mode, p.brackets⟩ ch) := by
  have hkind : f.kind = .object := by
    simpa [hstate, FrameState.kind] using ((hq.frames f (by simp [hp])).kind).symm
  have hmode := p.mode_cons (S := S) hp
  have hbrackets := p.brackets_cons hp
  refine consumeStructuralChar_frame reads hq hlex hp ch ?_ ?_
  · intro hspace
    have hspace' : Json.isSpace ch = true := hspace
    simp [hmode, hbrackets, hstate, hkind, frameMode, ContainerKind.bracket, Json.step, hspace']
  · intro hspace p' _ _ _
    have hspace' : Json.isSpace ch = false := hspace
    simp [consumeFrameChar, hmode, hbrackets, hstate, hkind, frameMode, ContainerKind.bracket,
      Json.step, hspace', hcolon, Agrees, Status.soft]

/-- A byte where a member value is expected, when it starts a container or nothing. -/
theorem consumeStructuralChar_value (reads : Parser σ → S → Prop) {p : Parser σ} {f : Frame}
    {fs : List Frame} (hq : Quiet env p) (hlex : p.lexMode = .none) (hp : p.frames = f :: fs)
    (hstate : f.state = .objectValue) {ch : Byte} (hquote : ch ≠ 0x22)
    (hscalar : isScalarStart ch = false)
    (hrequired : env.validateOnly = false → requiredCountForMap env.maps env.rootMap = 0) :
    Agrees env reads (consumeStructuralChar env p ch)
      (Json.step (readerMachine env lexer) ⟨p.mode, p.brackets⟩ ch) := by
  have hkind : f.kind = .object := by
    simpa [hstate, FrameState.kind] using ((hq.frames f (by simp [hp])).kind).symm
  have hmode := p.mode_cons (S := S) hp
  refine consumeStructuralChar_frame reads hq hlex hp ch ?_ ?_
  · intro hspace
    have hspace' : Json.isSpace ch = true := hspace
    simp [hmode, hstate, frameMode, Json.step, hspace']
  · intro hspace p' hq' hlex' hp'
    have hspace' : Json.isSpace ch = false := hspace
    have hbrackets : p.brackets = p'.brackets := by simp [Parser.brackets, hp']
    have hroot : p'.frames = [] → p'.rootStarted = false := by simp [hp', hp]
    have hliteral : ch ≠ 0x74 := by
      rintro rfl
      simp [isScalarStart] at hscalar
    unfold consumeFrameChar
    simp only [hkind, hstate, hmode, frameMode, Json.step, hspace', Bool.false_eq_true, if_false,
      hbrackets, consumeMemberValue, hquote, hliteral, beginScalar_eq_none hscalar]
    split
    · next hbrace =>
      subst hbrace
      exact beginObjectValue_agrees env reads hq' hlex' hroot hrequired
    · next hbrace =>
      split
      · next hbracket =>
        subst hbracket
        exact beginArrayValue_agrees env reads hq' hlex' hroot
      · next hbracket =>
        rw [stepValue_none hscalar hquote hbrace hbracket]
        rfl

/-- A byte where an item is expected, when it starts a container or nothing. -/
theorem consumeStructuralChar_item (reads : Parser σ → S → Prop) {p : Parser σ} {f : Frame}
    {fs : List Frame} (hq : Quiet env p) (hlex : p.lexMode = .none) (hp : p.frames = f :: fs)
    (hstate : f.state = .arrayValueOrEnd) {ch : Byte} (hquote : ch ≠ 0x22)
    (hscalar : isScalarStart ch = false)
    (hrequired : env.validateOnly = false → requiredCountForMap env.maps env.rootMap = 0) :
    Agrees env reads (consumeStructuralChar env p ch)
      (Json.step (readerMachine env lexer) ⟨p.mode, p.brackets⟩ ch) := by
  have hkind : f.kind = .array := by
    simpa [hstate, FrameState.kind] using ((hq.frames f (by simp [hp])).kind).symm
  have hmode := p.mode_cons (S := S) hp
  have hbrackets := p.brackets_cons hp
  refine consumeStructuralChar_frame reads hq hlex hp ch ?_ ?_
  · intro hspace
    have hspace' : Json.isSpace ch = true := hspace
    cases hcomma : f.afterComma <;>
      simp [hmode, hbrackets, hstate, hkind, hcomma, frameMode, ContainerKind.bracket, Json.step,
        hspace']
  · intro hspace p' hq' hlex' hp'
    have hspace' : Json.isSpace ch = false := hspace
    have hstep : Json.step (readerMachine env lexer) ⟨p.mode, p.brackets⟩ ch =
        if ch = 0x5d then
          if f.afterComma then none else some ⟨.after, fs.map (·.kind.bracket)⟩
        else Json.stepValue (readerMachine env lexer) p.brackets ch := by
      have hclose : Json.stepValue (readerMachine env lexer) p.brackets 0x5d = none :=
        Json.stepValue_bracket _ (readerMachine_lawful env lexer) _
      cases hcomma : f.afterComma
      · simp [hmode, hbrackets, hstate, hkind, hcomma, frameMode, ContainerKind.bracket, Json.step,
          hspace']
      · simp only [hmode, hstate, hcomma, frameMode, if_true, Json.step, hspace',
          Bool.false_eq_true, if_false]
        split
        · next h => rw [h, hclose]
        · rfl
    have hq'' := clearComma_quiet env hq'
    have hroot : (p'.modifyTop fun f => { f with afterComma := false }).frames = [] →
        p'.rootStarted = false := by
      intro h
      simp [Parser.modifyTop, hp', hp] at h
    have hbrackets' : p.brackets = (p'.modifyTop fun f => { f with afterComma := false }).brackets := by
      rw [clearComma_brackets]
      simp [Parser.brackets, hp']
    rw [hstep]
    unfold consumeFrameChar
    simp only [hkind, hstate, consumeItemValue, hquote, if_false, beginScalar_eq_none hscalar]
    split
    · split
      · rfl
      · exact finalizeArray_agrees env reads hq' hlex' (hp'.trans hp)
    · split
      · next hbrace =>
        subst hbrace
        have h := beginObjectValue_agrees env reads hq'' hlex' hroot hrequired
        rwa [← hbrackets'] at h
      · next hbrace =>
        split
        · next hbracket =>
          subst hbracket
          have h := beginArrayValue_agrees env reads hq'' hlex' hroot
          rwa [← hbrackets'] at h
        · next hbracket =>
          rw [stepValue_none hscalar hquote hbrace hbracket]
          rfl

theorem charTurn_between {p : Parser σ} (hlex : p.lexMode = .none) (ch : Byte) :
    charTurn env p ch = turnSoft (consumeStructuralChar env p ch) 1 := by
  simp [charTurn, consumeChar, hlex]

/-- A turn between tokens, inside a container. -/
theorem frameTurn_agrees {p : Parser σ} {f : Frame} {fs : List Frame} (hq : Quiet env p)
    (hlex : p.lexMode = .none) (hp : p.frames = f :: fs)
    (hrequired : env.validateOnly = false → requiredCountForMap env.maps env.rootMap = 0)
    (ch : Byte) (rest : Bytes) :
    TurnAgrees env lexer R.reads R.single (frameTurn env p f ch) ⟨p.mode, p.brackets⟩
      (ch :: rest) := by
  have hf : f.Idle env := hq.frames f (by simp [hp])
  have hmoved : Quiet env (p.advance 1) := hq.move _
  have hplace : ValuePlace env (p.advance 1) := fun h => by
    simp [show p.frames = [] from h] at hp
  have hfield : f.field? env = none := by simp [Frame.field?, hf.field]
  have hpending : f.pending? env = none := by simp [Frame.pending?, hf.pending]
  have hmode := p.mode_cons (S := S) hp
  have hbrackets := p.brackets_cons hp
  have hkind := hf.kind
  have hroot (isKey : Bool) : (p.advance 1).frames = [] →
      p.rootStarted = false ∧ env.validateOnly = true ∧ isKey = false := fun h => by
    simp [show p.frames = [] from h] at hp
  have hvalue : p.mode (S := S) = .value ∨ p.mode (S := S) = .itemOrEnd ∧ f.kind = .array →
      isJsonSpace ch = false → ch ≠ 0x5d →
      Json.step (readerMachine env lexer) ⟨p.mode, p.brackets⟩ ch =
        Json.stepValue (readerMachine env lexer) p.brackets ch := by
    intro h hspace hclose
    have hspace' : Json.isSpace ch = false := hspace
    rcases h with h | ⟨h, hkind⟩
    · simp [h, Json.step, hspace']
    · simp [h, hkind, hbrackets, ContainerKind.bracket, Json.step, hspace', hclose]
  have hstring (h : p.mode (S := S) = .value ∨ p.mode (S := S) = .itemOrEnd ∧ f.kind = .array)
      (hquote : ch = 0x22) (ptr : SlotPtr) :
      TurnAgrees env lexer R.reads R.single
        (turnSoft (beginStringValueLex env (p.advance 1) none ptr) 1) ⟨p.mode, p.brackets⟩
        (ch :: rest) := by
    subst hquote
    refine turnSoft_agrees rest ?_
    rw [beginStringValueLex_eq hmoved.core, hvalue h rfl (by decide)]
    exact startToken_agrees R hmoved false (hroot false) (by simp)
  have hscalar (h : p.mode (S := S) = .value ∨ p.mode (S := S) = .itemOrEnd ∧ f.kind = .array)
      (hstart : isScalarStart ch = true) : ∃ r, beginScalar env (p.advance 1) ch = some r ∧
        TurnAgrees env lexer R.reads R.single (turnSoft r 1) ⟨p.mode, p.brackets⟩ (ch :: rest) := by
    obtain ⟨r, hr, hagrees⟩ := beginScalar_agrees lexer R.always hmoved hplace hstart
    have hspace : isJsonSpace ch = false := by
      simp only [isScalarStart, isNumberStart, isDigit] at hstart
      simp only [isJsonSpace]
      grind
    have hclose : ch ≠ 0x5d := by
      rintro rfl
      simp [isScalarStart, isNumberStart, isDigit] at hstart
    refine ⟨r, hr, turnSoft_agrees rest ?_⟩
    rw [hvalue h hspace hclose]
    exact hagrees
  have hafter (h : p.mode (S := S) = .after) :
      Json.step (readerMachine env lexer) ⟨p.mode, p.brackets⟩ ch = Json.stepAfter p.brackets ch := by
    rw [h]
    rfl
  unfold frameTurn
  rw [charTurn_between hlex]
  cases hstate : f.state with
  | objectKeyOrEnd =>
      rw [hstate] at hkind
      simp only [← hkind, FrameState.kind]
      split
      · next hquote =>
        subst hquote
        have hstart := startToken_agrees R hmoved true (hroot true) (by
          intro _ g hg
          obtain rfl : f = g := by simpa [Parser.advance, hp] using hg
          exact hstate)
        have hstep : Json.step (readerMachine env lexer) ⟨p.mode, p.brackets⟩ 0x22 =
            if canOpen env p.brackets.length 0x22 = true then
              some ⟨.string true (lexer true p.brackets.length).start, p.brackets⟩
            else none := by
          cases hcomma : f.afterComma <;>
            simp [hmode, hbrackets, hstate, ← hkind, FrameState.kind, hcomma, frameMode,
              ContainerKind.bracket, Json.step, Json.stepKey, Json.isSpace, readerMachine]
        refine turnSoft_agrees rest ?_
        rw [beginStringLex_eq hmoved.core, hstep]
        exact hstart
      · next hquote =>
        exact turnSoft_agrees rest (consumeStructuralChar_key R.always hq hlex hp hstate hquote)
  | objectColon =>
      rw [hstate] at hkind
      simp only [← hkind, FrameState.kind]
      split
      · next hcolon =>
        subst hcolon
        have hstep : Json.step (readerMachine env lexer) ⟨p.mode, p.brackets⟩ 0x3a =
            some ⟨.value, p.brackets⟩ := by
          simp [hmode, hbrackets, hstate, ← hkind, FrameState.kind, frameMode,
            ContainerKind.bracket, Json.step, Json.isSpace]
        have hnext := modifyTop_agrees env R.always hmoved hlex hp
          (fun f => { f with state := .objectValue })
          ⟨hf.field, hf.pending, hf.seen, hf.map, hkind⟩ rfl
        refine turnSoft_agrees (r := (_, .ok)) rest ?_
        rw [hstep]
        exact hnext
      · next hcolon =>
        exact turnSoft_agrees rest (consumeStructuralChar_colon R.always hq hlex hp hstate hcolon)
  | objectValue =>
      have hplace' : p.mode (S := S) = .value ∨ p.mode (S := S) = .itemOrEnd ∧ f.kind = .array :=
        .inl (by simp [hmode, hstate, frameMode])
      rw [hstate] at hkind
      simp only [← hkind, FrameState.kind]
      split
      · next hquote =>
        simp only [hpending, Option.filter_none, hf.pending]
        exact hstring hplace' hquote _
      · next hquote =>
        cases hstart : isScalarStart ch with
        | true =>
            obtain ⟨r, hr, hturn⟩ := hscalar hplace' hstart
            rw [hr]
            exact hturn
        | false =>
            rw [beginScalar_eq_none hstart]
            exact turnSoft_agrees rest
              (consumeStructuralChar_value R.always hq hlex hp hstate hquote hstart hrequired)
  | objectCommaOrEnd =>
      have hafter' := hafter (by simp [hmode, hstate, frameMode])
      rw [hstate] at hkind
      have hobject : f.kind = .object := hkind.symm
      have hstack : p.brackets = .object :: fs.map (·.kind.bracket) := by
        rw [hbrackets, hobject]
        rfl
      simp only [hobject]
      split
      · next hcomma =>
        subst hcomma
        have hstep : Json.stepAfter (S := S) p.brackets 0x2c = some ⟨.key, p.brackets⟩ := by
          rw [hstack]
          rfl
        refine turnOk_agrees rest ?_
        rw [hafter', hstep]
        exact consumeComma_agrees env R.always hmoved hlex hp .objectKeyOrEnd hkind
      · split
        · next hclose =>
          subst hclose
          refine turnSoft_agrees rest ?_
          rw [hafter', hstack]
          exact finalizeObject_agrees env R.always hmoved hlex hp
        · refine turnSoft_agrees rest ?_
          rw [hafter']
          exact consumeStructuralChar_after env R.always hq hlex
            (by simp [hmode, hstate, frameMode]) ch
  | arrayValueOrEnd =>
      rw [hstate] at hkind
      have hplace' : p.mode (S := S) = .value ∨ p.mode (S := S) = .itemOrEnd ∧ f.kind = .array := by
        cases hcomma : f.afterComma
        · exact .inr ⟨by simp [hmode, hstate, hcomma, frameMode], hkind.symm⟩
        · exact .inl (by simp [hmode, hstate, hcomma, frameMode])
      simp only [← hkind, FrameState.kind]
      split
      · next hquote =>
        simp only [hf.field]
        exact hstring hplace' hquote _
      · next hquote =>
        cases hstart : isScalarStart ch with
        | true =>
            obtain ⟨r, hr, hturn⟩ := hscalar hplace' hstart
            rw [hr]
            exact hturn
        | false =>
            rw [beginScalar_eq_none hstart]
            exact turnSoft_agrees rest
              (consumeStructuralChar_item R.always hq hlex hp hstate hquote hstart hrequired)
  | arrayCommaOrEnd =>
      have hafter' := hafter (by simp [hmode, hstate, frameMode])
      rw [hstate] at hkind
      have harray : f.kind = .array := hkind.symm
      have hstack : p.brackets = .array :: fs.map (·.kind.bracket) := by
        rw [hbrackets, harray]
        rfl
      simp only [harray]
      split
      · next hcomma =>
        subst hcomma
        have hstep : Json.stepAfter (S := S) p.brackets 0x2c = some ⟨.value, p.brackets⟩ := by
          rw [hstack]
          rfl
        refine turnOk_agrees rest ?_
        rw [hafter', hstep]
        exact consumeComma_agrees env R.always hmoved hlex hp .arrayValueOrEnd hkind
      · split
        · next hclose =>
          subst hclose
          refine turnSoft_agrees rest ?_
          rw [hafter', hstack]
          exact finalizeArray_agrees env R.always hmoved hlex hp
        · refine turnSoft_agrees rest ?_
          rw [hafter']
          exact consumeStructuralChar_after env R.always hq hlex
            (by simp [hmode, hstate, frameMode]) ch

end

end Lonejson
