import Lonejson.Engine

/-!
# The registers of the lexer

The actions at the token boundaries leave the position and the registers of the lexer as
they are. Only a string, a number or a literal that starts sets them.
-/

namespace Lonejson

variable {σ : Type}

/-- The members that only the lexer writes. -/
structure Registers where
  pos : Pos
  lexMode : LexMode
  lexIsKey : Bool
  lexEscape : Bool
  unicodePendingHigh : ℕ
  unicodeDigitsNeeded : ℕ
  unicodeAccum : ℕ

def Parser.registers (p : Parser σ) : Registers where
  pos := p.pos
  lexMode := p.lexMode
  lexIsKey := p.lexIsKey
  lexEscape := p.lexEscape
  unicodePendingHigh := p.unicodePendingHigh
  unicodeDigitsNeeded := p.unicodeDigitsNeeded
  unicodeAccum := p.unicodeAccum

/-! ## Small steps -/

section

variable {env : Env σ} {p : Parser σ} {w : Registers}

@[simp]
theorem onCore_registers (r : Core σ × Status) : (p.onCore r).1.registers = p.registers := rfl

@[simp]
theorem setError_registers (code : Status) (message : String) (arg : Bytes) :
    (p.setError code message arg).1.registers = p.registers := rfl

@[simp]
theorem failError_registers (code : Status) (message : String) (arg : Bytes) :
    (p.failError code message arg).1.registers = p.registers := rfl

@[simp]
theorem modifyTop_registers (f : Frame → Frame) : (p.modifyTop f).registers = p.registers := rfl

@[simp]
theorem endJsonStream_registers : (p.endJsonStream env).registers = p.registers := rfl

theorem ite_registers {c : Prop} [Decidable c] {r r' : Parser σ × Status} (hr : r.1.registers = w)
    (hr' : r'.1.registers = w) : (if c then r else r').1.registers = w := by
  split
  · exact hr
  · exact hr'

theorem andThenOk_registers {r : Parser σ × Status} {k : Parser σ → Parser σ × Status}
    (hr : r.1.registers = w) (hk : ∀ q : Parser σ, q.registers = w → (k q).1.registers = w) :
    (andThenOk r k).1.registers = w := by
  rw [andThenOk]
  split
  · exact hk _ hr
  · exact hr

theorem andThenSoft_registers {r : Parser σ × Status} {k : Parser σ → Parser σ × Status}
    (hr : r.1.registers = w) (hk : ∀ q : Parser σ, q.registers = w → (k q).1.registers = w) :
    (andThenSoft r k).1.registers = w := by
  rw [andThenSoft]
  split
  · exact hk _ hr
  · exact hr

/-- Either way of going on has these registers. -/
def OrReturn.Registers {α : Type} (w : Registers) : OrReturn σ α → Prop
  | .error r => r.1.registers = w
  | .ok r => r.1.registers = w

theorem orReturn_registers {α : Type} {r : Parser σ × Status} {k : Parser σ → OrReturn σ α}
    (hr : r.1.registers = w)
    (hk : ∀ q : Parser σ, q.registers = w → OrReturn.Registers w (k q)) :
    OrReturn.Registers w (orReturn r k) := by
  rw [orReturn]
  split
  · exact hk _ hr
  · exact hr

@[simp]
theorem scratchCstr_registers : p.scratchCstr.registers = p.registers := by
  rw [Parser.scratchCstr]
  split <;> rfl

@[simp]
theorem popFrame_registers : (popFrame p).registers = p.registers := by
  rw [popFrame]
  split <;> rfl

@[simp]
theorem pushFrame_registers (frame : Frame) :
    (pushFrame env p frame).1.registers = p.registers := by
  rw [pushFrame]
  split
  · rfl
  · split <;> rfl

@[simp]
theorem prepareToken_registers : (prepareToken env p).1.registers = p.registers := by
  rw [prepareToken]
  dsimp only
  split <;> rfl

theorem scratchAppend_registers {ch : Byte} {q : Parser σ} (h : p.scratchAppend ch = some q) :
    q.registers = p.registers := by
  rw [Parser.scratchAppend] at h
  split at h
  · cases h
    rfl
  · cases h

theorem scratchAppendBytes_registers {src : Bytes} {q : Parser σ}
    (h : p.scratchAppendBytes src = some q) : q.registers = p.registers := by
  rw [Parser.scratchAppendBytes] at h
  split at h
  · cases h
    rfl
  · cases h

theorem orFull_registers {o : Option (Parser σ)} (message : String)
    (h : ∀ q, o = some q → q.registers = p.registers) :
    (p.orFull o message).1.registers = p.registers := by
  cases o with
  | none => rfl
  | some q => exact h q rfl

/-! ## Marking fields -/

theorem markSeenMask_registers (frame : Frame) (idx : ℕ) (field : Field) :
    (markSeenMask env p frame idx field).1.registers = p.registers := by
  rw [markSeenMask]
  dsimp only
  split <;> rfl

theorem ensureSeenFields_registers {frame : Frame} {count : ℕ} {seen : SeenFields} {q : Parser σ}
    (h : ensureSeenFields env p frame count = some (seen, q)) : q.registers = p.registers := by
  rw [ensureSeenFields] at h
  split at h
  · cases h
    rfl
  · rw [workspaceAllocTop] at h
    split at h
    · cases h
    · rename_i halloc
      split at halloc
      · cases halloc
      · cases halloc
        cases h
        rfl

theorem markSeenFields_registers (frame : Frame) (count idx : ℕ) (field : Field) :
    (markSeenFields env p frame count idx field).1.registers = p.registers := by
  rw [markSeenFields]
  split
  · rfl
  · rename_i hseen
    rw [← ensureSeenFields_registers hseen]
    dsimp only
    split <;> rfl

@[simp]
theorem markFieldSeen_registers (ref : FieldRef) :
    (markFieldSeen env p ref).1.registers = p.registers := by
  rw [markFieldSeen]
  split
  · rfl
  · split
    · split
      · rfl
      · split
        · exact markSeenMask_registers _ _ _
        · exact markSeenFields_registers _ _ _ _
    · rfl

/-- A frame with other marks. -/
def Frame.Marked (f f' : Frame) : Prop :=
  ∃ seenMask seenFields requiredRemaining,
    f' = { f with seenMask, seenFields, requiredRemaining }

theorem Frame.Marked.refl (f : Frame) : f.Marked f := ⟨_, _, _, rfl⟩

theorem Frame.Marked.trans {f f' f'' : Frame} (h : f.Marked f') (h' : f'.Marked f'') :
    f.Marked f'' := by
  obtain ⟨_, _, _, rfl⟩ := h
  obtain ⟨_, _, _, rfl⟩ := h'
  exact ⟨_, _, _, rfl⟩

/-- The innermost frame has other marks, which may lie where the token is. -/
def Parser.Marked (p q : Parser σ) : Prop :=
  ∃ frames workspaceTop token, q = { p with frames, workspaceTop, token } ∧
    (frames = p.frames ∨ ∃ f f' fs, p.frames = f :: fs ∧ frames = f' :: fs ∧ f.Marked f')

theorem Parser.Marked.refl (p : Parser σ) : p.Marked p := ⟨_, _, _, rfl, .inl rfl⟩

theorem countRequired_marked (f : Frame) (field : Field) (first : Bool) :
    f.Marked (f.countRequired field first) := by
  rw [Frame.countRequired]
  split
  · exact ⟨_, _, _, rfl⟩
  · exact .refl f

theorem markSeenMask_cases {frame : Frame} {fs : List Frame} (hframes : p.frames = frame :: fs)
    (idx : ℕ) (field : Field) :
    ((markSeenMask env p frame idx field).2 = .ok ∧
        p.Marked (markSeenMask env p frame idx field).1) ∨
      ((markSeenMask env p frame idx field).2.soft = false ∧
        (markSeenMask env p frame idx field).1.core.dst = p.core.dst) := by
  rw [markSeenMask]
  dsimp only
  split
  · exact .inr ⟨rfl, rfl⟩
  · refine .inl ⟨rfl, ?_⟩
    rw [Parser.modifyTop, hframes]
    obtain ⟨_, _, _, hcount⟩ := countRequired_marked frame field
      (frame.seenMask &&& (1 : UInt64) <<< idx.toUInt64 == 0)
    refine ⟨_, _, _, rfl, .inr ⟨frame, _, fs, hframes, rfl, ?_⟩⟩
    exact .trans ⟨_, _, _, hcount⟩ ⟨_, _, _, rfl⟩

theorem ensureSeenFields_some {frame : Frame} {count : ℕ} {seen : SeenFields} {q : Parser σ}
    (h : ensureSeenFields env p frame count = some (seen, q)) :
    ∃ workspaceTop token, q = { p with workspaceTop, token } := by
  rw [ensureSeenFields] at h
  split at h
  · cases h
    exact ⟨_, _, rfl⟩
  · rw [workspaceAllocTop] at h
    split at h
    · cases h
    · rename_i halloc
      split at halloc
      · cases halloc
      · cases halloc
        cases h
        exact ⟨_, _, rfl⟩

theorem markSeenFields_cases {frame : Frame} {fs : List Frame} (hframes : p.frames = frame :: fs)
    (count idx : ℕ) (field : Field) :
    ((markSeenFields env p frame count idx field).2 = .ok ∧
        p.Marked (markSeenFields env p frame count idx field).1) ∨
      ((markSeenFields env p frame count idx field).2.soft = false ∧
        (markSeenFields env p frame count idx field).1.core.dst = p.core.dst) := by
  rw [markSeenFields]
  cases hseen : ensureSeenFields env p frame count with
  | none => exact .inr ⟨rfl, rfl⟩
  | some r =>
      obtain ⟨seen, q⟩ := r
      obtain ⟨top, token, rfl⟩ := ensureSeenFields_some hseen
      dsimp only
      split
      · exact .inr ⟨rfl, rfl⟩
      · refine .inl ⟨rfl, ?_⟩
        simp only [Parser.modifyTop, hframes]
        obtain ⟨_, _, _, hcount⟩ := countRequired_marked { frame with seenFields := some seen }
          field (seen.marks[idx]? == some 0)
        refine ⟨_, _, _, rfl, .inr ⟨frame, _, fs, hframes, rfl, ?_⟩⟩
        have hseen : frame.Marked { frame with seenFields := some seen } := ⟨_, _, _, rfl⟩
        exact hseen.trans (.trans ⟨_, _, _, hcount⟩ ⟨_, _, _, rfl⟩)

/-- A field is marked, and nothing else changes, or the parse fails. -/
theorem markFieldSeen_cases (ref : FieldRef) :
    ((markFieldSeen env p ref).2 = .ok ∧ p.Marked (markFieldSeen env p ref).1) ∨
      ((markFieldSeen env p ref).2.soft = false ∧
        (markFieldSeen env p ref).1.core.dst = p.core.dst) := by
  rw [markFieldSeen]
  cases hframes : p.frames with
  | nil => exact .inl ⟨rfl, .refl p⟩
  | cons frame fs =>
      dsimp only
      split
      · split
        · exact .inl ⟨rfl, .refl p⟩
        · split
          · exact markSeenMask_cases hframes _ _
          · exact markSeenFields_cases hframes _ _ _
      · exact .inl ⟨rfl, .refl p⟩

/-! ## Completing a value -/

@[simp]
theorem completeParentAfterValue_registers :
    (completeParentAfterValue p).1.registers = p.registers := by
  rw [completeParentAfterValue]
  split
  · rfl
  · split <;> rfl

theorem completeParentAfterValue_object {top : Frame} {fs : List Frame}
    (hframes : p.frames = top :: fs) (hkind : top.kind = .object) :
    completeParentAfterValue p =
      ({ p with frames := { top with state := .objectCommaOrEnd, pendingField := none } :: fs },
        .ok) := by
  obtain ⟨kind, state⟩ := top
  obtain rfl : kind = _ := hkind
  simp only [completeParentAfterValue, hframes, Parser.modifyTop]
  rfl

theorem completeParentAfterValue_array {top : Frame} {fs : List Frame}
    (hframes : p.frames = top :: fs) (hkind : top.kind = .array) :
    completeParentAfterValue p =
      ({ p with frames := { top with state := .arrayCommaOrEnd } :: fs }, .ok) := by
  obtain ⟨kind, state⟩ := top
  obtain rfl : kind = _ := hkind
  simp only [completeParentAfterValue, hframes, Parser.modifyTop]
  rfl

@[simp]
theorem finishDirectString_registers : (finishDirectString env p).1.registers = p.registers := by
  rw [finishDirectString]
  dsimp only
  split
  · rw [completeParentAfterValue_registers]
    rfl
  · rfl

@[simp]
theorem finishStreamValue_registers : (finishStreamValue env p).1.registers = p.registers := rfl

@[simp]
theorem completeStreamedStringToken_registers :
    (completeStreamedStringToken env p).1.registers = p.registers := by
  rw [completeStreamedStringToken]
  split
  · rfl
  · split
    · rfl
    · dsimp only
      refine andThenOk_registers ?_ fun q hq => hq
      split <;> rfl
  · split <;> rfl
  · dsimp only
    split
    · split
      · exact completeParentAfterValue_registers
      · split
        · refine andThenOk_registers (markFieldSeen_registers _) fun q hq => ?_
          rw [completeParentAfterValue_registers]
          exact hq
        · rfl
    · split
      · exact completeParentAfterValue_registers
      · rfl

/-! ## Delivering tokens -/

theorem handleScalarForField_registers (ref : Option FieldRef) (mode : LexMode) :
    (handleScalarForField env p ref mode).1.registers = p.registers := by
  cases ref with
  | none => exact completeParentAfterValue_registers
  | some ref =>
      refine andThenOk_registers (markFieldSeen_registers ref) fun q hq => ?_
      split <;> exact hq

theorem deliverKeyText_registers (key : Bytes) :
    (deliverKeyText env p key).1.registers = p.registers := by
  rw [deliverKeyText]
  dsimp only
  split
  · rfl
  · split
    · rfl
    · split
      · rfl
      · split
        · refine andThenOk_registers rfl fun q hq => ?_
          exact andThenOk_registers hq fun q hq => hq
        · rfl

theorem deliverRootScalar_registers (mode : LexMode) :
    (deliverRootScalar env p mode).1.registers = p.registers := by
  rw [deliverRootScalar]
  split
  · split
    · rfl
    · have hr : (if !p.core.json.active ∨ mode = .string then (p, Status.ok)
          else p.onCore (deliverStreamedScalar env p.core p.token.bytes mode)).1.registers =
          p.registers := by
        split <;> rfl
      dsimp only
      generalize (if !p.core.json.active ∨ mode = .string then (p, Status.ok)
          else p.onCore (deliverStreamedScalar env p.core p.token.bytes mode)) = r at hr ⊢
      split
      · cases p.core.json.active <;> exact hr
      · exact hr
  · rfl

@[simp]
theorem deliverToken_registers (mode : LexMode) :
    (deliverToken env p mode).1.registers = p.registers := by
  rw [← scratchCstr_registers (p := p), deliverToken]
  dsimp only
  generalize p.scratchCstr = p
  split
  · exact deliverKeyText_registers _
  · split
    · exact deliverRootScalar_registers mode
    · split
      · rfl
      · split
        · split
          · refine andThenOk_registers rfl fun q hq => ?_
            rw [completeParentAfterValue_registers]
            exact hq
          · split
            · rw [completeParentAfterValue_registers]
              exact handleScalarForField_registers _ mode
            · exact handleScalarForField_registers _ mode
        · split
          · split <;> rfl
          · refine andThenOk_registers ?_ fun q hq => hq
            split <;> rfl

/-! ## Containers -/

theorem beginJsonContainer_registers {α : Type} (ptr : SlotPtr) (kind : ContainerKind)
    (target : α) :
    OrReturn.Registers p.registers (beginJsonContainer env p ptr kind target) := by
  rw [beginJsonContainer]
  refine orReturn_registers rfl fun q hq => ?_
  split
  · exact hq
  · dsimp only
    split
    · split <;> exact hq
    · split <;> exact hq

theorem openStreamedContainer_registers (kind : ContainerKind) (startedRoot nested : Bool) :
    (openStreamedContainer env p kind startedRoot nested).1.registers = p.registers := by
  rw [openStreamedContainer]
  split
  · rfl
  · split
    · dsimp only
      split <;> rfl
    · rfl

theorem objectTarget_registers : OrReturn.Registers p.registers (objectTarget env p) := by
  rw [objectTarget]
  split
  · rfl
  · split
    · rfl
    · rename_i parent _ _
      dsimp only
      split
      · rw [objectTargetInObject]
        split
        · refine orReturn_registers (markFieldSeen_registers _) fun q hq => ?_
          split
          · rw [← hq]
            exact beginJsonContainer_registers _ _ _
          · split <;> exact hq
        · rfl
      · rw [objectTargetInArray]
        split
        · dsimp only
          split
          · rw [objectTargetInStream]
            refine orReturn_registers rfl fun q hq => ?_
            split <;> exact hq
          · split
            · rfl
            · split
              · rfl
              · split <;> rfl
        · rfl

theorem arrayTarget_registers : OrReturn.Registers p.registers (arrayTarget env p) := by
  rw [arrayTarget]
  split
  · rfl
  · dsimp only
    split
    · rfl
    · split
      · rw [arrayTargetInObject]
        split
        · refine orReturn_registers (markFieldSeen_registers _) fun q hq => ?_
          split
          · rw [← hq]
            exact beginJsonContainer_registers _ _ _
          · split
            · dsimp only
              split
              · rw [activateStream]
                refine orReturn_registers hq fun q hq => ?_
                split
                · split <;> exact hq
                · exact hq
              · exact hq
            · exact hq
        · rfl
      · split <;> rfl

@[simp]
theorem beginObjectValue_registers : (beginObjectValue env p).1.registers = p.registers := by
  have htarget := @objectTarget_registers _ env p
  rw [beginObjectValue]
  dsimp only
  split
  · rename_i hr
    rw [hr] at htarget
    exact htarget
  · rename_i hr
    rw [hr] at htarget
    split
    · split
      · rw [← htarget]
        exact pushFrame_registers _
      · rw [← htarget]
        exact pushFrame_registers _
    · rw [openStreamedContainer_registers, pushFrame_registers]
      exact htarget

@[simp]
theorem beginArrayValue_registers : (beginArrayValue env p).1.registers = p.registers := by
  have htarget := @arrayTarget_registers _ env p
  rw [beginArrayValue]
  dsimp only
  split
  · rename_i hr
    rw [hr] at htarget
    exact htarget
  · rename_i hr
    rw [hr] at htarget
    split
    · split
      · rw [← htarget]
        exact pushFrame_registers _
      · rw [← htarget]
        exact pushFrame_registers _
    · rw [openStreamedContainer_registers, pushFrame_registers]
      exact htarget

theorem closeStreamedContainer_registers (kind : ContainerKind) :
    (closeStreamedContainer env p kind).1.registers = p.registers := by
  rw [closeStreamedContainer]
  split <;> rfl

theorem leaveStreamedContainer_registers :
    (leaveStreamedContainer env p).registers = p.registers := by
  rw [leaveStreamedContainer]
  split
  · dsimp only
    split <;> rfl
  · rfl

theorem mappedArrayStreamFinishItem_registers :
    (mappedArrayStreamFinishItem env p).1.registers = p.registers := by
  rw [mappedArrayStreamFinishItem]
  split
  · rfl
  · split
    · split
      · rfl
      · split
        · rfl
        · split
          · rfl
          · dsimp only
            split
            · split <;> rfl
            · rfl
    · rfl

@[simp]
theorem finalizeObject_registers : (finalizeObject env p).1.registers = p.registers := by
  rw [finalizeObject]
  split
  · rfl
  · split
    · rw [completeParentAfterValue_registers, popFrame_registers]
    · split
      · rfl
      · refine andThenSoft_registers (closeStreamedContainer_registers _) fun q hq => ?_
        rw [← hq]
        refine andThenOk_registers mappedArrayStreamFinishItem_registers fun q' hq' => ?_
        rw [completeParentAfterValue_registers, leaveStreamedContainer_registers,
          popFrame_registers, hq']

@[simp]
theorem finalizeArray_registers : (finalizeArray env p).1.registers = p.registers := by
  rw [finalizeArray]
  split
  · rfl
  · refine andThenSoft_registers (closeStreamedContainer_registers _) fun q hq => ?_
    dsimp only
    rw [completeParentAfterValue_registers, leaveStreamedContainer_registers, popFrame_registers,
      ← hq]
    split <;> rfl

/-! ## Starting a token -/

theorem beginStringLex_registers (isKey : Bool) :
    (beginStringLex env p isKey).1.registers = (p.startString isKey).registers := by
  rw [beginStringLex]
  dsimp only
  split
  · split
    · rfl
    · exact prepareToken_registers
  · split <;> rfl

theorem beginFixedString_registers (field : Field) (ptr : SlotPtr) :
    (beginFixedString env p field ptr).1.registers = p.registers := by
  rw [beginFixedString]
  refine ite_registers (ite_registers rfl (ite_registers rfl (ite_registers ?_ rfl))) rfl
  split <;> rfl

theorem beginDynamicString_registers (field : Field) (ptr : SlotPtr) :
    (beginDynamicString env p field ptr).1.registers = p.registers := by
  rw [beginDynamicString]
  dsimp only
  split
  · rfl
  · split
    · split <;> rfl
    · rfl

theorem beginDirectString_registers {ref : FieldRef} {k : Parser σ → Parser σ × Status}
    (hk : ∀ q : Parser σ, q.registers = p.registers → (k q).1.registers = p.registers) :
    (beginDirectString env p ref k).1.registers = p.registers := by
  rw [beginDirectString]
  split
  · split
    · rfl
    · exact andThenOk_registers (markFieldSeen_registers ref) hk
  · rfl

/-- The registers of a string value, unless the stream of a JSON value cannot begin. -/
theorem beginStringValueLex_registers (ref : Option FieldRef) (ptr : SlotPtr) :
    (beginStringValueLex env p ref ptr).1.registers = (p.startString false).registers ∨
      (beginStringValueLex env p ref ptr).1.registers = p.registers ∧
        (beginStringValueLex env p ref ptr).2 ≠ .ok := by
  rw [beginStringValueLex]
  dsimp only
  generalize hr : (if (ref.bind env.maps.field?).any (·.kind == .jsonValue) then
    p.onCore (beginJsonStream env p.core ptr 0) else (p, Status.ok)) = r
  have hregisters : r.1.registers = p.registers := by
    rw [← hr]
    split <;> rfl
  rw [andThenOk]
  split
  swap
  · rename_i hne
    exact .inr ⟨hregisters, hne⟩
  left
  have hstart : (r.1.startString false).registers = (p.startString false).registers := by
    rw [show (r.1.startString false).registers =
      { r.1.registers with lexMode := .string, lexIsKey := false, lexEscape := false,
                           unicodePendingHigh := 0, unicodeDigitsNeeded := 0 } from rfl,
      hregisters]
    rfl
  rw [← hstart]
  generalize r.1.startString false = q
  split
  · split
    · rfl
    · split <;> rfl
  · split
    · rfl
    · split
      · split
        · exact andThenOk_registers rfl fun q hq => hq
        · split
          · exact beginDirectString_registers fun q hq => hq ▸ beginFixedString_registers _ _
          · split
            · exact beginDirectString_registers fun q hq => hq ▸ beginDynamicString_registers _ _
            · exact prepareToken_registers
      · exact prepareToken_registers

/-- A number or a literal that starts sets the mode of the lexer. -/
def Registers.scalar (w : Registers) (mode : LexMode) : Registers :=
  { w with lexMode := mode, lexIsKey := false }

theorem beginNumberLex_registers (ch : Byte) :
    (beginNumberLex env p ch).1.registers = p.registers.scalar .number := by
  rw [beginNumberLex]
  refine andThenOk_registers prepareToken_registers fun q hq => ?_
  rw [← hq]
  exact orFull_registers _ fun q' => scratchAppend_registers

theorem beginLiteralLex_registers (mode : LexMode) (ch : Byte) :
    (beginLiteralLex env p mode ch).1.registers = p.registers.scalar mode := by
  rw [beginLiteralLex]
  refine andThenOk_registers prepareToken_registers fun q hq => ?_
  rw [← hq]
  exact orFull_registers _ fun q' => scratchAppend_registers

end

end Lonejson
