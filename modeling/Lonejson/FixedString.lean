import Lonejson.Feeding

/-!
# Fixed strings

A string member with a buffer of a fixed size. Its text is collected in a stage, and the
member is written when the string is complete; only a member that holds no text is written in
place.
-/

namespace Lonejson

open Json (Text)

variable {σ : Type} {env : Env σ}

/-- The room for text in a fixed string, without its NUL. -/
def Field.room (field : Field) : ℕ := field.fixedCapacity - 1

/-- The texts that a fixed string does not take. -/
def refusesText (field : Field) (text : Bytes) : Prop :=
  0 ∈ text ∨ field.overflowPolicy = .fail ∧ field.room < text.length

/-- A buffer whose C string is not empty. -/
def holdsText (buffer : Bytes) : Prop := buffer.headD 0 ≠ 0

instance (buffer : Bytes) : Decidable (holdsText buffer) :=
  inferInstanceAs (Decidable (buffer.headD 0 ≠ 0))

theorem refusesText.append {field : Field} {text : Bytes} (h : refusesText field text)
    (data : Bytes) : refusesText field (text ++ data) := by
  rcases h with hnul | ⟨hpolicy, hlong⟩
  · exact .inl (List.mem_append_left _ hnul)
  · exact .inr ⟨hpolicy, by rw [List.length_append]; omega⟩

theorem utf8Encode_ne_zero {cp : ℕ} {data : Bytes} (hcp : cp ≠ 0) (h : utf8Encode cp = some data) :
    0 ∉ data := by
  have hor (m n : ℕ) (hm : 0 < m) (hlow : m < 256) : 0 < (m ||| n) % 256 := by
    have hmod : (m ||| n) % 256 = m ||| n % 256 := by
      have h256 : (256 : ℕ) = 2 ^ 8 := rfl
      rw [h256, Nat.or_mod_two_pow, Nat.mod_eq_of_lt (by omega)]
    rw [hmod]
    exact lt_of_lt_of_le hm Nat.left_le_or
  have hbyte (m n : ℕ) (hm : 0 < m) (hlow : m < 256) : (0 : Byte) ≠ (m ||| n).toUInt8 := by
    intro hzero
    have := congrArg UInt8.toNat hzero
    simp only [UInt8.toNat_zero, Nat.toUInt8_eq, UInt8.toNat_ofNat'] at this
    exact absurd this.symm (hor m n hm hlow).ne'
  unfold utf8Encode at h
  repeat' split at h
  all_goals try cases h
  · rename_i hle
    intro hmem
    have hzero : (0 : Byte) = cp.toUInt8 := by simpa using hmem
    have := congrArg UInt8.toNat hzero
    simp only [UInt8.toNat_zero, Nat.toUInt8_eq, UInt8.toNat_ofNat'] at this
    omega
  all_goals
    simp only [List.mem_cons, List.not_mem_nil, or_false, not_or]
    repeat' apply And.intro
    all_goals exact hbyte _ _ (by decide) (by decide)

/-! ## The stage -/

section

variable {c : Core σ} {ptr : SlotPtr} {data : Bytes}

theorem directWrite_direct :
    (directWrite c data).direct = { c.direct with bytes := c.direct.bytes ++ data } := by
  unfold directWrite
  dsimp only
  split <;> rfl

theorem directWrite_failed : (directWrite c data).failed = c.failed := by
  unfold directWrite
  dsimp only
  split <;> rfl

theorem directWrite_json : (directWrite c data).json = c.json := by
  unfold directWrite
  dsimp only
  split <;> rfl

/-- Only a stage in place changes the member. -/
theorem directWrite_buffer {buffer : Bytes} (hptr : c.direct.ptr = ptr)
    (hbuffer : c.value? ptr = some (.fixedString buffer))
    (hroom : c.direct.bytes.length + data.length ≤ buffer.length) :
    ∃ b, (directWrite c data).value? ptr = some (.fixedString b) ∧ b.length = buffer.length ∧
      (c.direct.stage ≠ .inPlace → b = buffer) := by
  unfold directWrite
  dsimp only
  split
  · rename_i hstage
    refine ⟨buffer.take c.direct.bytes.length ++ data ++
      buffer.drop (c.direct.bytes.length + data.length), ?_, ?_, fun h => absurd hstage h⟩
    · rw [hptr, Core.value?, Record.value?_modifyValue]
      exact congrArg (Option.map _) hbuffer
    · simp only [List.length_append, List.length_take, List.length_drop]
      omega
  · exact ⟨buffer, hbuffer, rfl, fun _ => rfl⟩

theorem directAppendFixed_eq (c : Core σ) (data : Bytes) :
    directAppendFixed c data =
      let piece := data.take (c.direct.capacity - 1 - c.direct.bytes.length)
      let c' := directWrite c piece
      if c.direct.active = false ∨ c.direct.stage = .none ∨ c.direct.capacity = 0 then
        c.setError .internalError "direct string field is not active"
      else if piece = data then (c', .ok)
      else if c.direct.overflowPolicy = .fail then
        c'.setError .overflow "string field '%s' exceeds fixed capacity" c.direct.key
      else
        ({ c' with direct := { c'.direct with truncated := true },
                   error := { c'.error with truncated := true } }, .ok) := by
  set room := c.direct.capacity - 1 - c.direct.bytes.length with hroom
  have hcopy : (if data.length <
        (if c.direct.bytes.length < c.direct.capacity - 1 then
          c.direct.capacity - 1 - c.direct.bytes.length else 0) then data.length
      else (if c.direct.bytes.length < c.direct.capacity - 1 then
          c.direct.capacity - 1 - c.direct.bytes.length else 0)) = min data.length room := by
    split_ifs <;> omega
  have htake : data.take (min data.length room) = data.take room := by
    rw [min_comm, ← List.take_take, List.take_length]
  have hall : min data.length room = data.length ↔ data.take room = data := by
    rw [List.take_eq_self_iff, min_eq_left_iff]
  unfold directAppendFixed
  simp only [hcopy, htake, hall]

theorem directAppendFixed_failed : (directAppendFixed c data).1.failed = c.failed := by
  rw [directAppendFixed_eq]
  dsimp only
  split_ifs
  · rfl
  all_goals exact directWrite_failed

theorem directAppendFixed_json : (directAppendFixed c data).1.json = c.json := by
  rw [directAppendFixed_eq]
  dsimp only
  split_ifs
  · rfl
  all_goals exact directWrite_json

end

/-- The text of a fixed string so far is in its stage; `old` is what the member held. -/
structure Staged (field : Field) (ptr : SlotPtr) (old text : Bytes) (c : Core σ) : Prop where
  direct : ∃ stage commits, c.direct =
      { active := true, stage, ptr, commits, bytes := text.take field.room,
        capacity := field.fixedCapacity, truncated := decide (field.room < text.length),
        overflowPolicy := field.overflowPolicy, key := field.jsonKey } ∧
    stage ≠ .none ∧ (stage = .inPlace ∨ commits = true) ∧ (holdsText old → stage ≠ .inPlace)
  accepts : ¬ refusesText field text
  buffer : ∃ b, c.value? ptr = some (.fixedString b) ∧ b.length = field.fixedCapacity ∧
    (holdsText old → b = old)

/-- The member still holds its old text. -/
def Kept (ptr : SlotPtr) (old : Bytes) (c : Core σ) : Prop :=
  holdsText old → c.value? ptr = some (.fixedString old)

section

variable {field : Field} {ptr : SlotPtr} {old text : Bytes} {c : Core σ}

theorem Staged.kept (h : Staged field ptr old text c) : Kept ptr old c := by
  obtain ⟨b, hb, -, hold⟩ := h.buffer
  exact fun hne => hold hne ▸ hb

/-- Bytes that are appended to the stage. -/
theorem directAppendFixed_staged (hcap : field.fixedCapacity ≠ 0)
    (h : Staged field ptr old text c) {data : Bytes} (hdata : 0 ∉ data) :
    ((directAppendFixed c data).2 = .ok ∧
        Staged field ptr old (text ++ data) (directAppendFixed c data).1) ∨
      ((directAppendFixed c data).2 = .overflow ∧ Kept ptr old (directAppendFixed c data).1 ∧
        refusesText field (text ++ data)) := by
  obtain ⟨stage, commits, hdirect, hstage, hcommits, hplace⟩ := h.direct
  obtain ⟨b, hb, hlength, hold⟩ := h.buffer
  set piece := data.take (field.room - text.length) with hpiece
  have hroom : field.room + 1 = field.fixedCapacity := by
    rw [Field.room]
    omega
  have hsum : text.take field.room ++ piece = (text ++ data).take field.room := by
    rw [List.take_append, hpiece]
  have hfits : (text.take field.room).length + piece.length ≤ b.length := by
    rw [← List.length_append, hsum, List.length_take, hlength]
    omega
  obtain ⟨b', hb', hlength', hsame⟩ := @directWrite_buffer _ c _ piece _ (by rw [hdirect]) hb
    (by rw [hdirect]; exact hfits)
  have hbuffer : ∃ b, (directWrite c piece).value? ptr = some (.fixedString b) ∧
      b.length = field.fixedCapacity ∧ (holdsText old → b = old) := by
    refine ⟨b', hb', hlength'.trans hlength, fun hne => ?_⟩
    rw [hsame (by rw [hdirect]; exact hplace hne), hold hne]
  have hwritten : (directWrite c piece).direct =
      { active := true, stage, ptr, commits, bytes := (text ++ data).take field.room,
        capacity := field.fixedCapacity, truncated := decide (field.room < text.length),
        overflowPolicy := field.overflowPolicy, key := field.jsonKey } := by
    rw [directWrite_direct, hdirect, ← hsum]
  have hshort : data.take (c.direct.capacity - 1 - c.direct.bytes.length) = piece := by
    rw [hdirect, hpiece, Field.room]
    dsimp only
    rw [List.length_take]
    congr 1
    omega
  have happend := directAppendFixed_eq c data
  rw [hshort] at happend
  have hnul : 0 ∉ text ++ data := by
    rw [List.mem_append]
    exact not_or.mpr ⟨fun hmem => h.accepts (.inl hmem), hdata⟩
  have htext : field.overflowPolicy = .fail → text.length ≤ field.room := fun hfail =>
    Nat.le_of_not_lt fun hlong => h.accepts (.inr ⟨hfail, hlong⟩)
  have hwhole : piece = data ↔ data.length ≤ field.room - text.length := List.take_eq_self_iff data
  have hcond : ¬ (c.direct.active = false ∨ c.direct.stage = .none ∨ c.direct.capacity = 0) := by
    rw [hdirect]
    simp [hstage, hcap]
  dsimp only at happend
  rw [if_neg hcond] at happend
  rw [happend]
  by_cases hall : piece = data
  · have hle := hwhole.mp hall
    rw [if_pos hall]
    refine .inl ⟨rfl, ⟨stage, commits, ?_, hstage, hcommits, hplace⟩, ?_, hbuffer⟩
    · have hlong : field.room < text.length ↔ field.room < (text ++ data).length := by
        rw [List.length_append]
        omega
      rw [hwritten, decide_eq_decide.mpr hlong]
    · rintro (hmem | ⟨hfail, hlong⟩)
      · exact hnul hmem
      · have := htext hfail
        rw [List.length_append] at hlong
        omega
  · have hlong : field.room < (text ++ data).length := by
      rw [List.length_append]
      have := mt hwhole.mpr hall
      omega
    rw [if_neg hall]
    have hpolicy : c.direct.overflowPolicy = field.overflowPolicy := by rw [hdirect]
    rw [hpolicy]
    by_cases hfail : field.overflowPolicy = .fail
    · rw [if_pos hfail]
      refine .inr ⟨rfl, fun hne => ?_, .inr ⟨hfail, hlong⟩⟩
      obtain ⟨b, hb, -, hold⟩ := hbuffer
      exact hold hne ▸ hb
    · rw [if_neg hfail]
      refine .inl ⟨rfl, ⟨stage, commits, ?_, hstage, hcommits, hplace⟩, ?_, hbuffer⟩
      · dsimp only
        rw [hwritten, decide_eq_true hlong]
      · exact not_or.mpr ⟨hnul, fun h => hfail h.1⟩

theorem Staged.static (h : Staged field ptr old text c) : c.direct.dynamic = false := by
  obtain ⟨stage, commits, hdirect, -⟩ := h.direct
  rw [hdirect]

theorem Staged.ready (hcap : field.fixedCapacity ≠ 0) (h : Staged field ptr old text c) :
    ¬ (c.direct.active = false ∨ c.direct.stage = .none ∨ c.direct.capacity = 0) := by
  obtain ⟨stage, commits, hdirect, hstage, -⟩ := h.direct
  rw [hdirect]
  simp [hstage, hcap]

/-- A code point that is appended to the stage. -/
theorem directStringAppendCodepoint_staged (hcap : field.fixedCapacity ≠ 0)
    (h : Staged field ptr old text c) {cp : ℕ} {data : Bytes} (hdata : utf8Encode cp = some data) :
    ((directStringAppendCodepoint c cp).2 = .ok ∧
        Staged field ptr old (text ++ data) (directStringAppendCodepoint c cp).1) ∨
      ((directStringAppendCodepoint c cp).2.soft = false ∧
        Kept ptr old (directStringAppendCodepoint c cp).1 ∧ refusesText field (text ++ data)) := by
  rw [directStringAppendCodepoint, if_neg (h.ready hcap)]
  by_cases hcp : cp = 0
  · rw [if_pos hcp]
    subst hcp
    obtain rfl : [0] = data := Option.some.inj hdata
    exact .inr ⟨rfl, h.kept, .inl (by simp)⟩
  · rw [if_neg hcp, hdata]
    rcases directAppendFixed_staged hcap h (utf8Encode_ne_zero hcp hdata) with hok |
      ⟨hfull, hkept, hrefuses⟩
    · exact .inl hok
    · exact .inr ⟨by rw [hfull]; rfl, hkept, hrefuses⟩

theorem directStringAppendCodepoint_invalid (hcap : field.fixedCapacity ≠ 0)
    (h : Staged field ptr old text c) {cp : ℕ} (hinvalid : utf8Encode cp = none) :
    (directStringAppendCodepoint c cp).2.soft = false ∧
      Kept ptr old (directStringAppendCodepoint c cp).1 := by
  have hcp : cp ≠ 0 := by
    rintro rfl
    cases hinvalid
  rw [directStringAppendCodepoint, if_neg (h.ready hcap), if_neg hcp, hinvalid]
  exact ⟨rfl, h.kept⟩

theorem directStringAppendCodepoint_failed (cp : ℕ) :
    (directStringAppendCodepoint c cp).1.failed = c.failed := by
  rw [directStringAppendCodepoint]
  split
  · rfl
  split
  · rfl
  split
  · rfl
  · exact directAppendFixed_failed

theorem directStringAppendCodepoint_json (cp : ℕ) :
    (directStringAppendCodepoint c cp).1.json = c.json := by
  rw [directStringAppendCodepoint]
  split
  · rfl
  split
  · rfl
  split
  · rfl
  · exact directAppendFixed_json

/-- The member holds the text, up to its room, and a NUL. -/
def HoldsFixed (field : Field) (ptr : SlotPtr) (text : Bytes) (c : Core σ) : Prop :=
  ∃ b, c.value? ptr = some (.fixedString b) ∧ b.length = field.fixedCapacity ∧
    text.take field.room ++ [0] <+: b

/-- The text is stored over the buffer that the member had. -/
def Stored (field : Field) (ptr : SlotPtr) (old text : Bytes) (c : Core σ) : Prop :=
  ∃ b, c.value? ptr = some (.fixedString (storeFixed b (text.take field.room))) ∧
    b.length = field.fixedCapacity ∧ (holdsText old → b = old)

theorem Stored.holds (hcap : field.fixedCapacity ≠ 0) (h : Stored field ptr old text c) :
    HoldsFixed field ptr text c := by
  obtain ⟨b, hb, hlength, -⟩ := h
  have hroom : field.room + 1 = field.fixedCapacity := by
    rw [Field.room]
    omega
  refine ⟨_, hb, ?_, b.drop ((text.take field.room).length + 1), by simp [storeFixed]⟩
  rw [storeFixed, List.length_append, List.length_cons, List.length_drop, List.length_take]
  omega

/-- A fixed string that takes a text. -/
def storeInto (text : Bytes) : Value → Value
  | .fixedString b => .fixedString (storeFixed b text)
  | v => v

/-- The member is written once, from whichever stage. -/
theorem directStringFinish_staged (hcap : field.fixedCapacity ≠ 0)
    (h : Staged field ptr old text c) :
    (directStringFinish env c).2.soft = true ∧
      Stored field ptr old text (directStringFinish env c).1 := by
  obtain ⟨stage, commits, hdirect, hstage, hcommits, -⟩ := h.direct
  obtain ⟨b, hb, hlength, hold⟩ := h.buffer
  have hcommit :
      ({ c with dst := c.dst.modifyValue ptr (storeInto (text.take field.room)) } : Core σ).value?
          ptr = some (.fixedString (storeFixed b (text.take field.room))) := by
    rw [Core.value?, Record.value?_modifyValue]
    exact congrArg (Option.map (storeInto (text.take field.room))) hb
  rw [directStringFinish, if_neg (h.ready hcap), hdirect]
  refine ⟨?_, b, ?_, hlength, hold⟩
  · dsimp only
    split <;> rfl
  · cases stage with
    | none => exact absurd rfl hstage
    | inPlace => exact hcommit
    | heap header =>
        obtain rfl : commits = true := hcommits.resolve_left DirectStage.noConfusion
        exact hcommit
    | scratch | tokenBase offset =>
        obtain rfl : commits = true := hcommits.resolve_left DirectStage.noConfusion
        exact hcommit

theorem directStringFinish_failed (c : Core σ) :
    (directStringFinish env c).1.failed = c.failed := by
  unfold directStringFinish
  dsimp only
  split
  · rfl
  · split
    · split
      · split <;> rfl
      · split <;> rfl
    · rfl
    · split <;> rfl

theorem directStringFinish_json (c : Core σ) : (directStringFinish env c).1.json = c.json := by
  unfold directStringFinish
  dsimp only
  split
  · rfl
  · split
    · split
      · split <;> rfl
      · split <;> rfl
    · rfl
    · split <;> rfl

end

/-! ## The parser inside a fixed string -/

/-- The parser reads a fixed string, whose text so far is in its stage. -/
structure FixedAt (field : Field) (ptr : SlotPtr) (old text : Bytes) (p : Parser σ) : Prop where
  staged : Staged field ptr old text p.core
  capture : p.captureMode = .direct
  value : p.lexIsKey = false
  alone : p.core.json.active = false
  alive : p.core.failed = false
  object : ∃ top fs, p.frames = top :: fs ∧ top.kind = .object

section

variable {field : Field} {ptr : SlotPtr} {old text : Bytes} {p : Parser σ}

theorem FixedAt.onCore (h : FixedAt field ptr old text p) {text' : Bytes} {r : Core σ × Status}
    (hstaged : Staged field ptr old text' r.1) (hfailed : r.1.failed = p.core.failed)
    (hjson : r.1.json = p.core.json) : FixedAt field ptr old text' (p.onCore r).1 where
  staged := hstaged
  capture := h.capture
  value := h.value
  alone := (congrArg JsonStream.active hjson).trans h.alone
  alive := hfailed.trans h.alive
  object := h.object

/-- An append to the stage, as the scanners see it. -/
theorem FixedAt.filled (h : FixedAt field ptr old text p) {text' : Bytes} {r : Core σ × Status}
    (hr : (r.2 = .ok ∧ Staged field ptr old text' r.1) ∨
      (r.2.soft = false ∧ Kept ptr old r.1 ∧ refusesText field text'))
    (hfailed : r.1.failed = p.core.failed) (hjson : r.1.json = p.core.json) :
    Filled (FixedAt field ptr old) (fun p => Kept ptr old p.core) (refusesText field) p text'
      (p.onCore r) := by
  rcases hr with ⟨hok, hstaged⟩ | hrefused
  · exact .inl ⟨hok, h.onCore hstaged hfailed hjson, rfl⟩
  · exact .inr hrefused

theorem FixedAt.bytes (hcap : field.fixedCapacity ≠ 0) (h : FixedAt field ptr old text p)
    {data : Bytes} (hdata : 0 ∉ data) :
    Filled (FixedAt field ptr old) (fun p => Kept ptr old p.core) (refusesText field) p
      (text ++ data) (p.onCore (directStringAppendBytes env p.core data)) := by
  have hfixed : directStringAppendBytes env p.core data = directAppendFixed p.core data := by
    rw [directStringAppendBytes, h.staged.static, if_neg Bool.false_ne_true]
  rw [hfixed]
  refine h.filled ?_ directAppendFixed_failed directAppendFixed_json
  rcases directAppendFixed_staged hcap h.staged hdata with hok | ⟨hfull, hkept, hrefuses⟩
  · exact .inl hok
  · exact .inr ⟨by rw [hfull]; rfl, hkept, hrefuses⟩

theorem FixedAt.codepoint (hcap : field.fixedCapacity ≠ 0) (h : FixedAt field ptr old text p)
    {cp : ℕ} {data : Bytes} (hdata : utf8Encode cp = some data) :
    Filled (FixedAt field ptr old) (fun p => Kept ptr old p.core) (refusesText field) p
      (text ++ data) (p.onCore (directStringAppendCodepoint p.core cp)) :=
  h.filled (directStringAppendCodepoint_staged hcap h.staged hdata)
    (directStringAppendCodepoint_failed cp) (directStringAppendCodepoint_json cp)

theorem appendUnicodeCodepoint_fixed (h : FixedAt field ptr old text p) (cp : ℕ) :
    appendUnicodeCodepoint env p cp = p.onCore (directStringAppendCodepoint p.core cp) := by
  simp [appendUnicodeCodepoint, h.capture, h.staged.static]

/-! ## The end of the string -/

/-- An object that has its value is left alone by the delivery of the string. -/
theorem deliverToken_taken {top : Frame} {fs : List Frame} (hkey : p.lexIsKey = false)
    (hframes : p.frames = top :: fs) (hkind : top.kind = .object) (hpending : top.pendingField = none)
    (halone : p.core.json.active = false) :
    (deliverToken env p .string).1.core = p.core ∧ (deliverToken env p .string).2 = .ok := by
  have hstore : ∃ top', p.scratchCstr.frames = top' :: (p.scratchCstr.frames).tail ∧
      top'.kind = .object ∧ top'.pendingField = none := by
    rw [Parser.scratchCstr]
    cases p.token.data with
    | none => exact ⟨top, by rw [hframes]; rfl, hkind, hpending⟩
    | some base =>
        refine ⟨top.store (base + p.token.bytes.length) 0, by rw [hframes]; rfl, ?_⟩
        rw [Frame.store]
        split
        · exact ⟨hkind, hpending⟩
        · split <;> exact ⟨hkind, hpending⟩
  have hcore : p.scratchCstr.core = p.core := by
    rw [Parser.scratchCstr]
    split <;> rfl
  have hkey' : p.scratchCstr.lexIsKey = false := by
    rw [Parser.scratchCstr]
    split <;> exact hkey
  obtain ⟨top', htop, hkind', hpending'⟩ := hstore
  rw [deliverToken]
  dsimp only
  rw [hkey', if_neg Bool.false_ne_true, htop]
  dsimp only
  rw [if_neg (by simp), hkind', hcore, halone, hpending']
  rw [if_neg (by simp), handleScalarForField, completeParentAfterValue_object htop hkind']
  dsimp only
  have htaken : ({ top' with state := .objectCommaOrEnd, pendingField := none } : Frame).kind =
      .object := hkind'
  rw [Status.soft_ok, if_pos rfl, completeParentAfterValue_object rfl htaken]
  exact ⟨hcore, rfl⟩

/-- The complete string is in the member. -/
theorem directSink_finish (hcap : field.fixedCapacity ≠ 0) (h : FixedAt field ptr old text p) :
    ((directSink env).finish { p with lexMode := .none }).2.soft = true ∧
      ((directSink env).finish { p with lexMode := .none }).1.core.failed = false ∧
      Stored field ptr old text ((directSink env).finish { p with lexMode := .none }).1.core := by
  obtain ⟨top, fs, hframes, hkind⟩ := h.object
  obtain ⟨hsoft, hholds⟩ := @directStringFinish_staged _ env _ _ _ _ _ hcap h.staged
  have hfailed := (@directStringFinish_failed _ env p.core).trans h.alive
  have hjson := (congrArg JsonStream.active (@directStringFinish_json _ env p.core)).trans
    h.alone
  set r := directStringFinish env p.core with hr
  set q : Parser σ := { p with
    core := r.1, lexMode := .none, captureMode := .token,
    frames := { top with state := .objectCommaOrEnd, pendingField := none } :: fs } with hq
  have hfinish : finishDirectString env { p with lexMode := .none } = (q, r.2) := by
    simp only [finishDirectString, Parser.onCore, ← hr, hsoft, if_true]
    exact congrArg (fun t => (t.1, r.2)) (completeParentAfterValue_object
      (p := { p with core := r.1, lexMode := .none, captureMode := .token }) hframes hkind)
  rw [directSink]
  dsimp only
  rw [hfinish, andThenOk]
  split
  · obtain ⟨hcore, hok⟩ := @deliverToken_taken _ env q _ _ h.value rfl hkind rfl hjson
    rw [deliverString, hcore, hok]
    exact ⟨rfl, hfailed, hholds⟩
  · exact ⟨hsoft, hfailed, hholds⟩

theorem directSink_feeds (hcap : field.fixedCapacity ≠ 0) :
    FeedsString env (FixedAt field ptr old) (fun p => Kept ptr old p.core) (refusesText field)
      (directSink env) where
  moved _ _ _ _ _ h := ⟨h.staged, h.capture, h.value, h.alone, h.alive, h.object⟩
  keeps h := h.staged.kept
  error _ _ _ h := h
  run h _ hplain := h.bytes hcap fun hzero => absurd (hplain 0 hzero) (by decide)
  byte h hch := h.bytes hcap (by simpa using hch.symm)
  codepoint h hdata := h.codepoint hcap hdata
  invalid h hinvalid := directStringAppendCodepoint_invalid hcap h.staged hinvalid
  charByte h hch := by
    rw [appendStringByte, h.capture]
    dsimp only
    rw [if_neg hch]
    exact h.bytes hcap (by simpa using hch.symm)
  charCodepoint h hdata := by
    rw [appendUnicodeCodepoint_fixed h]
    exact h.codepoint hcap hdata
  charInvalid h hinvalid := by
    rw [appendUnicodeCodepoint_fixed h]
    exact directStringAppendCodepoint_invalid hcap h.staged hinvalid
  scan bytes h := by rw [consumeStringFast, h.capture]
  alive h := h.alive
  fail h := h
  finish h _ := (directSink_finish hcap h).2.1

end

/-! ## The start of the string -/

/-- The innermost object waits for the value of a fixed string, which holds `old`. -/
structure AwaitsFixed (env : Env σ) (field : Field) (ref : FieldRef) (ptr : SlotPtr) (old : Bytes)
    (p : Parser σ) : Prop where
  alive : p.core.failed = false
  between : p.lexMode = .none
  alone : p.core.json.active = false
  frame : ∃ top fs, p.frames = top :: fs ∧ top.kind = .object ∧ top.state = .objectValue ∧
    top.pendingField = some ref ∧ top.slot ref = ptr
  named : env.maps.field? ref = some field
  kind : field.kind = .string
  storage : field.storage = .fixed
  capacity : field.fixedCapacity ≠ 0
  buffer : p.core.value? ptr = some (.fixedString old)
  size : old.length = field.fixedCapacity

/-- There is a stage for a member that must keep its text until the new one is complete. -/
def StageRoom (env : Env σ) (p : Parser σ) (field : Field) (old : Bytes) : Prop :=
  holdsText old → env.options.fixedStringScratchSize.any (· ≥ field.fixedCapacity) = true ∨
    field.fixedCapacity ≤ tokenLimit env p ∨
    allocCanGrow env p.core.allocLive 0 field.fixedCapacity = true

/-- The parser behind the opening quote of a value. -/
def Parser.behindQuote (p : Parser σ) : Parser σ := (p.advance 1).startString false

/-- The string is begun: its key is no duplicate that is rejected, and there is room for the
marks of the object and for a stage. -/
def CanBegin (env : Env σ) (field : Field) (ref : FieldRef) (old : Bytes) (p : Parser σ) : Prop :=
  (markFieldSeen env p.behindQuote ref).2 = .ok ∧
    StageRoom env (markFieldSeen env p.behindQuote ref).1 field old

section

variable {field : Field} {ref : FieldRef} {ptr : SlotPtr} {old : Bytes} {p : Parser σ}

theorem beginFixedString_cases (hclear : env.options.clearDestination = false)
    (hcap : field.fixedCapacity ≠ 0) (hbuffer : p.core.value? ptr = some (.fixedString old))
    (hsize : old.length = field.fixedCapacity) :
    (StageRoom env p field old ∧ (beginFixedString env p field ptr).2 = .ok ∧
        ∃ core, (beginFixedString env p field ptr).1 = { p with captureMode := .direct, core } ∧
          Staged field ptr old [] core ∧ core.failed = p.core.failed ∧
          core.json = p.core.json) ∨
      (¬ StageRoom env p field old ∧ (beginFixedString env p field ptr).2.soft = false ∧
        (beginFixedString env p field ptr).1.core.dst = p.core.dst) := by
  have hstaged (core : Core σ) (hdst : core.dst = p.core.dst) (stage : DirectStage)
      (commits : Bool) (hstage : stage ≠ .none) (hcommits : stage = .inPlace ∨ commits = true)
      (hplace : holdsText old → stage ≠ .inPlace) :
      Staged field ptr old [] { core with direct :=
        { active := true, stage, ptr, commits, capacity := field.fixedCapacity,
          overflowPolicy := field.overflowPolicy, key := field.jsonKey } } :=
    ⟨⟨stage, commits, by simp, hstage, hcommits, hplace⟩, by simp [refusesText], old,
      (congrArg (fun dst => dst.value? ptr) hdst).trans hbuffer, hsize, fun _ => rfl⟩
  obtain ⟨ch, rest, rfl⟩ : ∃ ch rest, old = ch :: rest :=
    List.exists_cons_of_length_pos (by omega)
  have hfull : holdsText (ch :: rest) ↔ ch ≠ 0 := Iff.rfl
  rw [beginFixedString, hbuffer]
  dsimp only
  by_cases hold : holdsText (ch :: rest)
  · have hstage : (!env.options.clearDestination && ch != 0) = true := by
      simp [hclear, hfull.mp hold]
    rw [if_pos hstage]
    by_cases hscratch : env.options.fixedStringScratchSize.any (· ≥ field.fixedCapacity) = true
    · rw [if_pos hscratch]
      exact .inl ⟨fun _ => .inl hscratch, rfl, _, rfl, hstaged p.core rfl .scratch true
        DirectStage.noConfusion (.inr rfl) (fun _ => DirectStage.noConfusion), rfl, rfl⟩
    rw [if_neg hscratch]
    by_cases htoken : field.fixedCapacity ≤ tokenLimit env p
    · rw [if_pos htoken]
      exact .inl ⟨fun _ => .inr (.inl htoken), rfl, _, rfl, hstaged p.core rfl _ true
        DirectStage.noConfusion (.inr rfl) (fun _ => DirectStage.noConfusion), rfl, rfl⟩
    rw [if_neg htoken]
    by_cases hgrow : allocCanGrow env p.core.allocLive 0 field.fixedCapacity = true
    · rw [if_pos hgrow, ownedMallocParse, if_pos hgrow]
      generalize allocNoteResize env p.core.allocLive { size := field.fixedCapacity }
        field.fixedCapacity = charged
      exact .inl ⟨fun _ => .inr (.inr hgrow), rfl, _, rfl, hstaged
        { p.core with allocLive := charged.1 } rfl (.heap charged.2) true DirectStage.noConfusion
        (.inr rfl) (fun _ => DirectStage.noConfusion), rfl, rfl⟩
    · rw [if_neg hgrow]
      refine .inr ⟨fun h => ?_, rfl, rfl⟩
      rcases h hold with h | h | h
      · exact hscratch h
      · exact htoken h
      · exact hgrow h
  · have hplace : ¬ (!env.options.clearDestination && ch != 0) = true := by
      simp [not_not.mp (mt hfull.mpr hold)]
    rw [if_neg hplace]
    exact .inl ⟨fun h => absurd h hold, rfl, _, rfl, hstaged p.core rfl .inPlace false
      DirectStage.noConfusion (.inl rfl) (fun h => absurd h hold), rfl, rfl⟩

/-- What the opening quote does. -/
theorem AwaitsFixed.quote (h : AwaitsFixed env field ref ptr old p)
    (hvalidate : env.validateOnly = false) (rest : Bytes) :
    feedTurn env p 0x22 rest = turnSoft (andThenOk (markFieldSeen env p.behindQuote ref) fun p =>
      beginFixedString env p field ptr) 1 := by
  obtain ⟨top, fs, hframes, hkind, hstate, hpending, hslot⟩ := h.frame
  have hfield : top.pending? env = some field := by
    rw [Frame.pending?, hpending, Option.bind_some, h.named]
  have hstreams : fieldIsArrayStream field = false ∧ fieldIsStreamed field = false := by
    simp [fieldIsArrayStream, fieldIsStreamed, h.kind]
  have hbegin : beginStringValueLex env (p.advance 1) (some ref) ptr =
      andThenOk (markFieldSeen env p.behindQuote ref) fun p => beginFixedString env p field ptr := by
    have hobject : (p.advance 1).frames = top :: fs := hframes
    simp [beginStringValueLex, h.named, h.kind, h.storage, h.capacity, hvalidate, hstreams.2,
      beginDirectString, Parser.startString, hobject, hkind, hpending, Parser.behindQuote]
  rw [← hbegin, feedTurn, if_neg (by simp [h.between]), if_neg (by simp [h.between]), h.between,
    hframes]
  dsimp only
  rw [frameTurn, hkind, hstate]
  dsimp only
  rw [if_pos rfl, hfield, Option.filter_some, hstreams.1, hpending]
  simp [hslot]

/-- The string is begun, or the member is left alone. -/
theorem AwaitsFixed.begins (h : AwaitsFixed env field ref ptr old p)
    (hclear : env.options.clearDestination = false) :
    let r := andThenOk (markFieldSeen env p.behindQuote ref) fun p =>
      beginFixedString env p field ptr
    (CanBegin env field ref old p ∧ r.2 = .ok ∧ StringAt (FixedAt field ptr old) r.1 {}) ∨
      (¬ CanBegin env field ref old p ∧ r.2.soft = false ∧
        r.1.core.value? ptr = some (.fixedString old)) := by
  obtain ⟨top, fs, hframes, hkind, -⟩ := h.frame
  unfold CanBegin
  rcases @markFieldSeen_cases _ env p.behindQuote ref with
    ⟨hok, frames, top', token, hmarked, hobject⟩ | ⟨hhard, hdst⟩
  · rw [andThenOk, if_pos hok]
    generalize (markFieldSeen env p.behindQuote ref).1 = q at hmarked ⊢
    have hbuffer : q.core.value? ptr = some (.fixedString old) := by
      rw [hmarked]
      exact h.buffer
    have hframe : ∃ top fs, q.frames = top :: fs ∧ top.kind = .object := by
      rw [hmarked]
      rcases hobject with rfl | ⟨f, f', fs', hf, rfl, _, _, _, rfl⟩
      · exact ⟨top, fs, hframes, hkind⟩
      · obtain ⟨rfl, -⟩ := List.cons.inj (hf.symm.trans hframes)
        exact ⟨_, fs', rfl, hkind⟩
    rcases beginFixedString_cases hclear h.capacity hbuffer h.size with
      ⟨hroom, hbegun, core, hcore, hstaged, hfailed, hjson⟩ | ⟨hroom, hhard, hdst⟩
    · refine .inl ⟨⟨hok, hroom⟩, hbegun, ?_⟩
      rw [hcore]
      refine ⟨?_, ?_, ?_, hstaged, rfl, ?_, ?_, ?_, hframe⟩
      · rw [hmarked]
        rfl
      · rw [hmarked]
        rfl
      · rw [hmarked]
        exact ⟨rfl, rfl⟩
      · rw [hmarked]
        rfl
      · rw [hmarked] at hjson
        exact (congrArg JsonStream.active hjson).trans h.alone
      · rw [hmarked] at hfailed
        exact hfailed.trans h.alive
    · exact .inr ⟨fun hcan => hroom hcan.2, hhard,
        (congrArg (fun dst => dst.value? ptr) hdst).trans hbuffer⟩
  · have hstop : (markFieldSeen env p.behindQuote ref).2 ≠ .ok := Status.ne_ok_of_hard hhard
    rw [andThenOk, if_neg hstop]
    exact .inr ⟨fun hcan => hstop hcan.1, hhard,
      (congrArg (fun dst => dst.value? ptr) hdst).trans h.buffer⟩

end

/-! ## Whole strings -/

/-- What is behind the first quote that no backslash escapes. -/
def behindString : Bytes → Option Bytes
  | [] => none
  | [b] => if b = 0x22 then some [] else none
  | b :: c :: s =>
    if b = 0x22 then some (c :: s) else if b = 0x5c then behindString s else behindString (c :: s)

/-- The bytes of a string value behind its opening quote: up to the closing quote, or to the end
of the input. -/
def StringBody (s : Bytes) : Prop := ∀ rest, behindString s = some rest → rest = []

/-- The member after a string value that is all that is left of the input. -/
def FixedExact (env : Env σ) (field : Field) (ptr : SlotPtr) (old : Bytes) (p : Parser σ)
    (s : Bytes) : Prop :=
  ∀ chunks : List Bytes, chunks.flatten = 0x22 :: s →
    ((∀ content, StringText content s [] → refusesText field content) →
      Kept ptr old (feedChunks env p chunks).1.core) ∧
    ∀ content, StringText content s [] → ¬ refusesText field content →
      HoldsFixed field ptr content (feedChunks env p chunks).1.core

theorem behindString_skip {b : Byte} (h : b ≠ 0x22 ∧ b ≠ 0x5c) (s : Bytes) :
    behindString (b :: s) = behindString s := by
  cases s <;> simp [behindString, h]

theorem behindString_quote (s : Bytes) : behindString (0x22 :: s) = some s := by
  cases s <;> rfl

/-- The lexer ends a string at the first quote that no backslash escapes. -/
theorem closes_behind {q : DecodeState} {s : Text} {text : Bytes} {rest : Text}
    (h : closes q s = some (text, rest)) :
    behindString (if q.phase = .escape then s.drop 1 else s) = some rest := by
  induction s generalizing q with
  | nil => cases h
  | cons b s ih =>
      rw [closes] at h
      cases hphase : q.phase with
      | body =>
          simp only [decodeLexer, hphase] at h
          rw [if_neg TokenPhase.noConfusion]
          split_ifs at h with hquote hhigh hback hcontrol
          · obtain rfl := hquote
            cases h
            exact behindString_quote rest
          · obtain rfl := hback
            cases s with
            | nil => cases h
            | cons c s => exact ih h
          · rw [behindString_skip ⟨hquote, hback⟩]
            exact ih h
      | escape =>
          simp only [decodeLexer, hphase] at h
          rw [if_pos rfl, List.drop_one, List.tail_cons]
          cases hsimple : simpleEscape b with
          | some ch =>
              simp only [hsimple] at h
              exact ih h
          | none =>
              simp only [hsimple] at h
              split_ifs at h
              exact ih h
      | hex needed accum =>
          simp only [decodeLexer, hphase] at h
          rw [if_neg TokenPhase.noConfusion]
          cases hdigit : hexValue b with
          | none => simp [hdigit] at h
          | some hv =>
              rw [behindString_skip (hexValue_solid hdigit)]
              simp only [hdigit] at h
              split_ifs at h
              · exact ih h
              · cases hunit : q.unit (pushHex accum hv) with
                | none => simp [hunit] at h
                | some q' =>
                    simp only [hunit, Option.map_some] at h
                    have hbody := DecodeState.unit_body hunit
                    have htail := ih h
                    rwa [hbody, if_neg TokenPhase.noConfusion] at htail

section

variable {field : Field} {ref : FieldRef} {ptr : SlotPtr} {old : Bytes} {p : Parser σ}

theorem parserFinish_dst (hbetween : p.lexMode ≠ .number) :
    (parserFinish env p).1.core.dst = p.core.dst := by
  rw [parserFinish]
  split
  · rfl
  · simp only [finishNumber, if_neg hbetween]
    split_ifs <;> rfl

theorem feedChunks_empty (halive : p.core.failed = false) {chunks : List Bytes}
    (hchunks : chunks.flatten = []) : feedChunks env p chunks = parserFinish env p := by
  rw [feedChunks_then]
  exact feedThen_empty _ halive hchunks

/-- A string value that is fed to its end: the member keeps its text, or the string is complete
and stored in the parser that the run goes on with. -/
theorem AwaitsFixed.run (h : AwaitsFixed env field ref ptr old p)
    (hvalidate : env.validateOnly = false) (hclear : env.options.clearDestination = false)
    (hbegin : CanBegin env field ref old p) {chunks : List Bytes} {s : Bytes}
    (hchunks : chunks.flatten = 0x22 :: s) :
    ((feedChunks env p chunks).2.soft = false ∧ Kept ptr old (feedChunks env p chunks).1.core ∧
        ∀ text rest, closes {} s = some (text, rest) → refusesText field text) ∨
      ∃ text rest p' chunks', closes {} s = some (text, rest) ∧ ¬ refusesText field text ∧
        chunks'.flatten = rest ∧ feedChunks env p chunks = feedChunks env p' chunks' ∧
        p'.lexMode = .none ∧ p'.core.failed = false ∧ Stored field ptr old text p'.core := by
  have hquote := fun rest => h.quote hvalidate rest
  have hbegins := h.begins hclear
  generalize hr : (andThenOk (markFieldSeen env p.behindQuote ref) fun p =>
    beginFixedString env p field ptr) = r at hquote hbegins
  obtain ⟨-, hok, hat⟩ := hbegins.resolve_right fun hno => hno.1 hbegin
  have hsoft : r.2.soft = true := by rw [hok]; rfl
  have hfeeds := @directSink_feeds _ env _ ptr old h.capacity
  obtain ⟨chunks', rfl, hfeed⟩ := feedChunks_turn h.alive hquote (fun _ => hat.text.alive) hchunks
  rw [hfeed, afterTurn, if_pos hsoft]
  rcases feedChunks_string hfeeds chunks' hat with ⟨⟨q', honward⟩, hhard, hkept⟩ |
    ⟨text, p', rest, htext, hclose, hrun⟩ | ⟨hhard, hkept, hno⟩
  · refine .inl ⟨hhard, hkept, fun text rest hcloses => ?_⟩
    have hnone := honward []
    rw [List.append_nil, hcloses] at hnone
    cases hnone
  · obtain ⟨hdone, hlive, hstored⟩ := @directSink_finish _ env _ _ _ _ _ h.capacity htext
    have hcloses := hclose []
    rw [List.append_nil, List.append_nil] at hcloses
    refine .inr ⟨text, _, _, rest, hcloses, htext.staged.accepts, rfl, ?_, ?_, hlive, hstored⟩
    · rw [hrun, afterTurn, if_pos hdone]
    · exact lexMode_of_registers ((directSink_steady env).finish _)
  · refine .inl ⟨hhard, hkept, fun text rest hcloses => ?_⟩
    rcases hno with hno | ⟨q', s', honward, hrefuses⟩
    · have hnone := hno []
      rw [List.append_nil, hcloses] at hnone
      cases hnone
    · have hsame := honward []
      rw [List.append_nil, List.append_nil, hcloses] at hsame
      obtain ⟨data, rfl⟩ := closes_prefix hsame.symm
      exact hrefuses.append data

theorem storeFixed_same {buffer data : Bytes} :
    storeFixed buffer data = buffer ↔ data ++ [0] <+: buffer := by
  constructor
  · intro h
    exact ⟨buffer.drop (data.length + 1), by rw [← h]; simp [storeFixed]⟩
  · rintro ⟨tail, rfl⟩
    simp [storeFixed]

/-- A fixed string that holds a text keeps it when the new one is malformed, has a NUL or is too
long to be taken, and otherwise it holds the new one, for the string values that the lexer reads
as the grammar does. Those it reads though they are malformed are stored. -/
theorem fixed_string_iff (hvalidate : env.validateOnly = false)
    (hclear : env.options.clearDestination = false) (h : AwaitsFixed env field ref ptr old p)
    (hbegin : CanBegin env field ref old p) {s : Bytes} (hbody : StringBody s) :
    FixedExact env field ptr old p s ↔
      ∀ text, closes {} s = some (text, []) → (∃ content, StringText content s []) ∨
        refusesText field text ∨ ¬ holdsText old ∨ text.take field.room ++ [0] <+: old := by
  have hwhole {text rest : Bytes} (hcloses : closes {} s = some (text, rest)) : rest = [] :=
    hbody rest (closes_behind hcloses)
  have hstored {chunks chunks' : List Bytes} {text rest : Bytes} {p' : Parser σ}
      (hcloses : closes {} s = some (text, rest)) (hrest : chunks'.flatten = rest)
      (hrun : feedChunks env p chunks = feedChunks env p' chunks') (hbetween : p'.lexMode = .none)
      (halive : p'.core.failed = false) (hstored : Stored field ptr old text p'.core) :
      Stored field ptr old text (feedChunks env p chunks).1.core := by
    rw [hrun, feedChunks_empty halive (hrest.trans (hwhole hcloses))]
    obtain ⟨b, hb, hlength, hold⟩ := hstored
    refine ⟨b, ?_, hlength, hold⟩
    rw [Core.value?, parserFinish_dst (by simp [hbetween])]
    exact hb
  constructor
  · intro hexact text hcloses
    by_contra hno
    push Not at hno
    obtain ⟨hmalformed, hrefuses, hold, hother⟩ := hno
    have hchunks : [0x22 :: s].flatten = 0x22 :: s := by simp
    have hkept := (hexact _ hchunks).1 (fun content hcontent => absurd hcontent (hmalformed content))
    rcases h.run hvalidate hclear hbegin hchunks with ⟨-, -, hall⟩ |
      ⟨text', rest, p', chunks', hcloses', -, hrest, hrun, hbetween, halive, hst⟩
    · exact hrefuses (hall text [] hcloses)
    · obtain ⟨rfl, rfl⟩ := Prod.mk.inj (Option.some.inj (hcloses.symm.trans hcloses'))
      obtain ⟨b, hb, -, hsame⟩ := hstored hcloses hrest hrun hbetween halive hst
      rw [hsame hold, hkept hold] at hb
      have hbuffer : storeFixed old (text.take field.room) = old := by
        injection hb with hb
        injection hb with hb
        exact hb.symm
      exact hother (storeFixed_same.mp hbuffer)
  · intro hcondition chunks hchunks
    rcases h.run hvalidate hclear hbegin hchunks with ⟨-, hkept, hall⟩ |
      ⟨text, rest, p', chunks', hcloses, haccepts, hrest, hrun, hbetween, halive, hst⟩
    · exact ⟨fun _ => hkept, fun content hcontent haccepts =>
        absurd (hall content [] (hcontent.closes (q := {}) rfl rfl)) haccepts⟩
    · have hst := hstored hcloses hrest hrun hbetween halive hst
      obtain rfl := hwhole hcloses
      have hspelled {content : Bytes} (hcontent : StringText content s []) : content = text := by
        have hread := hcontent.closes (q := {}) rfl rfl
        rw [hcloses] at hread
        simpa using (congrArg Prod.fst (Option.some.inj hread)).symm
      refine ⟨fun hrefused hold => ?_, fun content hcontent _ =>
        hspelled hcontent ▸ hst.holds h.capacity⟩
      rcases hcondition text hcloses with ⟨content, hcontent⟩ | hrefuses | hempty | hsame
      · exact absurd (hspelled hcontent ▸ hrefused content hcontent) haccepts
      · exact absurd hrefuses haccepts
      · exact absurd hold hempty
      · obtain ⟨b, hb, -, hb'⟩ := hst
        rw [hb, hb' hold, storeFixed_same.mpr hsame]

end

/-! ## A member of eight bytes -/

def fixedField : Field :=
  { jsonKey := [0x6b], kind := .string, storage := .fixed, fixedCapacity := 8 }

/-- A parse into one fixed string that keeps what the destination holds. -/
def Env.keeping : Env Unit :=
  { Env.bare with
    maps := fun _ => { fields := [fixedField] }
    rootMap := some 0
    options := { clearDestination := false } }

/-- The text `old` in eight bytes. -/
def oldBuffer : Bytes := [0x6f, 0x6c, 0x64, 0, 0, 0, 0, 0]

/-- The parser behind `{"k":`. -/
def keptParser : Parser Unit :=
  (parserFeed .keeping (parserInit .keeping [(.fixedString oldBuffer, false)] ())
    [0x7b, 0x22, 0x6b, 0x22, 0x3a]).1

theorem keptParser_awaits :
    AwaitsFixed .keeping fixedField ⟨0, 0⟩ ⟨[], 0⟩ oldBuffer keptParser where
  alive := rfl
  between := rfl
  alone := rfl
  frame := ⟨_, _, rfl, rfl, rfl, rfl, rfl⟩
  named := rfl
  kind := rfl
  storage := rfl
  capacity := by decide
  buffer := rfl
  size := rfl

theorem keptParser_begins : CanBegin .keeping fixedField ⟨0, 0⟩ oldBuffer keptParser :=
  ⟨rfl, fun _ => .inr (.inl (by decide))⟩

theorem fixed_string_iff_new :
    FixedExact .keeping fixedField ⟨[], 0⟩ oldBuffer keptParser [0x6e, 0x65, 0x77, 0x22] ↔
      ∀ text, closes {} [0x6e, 0x65, 0x77, 0x22] = some (text, []) →
        (∃ content, StringText content [0x6e, 0x65, 0x77, 0x22] []) ∨
          refusesText fixedField text ∨ ¬ holdsText oldBuffer ∨
          text.take fixedField.room ++ [0] <+: oldBuffer :=
  fixed_string_iff rfl rfl keptParser_awaits keptParser_begins fun _ h => by
    cases h
    rfl

/-- The string value `"\uD800a\uDC00"` behind its opening quote. -/
def tornBody : Bytes :=
  [0x5c, 0x75, 0x44, 0x38, 0x30, 0x30, 0x61, 0x5c, 0x75, 0x44, 0x43, 0x30, 0x30, 0x22]

/-- A malformed string takes the place of the text that the member held. -/
theorem fixed_string_fails :
    AwaitsFixed .keeping fixedField ⟨0, 0⟩ ⟨[], 0⟩ oldBuffer keptParser ∧
      CanBegin .keeping fixedField ⟨0, 0⟩ oldBuffer keptParser ∧ StringBody tornBody ∧
      holdsText oldBuffer ∧ (∀ content rest, ¬ StringText content tornBody rest) ∧
      ¬ FixedExact .keeping fixedField ⟨[], 0⟩ oldBuffer keptParser tornBody := by
  have hmalformed : ∀ content rest, ¬ StringText content tornBody rest := by
    intro content rest h
    cases h with
    | plain hb => exact absurd hb (by decide)
    | escape he => cases he
    | unit hcp hhigh =>
        cases hcp
        exact absurd hhigh (by decide)
  have hbody : StringBody tornBody := by
    intro rest h
    cases h
    rfl
  have hold : holdsText oldBuffer := by decide
  refine ⟨keptParser_awaits, keptParser_begins, hbody, hold, hmalformed, fun hexact => ?_⟩
  have hkept := (hexact [0x22 :: tornBody] rfl).1
    (fun content h => absurd h (hmalformed content [])) hold
  have hstored : (feedChunks .keeping keptParser [0x22 :: tornBody]).1.core.value? ⟨[], 0⟩ =
      some (.fixedString [0x61, 0xf0, 0x90, 0x80, 0x80, 0, 0, 0]) := rfl
  rw [hstored] at hkept
  injection hkept with hkept
  injection hkept with hkept
  exact absurd hkept (by decide)

end Lonejson
