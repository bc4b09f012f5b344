import Lonejson.Capturing
import Lonejson.FieldDecoder
import Lonejson.FixedString
import Lonejson.Marking
import Lonejson.Spool

/-!
# Base64 fields

A member whose JSON string is base64 text. The characters of the string go through the decoder of
base64 fields as they come, and each quartet's bytes go to the member's spool.
-/

namespace Lonejson

variable {σ : Type} {env : Env σ}

/-! ## The spool of a parse -/

/-- A spool that has taken `out` since it was emptied, and whose block in memory is charged to the
parse. -/
structure Spooled.Holds (env : Env σ) (s spool : Spooled) (out : Bytes) : Prop where
  memory : s.memoryBytes = out.take spool.memoryLimit
  spill : s.spill = out.drop spool.memoryLimit
  size : s.size = out.length
  memoryLimit : s.memoryLimit = spool.memoryLimit
  maxBytes : s.maxBytes = spool.maxBytes
  counted : allocCountedBytes env (s.memory.map Owned.header) = s.memoryBytes.length

/-- The lengths that an empty spool takes in a parse that holds `live` bytes on the heap: all of
it is within `max_bytes`, and the part in memory within the budget. -/
def SpoolTakes (env : Env σ) (live : ℕ) (spool : Spooled) (n : ℕ) : Prop :=
  UnderLimit spool.maxBytes n ∧ allocCanGrow env live 0 (min spool.memoryLimit n) = true

section

variable {c : Core σ} {live : ℕ} {spool s : Spooled} {out data : Bytes}

theorem allocCanGrow_mono {m n : ℕ} (h : allocCanGrow env live 0 n = true) (hle : m ≤ n) :
    allocCanGrow env live 0 m = true := by
  rw [allocCanGrow] at *
  split_ifs at * <;> first | rfl | omega | (simp at *; omega)

theorem allocCanGrow_shift {current next : ℕ} (h : current < next) :
    allocCanGrow env (live + current) current next = allocCanGrow env live 0 next := by
  rw [allocCanGrow, allocCanGrow, if_neg (by omega : ¬ next ≤ current),
    if_neg (by omega : ¬ next ≤ 0)]
  simp

theorem SpoolTakes.mono {m n : ℕ} (h : SpoolTakes env live spool n) (hle : m ≤ n) :
    SpoolTakes env live spool m :=
  ⟨underLimit_le h.1 hle, allocCanGrow_mono h.2 (by omega)⟩

theorem spoolTakes_zero : SpoolTakes env live spool 0 := by
  refine ⟨?_, ?_⟩
  · rw [UnderLimit]
    omega
  · rw [allocCanGrow]
    simp

theorem Spooled.Holds.bytes (h : s.Holds env spool out) : s.bytes = out := by
  rw [Spooled.bytes, h.memory, h.spill, List.take_append_drop]

/-- What is behind the first `copy` bytes goes to the file, and the length of all of them is
counted. -/
def Spooled.spillBehind (s : Spooled) (copy : ℕ) (data : Bytes) : Spooled :=
  if copy < data.length then
    { s with spill := s.spill ++ data.drop copy, spilled := true, size := s.size + data.length }
  else { s with size := s.size + data.length }

/-- An append, by the number of bytes that go to memory. -/
theorem spooledAppendParse_fits (hdata : data ≠ [])
    (hfits : ¬ (s.maxBytes ≠ 0 ∧ s.size + data.length > s.maxBytes)) {copy : ℕ}
    (hcopy : copy = min data.length s.memoryRoom) :
    spooledAppendParse env c s data =
      if copy = 0 then (c, s.spillBehind copy data, .ok)
      else if allocCanGrow env c.allocLive (allocCountedBytes env (s.memory.map Owned.header))
          (s.memoryBytes.length + copy) then
        match ownedReallocParse env c (s.memory.map Owned.header) (s.memoryBytes.length + copy) with
        | (none, c) =>
          let r := c.setErrorAtZero .allocationFailed "failed to expand spooled in-memory prefix"
          (r.1, s, r.2)
        | (some header, c) =>
          (c, Spooled.spillBehind { s with
            memory := some { header, data := s.memoryBytes ++ data.take copy } } copy data, .ok)
      else
        let r := c.setErrorAtZero .overflow "parse allocations exceed configured max bytes"
        (r.1, s, r.2) := by
  have hmemory : (s.memory.map (·.data.length)).getD 0 = s.memoryBytes.length := by
    rw [Spooled.memoryBytes]
    cases s.memory <;> rfl
  have hroom : (if s.memoryLimit > s.memoryBytes.length then
      s.memoryLimit - s.memoryBytes.length else 0) = s.memoryRoom := by
    rw [Spooled.memoryRoom]
    split_ifs <;> omega
  have hmin : (if data.length < s.memoryRoom then data.length else s.memoryRoom) = copy := by
    rw [hcopy]
    split_ifs <;> omega
  have hspill (c : Core σ) (s : Spooled) :
      (if copy < data.length then
        (c, { s with spill := s.spill ++ data.drop copy, spilled := true,
                     size := s.size + data.length }, Status.ok)
      else (c, { s with size := s.size + data.length }, .ok)) =
        (c, s.spillBehind copy data, .ok) := by
    rw [Spooled.spillBehind]
    split_ifs <;> rfl
  rw [spooledAppendParse, if_neg hdata, if_neg hfits]
  dsimp only
  rw [hmemory, hroom, hmin]
  by_cases hzero : copy = 0
  · rw [if_pos hzero, if_pos hzero]
    exact hspill c s
  rw [if_neg hzero, if_neg hzero]
  by_cases hgrow : allocCanGrow env c.allocLive
      (allocCountedBytes env (s.memory.map Owned.header)) (s.memoryBytes.length + copy) = true
  · rw [if_pos hgrow, if_pos hgrow]
    rcases ownedReallocParse env c (s.memory.map Owned.header) (s.memoryBytes.length + copy) with
      ⟨_ | header, c'⟩
    · rfl
    · exact hspill c' { s with memory := some { header, data := s.memoryBytes ++ data.take copy } }
  · rw [if_neg hgrow, if_neg hgrow]

/-- The pieces of an append, in memory and behind it. -/
theorem Spooled.Holds.pieces (h : s.Holds env spool out) (data : Bytes) {copy : ℕ}
    (hcopy : copy = min data.length s.memoryRoom) :
    s.memoryBytes.length + copy = min spool.memoryLimit (out ++ data).length ∧
      s.memoryBytes ++ data.take copy = (out ++ data).take spool.memoryLimit ∧
      s.spill ++ data.drop copy = (out ++ data).drop spool.memoryLimit := by
  have hlength : s.memoryBytes.length = min spool.memoryLimit out.length := by
    rw [h.memory, List.length_take]
  rw [Spooled.memoryRoom, h.memoryLimit, hlength] at hcopy
  refine ⟨?_, ?_, ?_⟩
  · rw [hlength, List.length_append]
    omega
  · rw [List.take_append, h.memory]
    congr 1
    rw [List.take_eq_take_iff]
    omega
  · rw [List.drop_append, h.spill]
    congr 1
    rw [List.drop_eq_drop_iff]
    omega

theorem Spooled.Holds.spillBehind (h : s.Holds env spool out) (memory : Option Owned) {copy : ℕ}
    (hbytes : (memory.map Owned.data).getD [] = (out ++ data).take spool.memoryLimit)
    (hrest : s.spill ++ data.drop copy = (out ++ data).drop spool.memoryLimit)
    (hcounted : allocCountedBytes env (memory.map Owned.header) =
      ((memory.map Owned.data).getD []).length) :
    (Spooled.spillBehind { s with memory } copy data).Holds env spool (out ++ data) ∧
      (Spooled.spillBehind { s with memory } copy data).memoryBytes =
        (memory.map Owned.data).getD [] := by
  have hsize : s.size + data.length = (out ++ data).length := by rw [List.length_append, h.size]
  rw [Spooled.spillBehind]
  split_ifs with hless
  · exact ⟨⟨hbytes, hrest, hsize, h.memoryLimit, h.maxBytes, hcounted⟩, rfl⟩
  · have hall : s.spill = (out ++ data).drop spool.memoryLimit := by
      rw [← hrest, List.drop_eq_nil_of_le (i := copy) (by omega), List.append_nil]
    exact ⟨⟨hbytes, hall, hsize, h.memoryLimit, h.maxBytes, hcounted⟩, rfl⟩

/-- An append to the spool of a parse. -/
theorem spooledAppendParse_takes (hholds : s.Holds env spool out)
    (hlive : c.allocLive = live + s.memoryBytes.length)
    (hout : SpoolTakes env live spool out.length) (data : Bytes) :
    let r := spooledAppendParse env c s data
    (SpoolTakes env live spool (out ++ data).length ∧ r.2.2 = .ok ∧
        r.2.1.Holds env spool (out ++ data) ∧
        r.1 = { c with allocLive := live + r.2.1.memoryBytes.length }) ∨
      (¬ SpoolTakes env live spool (out ++ data).length ∧ r.2.2.soft = false) := by
  by_cases hdata : data = []
  · rw [spooledAppendParse, if_pos hdata, hdata, List.append_nil]
    exact .inl ⟨hout, rfl, hholds, by rw [← hlive]⟩
  by_cases hlimit : s.maxBytes ≠ 0 ∧ s.size + data.length > s.maxBytes
  · rw [spooledAppendParse, if_neg hdata, if_pos hlimit]
    rw [hholds.maxBytes, hholds.size, ← List.length_append] at hlimit
    exact .inr ⟨fun h => not_underLimit.mpr hlimit h.1, rfl⟩
  generalize hcopy : min data.length s.memoryRoom = copy
  obtain ⟨hneed, hbytes, hrest⟩ := hholds.pieces data hcopy.symm
  rw [spooledAppendParse_fits hdata hlimit hcopy.symm]
  rw [hholds.maxBytes, hholds.size, ← List.length_append, ← not_underLimit, not_not] at hlimit
  by_cases hzero : copy = 0
  · -- The memory is full.
    rw [if_pos hzero]
    have hsame : s.memoryBytes = (out ++ data).take spool.memoryLimit := by
      rw [← hbytes, hzero, List.take_zero, List.append_nil]
    obtain ⟨hholds', hmemory⟩ := hholds.spillBehind s.memory hsame hrest hholds.counted
    refine .inl ⟨⟨hlimit, ?_⟩, rfl, hholds', ?_⟩
    · refine allocCanGrow_mono hout.2 ?_
      rw [← hneed, hzero, hholds.memory, List.length_take]
      exact le_refl _
    · rw [hmemory]
      exact congrArg (fun n => { c with allocLive := n }) hlive
  · rw [if_neg hzero]
    have hshift := @allocCanGrow_shift _ env live s.memoryBytes.length (s.memoryBytes.length + copy)
      (by omega)
    rw [hholds.counted, hlive, hshift, hneed]
    by_cases hgrow : allocCanGrow env live 0 (min spool.memoryLimit (out ++ data).length) = true
    · rw [if_pos hgrow]
      obtain ⟨header, hrealloc, -, htag, hcharge⟩ := @ownedReallocParse_grows _ env c
        (s.memory.map Owned.header) live (min spool.memoryLimit (out ++ data).length) (by omega)
        (by rw [hholds.counted]; exact hlive)
        (by rw [hholds.counted, hlive, ← hneed, hshift, hneed]; exact hgrow)
      have hlength : (s.memoryBytes ++ data.take copy).length =
          min spool.memoryLimit (out ++ data).length := by
        rw [hbytes, List.length_take]
      obtain ⟨hholds', hmemory⟩ := hholds.spillBehind
        (some ⟨header, s.memoryBytes ++ data.take copy⟩) hbytes hrest
        ((if_pos htag).trans (hcharge.trans hlength.symm))
      rw [hrealloc]
      refine .inl ⟨⟨hlimit, hgrow⟩, rfl, hholds', ?_⟩
      rw [hmemory, Option.map_some, Option.getD_some, hlength]
    · rw [if_neg hgrow]
      exact .inr ⟨fun h => hgrow h.2, rfl⟩

end

/-! ## The registers in the parse -/

/-- A base64 field whose text so far has been read: the registers are those of the field decoder,
and the spool holds what has been decoded. -/
def Decodes (env : Env σ) (field : Field) (ptr : SlotPtr) (live : ℕ) (spool : Spooled)
    (text : Bytes) (c : Core σ) : Prop :=
  ∃ q out s, ({} : QuadState).run text = some (q, out) ∧ SpoolTakes env live spool out.length ∧
    c.stream = { active := true, field := some field, ptr, quad := q.quad,
                 sawPadding := q.sawPadding } ∧
    c.value? ptr = some (.spooled s) ∧ s.Holds env spool out ∧
    c.allocLive = live + s.memoryBytes.length

/-- The texts that the field does not take: the decoder stops, or the spool. -/
def DeniesBase64 (env : Env σ) (live : ℕ) (spool : Spooled) (text : Bytes) : Prop :=
  ∀ q out, ({} : QuadState).run text = some (q, out) → ¬ SpoolTakes env live spool out.length

section

variable {c : Core σ} {field : Field} {ptr : SlotPtr} {live : ℕ} {spool : Spooled}
  {text data : Bytes}

theorem DeniesBase64.append (h : DeniesBase64 env live spool text) (data : Bytes) :
    DeniesBase64 env live spool (text ++ data) := by
  intro q out hrun htakes
  rw [QuadState.run_append] at hrun
  obtain ⟨⟨q', out'⟩, hrun', hrest⟩ := Option.bind_eq_some_iff.mp hrun
  obtain ⟨r, -, hr⟩ := Option.map_eq_some_iff.mp hrest
  obtain ⟨-, rfl⟩ := Prod.mk.inj hr
  refine h q' out' hrun' (htakes.mono ?_)
  rw [List.length_append]
  exact Nat.le_add_right _ _

/-- The bytes of a whole quartet go to the spool. -/
theorem streamValueAppendDecoded_takes {s : Spooled} {out : Bytes}
    (hactive : c.stream.active = true) (hptr : c.stream.ptr = ptr) (hvalue : c.value? ptr = some (.spooled s))
    (hholds : s.Holds env spool out) (hlive : c.allocLive = live + s.memoryBytes.length)
    (hout : SpoolTakes env live spool out.length) (data : Bytes) :
    let r := streamValueAppendDecoded env c data
    (SpoolTakes env live spool (out ++ data).length ∧ r.2 = .ok ∧
        ∃ s', r.1.value? ptr = some (.spooled s') ∧ s'.Holds env spool (out ++ data) ∧
          r.1.allocLive = live + s'.memoryBytes.length ∧ r.1.stream = c.stream ∧
          r.1.failed = c.failed ∧ r.1.json = c.json) ∨
      (¬ SpoolTakes env live spool (out ++ data).length ∧ r.2.soft = false) := by
  have happend := spooledAppendParse_takes hholds hlive hout data
  rw [streamValueAppendDecoded, if_pos hactive, hptr, hvalue]
  dsimp only at happend ⊢
  generalize spooledAppendParse env c s data = r at happend ⊢
  rcases happend with ⟨htakes, hok, hholds', hcore⟩ | hrefused
  · rw [hcore]
    refine .inl ⟨htakes, hok, r.2.1, ?_, hholds', rfl, rfl, rfl, rfl⟩
    exact value?_setValue (c := { c with allocLive := live + r.2.1.memoryBytes.length }) hvalue
  · exact .inr hrefused

/-- A character of a base64 field. -/
theorem streamValueAppendBase64Char_decodes (h : Decodes env field ptr live spool text c)
    (ch : Byte) :
    let r := streamValueAppendBase64Char env c ch
    (r.2 = .ok ∧ Decodes env field ptr live spool (text ++ [ch]) r.1 ∧ r.1.failed = c.failed ∧
        r.1.json = c.json) ∨
      (r.2.soft = false ∧ DeniesBase64 env live spool (text ++ [ch])) := by
  obtain ⟨q, out, s, hrun, hout, hstream, hvalue, hholds, hlive⟩ := h
  have hrun' : ({} : QuadState).run (text ++ [ch]) =
      (q.next ch).map fun r => (r.1, out ++ r.2) := by
    rw [QuadState.run_append, hrun, Option.bind_some]
    cases hnext : q.next ch with
    | none => simp [QuadState.run, hnext]
    | some r => simp [QuadState.run, hnext]
  have hstops (hnext : q.next ch = none) : DeniesBase64 env live spool (text ++ [ch]) := by
    intro q' out' hread
    rw [hrun', hnext] at hread
    cases hread
  rw [streamValueAppendBase64Char]
  dsimp only
  rw [hstream]
  by_cases hwrong : ch ≠ 0x3d ∧ base64Value ch = none
  · rw [if_pos hwrong]
    exact .inr ⟨rfl, hstops (by rw [QuadState.next, if_pos hwrong])⟩
  rw [if_neg hwrong]
  by_cases hbehind : q.sawPadding = true ∧ ch ≠ 0x3d
  · rw [if_pos hbehind]
    exact .inr ⟨rfl, hstops (by rw [QuadState.next, if_neg hwrong, if_pos hbehind])⟩
  rw [if_neg hbehind]
  have hnext : q.next ch = if (q.quad ++ [ch]).length = 4 then
      (base64DecodeQuad (q.quad ++ [ch])).map fun out => (⟨[], q.sawPadding || ch == 0x3d⟩, out)
      else some (⟨q.quad ++ [ch], q.sawPadding || ch == 0x3d⟩, []) := by
    rw [QuadState.next, if_neg hwrong, if_neg hbehind]
  by_cases hfour : (q.quad ++ [ch]).length = 4
  · rw [if_pos hfour] at hnext ⊢
    cases hdecode : base64DecodeQuad (q.quad ++ [ch]) with
    | none => exact .inr ⟨rfl, hstops (by rw [hnext, hdecode]; rfl)⟩
    | some quartet =>
        rw [hdecode] at hnext
        rw [hnext] at hrun'
        dsimp only
        have hdecoded := @streamValueAppendDecoded_takes _ env
          { c with stream := { active := true, field := some field, ptr, quad := q.quad ++ [ch],
                               sawPadding := q.sawPadding || ch == 0x3d } } ptr live spool s out
          rfl rfl hvalue hholds hlive hout quartet
        dsimp only at hdecoded
        generalize streamValueAppendDecoded env _ quartet = r at hdecoded ⊢
        rcases hdecoded with ⟨htakes, hok, s', hvalue', hholds', hlive', hstream', hfailed, hjson⟩ |
          ⟨hfull, hhard⟩
        · refine .inl ⟨hok, ⟨_, _, s', hrun', htakes, ?_, hvalue', hholds', hlive'⟩, hfailed, hjson⟩
          rw [hstream']
        · refine .inr ⟨hhard, fun q' out' hread => ?_⟩
          rw [hrun'] at hread
          cases hread
          exact hfull
  · rw [if_neg hfour] at hnext ⊢
    rw [hnext] at hrun'
    refine .inl ⟨rfl, ⟨_, _, s, hrun', ?_, rfl, hvalue, ?_, hlive⟩, rfl, rfl⟩
    · rw [List.append_nil]
      exact hout
    · rw [List.append_nil]
      exact hholds

/-- A piece of the text of a base64 field. -/
theorem streamValueAppendBase64_decodes (h : Decodes env field ptr live spool text c)
    (data : Bytes) :
    let r := streamValueAppendBase64 env c data
    (r.2 = .ok ∧ Decodes env field ptr live spool (text ++ data) r.1 ∧ r.1.failed = c.failed ∧
        r.1.json = c.json) ∨
      (r.2.soft = false ∧ DeniesBase64 env live spool (text ++ data)) := by
  induction data generalizing text c with
  | nil =>
      rw [List.append_nil]
      exact .inl ⟨rfl, h, rfl, rfl⟩
  | cons ch data ih =>
      have hassoc : text ++ ch :: data = (text ++ [ch]) ++ data := by simp
      rw [streamValueAppendBase64, andThenOk, hassoc]
      rcases streamValueAppendBase64Char_decodes h ch with
        ⟨hok, hdecodes, hfailed, hjson⟩ | ⟨hhard, hdenies⟩
      · rw [if_pos hok]
        rcases ih hdecodes with ⟨hok', hdecodes', hfailed', hjson'⟩ | hrefused
        · exact .inl ⟨hok', hdecodes', hfailed'.trans hfailed, hjson'.trans hjson⟩
        · exact .inr hrefused
      · rw [if_neg (Status.ne_ok_of_hard hhard)]
        exact .inr ⟨hhard, hdenies.append data⟩

theorem streamValueAppend_base64 (h : Decodes env field ptr live spool text c)
    (hkind : field.kind = .base64Stream) (data : Bytes) :
    streamValueAppend env c data = streamValueAppendBase64 env c data := by
  obtain ⟨q, out, s, -, -, hstream, -⟩ := h
  rw [streamValueAppend, hstream, Option.map_some, hkind]

end

/-! ## The parser inside a base64 field -/

/-- The parser reads the value of a base64 field, which `start` waited for. -/
structure Base64At (env : Env σ) (field : Field) (ptr : SlotPtr) (live : ℕ) (spool : Spooled)
    (start : Parser σ) (text : Bytes) (p : Parser σ) : Prop where
  decodes : Decodes env field ptr live spool text p.core
  kind : field.kind = .base64Stream
  capture : p.captureMode = .stream
  value : p.lexIsKey = false
  alone : p.core.json.active = false
  alive : p.core.failed = false
  token : p.token.data = none
  frames : p.frames = start.frames
  top : p.workspaceTop = start.workspaceTop

/-- The innermost object waits for the value of a base64 field, whose spool is `spool`. -/
structure AwaitsBase64 (env : Env σ) (field : Field) (ref : FieldRef) (ptr : SlotPtr)
    (spool : Spooled) (p : Parser σ) : Prop where
  alive : p.core.failed = false
  between : p.lexMode = .none
  alone : p.core.json.active = false
  frame : ∃ top fs, p.frames = top :: fs ∧ top.kind = .object ∧ top.state = .objectValue ∧
    top.pendingField = some ref ∧ top.slot ref = ptr
  named : env.maps.field? ref = some field
  kind : field.kind = .base64Stream
  spooled : p.core.value? ptr = some (.spooled spool)

section

variable {field : Field} {ref : FieldRef} {ptr : SlotPtr} {live : ℕ} {spool : Spooled}
  {start p : Parser σ} {text : Bytes}

theorem Base64At.bytes (h : Base64At env field ptr live spool start text p) (data : Bytes) :
    Filled (Base64At env field ptr live spool start) (fun _ => True)
      (DeniesBase64 env live spool) p (text ++ data)
      (p.onCore (streamValueAppend env p.core data)) := by
  rw [streamValueAppend_base64 h.decodes h.kind]
  rcases streamValueAppendBase64_decodes h.decodes data with
    ⟨hok, hdecodes, hfailed, hjson⟩ | ⟨hhard, hdenies⟩
  · exact .inl ⟨hok, ⟨hdecodes, h.kind, h.capture, h.value,
      (congrArg JsonStream.active hjson).trans h.alone, hfailed.trans h.alive, h.token, h.frames,
      h.top⟩, rfl⟩
  · exact .inr ⟨hhard, trivial, hdenies⟩

theorem Base64At.codepoint (h : Base64At env field ptr live spool start text p) {cp : ℕ}
    {data : Bytes} (hdata : utf8Encode cp = some data) :
    Filled (Base64At env field ptr live spool start) (fun _ => True)
      (DeniesBase64 env live spool) p (text ++ data) (appendUnicodeCodepoint env p cp) := by
  rw [appendUnicodeCodepoint, h.capture]
  dsimp only
  rw [hdata]
  exact h.bytes data

theorem Base64At.invalid (h : Base64At env field ptr live spool start text p) {cp : ℕ}
    (hinvalid : utf8Encode cp = none) : (appendUnicodeCodepoint env p cp).2.soft = false := by
  rw [appendUnicodeCodepoint, h.capture]
  dsimp only
  rw [hinvalid]
  rfl

theorem Base64At.byte (h : Base64At env field ptr live spool start text p) (ch : Byte) :
    Filled (Base64At env field ptr live spool start) (fun _ => True)
      (DeniesBase64 env live spool) p (text ++ [ch]) (appendStringByte env p ch) := by
  rw [appendStringByte, h.capture]
  exact h.bytes [ch]

theorem markFieldSeen_start (h : Base64At env field ptr live spool start text p)
    (hstart : AwaitsBase64 env field ref ptr spool start) {q : Parser σ}
    (hframes : q.frames = p.frames) (htop : q.workspaceTop = p.workspaceTop) :
    (markFieldSeen env q ref).2 = (markFieldSeen env start ref).2 := by
  obtain ⟨top, fs, hstartFrames, -⟩ := hstart.frame
  have hqFrames : q.frames = top :: fs := hframes.trans (h.frames.trans hstartFrames)
  have halike : start.MarksAlike q :=
    ⟨htop.trans h.top, top, fs, top, fs, hstartFrames, hqFrames, rfl, rfl, rfl, rfl⟩
  exact (markFieldSeen_alike halike ref).1

/-- The delivery of the string only marks the field, whose spool has the bytes already. -/
theorem deliverString_base64 (hkey : p.lexIsKey = false) (htoken : p.token.data = none)
    (halone : p.core.json.active = false) {top : Frame} {fs : List Frame}
    (hframes : p.frames = top :: fs) (hkind : top.kind = .object)
    (hpending : top.pendingField = some ref) (hnamed : env.maps.field? ref = some field)
    (hfield : field.kind = .base64Stream) :
    ((markFieldSeen env p ref).2 = .ok ∧ (deliverString env p).2 = .ok ∧
        (deliverString env p).1.core = p.core) ∨
      ((markFieldSeen env p ref).2 ≠ .ok ∧ (deliverString env p).2.soft = false) := by
  have hcstr : p.scratchCstr = p := by rw [Parser.scratchCstr, htoken]
  have hdeliver : deliverString env p =
      let r := handleScalarForField env p (some ref) .string
      if r.2.soft then completeParentAfterValue r.1 else r := by
    rw [deliverString, deliverToken]
    dsimp only
    rw [hcstr, hkey, if_neg Bool.false_ne_true, hframes]
    dsimp only
    rw [if_neg (by simp), hkind, halone, hpending]
    exact if_neg (by simp)
  rcases @markFieldSeen_cases _ env p ref with
    ⟨hok, frames, top', token, hmarked, hobject⟩ | ⟨hhard, -⟩
  · obtain ⟨top'', fs', hframes', hkind'⟩ : ∃ top fs, frames = top :: fs ∧ top.kind = .object := by
      rcases hobject with rfl | ⟨f, f', fs', hf, rfl, _, _, _, rfl⟩
      · exact ⟨top, fs, hframes, hkind⟩
      · obtain ⟨rfl, -⟩ := List.cons.inj (hf.symm.trans hframes)
        exact ⟨_, fs', rfl, hkind⟩
    have hassign (c : Core σ) (ptr : SlotPtr) (token : Token) :
        assignScalar env c field ptr token .string = (c, .ok) := by
      simp [assignScalar, hfield]
    have hscalar : handleScalarForField env p (some ref) .string =
        ({ p with frames := top'' :: fs', workspaceTop := top', token }, .ok) := by
      rw [handleScalarForField, andThenOk, if_pos hok, hmarked, hframes', hnamed]
      dsimp only
      rw [hassign]
      rfl
    have hcomplete := @completeParentAfterValue_object _
      { p with frames := top'' :: fs', workspaceTop := top', token } _ _ rfl hkind'
    rw [hdeliver, hscalar]
    dsimp only
    rw [Status.soft_ok, if_pos rfl, hcomplete]
    exact .inl ⟨hok, rfl, rfl⟩
  · have hstop : (markFieldSeen env p ref).2 ≠ .ok := Status.ne_ok_of_hard hhard
    rw [hdeliver, handleScalarForField, andThenOk, if_neg hstop]
    dsimp only
    rw [if_neg (by simp [hhard])]
    exact .inr ⟨hstop, hhard⟩

theorem finishStreamValue_base64 (h : Base64At env field ptr live spool start text p)
    {q : QuadState} (hstream : p.core.stream =
      { active := true, field := some field, ptr, quad := q.quad, sawPadding := q.sawPadding }) :
    (q.quad = [] ∧ finishStreamValue env { p with lexMode := .none } =
        ({ p with lexMode := .none, captureMode := .token,
                  core := { p.core with stream := {} } }, .ok)) ∨
      (q.quad ≠ [] ∧ (finishStreamValue env { p with lexMode := .none }).2.soft = false) := by
  rw [finishStreamValue, streamValueFinish, hstream]
  dsimp only
  rw [if_pos rfl, Option.map_some, h.kind]
  dsimp only
  by_cases hquad : q.quad = []
  · rw [if_neg (not_not.mpr hquad)]
    exact .inl ⟨hquad, rfl⟩
  · rw [if_pos hquad]
    exact .inr ⟨hquad, rfl⟩

/-- The closing quote: the last quartet must be whole, and the field is marked. -/
theorem generalSink_base64 (hstart : AwaitsBase64 env field ref ptr spool start)
    (h : Base64At env field ptr live spool start text p) :
    let r := (generalSink env).finish { p with lexMode := .none }
    (r.2.soft = true ∧ r.1.core.failed = false ∧ (markFieldSeen env start ref).2 = .ok ∧
        ∃ out s, ({} : QuadState).Settles text out ∧ SpoolTakes env live spool out.length ∧
          r.1.core.value? ptr = some (.spooled s) ∧ s.Holds env spool out) ∨
      (r.2.soft = false ∧ ¬ ((markFieldSeen env start ref).2 = .ok ∧
        ∃ out, ({} : QuadState).Settles text out)) := by
  obtain ⟨top, fs, hframes, hkind, -, hpending, -⟩ := hstart.frame
  obtain ⟨q, out, s, hrun, htakes, hstream, hvalue, hholds, hlive⟩ := h.decodes
  have hfinish : (generalSink env).finish { p with lexMode := .none } =
      andThenOk (finishStreamValue env { p with lexMode := .none }) (deliverString env) := by
    simp [generalSink, h.capture]
  rw [hfinish]
  rcases @finishStreamValue_base64 _ env _ _ _ _ _ _ _ h _ hstream with
    ⟨hquad, hdone⟩ | ⟨hquad, hhard⟩
  · rw [hdone, andThenOk_ok]
    generalize hr : ({ p with
      lexMode := .none, captureMode := .token, core := { p.core with stream := {} } } :
        Parser σ) = r
    have hmark := @markFieldSeen_start _ env _ ref _ _ _ _ _ _ h hstart r
      (by rw [← hr]) (by rw [← hr])
    have hcore : r.core = { p.core with stream := {} } := by rw [← hr]
    rcases @deliverString_base64 _ env field ref r (by rw [← hr]; exact h.value)
        (by rw [← hr]; exact h.token) (by rw [hcore]; exact h.alone) top fs
        (by rw [← hr]; exact h.frames.trans hframes) hkind hpending hstart.named hstart.kind with
      ⟨hok, hsoft, hsame⟩ | ⟨hstop, hhard⟩
    · refine .inl ⟨by rw [hsoft]; rfl, ?_, hmark.symm.trans hok, out, s, ⟨q, hrun, hquad⟩, htakes,
        ?_, hholds⟩
      · rw [hsame, hcore]
        exact h.alive
      · rw [hsame, hcore]
        exact hvalue
    · exact .inr ⟨hhard, fun hcan => hstop (hmark.trans hcan.1)⟩
  · rw [andThenOk, if_neg (Status.ne_ok_of_hard hhard)]
    refine .inr ⟨hhard, ?_⟩
    rintro ⟨-, out', q', hrun', hquad'⟩
    rw [hrun] at hrun'
    cases hrun'
    exact hquad hquad'

/-- What feeding needs of the sink in a base64 field. -/
theorem generalSink_feeds (hstart : AwaitsBase64 env field ref ptr spool start) :
    FeedsString env (Base64At env field ptr live spool start) (fun _ => True)
      (DeniesBase64 env live spool) (generalSink env) where
  moved _ _ _ _ _ h := ⟨h.decodes, h.kind, h.capture, h.value, h.alone, h.alive, h.token, h.frames,
    h.top⟩
  keeps _ := trivial
  error _ _ _ _ := trivial
  run {_ p data} h _ _ := by
    have hrun : (generalSink env).run p data = p.onCore (streamValueAppend env p.core data) := by
      simp [generalSink, h.capture]
    rw [hrun]
    exact h.bytes data
  byte h _ := h.byte _
  codepoint h hdata := h.codepoint hdata
  invalid h hinvalid := ⟨h.invalid hinvalid, trivial⟩
  charByte h _ := h.byte _
  charCodepoint h hdata := h.codepoint hdata
  charInvalid h hinvalid := ⟨h.invalid hinvalid, trivial⟩
  scan bytes h := by
    rw [consumeStringFast, h.capture]
    dsimp only
    rw [if_neg (by simp [h.value])]
  alive h := h.alive
  fail _ := trivial
  finish h hsoft := by
    rcases generalSink_base64 hstart h with ⟨-, halive, -⟩ | ⟨hhard, -⟩
    · exact halive
    · rw [hhard] at hsoft
      cases hsoft

end

/-! ## The value -/

/-- The core behind the opening quote: the spool is emptied, and its temporary directory charged
again. -/
def Core.beginBase64 (env : Env σ) (c : Core σ) (field : Field) (ptr : SlotPtr) (spool : Spooled) :
    Core σ :=
  let r := spooledResetParse env c spool
  { r.1.setValue ptr (.spooled r.2) with stream := { active := true, field := some field, ptr } }

/-- The parser behind the opening quote. -/
def Parser.beginBase64 (env : Env σ) (p : Parser σ) (field : Field) (ptr : SlotPtr)
    (spool : Spooled) : Parser σ :=
  { p.behindQuote with core := p.core.beginBase64 env field ptr spool }.capture .stream

/-- The budget lets the spool keep its temporary directory. -/
def KeepsTempDir (env : Env σ) (spool : Spooled) (c : Core σ) : Prop :=
  (spooledResetParse env c spool).1.failed = false

/-- A directory that is charged as what it is, or no budget: then it is kept. -/
theorem keepsTempDir_of_charged {c : Core σ} {spool : Spooled} (halive : c.failed = false)
    (hcharged : env.options.maxAllocBytes = 0 ∨ ∀ dir, spool.ownedTempDir = some dir →
      dir.header.size ≤ dir.header.charge env.parserId) : KeepsTempDir env spool c := by
  rw [KeepsTempDir, spooledResetParse, spooledAdoptTempDir]
  cases hdir : spool.reset.ownedTempDir with
  | none => exact halive
  | some dir =>
      have hgrow (live : ℕ) :
          allocCanGrow env live (dir.header.charge env.parserId) dir.header.size = true := by
        rw [allocCanGrow]
        rcases hcharged with hfree | hcharged
        · rw [if_pos hfree]
        · rw [if_pos (hcharged dir hdir)]
          split_ifs <;> rfl
      dsimp only
      rw [allocTryAdopt, if_pos (hgrow _)]
      exact halive

theorem spooledResetParse_empty (c : Core σ) (spool : Spooled) :
    let r := spooledResetParse env c spool
    r.2.memory = none ∧ r.2.spill = [] ∧ r.2.size = 0 ∧ r.2.memoryLimit = spool.memoryLimit ∧
      r.2.maxBytes = spool.maxBytes ∧ r.1.dst = c.dst ∧ r.1.json = c.json := by
  rw [spooledResetParse, spooledAdoptTempDir]
  cases spool.reset.ownedTempDir with
  | none => exact ⟨rfl, rfl, rfl, rfl, rfl, rfl, rfl⟩
  | some dir =>
      dsimp only
      split
      · exact ⟨rfl, rfl, rfl, rfl, rfl, rfl, rfl⟩
      · exact ⟨rfl, rfl, rfl, rfl, rfl, rfl, rfl⟩

section

variable {field : Field} {ref : FieldRef} {ptr : SlotPtr} {spool : Spooled} {p : Parser σ}

theorem beginBase64_decodes (c : Core σ) (hvalue : c.value? ptr = some (.spooled spool)) :
    Decodes env field ptr (spooledResetParse env c spool).1.allocLive spool []
      (c.beginBase64 env field ptr spool) := by
  obtain ⟨hmemory, hspill, hsize, hlimit, hmax, hdst, -⟩ := @spooledResetParse_empty _ env c spool
  have hbytes : (spooledResetParse env c spool).2.memoryBytes = [] := by
    rw [Spooled.memoryBytes, hmemory]
    rfl
  refine ⟨{}, [], (spooledResetParse env c spool).2, rfl, spoolTakes_zero, rfl, ?_, ?_, ?_⟩
  · have hstill : (spooledResetParse env c spool).1.value? ptr = some (.spooled spool) := by
      rw [Core.value?, hdst]
      exact hvalue
    exact value?_setValue hstill
  · refine ⟨by rw [hbytes, List.take_nil], by rw [hspill, List.drop_nil], hsize, hlimit, hmax, ?_⟩
    rw [hmemory, hbytes]
    rfl
  · rw [hbytes]
    rfl

theorem streamValueBegin_base64 (c : Core σ) (hvalue : c.value? ptr = some (.spooled spool)) :
    streamValueBegin env c field ptr = (c.beginBase64 env field ptr spool, .ok) := by
  rw [streamValueBegin, hvalue]
  rfl

/-- What the opening quote does. -/
theorem AwaitsBase64.quote (h : AwaitsBase64 env field ref ptr spool p)
    (hvalidate : env.validateOnly = false) (rest : Bytes) :
    feedTurn env p 0x22 rest = turnSoft (p.beginBase64 env field ptr spool, .ok) 1 := by
  obtain ⟨top, fs, hframes, hkind, hstate, hpending, hslot⟩ := h.frame
  have hfield : top.pending? env = some field := by
    rw [Frame.pending?, hpending, Option.bind_some, h.named]
  have hstreams : fieldIsArrayStream field = false ∧ fieldIsStreamed field = true := by
    simp [fieldIsArrayStream, fieldIsStreamed, h.kind]
  have hbegin : beginStringValueLex env (p.advance 1) (some ref) ptr =
      (p.beginBase64 env field ptr spool, .ok) := by
    have hcore : (p.advance 1).core = p.core := rfl
    have hvalue := @streamValueBegin_base64 _ env field _ _ p.core h.spooled
    simp [beginStringValueLex, h.named, h.kind, hvalidate, hstreams.2, Parser.startString, hcore,
      hvalue, Parser.behindQuote, Parser.beginBase64, Parser.onCore]
  rw [← hbegin, feedTurn, if_neg (by simp [h.between]), if_neg (by simp [h.between]), h.between,
    hframes]
  dsimp only
  rw [frameTurn, hkind, hstate]
  dsimp only
  rw [if_pos rfl, hfield, Option.filter_some, hstreams.1, hpending]
  simp [hslot]

theorem AwaitsBase64.begins (h : AwaitsBase64 env field ref ptr spool p)
    (hkeeps : KeepsTempDir env spool p.core) :
    StringAt (Base64At env field ptr (spooledResetParse env p.core spool).1.allocLive spool p)
      (p.beginBase64 env field ptr spool) {} where
  lex := rfl
  high := rfl
  phase := ⟨rfl, rfl⟩
  text :=
    { decodes := beginBase64_decodes p.core h.spooled
      kind := h.kind
      capture := rfl
      value := rfl
      alone := by
        obtain ⟨-, -, -, -, -, -, hjson⟩ := @spooledResetParse_empty _ env p.core spool
        exact (congrArg JsonStream.active hjson).trans h.alone
      alive := hkeeps
      token := rfl
      frames := rfl
      top := rfl }

/-- The value is read: the bytes that its text stands for are in the spool. -/
def SpoolsBase64 (env : Env σ) (ref : FieldRef) (ptr : SlotPtr) (spool : Spooled)
    (p : Parser σ) (content : Bytes) (r : Parser σ × Status) : Prop :=
  (r.2.soft = true ↔ (markFieldSeen env p ref).2 = .ok ∧
    ∃ out capacity, (base64Decode content .standard capacity).out = .ok out ∧
      SpoolTakes env (spooledResetParse env p.core spool).1.allocLive spool out.length) ∧
  (r.2.soft = true → ∀ out capacity, (base64Decode content .standard capacity).out = .ok out →
    ∃ s, r.1.core.value? ptr = some (.spooled s) ∧ s.bytes = out ∧ s.size = out.length)

end

/-! ## A spool of two bytes -/

def base64Field : Field :=
  { jsonKey := [0x6b], kind := .base64Stream, spoolOptions := { memoryLimit := 8, maxBytes := 2 } }

/-- A parse into one base64 field. -/
def Env.spooling : Env Unit :=
  { Env.bare with maps := fun _ => { fields := [base64Field] }, rootMap := some 0 }

/-- The parser behind `{"k":`. -/
def spoolingParser : Parser Unit :=
  (parserFeed .spooling
    (parserInit .spooling [(.spooled (spooledInit base64Field.spoolOptions), false)] ())
    [0x7b, 0x22, 0x6b, 0x22, 0x3a]).1

theorem spoolingParser_awaits :
    AwaitsBase64 .spooling base64Field ⟨0, 0⟩ ⟨[], 0⟩ (spooledInit base64Field.spoolOptions)
      spoolingParser where
  alive := rfl
  between := rfl
  alone := rfl
  frame := ⟨_, _, rfl, rfl, rfl, rfl, rfl⟩
  named := rfl
  kind := rfl
  spooled := rfl

theorem spoolingParser_keeps :
    KeepsTempDir .spooling (spooledInit base64Field.spoolOptions) spoolingParser.core :=
  keepsTempDir_of_charged rfl (.inl rfl)

end Lonejson
