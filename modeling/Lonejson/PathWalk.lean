import Lonejson.PathVisitor
import Lonejson.Related

/-!
# The two visitors side by side

The two copies of the visitor read a text alike. What the callbacks of both sides and the path
stack keep at each of their moves, a whole run keeps.
-/

namespace Lonejson

open Json (Text Related)

variable {υ χ : Type} {penv : PathEnv υ} {w : Visitor χ} {isKey : Bool}
  {E At Out : PathIo υ → JsonIo χ → Prop} {In : ℕ → PathIo υ → JsonIo χ → Prop}
  {p : PathIo υ} {j : JsonIo χ}

/-- A failure on both sides relates them by `E`. -/
def FailsIn (E : PathIo υ → JsonIo χ → Prop) (p : PathIo υ) (j : JsonIo χ) : Prop :=
  ∀ code message, E (p.fail code message) (j.fail code message)

/-- The text that is left, and the two states behind a token of `i`. -/
def BehindToken (Out : PathIo υ → JsonIo χ → Prop) (i : Text) (x : Text × PathIo υ)
    (y : Text × JsonIo χ) : Prop :=
  x.1 = y.1 ∧ Out x.2 y.2 ∧ x.1.length ≤ i.length

theorem BehindToken.le {i k : Text} {x : Text × PathIo υ} {y : Text × JsonIo χ}
    (h : BehindToken Out i x y) (hk : i.length ≤ k.length) : BehindToken Out k x y :=
  ⟨h.1, h.2.1, h.2.2.trans hk⟩

/-! ## The key of a frame -/

@[simp] theorem PathIo.setFrame_frame (p : PathIo υ) (frame : PathFrame) :
    (p.setFrame frame).frame = frame := by
  simp [PathIo.setFrame, PathIo.frame, PathIo.pathDepth]

/-- With memory, and room in a `size_t`, the bytes go to the end of the key. -/
theorem PathIo.keyAppend_eq (hgrants : ∀ n, penv.grants n = true) {data : Bytes}
    (hdepth : p.pathDepth < penv.pathCapacity)
    (hroom : p.frame.key.length + data.length < sizeMax) :
    ∃ frame : PathFrame, frame.key = p.frame.key ++ data ∧
      frame.nextIndex = p.frame.nextIndex ∧
      (p.keyAppend penv data = .ok (p.setFrame frame) ∨
        data = [] ∧ p.keyAppend penv data = .ok p) := by
  rw [PathIo.keyAppend]
  by_cases hdata : data = []
  · refine ⟨p.frame, by rw [hdata, List.append_nil], rfl, .inr ⟨hdata, ?_⟩⟩
    rw [if_pos (.inl hdata)]
  rw [if_neg (fun h => h.elim hdata (Nat.not_le.mpr hdepth))]
  dsimp only
  rw [if_neg (by omega)]
  generalize (if p.frame.keyCap = 0 then 64 else p.frame.keyCap) = cap
  split
  · rw [if_pos (hgrants _)]
    refine ⟨_, ?_, ?_, .inl rfl⟩ <;> rfl
  · refine ⟨_, ?_, ?_, .inl rfl⟩ <;> rfl

theorem formatSizeDecimal_length (value : UInt64) :
    (formatSizeDecimal value.toNat).length < 32 := by
  rw [formatSizeDecimal, List.length_map]
  apply Nat.lt_succ_of_le
  apply Nat.toDigits_length 10 value.toNat 31 (by decide)
  calc value.toNat < 2 ^ 64 := value.toNat_lt
    _ < 10 ^ 31 := by decide

theorem PathIo.pushArrayIndex_eq (h : p.pathDepth < penv.pathCapacity) :
    p.pushArrayIndex penv = .ok
      { p with segments := p.segments ++ [formatSizeDecimal p.frame.nextIndex.toNat] } := by
  rw [PathIo.pushArrayIndex, if_neg (Nat.not_le.mpr h)]
  exact if_neg (Nat.not_le.mpr (formatSizeDecimal_length _))

/-! ## Strings -/

/-- The callbacks inside a string keep both sides in step: `In n` with up to `n` bytes of
content ahead, `Out` behind the closing quote. -/
structure InStep (penv : PathEnv υ) (w : Visitor χ) (isKey : Bool)
    (E : PathIo υ → JsonIo χ → Prop) (In : ℕ → PathIo υ → JsonIo χ → Prop)
    (Out : PathIo υ → JsonIo χ → Prop) : Prop where
  le : ∀ {n m p j}, In n p j → m ≤ n → In m p j
  error : ∀ {n p j}, In n p j → E p j
  fail : ∀ {n p j}, In n p j → FailsIn E p j
  chunk : ∀ {n p j data}, data ≠ [] → In (data.length + n) p j →
    Related E (In n) (p.visitAnyChunk penv isKey data) (j.visit w (textChunk isKey data))
  close : ∀ {n p j}, In n p j →
    Related E Out (p.visitAny penv (textEnd isKey)) (j.visit w (textEnd isKey))

section

variable (hS : InStep penv w isKey E In Out)

include hS

theorem flushPlain_inStep {n : ℕ} {plain : Bytes} (h : In (plain.length + n) p j) :
    Related E (In n) (Paths.flushPlain penv isKey plain p) (flushPlain w isKey plain j) := by
  apply Related.ite Iff.rfl
  · intro _
    exact .ok (hS.le h (Nat.le_add_left _ _))
  · intro hplain
    exact hS.chunk hplain h

/-- The staged bytes and the states behind a piece of a string. -/
def InStep.Staging (_ : InStep penv w isKey E In Out) (m : ℕ) (x : Bytes × PathIo υ)
    (y : Bytes × JsonIo χ) : Prop :=
  x.1 = y.1 ∧ In (x.1.length + m) x.2 y.2

theorem fillPlain_inStep {m : ℕ} :
    ∀ (n : ℕ) (plain data : Bytes) {p : PathIo υ} {j : JsonIo χ},
      In (plain.length + data.length + m) p j →
      Related E (hS.Staging m) (Paths.fillPlain penv isKey n plain data p)
        (fillPlain w isKey n plain data j) := by
  intro n
  induction n with
  | zero =>
      intro plain data p j h
      exact .error (hS.error h)
  | succ n ih =>
      intro plain data p j h
      have hlength := data.length_take (i := 256 - plain.length)
      have hrest := data.length_drop (i := 256 - plain.length)
      rw [Paths.fillPlain, fillPlain]
      apply Related.ite Iff.rfl
      · rintro rfl
        exact .ok ⟨rfl, hS.le h (by simp)⟩
      · intro hdata
        dsimp only
        apply Related.ite Iff.rfl
        · intro hfull
          have hne : plain ++ data.take (256 - plain.length) ≠ [] := by
            intro hnil
            simp [hnil] at hfull
          have hroom : In ((plain ++ data.take (256 - plain.length)).length +
              ((data.drop (256 - plain.length)).length + m)) p j :=
            hS.le h (by rw [List.length_append]; omega)
          apply (hS.chunk hne hroom).bind
          intro p' j' h'
          exact ih [] _ (hS.le h' (by simp))
        · intro _
          exact ih _ _ (hS.le h (by rw [List.length_append]; omega))

theorem visitPlainChunk_inStep {m : ℕ} (left : ℕ) (span plain : Bytes) (decoded : ℕ)
    (h : In (plain.length + span.length + m) p j) :
    Related E (hS.Staging m) (Paths.visitPlainChunk penv isKey left span plain decoded p)
      (visitPlainChunk penv.toVisitEnv w isKey left span plain decoded j) := by
  apply Related.ite Iff.rfl
  · rintro rfl
    exact .ok ⟨rfl, hS.le h (by simp)⟩
  intro hspan
  apply Related.ite Iff.rfl
  · intro _
    exact .error (hS.fail h _ _)
  intro _
  apply Related.ite Iff.rfl
  · intro _
    exact .error (hS.fail h _ _)
  intro _
  apply Related.ite Iff.rfl
  · rintro rfl
    have hroom : In (span.length + m) p j := hS.le h (by simp)
    apply (hS.chunk hspan hroom).map
    intro p' j' h'
    exact ⟨rfl, hS.le h' (by simp)⟩
  · intro _
    exact fillPlain_inStep hS _ plain span h

end

/-! ### Escapes -/

theorem visitQuad_agree (message : String) (hfail : FailsIn E p j) :
    ∀ (n cp : ℕ) (i : Text), Related E (fun x y => x = y ∧ x.2.length + n ≤ i.length)
      (Paths.visitQuad penv message n cp i p) (visitQuad penv.toVisitEnv message n cp i j) := by
  intro n
  induction n with
  | zero =>
      intro cp i
      exact .ok ⟨rfl, le_rfl⟩
  | succ n ih =>
      intro cp i
      cases i with
      | nil => exact .error (hfail _ _)
      | cons hx i =>
          rw [Paths.visitQuad, visitQuad]
          apply Related.ite Iff.rfl
          · intro _
            exact .error (hfail _ _)
          intro _
          cases hexValue hx with
          | none => exact .error (hfail _ _)
          | some hv =>
              apply (ih (pushHex cp hv) i).imp
              rintro x y ⟨hxy, hlength⟩
              exact ⟨hxy, Nat.succ_le_succ hlength⟩

theorem VisitEnv.reads_length {env : VisitEnv} {b : Byte} {i r : Text}
    (h : env.reads b i = some r) : r.length ≤ i.length := by
  cases i with
  | nil => cases h
  | cons c i =>
      rw [VisitEnv.reads] at h
      split at h
      · cases h
        exact Nat.le_succ _
      · cases h

theorem visitLow_agree (high : ℕ) (i : Text) (hfail : FailsIn E p j) :
    Related E (fun x y => x = y ∧ x.2.length ≤ i.length) (Paths.visitLow penv high i p)
      (visitLow penv.toVisitEnv high i j) := by
  rw [Paths.visitLow, visitLow]
  cases hreads : (penv.reads 0x5c i).bind (penv.reads 0x75) with
  | none => exact .error (hfail _ _)
  | some k =>
      obtain ⟨r, hr, hk⟩ := Option.bind_eq_some_iff.mp hreads
      have hlength := (VisitEnv.reads_length hk).trans (VisitEnv.reads_length hr)
      apply (visitQuad_agree _ hfail 4 0 k).bind
      rintro x y ⟨rfl, hx⟩
      apply Related.ite Iff.rfl
      · intro _
        exact .ok ⟨rfl, (Nat.le_of_add_right_le hx).trans hlength⟩
      · intro _
        exact .error (hfail _ _)

theorem visitUnicode_agree (i : Text) (hfail : FailsIn E p j) :
    Related E (fun x y => x = y ∧ x.2.length + 4 ≤ i.length) (Paths.visitUnicode penv i p)
      (visitUnicode penv.toVisitEnv i j) := by
  apply (visitQuad_agree _ hfail 4 0 i).bind
  rintro x y ⟨rfl, hx⟩
  apply Related.ite Iff.rfl
  · intro _
    apply (visitLow_agree x.1 x.2 hfail).imp
    rintro a b ⟨hab, ha⟩
    exact ⟨hab, (Nat.add_le_add_right ha 4).trans hx⟩
  intro _
  apply Related.ite Iff.rfl
  · intro _
    exact .error (hfail _ _)
  · intro _
    exact .ok ⟨rfl, hx⟩

theorem utf8Encode_length {cp : ℕ} {data : Bytes} (h : utf8Encode cp = some data) :
    data.length ≤ 4 := by
  rw [utf8Encode] at h
  split_ifs at h <;> cases h <;> simp

section

variable (hS : InStep penv w isKey E In Out)

include hS

/-- The text, the counter and the states behind an escape. -/
def InStep.Escaping (_ : InStep penv w isKey E In Out) (i : Text) (x : Text × ℕ × PathIo υ)
    (y : Text × ℕ × JsonIo χ) : Prop :=
  x.1 = y.1 ∧ x.2.1 = y.2.1 ∧ x.1.length ≤ i.length ∧ In x.1.length x.2.2 y.2.2

theorem deliverEscape_inStep {data : Bytes} {decoded : ℕ} {i k : Text} (hdata : data ≠ [])
    (hk : k.length ≤ i.length) (h : In (data.length + k.length) p j) :
    Related E (hS.Escaping i) (Paths.deliverEscape penv isKey data decoded k p)
      (deliverEscape penv.toVisitEnv w isKey data decoded k j) := by
  apply Related.ite Iff.rfl
  · intro _
    exact .error (hS.fail h _ _)
  intro _
  apply (hS.chunk hdata h).map
  intro p' j' h'
  exact ⟨rfl, rfl, hk, h'⟩

theorem visitEscape_inStep (decoded : ℕ) (i : Text) (h : In i.length p j) :
    Related E (hS.Escaping i) (Paths.visitEscape penv isKey decoded i p)
      (visitEscape penv.toVisitEnv w isKey decoded i j) := by
  cases i with
  | nil => exact .error (hS.fail h _ _)
  | cons ch i =>
      apply Related.ite Iff.rfl
      · intro _
        exact .error (hS.fail h _ _)
      intro _
      cases simpleEscape ch with
      | some out =>
          apply deliverEscape_inStep hS (by simp) (Nat.le_succ _) (hS.le h _)
          simp [Nat.add_comm]
      | none =>
          apply Related.ite Iff.rfl
          · intro _
            apply (visitUnicode_agree i (hS.fail h)).bind
            rintro ⟨cp, k⟩ y ⟨rfl, hk⟩
            cases hdata : utf8Encode cp with
            | none => exact .error (hS.fail h _ _)
            | some data =>
                have hlength := utf8Encode_length hdata
                have hne : data ≠ [] := by
                  rintro rfl
                  exact utf8Encode_ne_nil hdata rfl
                dsimp only at hk
                apply deliverEscape_inStep hS hne <;> dsimp only
                · exact (Nat.le_of_add_right_le hk).trans (Nat.le_succ _)
                · apply hS.le h
                  rw [List.length_cons]
                  omega
          · intro _
            exact .error (hS.fail h _ _)

/-! ### The loop -/

theorem visitTextByte_inStep
    {loop : Text → Bytes → ℕ → PathIo υ → Except (PathIo υ) (Text × PathIo υ)}
    {loop' : Text → Bytes → ℕ → JsonIo χ → Except (JsonIo χ) (Text × JsonIo χ)}
    (hloop : ∀ (i : Text) (plain : Bytes) (decoded : ℕ) {p : PathIo υ} {j : JsonIo χ},
      In (plain.length + i.length) p j →
      Related E (BehindToken Out i) (loop i plain decoded p) (loop' i plain decoded j))
    (decoded : ℕ) (i : Text) (plain : Bytes) (h : In (plain.length + i.length) p j) :
    Related E (BehindToken Out i) (Paths.visitTextByte penv isKey loop decoded i plain p)
      (visitTextByte penv.toVisitEnv w isKey loop' decoded i plain j) := by
  cases i with
  | nil => exact .error (hS.fail h _ _)
  | cons ch i =>
      rw [List.length_cons] at h
      apply Related.ite Iff.rfl
      · intro _
        exact .error (hS.fail h _ _)
      intro _
      apply Related.ite Iff.rfl
      · intro _
        apply (flushPlain_inStep hS h).bind
        intro p' j' h'
        apply (hS.close h').map
        intro p' j' hout
        exact ⟨rfl, hout, Nat.le_succ _⟩
      intro _
      apply Related.ite Iff.rfl
      · intro _
        exact .error (hS.fail h _ _)
      intro _
      apply Related.ite Iff.rfl
      · intro _
        have hplain : In ((plain ++ [ch]).length + i.length) p j := by
          apply hS.le h
          rw [List.length_append, List.length_singleton]
          omega
        apply Related.ite Iff.rfl
        · intro _
          exact .error (hS.fail h _ _)
        intro _
        apply Related.ite Iff.rfl
        · intro _
          apply (hS.chunk (by simp) hplain).bind
          intro p' j' h'
          apply (hloop i [] (decoded + 1) (hS.le h' (by simp))).imp
          intro x y hxy
          exact hxy.le (Nat.le_succ _)
        · intro _
          apply (hloop i (plain ++ [ch]) (decoded + 1) hplain).imp
          intro x y hxy
          exact hxy.le (Nat.le_succ _)
      · intro _
        apply (flushPlain_inStep hS h).bind
        intro p' j' h'
        apply (visitEscape_inStep hS decoded i (hS.le h' (Nat.le_succ _))).bind
        rintro ⟨k, d, q⟩ ⟨k', d', q'⟩ ⟨hk, hd, hlength, hq⟩
        obtain rfl : k = k' := hk
        obtain rfl : d = d' := hd
        apply (hloop k [] d (hS.le hq (by simp))).imp
        intro x y hxy
        exact hxy.le (hlength.trans (Nat.le_succ _))

theorem visitText_inStep :
    ∀ (n : ℕ) (i : Text) (plain : Bytes) (decoded : ℕ) {p : PathIo υ} {j : JsonIo χ},
      In (plain.length + i.length) p j →
      Related E (BehindToken Out i) (Paths.visitText penv isKey n i plain decoded p)
        (visitText penv.toVisitEnv w isKey n i plain decoded j) := by
  intro n
  induction n with
  | zero =>
      intro i plain decoded p j h
      exact .error (hS.error h)
  | succ n ih =>
      intro i plain decoded p j h
      have hspan : ((i.take (penv.window i.length)).takeWhile isPlain).length ≤ i.length :=
        (List.takeWhile_sublist _).length_le.trans (List.length_take_le' _ _)
      rw [Paths.visitText, visitText]
      generalize ((i.take (penv.window i.length)).takeWhile isPlain) = span at hspan
      have hdrop := i.length_drop (i := span.length)
      have hroom : In (plain.length + span.length + (i.drop span.length).length) p j :=
        hS.le h (by omega)
      apply (visitPlainChunk_inStep hS _ span plain _ hroom).bind
      rintro ⟨plain', p'⟩ ⟨plain'', j'⟩ ⟨hplain, h'⟩
      obtain rfl : plain' = plain'' := hplain
      apply (visitTextByte_inStep hS ih _ (i.drop span.length) plain' h').imp
      intro x y hxy
      exact hxy.le (by omega)

/-- A string behind its quote. -/
theorem visitString_inStep {i : Text}
    (hopen : Related E (In i.length)
      ((Paths.beginKey penv isKey p).visitAny penv (textBegin isKey))
      (j.visit w (textBegin isKey))) :
    Related E (BehindToken Out i) (Paths.visitString penv isKey i p)
      (visitString penv.toVisitEnv w isKey i j) := by
  apply hopen.bind
  intro p' j' h'
  exact visitText_inStep hS _ i [] 0 (hS.le h' (by simp))

end

/-! ## Numbers and literals -/

/-- The event is one inside a string or a number. -/
def VisitEvent.inScalar : VisitEvent → Bool
  | .stringBegin | .stringChunk _ | .numberBegin | .numberChunk _ => true
  | _ => false

/-- The event is the last one of a scalar. -/
def VisitEvent.endsScalar : VisitEvent → Bool
  | .stringEnd | .numberEnd | .bool _ | .null => true
  | _ => false

/-- The callbacks of a scalar keep both sides in step, and its last one leads to `Out`. -/
structure ScalarSteps (penv : PathEnv υ) (w : Visitor χ) (E At Out : PathIo υ → JsonIo χ → Prop) :
    Prop where
  error : ∀ {p j}, At p j → E p j
  fail : ∀ {p j}, At p j → FailsIn E p j
  event : ∀ {p j event}, At p j → event.inScalar = true →
    Related E At (p.visitAny penv event) (j.visit w event)
  last : ∀ {p j event}, At p j → event.endsScalar = true →
    Related E Out (p.visitAny penv event) (j.visit w event)

theorem visitDigits_agree (hfail : FailsIn E p j) : ∀ (buffer : Bytes) (i : Text),
    Related E (fun x y => x = y ∧ x.2.length ≤ i.length) (Paths.visitDigits penv p buffer i)
      (visitDigits penv.toVisitEnv j buffer i) := by
  intro buffer i
  induction i generalizing buffer with
  | nil => exact .ok ⟨rfl, le_rfl⟩
  | cons ch i ih =>
      rw [Paths.visitDigits, visitDigits]
      apply Related.ite Iff.rfl
      · intro _
        apply Related.ite Iff.rfl
        · intro _
          exact .error (hfail _ _)
        intro _
        apply Related.ite Iff.rfl
        · intro _
          exact .error (hfail _ _)
        intro _
        apply (ih (buffer ++ [ch])).imp
        rintro x y ⟨hxy, hlength⟩
        exact ⟨hxy, hlength.trans (Nat.le_succ _)⟩
      · intro _
        exact .ok ⟨rfl, le_rfl⟩

section

variable (hS : ScalarSteps penv w E At Out)

include hS

theorem visitNumber_steps (first : Byte) (i : Text) (h : At p j) :
    Related E (BehindToken Out i) (Paths.visitNumber penv first i p)
      (visitNumber penv.toVisitEnv w first i j) := by
  apply (hS.event h rfl).bind
  intro p' j' h'
  apply Related.ite Iff.rfl
  · intro _
    exact .error (hS.fail h' _ _)
  intro _
  apply (visitDigits_agree (hS.fail h') [first] i).bind
  rintro ⟨num, r⟩ y ⟨rfl, hr⟩
  apply Related.ite Iff.rfl
  · intro _
    apply (hS.event h' rfl).bind
    intro p'' j'' h''
    apply (hS.last h'' rfl).map
    intro p₃ j₃ h₃
    exact ⟨rfl, h₃, hr⟩
  · intro _
    exact .error (hS.fail h' _ _)

theorem visitLiteral_steps {event : VisitEvent} (hevent : event.endsScalar = true) (h : At p j) :
    ∀ rest i : Text, Related E (BehindToken Out i) (Paths.visitLiteral penv event rest i p)
      (visitLiteral penv.toVisitEnv w event rest i j) := by
  intro rest
  induction rest with
  | nil =>
      intro i
      apply (hS.last h hevent).map
      intro p' j' h'
      exact ⟨rfl, h', le_rfl⟩
  | cons c rest ih =>
      intro i
      cases i with
      | nil => exact .error (hS.fail h _ _)
      | cons ch i =>
          rw [Paths.visitLiteral, visitLiteral]
          apply Related.ite Iff.rfl
          · intro _
            exact .error (hS.fail h _ _)
          intro _
          apply Related.ite Iff.rfl
          · intro _
            apply (ih i).imp
            intro x y hxy
            exact hxy.le (Nat.le_succ _)
          · intro _
            exact .error (hS.fail h _ _)

/-- A string that is a value. -/
theorem visitString_steps (i : Text) (h : At p j) :
    Related E (BehindToken Out i) (Paths.visitString penv false i p)
      (visitString penv.toVisitEnv w false i j) := by
  have hstring : InStep penv w false E (fun _ => At) Out := {
    le := fun h _ => h
    error := hS.error
    fail := hS.fail
    chunk := fun {_ p j data} hdata h => by
      have hchunk : p.visitAnyChunk penv false data = p.visitAny penv (textChunk false data) :=
        if_neg hdata
      rw [hchunk]
      exact hS.event h rfl
    close := fun h => hS.last h rfl }
  exact visitString_inStep hstring (hS.event h rfl)

/-- A scalar, or a value that does not start. -/
theorem visitScalar_steps {ch : Byte} (k : Text) (h : At p j) :
    Related E (BehindToken Out k)
      (if ch = 0x74 then Paths.visitLiteral penv (.bool true) [0x72, 0x75, 0x65] k p
      else if ch = 0x66 then Paths.visitLiteral penv (.bool false) [0x61, 0x6c, 0x73, 0x65] k p
      else if ch = 0x6e then Paths.visitLiteral penv .null [0x75, 0x6c, 0x6c] k p
      else if isNumberStart ch then Paths.visitNumber penv ch k p
      else .error (p.fail .invalidJson "expected JSON value"))
      (if ch = 0x74 then
        visitLiteral penv.toVisitEnv w (.bool true) [0x72, 0x75, 0x65] k j
      else if ch = 0x66 then
        visitLiteral penv.toVisitEnv w (.bool false) [0x61, 0x6c, 0x73, 0x65] k j
      else if ch = 0x6e then visitLiteral penv.toVisitEnv w .null [0x75, 0x6c, 0x6c] k j
      else if isNumberStart ch then visitNumber penv.toVisitEnv w ch k j
      else .error (j.fail .invalidJson "expected JSON value")) := by
  apply Related.ite Iff.rfl
  · intro _
    exact visitLiteral_steps hS rfl h _ k
  intro _
  apply Related.ite Iff.rfl
  · intro _
    exact visitLiteral_steps hS rfl h _ k
  intro _
  apply Related.ite Iff.rfl
  · intro _
    exact visitLiteral_steps hS rfl h _ k
  intro _
  apply Related.ite Iff.rfl
  · intro _
    exact visitNumber_steps hS ch k h
  · intro _
    exact .error (hS.fail h _ _)

end

/-! ## Peeked bytes and colons -/

theorem visitPeek_length {env : VisitEnv} {io : JsonIo υ} {i r : Text}
    (h : visitPeek env io i = .ok r) : r.length ≤ i.length := by
  induction i with
  | nil =>
      cases h
      exact le_rfl
  | cons b i ih =>
      rw [visitPeek] at h
      split_ifs at h
      · exact (ih h).trans (Nat.le_succ _)
      · cases h
        exact le_rfl

theorem visitPeek_steps (i : Text) (hfail : FailsIn E p j) :
    Related E (fun x y => x = y ∧ x.length ≤ i.length)
      (p.lift (visitPeek penv.toVisitEnv p.toJsonIo i)) (visitPeek penv.toVisitEnv j i) := by
  induction i with
  | nil => exact .ok ⟨rfl, le_rfl⟩
  | cons b i ih =>
      rw [visitPeek, visitPeek]
      split
      · exact .error (hfail _ _)
      · split
        · apply ih.imp
          rintro x y ⟨hxy, hlength⟩
          exact ⟨hxy, hlength.trans (Nat.le_succ _)⟩
        · exact .ok ⟨rfl, le_rfl⟩

/-- What is peeked does not depend on the io record. -/
theorem visitPeek_ok_iff {env : VisitEnv} (io : JsonIo υ) (io' : JsonIo χ) (i r : Text) :
    visitPeek env io i = .ok r ↔ visitPeek env io' i = .ok r := by
  induction i with
  | nil => simp only [visitPeek, Except.ok.injEq]
  | cons b i ih =>
      rw [visitPeek, visitPeek]
      split
      · exact iff_of_false (fun h => by cases h) fun h => by cases h
      · split
        · exact ih
        · simp only [Except.ok.injEq]

theorem visitColon_other {env : VisitEnv} {io : JsonIo υ} {i : Text}
    (h : ∀ k, visitPeek env io i ≠ .ok (0x3a :: k)) :
    visitColon env i io = .error (io.fail .invalidJson "expected ':' after object key") := by
  rw [visitColon]
  split
  · next k hpeek => exact absurd hpeek (h k)
  · rfl

theorem Paths.visitColon_other {i : Text}
    (h : ∀ k, visitPeek penv.toVisitEnv p.toJsonIo i ≠ .ok (0x3a :: k)) :
    Paths.visitColon penv i p =
      .error (p.fail .invalidJson "expected ':' after object key") := by
  rw [Paths.visitColon]
  split
  · next k hpeek => exact absurd hpeek (h k)
  · rfl

theorem visitColon_steps (i : Text) (hfail : FailsIn E p j) (h : At p j) :
    Related E (BehindToken At i) (Paths.visitColon penv i p)
      (visitColon penv.toVisitEnv i j) := by
  by_cases hcolon : ∃ k, visitPeek penv.toVisitEnv p.toJsonIo i = .ok (0x3a :: k)
  · obtain ⟨k, hpeek⟩ := hcolon
    rw [Paths.visitColon, visitColon, hpeek, (visitPeek_ok_iff _ j _ _).mp hpeek]
    exact .ok ⟨rfl, h, (Nat.le_succ _).trans (visitPeek_length hpeek)⟩
  · have hother (k : Text) : visitPeek penv.toVisitEnv p.toJsonIo i ≠ .ok (0x3a :: k) := fun h =>
      hcolon ⟨k, h⟩
    have hother' (k : Text) : visitPeek penv.toVisitEnv j i ≠ .ok (0x3a :: k) := fun h =>
      hcolon ⟨k, (visitPeek_ok_iff _ _ _ _).mp h⟩
    rw [Paths.visitColon_other hother, visitColon_other hother']
    exact .error (hfail _ _)

theorem visitKey_other {env : VisitEnv} {v : Visitor υ} {io : JsonIo υ} {i : Text}
    (h : ∀ k, visitPeek env io i ≠ .ok (0x22 :: k)) :
    visitKey env v i io = .error (io.fail .invalidJson "expected object key") := by
  rw [visitKey]
  split
  · next k hpeek => exact absurd hpeek (h k)
  · rfl

theorem Paths.visitKey_other {i : Text}
    (h : ∀ k, visitPeek penv.toVisitEnv p.toJsonIo i ≠ .ok (0x22 :: k)) :
    Paths.visitKey penv i p = .error (p.fail .invalidJson "expected object key") := by
  rw [Paths.visitKey]
  split
  · next k hpeek => exact absurd hpeek (h k)
  · rfl

/-- A key and its colon, when the string of the key keeps both sides in step. -/
theorem visitKey_steps (i : Text) (hfail : FailsIn E p j)
    (hstring : ∀ k : Text, k.length < i.length → Related E (BehindToken Out k)
      (Paths.visitString penv true k p) (visitString penv.toVisitEnv w true k j))
    (hout : ∀ {p j}, Out p j → FailsIn E p j) :
    Related E (BehindToken Out i) (Paths.visitKey penv i p) (visitKey penv.toVisitEnv w i j) := by
  by_cases hquote : ∃ k, visitPeek penv.toVisitEnv p.toJsonIo i = .ok (0x22 :: k)
  · obtain ⟨k, hpeek⟩ := hquote
    have hk : k.length < i.length := visitPeek_length hpeek
    rw [Paths.visitKey, visitKey, hpeek, (visitPeek_ok_iff _ j _ _).mp hpeek]
    apply (hstring k hk).bind
    rintro ⟨r, p'⟩ ⟨r', j'⟩ ⟨hr, h', hlength⟩
    obtain rfl : r = r' := hr
    apply (visitColon_steps r (hout h') h').imp
    intro x y hxy
    exact hxy.le (hlength.trans hk.le)
  · have hother (k : Text) : visitPeek penv.toVisitEnv p.toJsonIo i ≠ .ok (0x22 :: k) := fun h =>
      hquote ⟨k, h⟩
    have hother' (k : Text) : visitPeek penv.toVisitEnv j i ≠ .ok (0x22 :: k) := fun h =>
      hquote ⟨k, (visitPeek_ok_iff _ _ _ _).mp h⟩
    rw [Paths.visitKey_other hother, visitKey_other hother']
    exact .error (hfail _ _)

/-! ## Values -/

/-- A container that is being visited: the key of the member, or the index of the item. -/
inductive OpenContainer where
  | object (key : Bytes)
  | array (index : UInt64)

/-- The containers around a place, the innermost first. -/
abbrev Nest := List OpenContainer

/-- The callbacks of a whole value, and the moves of the path stack, keep both sides in step:
`At nest` in front of a value, `Past nest` behind it, `Inside nest` between the members or items
of the innermost container, and `Keyed nest` behind the key of a member. -/
structure Walk (penv : PathEnv υ) (w : Visitor χ) (E : PathIo υ → JsonIo χ → Prop)
    (At Past Inside Keyed : Nest → PathIo υ → JsonIo χ → Prop) : Prop where
  scalar : ∀ nest, ScalarSteps penv w E (At nest) (Past nest)
  inside : ∀ {nest p j}, Inside nest p j → E p j ∧ FailsIn E p j
  keyed : ∀ {nest p j}, Keyed nest p j → FailsIn E p j
  objectBegin : ∀ {nest p j}, At nest p j → Related E (Inside (.object [] :: nest))
    (p.visitAny penv .objectBegin) (j.visit w .objectBegin)
  arrayBegin : ∀ {nest p j}, nest.length < penv.limits.maxDepth → At nest p j →
    Related E (Inside (.array 0 :: nest))
      ((p.setIndex penv fun _ => 0).visitAny penv .arrayBegin) (j.visit w .arrayBegin)
  key : ∀ {nest key p j} {i : Text}, nest.length < penv.limits.maxDepth → i.length < sizeMax →
    Inside (.object key :: nest) p j →
    Related E (BehindToken (fun p j => ∃ key, Keyed (.object key :: nest) p j) i)
      (Paths.visitString penv true i p) (visitString penv.toVisitEnv w true i j)
  pushKey : ∀ {nest key p j}, nest.length < penv.limits.maxDepth →
    Keyed (.object key :: nest) p j →
    ∃ p', p.pushObjectKey penv = .ok p' ∧ At (.object key :: nest) p' j
  pushIndex : ∀ {nest index p j}, nest.length < penv.limits.maxDepth →
    Inside (.array index :: nest) p j →
    ∃ p', p.pushArrayIndex penv = .ok p' ∧ At (.array index :: nest) p' j
  popKey : ∀ {nest key p j}, Past (.object key :: nest) p j → Inside (.object key :: nest) p.pop j
  popIndex : ∀ {nest index p j}, nest.length < penv.limits.maxDepth →
    Past (.array index :: nest) p j →
    Inside (.array (index + 1) :: nest) (p.pop.setIndex penv (· + 1)) j
  objectEnd : ∀ {nest key p j}, Inside (.object key :: nest) p j →
    Related E (Past nest) (p.visitAny penv .objectEnd) (j.visit w .objectEnd)
  arrayEnd : ∀ {nest index p j}, Inside (.array index :: nest) p j →
    Related E (Past nest) (p.visitAny penv .arrayEnd) (j.visit w .arrayEnd)

section

variable {At Past Inside Keyed : Nest → PathIo υ → JsonIo χ → Prop}

/-- The values that `n` levels of the recursion can visit keep both sides in step. -/
def Walk.Values (_ : Walk penv w E At Past Inside Keyed) (n : ℕ) : Prop :=
  ∀ (nest : Nest) (i : Text) (p : PathIo υ) (j : JsonIo χ),
    nest.length ≤ penv.limits.maxDepth → i.length ≤ sizeMax → At nest p j →
    Related E (BehindToken (Past nest) i) (Paths.visitValue penv n nest.length i p)
      (visitValue penv.toVisitEnv w n nest.length i j)

def Walk.Members (_ : Walk penv w E At Past Inside Keyed) (n : ℕ) : Prop :=
  ∀ (nest : Nest) (key : Bytes) (first : Bool) (i : Text) (p : PathIo υ) (j : JsonIo χ),
    nest.length < penv.limits.maxDepth → i.length ≤ sizeMax → Inside (.object key :: nest) p j →
    Related E (BehindToken (Past nest) i) (Paths.visitMembers penv n nest.length first i p)
      (visitMembers penv.toVisitEnv w n nest.length first i j)

def Walk.Items (_ : Walk penv w E At Past Inside Keyed) (n : ℕ) : Prop :=
  ∀ (nest : Nest) (index : UInt64) (first : Bool) (i : Text) (p : PathIo υ) (j : JsonIo χ),
    nest.length < penv.limits.maxDepth → i.length ≤ sizeMax → Inside (.array index :: nest) p j →
    Related E (BehindToken (Past nest) i) (Paths.visitItems penv n nest.length first i p)
      (visitItems penv.toVisitEnv w n nest.length first i j)

variable (hW : Walk penv w E At Past Inside Keyed)

theorem Walk.members_succ {n : ℕ} (hvalues : hW.Values n) (hmembers : hW.Members n) :
    hW.Members (n + 1) := by
  intro nest key first i p j hdepth hi h
  have hfail := (hW.inside h).2
  rw [Paths.visitMembers, visitMembers]
  apply (visitPeek_steps i hfail).bind
  rintro k k' ⟨rfl, hk⟩
  cases k with
  | nil => exact .error (hfail _ _)
  | cons ch k =>
      rw [List.length_cons] at hk
      apply Related.ite Iff.rfl
      · intro _
        apply (hW.objectEnd h).map
        intro p' j' h'
        exact ⟨rfl, h', (Nat.le_succ _).trans hk⟩
      intro _
      apply Related.ite Iff.rfl
      · intro _
        exact .error (hfail _ _)
      intro _
      have hkey : (if first then ch :: k else k).length ≤ i.length := by
        cases first
        · exact (Nat.le_succ _).trans hk
        · exact hk
      have hstring (k' : Text) (hk' : k'.length < (if first then ch :: k else k).length) :=
        @Walk.key _ _ _ _ _ _ _ _ _ hW _ _ _ _ k' hdepth (by omega) h
      have hkeyed {p : PathIo υ} {j : JsonIo χ}
          (h : ∃ key, Keyed (.object key :: nest) p j) : FailsIn E p j := by
        obtain ⟨_, h⟩ := h
        exact hW.keyed h
      apply (visitKey_steps _ hfail hstring hkeyed).bind
      rintro ⟨r, p₁⟩ ⟨r', j₁⟩ ⟨hr, ⟨key', h₁⟩, hlength₁⟩
      obtain rfl : r = r' := hr
      obtain ⟨p₂, hpush, h₂⟩ := hW.pushKey hdepth h₁
      dsimp only at hpush hlength₁ ⊢
      rw [hpush]
      have hchild := hvalues (.object key' :: nest) r p₂ j₁ hdepth (by omega) h₂
      apply hchild.bind
      rintro ⟨s, p₃⟩ ⟨s', j₃⟩ ⟨hs, h₃, hlength₃⟩
      obtain rfl : s = s' := hs
      dsimp only at hlength₃
      apply (hmembers nest key' false s p₃.pop j₃ hdepth (by omega) (hW.popKey h₃)).imp
      intro x y hxy
      exact hxy.le (by omega)

theorem Walk.items_succ {n : ℕ} (hvalues : hW.Values n) (hitems : hW.Items n) :
    hW.Items (n + 1) := by
  intro nest index first i p j hdepth hi h
  have hfail := (hW.inside h).2
  rw [Paths.visitItems, visitItems]
  apply (visitPeek_steps i hfail).bind
  rintro k k' ⟨rfl, hk⟩
  cases k with
  | nil => exact .error (hfail _ _)
  | cons ch k =>
      rw [List.length_cons] at hk
      apply Related.ite Iff.rfl
      · intro _
        apply (hW.arrayEnd h).map
        intro p' j' h'
        exact ⟨rfl, h', (Nat.le_succ _).trans hk⟩
      intro _
      apply Related.ite Iff.rfl
      · intro _
        exact .error (hfail _ _)
      intro _
      have hitem : (if first then ch :: k else k).length ≤ i.length := by
        cases first
        · exact (Nat.le_succ _).trans hk
        · exact hk
      obtain ⟨p₂, hpush, h₂⟩ := hW.pushIndex hdepth h
      rw [hpush]
      have hchild := hvalues (.array index :: nest) _ p₂ j hdepth (hitem.trans hi) h₂
      apply hchild.bind
      rintro ⟨s, p₃⟩ ⟨s', j₃⟩ ⟨hs, h₃, hlength₃⟩
      obtain rfl : s = s' := hs
      dsimp only at hlength₃
      apply (hitems nest _ false s _ j₃ hdepth (by omega) (hW.popIndex hdepth h₃)).imp
      intro x y hxy
      exact hxy.le (by omega)

theorem Walk.values_succ {n : ℕ} (hmembers : hW.Members n) (hitems : hW.Items n) :
    hW.Values (n + 1) := by
  intro nest i p j hdepth hi h
  have hS := hW.scalar nest
  have hfail := hS.fail h
  rw [Paths.visitValue, visitValue]
  apply (visitPeek_steps i hfail).bind
  rintro k k' ⟨rfl, hk⟩
  cases k with
  | nil => exact .error (hfail _ _)
  | cons ch k =>
      rw [List.length_cons] at hk
      have hbehind {x : Text × PathIo υ} {y : Text × JsonIo χ} (hxy : BehindToken (Past nest) k x y) :
          BehindToken (Past nest) i x y := hxy.le (by omega)
      apply Related.ite Iff.rfl
      · intro _
        exact (visitString_steps hS k h).imp fun _ _ => hbehind
      intro _
      apply Related.ite Iff.rfl
      · intro _
        apply Related.ite Iff.rfl
        · intro _
          exact .error (hfail _ _)
        intro hopen
        apply (hW.objectBegin h).bind
        intro p' j' h'
        exact (hmembers nest [] true k p' j' (Nat.lt_of_not_le hopen) (by omega) h').imp
          fun _ _ => hbehind
      intro _
      apply Related.ite Iff.rfl
      · intro _
        apply Related.ite Iff.rfl
        · intro _
          exact .error (hfail _ _)
        intro hopen
        apply (hW.arrayBegin (Nat.lt_of_not_le hopen) h).bind
        intro p' j' h'
        exact (hitems nest 0 true k p' j' (Nat.lt_of_not_le hopen) (by omega) h').imp
          fun _ _ => hbehind
      intro _
      exact (visitScalar_steps hS k h).imp fun _ _ => hbehind

/-- The two visitors keep in step. -/
theorem Walk.runs (n : ℕ) : hW.Values n ∧ hW.Members n ∧ hW.Items n := by
  induction n with
  | zero =>
      refine ⟨?_, ?_, ?_⟩
      · intro nest i p j _ _ h
        exact .error ((hW.scalar nest).error h)
      · intro nest key first i p j _ _ h
        exact .error (hW.inside h).1
      · intro nest index first i p j _ _ h
        exact .error (hW.inside h).1
  | succ n ih =>
      obtain ⟨hvalues, hmembers, hitems⟩ := ih
      exact ⟨hW.values_succ hmembers hitems, hW.members_succ hvalues hmembers,
        hW.items_succ hvalues hitems⟩

end

end Lonejson
