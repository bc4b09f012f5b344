import Lonejson.PathWalk

/-!
# The two visitors agree

The visitor with paths, given the callbacks of a value visitor, makes the calls of the
visitor without paths, as long as the path stack has room for what it descends into. With a
depth limit of `SIZE_MAX` the capacity of the stack wraps to zero, and the visitor with paths
stops where it first descends.
-/

namespace Lonejson

open Json (Text Related Follows)

variable {υ : Type} {env : VisitEnv} {v : Visitor υ} {grants : ℕ → Bool} {segs : List Bytes}
  {isKey : Bool} {p : PathIo υ} {j : JsonIo υ}

/-- Both visitors have the same io record. -/
def SameIo (p : PathIo υ) (j : JsonIo υ) : Prop := p.toJsonIo = j

/-- `n` more bytes of a key can be counted in a `size_t`. -/
def KeyFits (env : VisitEnv) (isKey : Bool) (n : ℕ) (p : PathIo υ) : Prop :=
  isKey = true → p.pathDepth < env.pathCapacity → p.frame.key.length + n < sizeMax

/-- In a string: the same io record, the stack as it was, and room for `n` bytes. -/
def InText (env : VisitEnv) (segs : List Bytes) (isKey : Bool) (n : ℕ) (p : PathIo υ)
    (j : JsonIo υ) : Prop :=
  p.toJsonIo = j ∧ p.segments = segs ∧ KeyFits env isKey n p

theorem InText.le {n m : ℕ} (h : InText env segs isKey n p j) (hm : m ≤ n) :
    InText env segs isKey m p j :=
  ⟨h.1, h.2.1, fun hkey hcap => lt_of_le_of_lt (Nat.add_le_add_left hm _) (h.2.2 hkey hcap)⟩

theorem InText.same {n : ℕ} (h : InText env segs isKey n p j) : SameIo p j := h.1

theorem InText.fail {n : ℕ} (h : InText env segs isKey n p j) (code : Status) (message : String) :
    SameIo (p.fail code message) (j.fail code message) :=
  congrArg (JsonIo.fail · code message) h.1

/-! ## Callbacks -/

theorem PathIo.visit_agree (p : PathIo υ) (event : VisitEvent) :
    Related SameIo (fun p' j' => p' = { p with toJsonIo := j' }) (p.visit v event)
      (p.toJsonIo.visit v event) := by
  rw [PathIo.visit]
  cases h : p.toJsonIo.visit v event with
  | error j => exact .error rfl
  | ok j => exact .ok rfl

theorem PathIo.visitAny_agree (p : PathIo υ) (event : VisitEvent) :
    Related SameIo (fun p' j' => p' = { p with toJsonIo := j' })
      (p.visitAny (env.onPaths v grants) event) (p.toJsonIo.visit v event) :=
  p.visit_agree event

theorem visitAny_inText {n : ℕ} (h : InText env segs isKey n p j) (event : VisitEvent) :
    Related SameIo (InText env segs isKey n) (p.visitAny (env.onPaths v grants) event)
      (j.visit v event) := by
  obtain ⟨rfl, hsegs, hfits⟩ := h
  apply (p.visitAny_agree event).imp
  rintro p' j' rfl
  exact ⟨rfl, hsegs, hfits⟩

theorem PathIo.keyAppend_spec (hgrants : ∀ n, grants n = true) {n : ℕ} {data : Bytes}
    (h : InText env segs true (data.length + n) p j) :
    ∃ p', p.keyAppend (env.onPaths v grants) data = .ok p' ∧ InText env segs true n p' j := by
  by_cases hcap : p.pathDepth < env.pathCapacity
  · obtain ⟨hio, hsegs, hfits⟩ := h
    have hroom := hfits rfl hcap
    have hgrant : ∀ n, (env.onPaths v grants).grants n = true := hgrants
    obtain ⟨frame, hkey, -, hrun | ⟨-, hrun⟩⟩ := PathIo.keyAppend_eq hgrant hcap
      (show p.frame.key.length + data.length < sizeMax by omega)
    · refine ⟨_, hrun, hio, hsegs, fun _ _ => ?_⟩
      rw [PathIo.setFrame_frame, hkey, List.length_append]
      omega
    · exact ⟨_, hrun, hio, hsegs, fun _ _ => by omega⟩
  · refine ⟨p, ?_, h.le (Nat.le_add_left _ _)⟩
    rw [PathIo.keyAppend, if_pos (.inr (Nat.le_of_not_lt hcap))]

theorem visitAnyChunk_agree (hgrants : ∀ n, grants n = true) {n : ℕ} {data : Bytes}
    (hdata : data ≠ []) (h : InText env segs isKey (data.length + n) p j) :
    Related SameIo (InText env segs isKey n) (p.visitAnyChunk (env.onPaths v grants) isKey data)
      (j.visit v (textChunk isKey data)) := by
  have hready : ∃ p', (if isKey then p.keyAppend (env.onPaths v grants) data else .ok p) =
      .ok p' ∧ InText env segs isKey n p' j := by
    cases isKey with
    | false => exact ⟨p, rfl, h.le (Nat.le_add_left _ _)⟩
    | true => exact PathIo.keyAppend_spec hgrants h
  obtain ⟨p', happend, h'⟩ := hready
  rw [PathIo.visitAnyChunk, happend]
  change Related _ _ (if data = [] then _ else _) _
  rw [if_neg hdata]
  exact visitAny_inText h' _

/-- The text and the io records behind a string, or behind a value. -/
def Behind (segs : List Bytes) (i : Text) (x : Text × PathIo υ) (y : Text × JsonIo υ) : Prop :=
  x.1 = y.1 ∧ x.2.toJsonIo = y.2 ∧ x.2.segments = segs ∧ x.1.length ≤ i.length

theorem Behind.le {i k : Text} {x : Text × PathIo υ} {y : Text × JsonIo υ}
    (h : Behind segs i x y) (hk : i.length ≤ k.length) : Behind segs k x y :=
  ⟨h.1, h.2.1, h.2.2.1, h.2.2.2.trans hk⟩

/-- Between tokens: the same io record and the stack as it was. -/
def Between (segs : List Bytes) (p : PathIo υ) (j : JsonIo υ) : Prop :=
  p.toJsonIo = j ∧ p.segments = segs

theorem Between.fail (h : Between segs p j) (code : Status) (message : String) :
    SameIo (p.fail code message) (j.fail code message) :=
  congrArg (JsonIo.fail · code message) h.1

theorem visitAny_between (h : Between segs p j) (event : VisitEvent) :
    Related SameIo (Between segs) (p.visitAny (env.onPaths v grants) event)
      (j.visit v event) := by
  obtain ⟨rfl, hsegs⟩ := h
  apply (p.visitAny_agree event).imp
  rintro p' j' rfl
  exact ⟨rfl, hsegs⟩

theorem visitAny_behind {i k : Text} (h : Between segs p j) (event : VisitEvent)
    (hk : k.length ≤ i.length) :
    Related SameIo (Behind segs i) ((p.visitAny (env.onPaths v grants) event).map (k, ·))
      ((j.visit v event).map (k, ·)) := by
  apply (visitAny_between h event).map
  intro p' j' h'
  exact ⟨rfl, h'.1, h'.2, hk⟩

theorem beginKey_inText (h : Between segs p j) {i : Text} (hi : i.length < sizeMax) :
    InText env segs isKey i.length (Paths.beginKey (env.onPaths v grants) isKey p) j := by
  rw [Paths.beginKey]
  split
  · refine ⟨h.1, h.2, fun _ _ => ?_⟩
    rw [PathIo.setFrame_frame]
    simpa using hi
  · next hroom => exact ⟨h.1, h.2, fun hkey hcap => absurd ⟨hkey, hcap⟩ hroom⟩

/-- Between tokens the callbacks keep the io records equal. -/
theorem between_steps :
    ScalarSteps (env.onPaths v grants) v SameIo (Between segs) (Between segs) where
  error h := h.1
  fail h := h.fail
  event h _ := visitAny_between h _
  last h _ := visitAny_between h _

/-- Inside a string too, as long as its key can be counted. -/
theorem inText_inStep (hgrants : ∀ n, grants n = true) :
    InStep (env.onPaths v grants) v isKey SameIo (InText env segs isKey) (Between segs) where
  le h hm := h.le hm
  error h := h.same
  fail h := h.fail
  chunk hdata h := visitAnyChunk_agree hgrants hdata h
  close h := by
    apply (visitAny_inText h _).imp
    intro p' j' h'
    exact ⟨h'.1, h'.2.1⟩

theorem BehindToken.behind {i : Text} {x : Text × PathIo υ} {y : Text × JsonIo υ}
    (h : BehindToken (Between segs) i x y) : Behind segs i x y :=
  ⟨h.1, h.2.1.1, h.2.1.2, h.2.2⟩

theorem visitString_agree (hgrants : ∀ n, grants n = true) {i : Text} (hi : i.length < sizeMax)
    (h : Between segs p j) :
    Related SameIo (Behind segs i) (Paths.visitString (env.onPaths v grants) isKey i p)
      (visitString env v isKey i j) := by
  have hopen : InText env segs isKey i.length (Paths.beginKey (env.onPaths v grants) isKey p) j :=
    beginKey_inText h hi
  exact (visitString_inStep (inText_inStep hgrants) (visitAny_inText hopen _)).imp fun _ _ =>
    BehindToken.behind

/-! ## Values -/

theorem visitPeek_agree (i : Text) (h : Between segs p j) :
    Related SameIo (fun x y => x = y ∧ x.length ≤ i.length) (p.lift (visitPeek env p.toJsonIo i))
      (visitPeek env j i) :=
  @visitPeek_steps _ _ (env.onPaths (fun out _ error => (out, error, .ok)) fun _ => true) _ _ _ i h.fail

theorem VisitEnv.onPaths_toVisitEnv : (env.onPaths v grants).toVisitEnv = env := rfl

theorem visitKey_agree (hgrants : ∀ n, grants n = true) {i : Text} (hi : i.length ≤ sizeMax)
    (h : Between segs p j) :
    Related SameIo (Behind segs i) (Paths.visitKey (env.onPaths v grants) i p)
      (visitKey env v i j) := by
  have hstring (k : Text) (hk : k.length < i.length) :
      Related SameIo (BehindToken (Between segs) k)
        (Paths.visitString (env.onPaths v grants) true k p) (visitString env v true k j) := by
    apply (visitString_agree hgrants (by omega) h).imp
    intro x y hxy
    exact ⟨hxy.1, ⟨hxy.2.1, hxy.2.2.1⟩, hxy.2.2.2⟩
  exact (visitKey_steps i h.fail hstring fun h => h.fail).imp fun _ _ => BehindToken.behind

/-! ### The path stack -/

theorem setIndex_between (h : Between segs p j) (penv : PathEnv υ) (index : UInt64 → UInt64) :
    Between segs (p.setIndex penv index) j := by
  rw [PathIo.setIndex]
  split <;> exact h

/-! ### The recursion -/

/-- The same io record, and a segment for each of the containers around. -/
def Level (nest : Nest) (p : PathIo υ) (j : JsonIo υ) : Prop :=
  p.toJsonIo = j ∧ p.segments.length = nest.length

theorem Level.between {nest : Nest} (h : Level nest p j) : Between p.segments p j := ⟨h.1, rfl⟩

theorem visitAny_level {nest : Nest} (h : Level nest p j) (event : VisitEvent) :
    Related SameIo (Level nest) (p.visitAny (env.onPaths v grants) event) (j.visit v event) := by
  apply (visitAny_between h.between event).imp
  intro p' j' h'
  exact ⟨h'.1, h'.2 ▸ h.2⟩

theorem pop_level {c : OpenContainer} {nest : Nest} (h : Level (c :: nest) p j) :
    Level nest p.pop j := by
  refine ⟨h.1, ?_⟩
  change p.segments.dropLast.length = nest.length
  rw [List.length_dropLast, h.2, List.length_cons, Nat.add_sub_cancel]

theorem push_level {c : OpenContainer} {nest : Nest} (h : Level nest p j) (last : Bytes) :
    Level (c :: nest) { p with segments := p.segments ++ [last] } j :=
  ⟨h.1, by rw [List.length_append, List.length_singleton, h.2, List.length_cons]⟩

theorem level_walk (hgrants : ∀ n, grants n = true)
    (hcapacity : env.limits.maxDepth < env.pathCapacity) :
    Walk (env.onPaths v grants) v SameIo Level Level (fun nest => Level nest.tail)
      (fun nest => Level nest.tail) where
  scalar nest := {
    error := fun h => h.1
    fail := fun h => h.between.fail
    event := fun h _ => visitAny_level h _
    last := fun h _ => visitAny_level h _ }
  inside h := ⟨h.1, h.between.fail⟩
  keyed h := h.between.fail
  objectBegin h := visitAny_level h _
  arrayBegin hdepth h := by
    apply visitAny_level
    have hindex := setIndex_between h.between (env.onPaths v grants) fun _ => 0
    exact ⟨hindex.1, hindex.2 ▸ h.2⟩
  key hdepth hi h := by
    apply (visitString_agree hgrants hi h.between).imp
    rintro x y ⟨hr, hio, hsegs, hlength⟩
    exact ⟨hr, ⟨[], hio, hsegs ▸ h.2⟩, hlength⟩
  pushKey hdepth h :=
    ⟨_, if_neg (Nat.not_le.mpr (lt_of_eq_of_lt h.2 (lt_trans hdepth hcapacity))), push_level h _⟩
  pushIndex hdepth h :=
    ⟨_, PathIo.pushArrayIndex_eq (lt_of_eq_of_lt h.2 (lt_trans hdepth hcapacity)), push_level h _⟩
  popKey h := pop_level h
  popIndex hdepth h := by
    have hpop := pop_level h
    have hindex := setIndex_between hpop.between (env.onPaths v grants) (· + 1)
    exact ⟨hindex.1, hindex.2 ▸ hpop.2⟩
  objectEnd h := visitAny_level h _
  arrayEnd h := visitAny_level h _

/-! ## A stack without room -/

/-- Callbacks that go on, whatever they are told. -/
def silent : Visitor Unit := fun u _ error => (u, error, .ok)

/-- The value goes one level down: it is an array with an element to visit, or an object whose
first key is read, with its colon. -/
def descends (env : VisitEnv) (i : Text) : Bool :=
  match visitPeek env ({ out := () } : JsonIo Unit) i with
  | .ok (ch :: i) =>
    match visitPeek env ({ out := () } : JsonIo Unit) i with
    | .ok (c :: j) =>
      if ch = 0x5b then c != 0x5d
      else ch == 0x7b && c != 0x7d && (visitKey env silent (c :: j) { out := () }).isOk
    | _ => false
  | _ => false

/-- The events of a key. -/
def VisitEvent.ofKey : VisitEvent → Bool
  | .keyBegin | .keyChunk _ | .keyEnd => true
  | _ => false

section

variable {χ : Type} {w : Visitor χ} {I : χ → Prop}

/-- In the states of `I` the visitor goes on after each event of a key, and stays in `I`. -/
def Accepts (w : Visitor χ) (I : χ → Prop) : Prop :=
  ∀ out event error, event.ofKey = true → I out →
    (w out event error).2.2.soft = true ∧ I (w out event error).1

theorem visit_follows (hw : Accepts w I) {event : VisitEvent} (hevent : event.ofKey = true)
    {k : JsonIo χ} (hk : I k.out) (j : JsonIo υ) :
    Follows (fun k' (_ : JsonIo υ) => I k'.out) (k.visit w event) (j.visit v event) := by
  intro j' _
  obtain ⟨hsoft, hI⟩ := hw k.out event k.error hevent hk
  exact ⟨_, if_pos hsoft, hI⟩

theorem chunk_follows (hw : Accepts w I) (data : Bytes) {k : JsonIo χ} (hk : I k.out)
    (j : JsonIo υ) :
    Follows (fun k' (_ : JsonIo υ) => I k'.out) (k.visit w (textChunk true data))
      (j.visit v (textChunk true data)) :=
  visit_follows hw rfl hk j

theorem flushPlain_follows (hw : Accepts w I) (plain : Bytes) {k : JsonIo χ} (hk : I k.out)
    (j : JsonIo υ) :
    Follows (fun k' (_ : JsonIo υ) => I k'.out) (flushPlain w true plain k)
      (flushPlain v true plain j) := by
  apply Follows.ite
  · intro _
    exact .ok hk
  · intro _
    exact chunk_follows hw plain hk j

/-- Equal texts, and a state of `I`. -/
def AlsoIn (I : χ → Prop) {α : Type} (x : α × JsonIo χ) (y : α × JsonIo υ) : Prop :=
  x.1 = y.1 ∧ I x.2.out

theorem fillPlain_follows (hw : Accepts w I) :
    ∀ (n : ℕ) (plain data : Bytes) {k : JsonIo χ} (j : JsonIo υ), I k.out →
      Follows (AlsoIn I) (fillPlain w true n plain data k) (fillPlain v true n plain data j) := by
  intro n
  induction n with
  | zero =>
      intro plain data k j hk
      exact Follows.error _ _
  | succ n ih =>
      intro plain data k j hk
      rw [fillPlain, fillPlain]
      apply Follows.ite
      · intro _
        exact .ok ⟨rfl, hk⟩
      intro _
      apply Follows.ite
      · intro _
        apply (chunk_follows hw _ hk j).bind
        intro k' j' hk'
        exact ih _ _ j' hk'
      · intro _
        exact ih _ _ j hk

theorem visitPlainChunk_follows (hw : Accepts w I) (left : ℕ) (span plain : Bytes) (decoded : ℕ)
    {k : JsonIo χ} (hk : I k.out) (j : JsonIo υ) :
    Follows (AlsoIn I) (visitPlainChunk env w true left span plain decoded k)
      (visitPlainChunk env v true left span plain decoded j) := by
  apply Follows.ite
  · intro _
    exact .ok ⟨rfl, hk⟩
  intro _
  apply Follows.ite
  · intro _
    exact Follows.error _ _
  intro _
  apply Follows.ite
  · intro _
    exact Follows.error _ _
  intro _
  apply Follows.ite
  · intro _
    apply (chunk_follows hw span hk j).map
    intro k' j' hk'
    exact ⟨rfl, hk'⟩
  · intro _
    exact fillPlain_follows hw _ plain span j hk

theorem visitQuad_follows (message : String) (k : JsonIo χ) (j : JsonIo υ) :
    ∀ (n cp : ℕ) (i : Text),
      Follows Eq (visitQuad env message n cp i k) (visitQuad env message n cp i j) := by
  intro n
  induction n with
  | zero =>
      intro cp i
      exact .ok rfl
  | succ n ih =>
      intro cp i
      cases i with
      | nil => exact Follows.error _ _
      | cons hx i =>
          rw [visitQuad, visitQuad]
          apply Follows.ite
          · intro _
            exact Follows.error _ _
          intro _
          cases hexValue hx with
          | none => exact Follows.error _ _
          | some hv => exact ih _ i

theorem visitLow_follows (high : ℕ) (i : Text) (k : JsonIo χ) (j : JsonIo υ) :
    Follows Eq (visitLow env high i k) (visitLow env high i j) := by
  rw [visitLow, visitLow]
  cases (env.reads 0x5c i).bind (env.reads 0x75) with
  | none => exact Follows.error _ _
  | some r =>
      apply (visitQuad_follows _ k j 4 0 r).bind
      rintro x _ rfl
      apply Follows.ite
      · intro _
        exact .ok rfl
      · intro _
        exact Follows.error _ _

theorem visitUnicode_follows (i : Text) (k : JsonIo χ) (j : JsonIo υ) :
    Follows Eq (visitUnicode env i k) (visitUnicode env i j) := by
  apply (visitQuad_follows _ k j 4 0 i).bind
  rintro x _ rfl
  apply Follows.ite
  · intro _
    exact visitLow_follows x.1 x.2 k j
  intro _
  apply Follows.ite
  · intro _
    exact Follows.error _ _
  · intro _
    exact .ok rfl

/-- Equal texts and counters, and a state of `I`. -/
def AlsoBehind (I : χ → Prop) (x : Text × ℕ × JsonIo χ) (y : Text × ℕ × JsonIo υ) : Prop :=
  x.1 = y.1 ∧ x.2.1 = y.2.1 ∧ I x.2.2.out

theorem deliverEscape_follows (hw : Accepts w I) (data : Bytes) (decoded : ℕ) (i : Text)
    {k : JsonIo χ} (hk : I k.out) (j : JsonIo υ) :
    Follows (AlsoBehind I) (deliverEscape env w true data decoded i k)
      (deliverEscape env v true data decoded i j) := by
  apply Follows.ite
  · intro _
    exact Follows.error _ _
  intro _
  apply (chunk_follows hw data hk j).map
  intro k' j' hk'
  exact ⟨rfl, rfl, hk'⟩

theorem visitEscape_follows (hw : Accepts w I) (decoded : ℕ) (i : Text) {k : JsonIo χ}
    (hk : I k.out) (j : JsonIo υ) :
    Follows (AlsoBehind I) (visitEscape env w true decoded i k)
      (visitEscape env v true decoded i j) := by
  cases i with
  | nil => exact Follows.error _ _
  | cons ch i =>
      apply Follows.ite
      · intro _
        exact Follows.error _ _
      intro _
      cases simpleEscape ch with
      | some out => exact deliverEscape_follows hw _ _ i hk j
      | none =>
          apply Follows.ite
          · intro _
            apply (visitUnicode_follows i k j).bind
            rintro x _ rfl
            cases utf8Encode x.1 with
            | none => exact Follows.error _ _
            | some data => exact deliverEscape_follows hw data _ x.2 hk j
          · intro _
            exact Follows.error _ _

theorem visitTextByte_follows (hw : Accepts w I)
    {loop : Text → Bytes → ℕ → JsonIo χ → Except (JsonIo χ) (Text × JsonIo χ)}
    {loop' : Text → Bytes → ℕ → JsonIo υ → Except (JsonIo υ) (Text × JsonIo υ)}
    (hloop : ∀ (i : Text) (plain : Bytes) (decoded : ℕ) {k : JsonIo χ} (j : JsonIo υ),
      I k.out → Follows (AlsoIn I) (loop i plain decoded k) (loop' i plain decoded j))
    (decoded : ℕ) (i : Text) (plain : Bytes) {k : JsonIo χ} (hk : I k.out) (j : JsonIo υ) :
    Follows (AlsoIn I) (visitTextByte env w true loop decoded i plain k)
      (visitTextByte env v true loop' decoded i plain j) := by
  cases i with
  | nil => exact Follows.error _ _
  | cons ch i =>
      apply Follows.ite
      · intro _
        exact Follows.error _ _
      intro _
      apply Follows.ite
      · intro _
        apply (flushPlain_follows hw plain hk j).bind
        intro k' j' hk'
        have hend : (textEnd true).ofKey = true := rfl
        apply (visit_follows hw hend hk' j').map
        intro k'' j'' hk''
        exact ⟨rfl, hk''⟩
      intro _
      apply Follows.ite
      · intro _
        exact Follows.error _ _
      intro _
      apply Follows.ite
      · intro _
        apply Follows.ite
        · intro _
          exact Follows.error _ _
        intro _
        apply Follows.ite
        · intro _
          apply (chunk_follows hw _ hk j).bind
          intro k' j' hk'
          exact hloop i [] _ j' hk'
        · intro _
          exact hloop i _ _ j hk
      · intro _
        apply (flushPlain_follows hw plain hk j).bind
        intro k' j' hk'
        apply (visitEscape_follows hw decoded i hk' j').bind
        rintro ⟨r, d, k''⟩ ⟨r', d', j''⟩ ⟨hr, hd, hk''⟩
        obtain rfl : r = r' := hr
        obtain rfl : d = d' := hd
        exact hloop r [] d j'' hk''

theorem visitText_follows (hw : Accepts w I) :
    ∀ (n : ℕ) (i : Text) (plain : Bytes) (decoded : ℕ) {k : JsonIo χ} (j : JsonIo υ), I k.out →
      Follows (AlsoIn I) (visitText env w true n i plain decoded k)
        (visitText env v true n i plain decoded j) := by
  intro n
  induction n with
  | zero =>
      intro i plain decoded k j hk
      exact Follows.error _ _
  | succ n ih =>
      intro i plain decoded k j hk
      rw [visitText, visitText]
      apply (visitPlainChunk_follows hw _ _ plain decoded hk j).bind
      rintro ⟨plain', k'⟩ ⟨plain'', j'⟩ ⟨hplain, hk'⟩
      obtain rfl : plain' = plain'' := hplain
      exact visitTextByte_follows hw ih _ _ plain' hk' j'

theorem visitString_follows (hw : Accepts w I) (i : Text) {k : JsonIo χ} (hk : I k.out)
    (j : JsonIo υ) :
    Follows (AlsoIn I) (visitString env w true i k) (visitString env v true i j) := by
  have hbegin : (textBegin true).ofKey = true := rfl
  apply (visit_follows hw hbegin hk j).bind
  intro k' j' hk'
  exact visitText_follows hw _ i [] 0 j' hk'

theorem visitPeek_follows (i : Text) (k : JsonIo χ) (j : JsonIo υ) :
    Follows Eq (visitPeek env k i) (visitPeek env j i) := by
  induction i with
  | nil => exact .ok rfl
  | cons b i ih =>
      apply Follows.ite
      · intro _
        exact Follows.error _ _
      intro _
      apply Follows.ite
      · intro _
        exact ih
      · intro _
        exact .ok rfl

theorem visitColon_follows (i : Text) {k : JsonIo χ} (hk : I k.out) (j : JsonIo υ) :
    Follows (AlsoIn I) (visitColon env i k) (visitColon env i j) := by
  rw [visitColon, visitColon]
  split
  · next r hpeek =>
      obtain ⟨_, hj, rfl⟩ := visitPeek_follows i j k _ hpeek
      rw [hj]
      exact .ok ⟨rfl, hk⟩
  · next hother =>
      split
      · next r hj =>
          obtain ⟨_, hpeek, rfl⟩ := visitPeek_follows i k j _ hj
          exact absurd hpeek (hother r)
      · exact Follows.error _ _

theorem visitKey_follows (hw : Accepts w I) (i : Text) {k : JsonIo χ} (hk : I k.out)
    (j : JsonIo υ) : Follows (AlsoIn I) (visitKey env w i k) (visitKey env v i j) := by
  rw [visitKey, visitKey]
  split
  · next r hpeek =>
      obtain ⟨_, hj, rfl⟩ := visitPeek_follows i j k _ hpeek
      rw [hj]
      apply (visitString_follows hw r hk j).bind
      rintro ⟨s, k'⟩ ⟨s', j'⟩ ⟨hs, hk''⟩
      obtain rfl : s = s' := hs
      exact visitColon_follows s hk'' j'
  · next hother =>
      split
      · next r hj =>
          obtain ⟨_, hpeek, rfl⟩ := visitPeek_follows i k j _ hj
          exact absurd hpeek (hother r)
      · exact Follows.error _ _

end

/-! ### The first level -/

/-- The results of both visitors are the same. -/
def SameResult (x : Except (PathIo υ) (Text × PathIo υ)) (y : Except (JsonIo υ) (Text × JsonIo υ)) :
    Prop :=
  Related SameIo (fun a b => a.1 = b.1 ∧ a.2.toJsonIo = b.2) x y

theorem sameResult_of_behind {i : Text} {x : Except (PathIo υ) (Text × PathIo υ)}
    {y : Except (JsonIo υ) (Text × JsonIo υ)} (h : Related SameIo (Behind segs i) x y) :
    SameResult x y :=
  h.imp fun _ _ hab => ⟨hab.1, hab.2.1⟩

theorem silent_accepts : Accepts silent fun _ => True := fun _ _ _ _ _ => ⟨rfl, trivial⟩

theorem visitKey_silent {i : Text} {x : Text × JsonIo υ} (h : visitKey env v i j = .ok x) :
    (visitKey env silent i { out := () }).isOk = true := by
  obtain ⟨y, hy, -⟩ := visitKey_follows (v := v) silent_accepts i (k := { out := () }) trivial j x h
  rw [hy]
  rfl

/-- Without room on the stack, an object whose first key is not read. -/
theorem visitMembers_shallow (hgrants : ∀ n, grants n = true) {n : ℕ} {i : Text}
    (hi : i.length ≤ sizeMax) (h : Between [] p j)
    (hshallow : ∀ c k, visitPeek env j i = .ok (c :: k) → c ≠ 0x7d →
      (visitKey env silent (c :: k) { out := () }).isOk = false) :
    SameResult (Paths.visitMembers (env.onPaths v grants) n 0 true i p)
      (visitMembers env v n 0 true i j) := by
  cases n with
  | zero => exact .error h.1
  | succ n =>
      rw [Paths.visitMembers, visitMembers]
      apply (@visitPeek_agree _ env _ _ _ i h).bind_eq
      rintro k k' hpeek ⟨rfl, hk⟩
      cases k with
      | nil => exact .error (h.fail _ _)
      | cons ch k =>
          apply Related.ite Iff.rfl
          · intro _
            exact sameResult_of_behind (visitAny_behind (i := k) h _ le_rfl)
          intro hopen
          apply Related.ite Iff.rfl
          · intro _
            exact .error (h.fail _ _)
          intro _
          apply (visitKey_agree hgrants (hk.trans hi) h).bind_eq
          intro x y hkey _
          have hread := visitKey_silent hkey
          rw [hshallow ch k hpeek hopen] at hread
          cases hread

/-- Without room on the stack, an array without an element. -/
theorem visitItems_shallow {n : ℕ} {i : Text} (h : Between [] p j)
    (hshallow : ∀ c k, visitPeek env j i = .ok (c :: k) → c = 0x5d) :
    SameResult (Paths.visitItems (env.onPaths v grants) n 0 true i p)
      (visitItems env v n 0 true i j) := by
  cases n with
  | zero => exact .error h.1
  | succ n =>
      rw [Paths.visitItems, visitItems]
      apply (@visitPeek_agree _ env _ _ _ i h).bind_eq
      rintro k k' hpeek ⟨rfl, hk⟩
      cases k with
      | nil => exact .error (h.fail _ _)
      | cons ch k =>
          apply Related.ite Iff.rfl
          · intro _
            exact sameResult_of_behind (visitAny_behind (i := k) h _ le_rfl)
          · intro hclose
            exact absurd (hshallow ch k hpeek) hclose

theorem visitPeek_io {χ : Type} {k : JsonIo χ} {i r : Text} (h : visitPeek env j i = .ok r) :
    visitPeek env k i = .ok r := by
  obtain ⟨_, hk, rfl⟩ := visitPeek_follows i k j r h
  exact hk

/-- A value that does not descend has no use for the stack. -/
theorem visitValue_shallow (hgrants : ∀ n, grants n = true) {n : ℕ} {i : Text}
    (hi : i.length ≤ sizeMax) (hshallow : descends env i = false) (h : Between [] p j) :
    SameResult (Paths.visitValue (env.onPaths v grants) n 0 i p) (visitValue env v n 0 i j) := by
  cases n with
  | zero => exact .error h.1
  | succ n =>
      rw [Paths.visitValue, visitValue]
      apply (@visitPeek_agree _ env _ _ _ i h).bind_eq
      rintro k k' hpeek ⟨rfl, hk⟩
      cases k with
      | nil => exact .error (h.fail _ _)
      | cons ch k =>
          rw [List.length_cons] at hk
          rw [descends, visitPeek_io hpeek] at hshallow
          dsimp only at hshallow
          apply Related.ite Iff.rfl
          · intro _
            exact sameResult_of_behind (visitString_agree hgrants (by omega) h)
          intro _
          apply Related.ite Iff.rfl
          · intro hbrace
            apply Related.ite Iff.rfl
            · intro _
              exact .error (h.fail _ _)
            intro _
            apply (visitAny_between h _).bind
            intro p' j' h'
            apply visitMembers_shallow hgrants (by omega) h'
            intro c r hc hopen
            rw [visitPeek_io hc, hbrace] at hshallow
            simpa [hopen] using hshallow
          intro hbrace
          apply Related.ite Iff.rfl
          · intro hbracket
            apply Related.ite Iff.rfl
            · intro _
              exact .error (h.fail _ _)
            intro _
            apply (visitAny_between (setIndex_between h _ _) _).bind
            intro p' j' h'
            apply visitItems_shallow h'
            intro c r hc
            rw [visitPeek_io hc, hbracket] at hshallow
            simpa using hshallow
          · intro _
            exact (visitScalar_steps between_steps k h).imp fun _ _ hxy => ⟨hxy.1, hxy.2.1.1⟩

/-! ### A value that descends -/

/-- Callbacks that let the first container begin and its key be read, and stop behind them. -/
def stopper : Visitor Bool := fun started event error =>
  if event.ofKey then (started, error, .ok)
  else (true, error, if started then .callbackFailed else .ok)

/-- The run has failed, but not with an internal error. -/
def Stopped {α : Type} : Except (JsonIo Bool) α → Prop :=
  Json.Holds (fun _ => False) fun j => j.status ≠ .internalError

theorem Stopped.bind {α β : Type} {x : Except (JsonIo Bool) α}
    {f : α → Except (JsonIo Bool) β} (h : Stopped x) : Stopped (x.bind f) :=
  Json.Holds.bind h fun _ hfalse => hfalse.elim

theorem Stopped.map {α β : Type} {x : Except (JsonIo Bool) α} {f : α → β} (h : Stopped x) :
    Stopped (x.map f) :=
  Json.Holds.map h fun _ hfalse => hfalse

theorem stopper_stops {k : JsonIo Bool} (hk : k.out = true) {event : VisitEvent}
    (hevent : event.ofKey = false) : Stopped (k.visit stopper event) := by
  have hcall : stopper k.out event k.error = (true, k.error, .callbackFailed) := by
    rw [stopper, hevent, hk]
    rfl
  rw [JsonIo.visit, hcall]
  exact (fun h => by cases h)

theorem visitLiteral_stops {k : JsonIo Bool} (hk : k.out = true) {event : VisitEvent}
    (hevent : event.ofKey = false) : ∀ rest i : Text,
    Stopped (visitLiteral env stopper event rest i k) := by
  intro rest
  induction rest with
  | nil =>
      intro i
      exact (stopper_stops hk hevent).map
  | cons c rest ih =>
      intro i
      cases i with
      | nil => exact (fun h => by cases h)
      | cons ch i =>
          rw [visitLiteral]
          split_ifs
          · exact (fun h => by cases h)
          · exact ih i
          · exact (fun h => by cases h)

theorem visitPeek_error {k : JsonIo υ} {i : Text} {e : JsonIo υ}
    (h : visitPeek env k i = .error e) : e = k.overTotal := by
  induction i with
  | nil => cases h
  | cons b i ih =>
      rw [visitPeek] at h
      split_ifs at h
      · cases h
        rfl
      · exact ih h

theorem visitValue_stops {k : JsonIo Bool} (hk : k.out = true) (n depth : ℕ) (i : Text) :
    Stopped (visitValue env stopper (n + 1) depth i k) := by
  rw [visitValue]
  cases hpeek : visitPeek env k i with
  | error e =>
      rw [visitPeek_error hpeek]
      exact (fun h => by cases h)
  | ok r =>
      cases r with
      | nil => exact (fun h => by cases h)
      | cons ch r =>
          change Stopped (if ch = 0x22 then _ else _)
          split_ifs
          · exact (stopper_stops hk rfl).bind
          · exact (fun h => by cases h)
          · exact (stopper_stops hk rfl).bind
          · exact (fun h => by cases h)
          · exact (stopper_stops hk rfl).bind
          · exact visitLiteral_stops hk rfl _ r
          · exact visitLiteral_stops hk rfl _ r
          · exact visitLiteral_stops hk rfl _ r
          · exact (stopper_stops hk rfl).bind
          · exact (fun h => by cases h)

/-- The key of the first member, read with callbacks that go on and with the `stopper`. -/
theorem stopper_accepts : Accepts stopper fun started => started = true := by
  intro started event error hevent hstarted
  rw [stopper, hevent]
  exact ⟨rfl, hstarted⟩

theorem visitKey_stopper {i : Text} {k : JsonIo Bool} (hk : k.out = true)
    (h : (visitKey env silent i { out := () }).isOk = true) :
    ∃ r k', visitKey env stopper i k = .ok (r, k') ∧ k'.out = true := by
  cases hread : visitKey env silent i { out := () } with
  | error e =>
      rw [hread] at h
      cases h
  | ok x =>
      obtain ⟨⟨r, k'⟩, hkey, -, hout⟩ := visitKey_follows stopper_accepts i hk _ x hread
      exact ⟨r, k', hkey, hout⟩

/-- The run has failed with an internal error. -/
def StackError {υ α : Type} (x : Except (PathIo υ) α) : Prop :=
  ∃ p, x = .error p ∧ p.status = .internalError

theorem StackError.not_same {x : Except (PathIo Bool) (Text × PathIo Bool)}
    {y : Except (JsonIo Bool) (Text × JsonIo Bool)} (hx : StackError x) (hy : Stopped y) :
    ¬ SameResult x y := by
  obtain ⟨p, rfl, hp⟩ := hx
  rintro (h | h)
  rename_i j
  have hio : p.toJsonIo = j := h
  apply hy
  rw [← hio]
  exact hp

theorem visitItems_stackError (hcapacity : env.pathCapacity = 0) {n : ℕ} {i r : Text} {c : Byte}
    (hpeek : visitPeek env p.toJsonIo i = .ok (c :: r)) (hc : c ≠ 0x5d) :
    StackError (Paths.visitItems (env.onPaths v grants) (n + 1) 0 true i p) := by
  have hfull : p.pathDepth ≥ (env.onPaths v grants).pathCapacity :=
    (Nat.le_of_eq hcapacity).trans (Nat.zero_le _)
  rw [Paths.visitItems, VisitEnv.onPaths_toVisitEnv, hpeek]
  change StackError (if c = 0x5d then _ else (p.pushArrayIndex _).bind _)
  rw [if_neg hc, PathIo.pushArrayIndex, if_pos hfull]
  exact ⟨_, rfl, rfl⟩

theorem visitMembers_stackError (hgrants : ∀ n, grants n = true) (hcapacity : env.pathCapacity = 0)
    {n : ℕ} {i r : Text} {c : Byte} {x : Text × JsonIo υ} (hi : i.length ≤ sizeMax)
    (hpeek : visitPeek env p.toJsonIo i = .ok (c :: r)) (hc : c ≠ 0x7d)
    (hkey : visitKey env v (c :: r) p.toJsonIo = .ok x) :
    StackError (Paths.visitMembers (env.onPaths v grants) (n + 1) 0 true i p) := by
  have hagree := @visitKey_agree _ env v grants _ p _ hgrants _ ((visitPeek_length hpeek).trans hi)
    ⟨rfl, rfl⟩
  rw [hkey] at hagree
  rw [Paths.visitMembers, VisitEnv.onPaths_toVisitEnv, hpeek]
  change StackError (if c = 0x7d then _ else
    (Paths.visitKey (env.onPaths v grants) (c :: r) p).bind fun x =>
      (x.2.pushObjectKey (env.onPaths v grants)).bind _)
  rw [if_neg hc]
  generalize Paths.visitKey (env.onPaths v grants) (c :: r) p = y at hagree ⊢
  cases hagree with
  | ok _ =>
      rename_i y _
      have hfull : y.2.pathDepth ≥ (env.onPaths v grants).pathCapacity :=
        (Nat.le_of_eq hcapacity).trans (Nat.zero_le _)
      change StackError ((y.2.pushObjectKey (env.onPaths v grants)).bind _)
      rw [PathIo.pushObjectKey, if_pos hfull]
      exact ⟨_, rfl, rfl⟩

theorem descends_cases {i : Text} (h : descends env i = true) :
    ∃ ch r c s, visitPeek env ({ out := () } : JsonIo Unit) i = .ok (ch :: r) ∧
      visitPeek env ({ out := () } : JsonIo Unit) r = .ok (c :: s) ∧
      (ch = 0x5b ∧ c ≠ 0x5d ∨ ch = 0x7b ∧ c ≠ 0x7d ∧
        (visitKey env silent (c :: s) { out := () }).isOk = true) := by
  rw [descends] at h
  split at h
  · next ch r hfirst =>
      split at h
      · next c s hsecond =>
          refine ⟨ch, r, c, s, hfirst, hsecond, ?_⟩
          split at h
          · next hbracket => exact .inl ⟨hbracket, by simpa using h⟩
          · exact .inr (by simpa [and_assoc] using h)
      · cases h
  · cases h

theorem setIndex_full (hcapacity : env.pathCapacity = 0) (p : PathIo υ)
    (index : UInt64 → UInt64) : p.setIndex (env.onPaths v grants) index = p := by
  apply if_neg
  change ¬ p.pathDepth < env.pathCapacity
  omega

/-- The `stopper` tells the two visitors apart where the value descends. -/
theorem descends_not_same (hgrants : ∀ n, grants n = true)
    (hdepth : env.limits.maxDepth = sizeMax) {i : Text} (hi : i.length ≤ sizeMax)
    (h : descends env i = true) :
    ¬ SameResult
      (Paths.visitValue (env.onPaths stopper grants) 3 0 i { toJsonIo := { out := false } })
      (visitValue env stopper 3 0 i { out := false }) := by
  have hcapacity : env.pathCapacity = 0 := by
    rw [VisitEnv.pathCapacity, hdepth]
    rfl
  have hdeep : ¬ 0 ≥ env.limits.maxDepth := by
    rw [hdepth]
    decide
  have hdeep' : ¬ 0 ≥ (env.onPaths stopper grants).limits.maxDepth := hdeep
  obtain ⟨ch, r, c, s, hfirst, hsecond, hvalue⟩ := descends_cases h
  have hr : r.length ≤ sizeMax := (Nat.le_succ _).trans ((visitPeek_length hfirst).trans hi)
  rw [Paths.visitValue, visitValue, VisitEnv.onPaths_toVisitEnv, visitPeek_io hfirst]
  rcases hvalue with ⟨rfl, hc⟩ | ⟨rfl, hc, hkey⟩
  · apply StackError.not_same
    · change StackError (if 0 ≥ (env.onPaths stopper grants).limits.maxDepth then _ else _)
      rw [if_neg hdeep', setIndex_full hcapacity]
      exact visitItems_stackError hcapacity (visitPeek_io hsecond) hc
    · change Stopped (if 0 ≥ env.limits.maxDepth then _ else
        visitItems env stopper 2 0 true r { out := true })
      rw [if_neg hdeep, visitItems, visitPeek_io hsecond]
      change Stopped (if c = 0x5d then _ else
        (visitValue env stopper 1 1 (c :: s) { out := true }).bind _)
      rw [if_neg hc]
      exact (visitValue_stops rfl 0 1 _).bind
  · obtain ⟨t, k', hread, hout⟩ := visitKey_stopper (k := { out := true }) rfl hkey
    apply StackError.not_same
    · change StackError (if 0 ≥ (env.onPaths stopper grants).limits.maxDepth then _ else _)
      rw [if_neg hdeep']
      exact visitMembers_stackError hgrants hcapacity hr (visitPeek_io hsecond) hc hread
    · change Stopped (if 0 ≥ env.limits.maxDepth then _ else
        visitMembers env stopper 2 0 true r { out := true })
      rw [if_neg hdeep, visitMembers, visitPeek_io hsecond]
      change Stopped (if c = 0x7d then _ else
        (visitKey env stopper (c :: s) { out := true }).bind _)
      rw [if_neg hc, hread]
      change Stopped ((visitValue env stopper 1 1 t k').bind _)
      exact (visitValue_stops hout 0 1 t).bind

/-- The defaults, but with no limit on the depth. -/
def unlimitedDepth (text : Text) : VisitEnv :=
  { limits := { defaultValueLimits with maxDepth := sizeMax }
    length := text.length
    window := id }

/-- Callbacks that write down what they are told. -/
def recorder : Visitor (List VisitEvent) := fun events event error =>
  (events ++ [event], error, .ok)

end Lonejson
