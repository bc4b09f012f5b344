import Lonejson.Jwt
import Lonejson.PathTracker
import Lonejson.VisitorTotal

/-!
# What the callbacks make of a JWT object

The callbacks run over the events of a tree, with the path that the containers around give.
Values that are not under a registered member of the root leave the visit alone; a registered
member either gives its field the value it stands for, or ends the visit.
-/

namespace Lonejson

open Json (Text Tree Spells Space)

variable {alloc : ℕ → Bool} {s s' : JwtClaimVisit} {nest : Nest} {mode : Bool} {m : JwtMember}

/-! ## Runs of callbacks -/

namespace JwtClaimVisit

/-- The callbacks of a list of events. -/
def run (alloc : ℕ → Bool) :
    List VisitEvent → JwtClaimVisit → Nest → Except Failure (JwtClaimVisit × Nest)
  | [], s, nest => .ok (s, nest)
  | e :: es, s, nest =>
    (s.event alloc (nest.path e) e).bind fun s => run alloc es s (nest.step e)

theorem run_append (es es' : List VisitEvent) (s : JwtClaimVisit) (nest : Nest) :
    run alloc (es ++ es') s nest = (run alloc es s nest).bind fun x => run alloc es' x.1 x.2 := by
  induction es generalizing s nest with
  | nil => rfl
  | cons e es ih =>
      rw [List.cons_append, run, run]
      cases s.event alloc (nest.path e) e with
      | error e => rfl
      | ok s => exact ih s _

theorem run_one (e : VisitEvent) (s : JwtClaimVisit) (nest : Nest) :
    run alloc [e] s nest = (s.event alloc (nest.path e) e).map (·, nest.step e) := by
  rw [run]
  cases s.event alloc (nest.path e) e <;> rfl

/-- A callback fails with a status of failure. -/
def Hard {α : Type} (x : Except Failure α) : Prop := ∀ e, x = .error e → e.code.soft = false

section

variable {α β : Type} {x : Except Failure α}

theorem Hard.ok (a : α) : Hard (.ok a) := by
  intro e h
  cases h

theorem Hard.error {e : Failure} (h : e.code.soft = false) : Hard (.error e : Except Failure α) := by
  intro e' h'
  cases h'
  exact h

theorem Hard.bind {f : α → Except Failure β} (hx : Hard x) (hf : ∀ a, Hard (f a)) :
    Hard (x.bind f) := by
  cases x with
  | error e => exact .error (hx e rfl)
  | ok a => exact hf a

theorem Hard.map (f : α → β) (hx : Hard x) : Hard (x.map f) := by
  cases x with
  | error e => exact .error (hx e rfl)
  | ok a => exact .ok _

theorem Hard.ite {p : Prop} [Decidable p] {y : Except Failure α} (hx : Hard x) (hy : Hard y) :
    Hard (if p then x else y) := by
  split
  · exact hx
  · exact hy

end

theorem bufferAppend_hard (data : Bytes) : Hard (s.bufferAppend alloc data) :=
  .ite (.ok _) (.ite (.error rfl) (.ite (.error rfl)
    (.ite (.ite (.ok _) (.error rfl)) (.ok _))))

theorem bufferTake_hard : Hard (s.bufferTake alloc) := by
  rw [bufferTake]
  cases s.buffer with
  | some text => exact .ok _
  | none => exact .ite (.ok _) (.error rfl)

theorem jwtStringArrayAppend_hard (array : JwtStringArray) (value : Bytes) :
    Hard (jwtStringArrayAppend alloc array value) :=
  .ite (.ite (.error rfl) (.ite (.ok _) (.error rfl))) (.ok _)

theorem bufferAppend_active {data : Bytes} (h : s.bufferAppend alloc data = .ok s') :
    s'.active = s.active := by
  rw [bufferAppend] at h
  dsimp only at h
  split_ifs at h
  all_goals
    cases h
    rfl

theorem keepItem_hard (m : JwtMember) : Hard (s.keepItem alloc m) :=
  bufferTake_hard.bind fun _ => (jwtStringArrayAppend_hard _ _).bind fun _ => .ok _

theorem beginField_hard (m : JwtMember) : Hard (s.beginField m) := .ite (.error rfl) (.ok _)

theorem event_hard (path : List Bytes) (e : VisitEvent) : Hard (s.event alloc path e) := by
  cases e with
  | objectBegin => exact .ite (.ite (.error rfl) (.ok _)) (.ite (.error rfl) (.ok _))
  | arrayBegin =>
      rw [event, arrayBegin]
      cases jwtMemberAt s.headerMode path with
      | some m => exact .ite (.ite (.error rfl) (.ok _)) (.error rfl)
      | none => exact .ite (.error rfl) (.ok _)
  | stringBegin =>
      rw [event, stringBegin]
      cases jwtMemberAt s.headerMode path with
      | some m => exact .ite (beginField_hard m) (.error rfl)
      | none =>
          cases jwtItemAt s.headerMode path with
          | some m => exact .ok _
          | none => exact .ok _
  | stringChunk data => exact .ite (.ok _) (bufferAppend_hard data)
  | stringEnd =>
      rw [event, stringEnd]
      cases s.active with
      | none => exact .ok _
      | item m => exact (keepItem_hard m).map _
      | member m =>
          exact .ite (.ok _) (.ite ((keepItem_hard m).map _)
            ((bufferTake_hard.bind fun _ => .ok _).map _))
  | numberBegin =>
      rw [event, numberBegin]
      cases jwtMemberAt s.headerMode path with
      | some m => exact .ite (beginField_hard m) (.error rfl)
      | none => exact .ite (.error rfl) (.ok _)
  | numberChunk data => exact .ite (.ok _) (bufferAppend_hard data)
  | numberEnd =>
      rw [event, numberEnd]
      cases s.dateActive with
      | none => exact .ok _
      | some m =>
          dsimp only
          cases s.buffer.bind parseI64Word with
          | none => exact .error rfl
          | some value => exact .ite (.error rfl) (.ok _)
  | bool value => exact .ite (.error rfl) (.ok _)
  | null => exact .ite (.error rfl) (.ok _)
  | objectEnd => exact .ok _
  | arrayEnd => exact .ok _
  | keyBegin => exact .ok _
  | keyChunk data => exact .ok _
  | keyEnd => exact .ok _

/-- A callback of the visitor, and what it does to the containers around. -/
theorem visit_tracked (io : JsonIo (JwtClaimVisit × Nest)) (e : VisitEvent) :
    (∃ s, io.out.1.event alloc (io.out.2.path e) e = .ok s ∧
      io.visit (tracked (jwtClaimVisitor alloc)) e =
        .ok { out := (s, io.out.2.step e), error := io.error, status := .ok }) ∨
    ∃ f io', io.out.1.event alloc (io.out.2.path e) e = .error f ∧
      io.visit (tracked (jwtClaimVisitor alloc)) e = .error io' ∧ io'.status.soft = false := by
  rw [JsonIo.visit, tracked, jwtClaimVisitor]
  cases hevent : io.out.1.event alloc (io.out.2.path e) e with
  | ok s => exact .inl ⟨s, rfl, rfl⟩
  | error f =>
      have hsoft := event_hard _ _ f hevent
      dsimp only
      rw [hsoft]
      exact .inr ⟨f, _, rfl, rfl, hsoft⟩

/-- The visit of a list of events is the run of the callbacks. -/
theorem feed_tracked (es : List VisitEvent) (io : JsonIo (JwtClaimVisit × Nest)) :
    (∃ x status, run alloc es io.out.1 io.out.2 = .ok x ∧
      io.feed (tracked (jwtClaimVisitor alloc)) es = .ok { out := x, error := io.error, status } ∧
      (io.status = .ok → status = .ok)) ∨
    ∃ f io', run alloc es io.out.1 io.out.2 = .error f ∧
      io.feed (tracked (jwtClaimVisitor alloc)) es = .error io' ∧ io'.status.soft = false := by
  induction es generalizing io with
  | nil => exact .inl ⟨io.out, io.status, rfl, rfl, id⟩
  | cons e es ih =>
      rw [run, JsonIo.feed]
      rcases visit_tracked io e with ⟨s, hevent, hvisit⟩ | ⟨f, io', hevent, hvisit, hsoft⟩
      · rw [hevent, hvisit]
        rcases ih { out := (s, io.out.2.step e), error := io.error, status := .ok } with h | h
        · obtain ⟨x, status, hrun, hfeed, hstatus⟩ := h
          exact .inl ⟨x, status, hrun, hfeed, fun _ => hstatus rfl⟩
        · exact .inr h
      · rw [hevent, hvisit]
        exact .inr ⟨f, io', rfl, rfl, hsoft⟩

/-! ## Values that are left alone -/

theorem event_ofContainer {e : VisitEvent} (he : e.ofContainer = true) (path : List Bytes) :
    s.event alloc path e = .ok s := by
  cases e with
  | objectEnd => rfl
  | arrayEnd => rfl
  | keyBegin => rfl
  | keyChunk data => rfl
  | keyEnd => rfl
  | _ => cases he

/-- No callback does anything at a path that is not registered, as long as nothing is read. -/
theorem event_unregistered (hactive : s.active = .none) {path : List Bytes}
    (hpath : jwtPathIsRegistered s.headerMode path = false) {e : VisitEvent}
    (hroot : path = [] → e ≠ .objectBegin) : s.event alloc path e = .ok s := by
  have hend : s.endField = s := by rw [endField, ← hactive]
  have hmember : jwtMemberAt s.headerMode path = none := by
    simpa [jwtPathIsRegistered] using (Bool.or_eq_false_iff.mp hpath).1
  have hitem : jwtItemAt s.headerMode path = none := by
    simpa [jwtPathIsRegistered] using (Bool.or_eq_false_iff.mp hpath).2
  cases e with
  | objectBegin =>
      rw [event, objectBegin, if_neg fun h => hroot h rfl, hpath]
      rfl
  | arrayBegin =>
      rw [event, arrayBegin, hmember, hitem]
      rfl
  | stringBegin =>
      rw [event, stringBegin, hmember, hitem]
  | stringChunk data =>
      rw [event, stringChunk, if_pos hactive]
  | stringEnd =>
      rw [event, stringEnd, hactive, hend]
  | numberBegin =>
      rw [event, numberBegin, hmember, hitem]
      rfl
  | numberChunk data =>
      rw [event, numberChunk, dateActive, hactive]
      rfl
  | numberEnd =>
      rw [event, numberEnd, dateActive, hactive, hend]
  | bool value =>
      rw [event, literalType, hpath]
      rfl
  | null =>
      rw [event, literalType, hpath]
      rfl
  | _ => rfl

end JwtClaimVisit

/-- The member that a container is at is not a registered one. -/
def OpenContainer.Unregistered (mode : Bool) : OpenContainer → Prop
  | .object key => ∀ m ∈ JwtMember.all mode, key ≠ m.name
  | .array _ => True

/-- The place lies under a member or an item of the root that is not registered. -/
def Nest.Outside (mode : Bool) (nest : Nest) : Prop :=
  ∃ c : OpenContainer, nest.getLast? = some c ∧ c.Unregistered mode

theorem Nest.Outside.cons (h : nest.Outside mode) (c : OpenContainer) :
    Nest.Outside mode (c :: nest) := by
  obtain ⟨d, hd, hun⟩ := h
  refine ⟨d, ?_, hun⟩
  rw [List.getLast?_cons, hd]
  rfl

theorem Nest.Outside.advance {index : UInt64} (h : Nest.Outside mode (.array index :: nest)) :
    Nest.Outside mode (.array (index + 1) :: nest) := by
  cases nest with
  | nil => exact ⟨.array (index + 1), rfl, trivial⟩
  | cons c nest =>
      obtain ⟨d, hd, hun⟩ := h
      rw [List.getLast?_cons_cons] at hd
      exact ⟨d, hd, hun⟩

theorem formatSizeDecimal_digits (n : ℕ) : (formatSizeDecimal n).all isDigit = true := by
  rw [formatSizeDecimal, List.all_eq_true]
  intro b hb
  obtain ⟨c, hc, rfl⟩ := List.mem_map.mp hb
  have hdigit := Nat.isDigit_of_mem_toDigits (by decide) (by decide) hc
  simp only [Char.isDigit, Bool.and_eq_true, decide_eq_true_eq, ge_iff_le,
    UInt32.le_iff_toNat_le] at hdigit
  have hlow : 48 ≤ c.toNat := hdigit.1
  have hhigh : c.toNat ≤ 57 := hdigit.2
  simp only [isDigit, Bool.and_eq_true, decide_eq_true_eq, UInt8.le_iff_toNat_le,
    Nat.toUInt8_eq, UInt8.toNat_ofNat', UInt8.reduceToNat]
  omega

theorem formatSizeDecimal_ne_nil (n : ℕ) : formatSizeDecimal n ≠ [] := by
  rw [formatSizeDecimal]
  simp

/-- No registered member is called by digits. -/
theorem name_not_digits : ∀ mode, ∀ m ∈ JwtMember.all mode, m.name.all isDigit = false := by
  decide +kernel

theorem jwtPath_unregistered {first : Bytes} (h : ∀ m ∈ JwtMember.all mode, first ≠ m.name)
    (rest : List Bytes) : jwtPathIsRegistered mode (first :: rest) = false := by
  rw [jwtPathIsRegistered, Bool.or_eq_false_iff, Option.isSome_eq_false_iff,
    Option.isSome_eq_false_iff, Option.isNone_iff_eq_none, Option.isNone_iff_eq_none, jwtMemberAt,
    jwtItemAt, List.find?_eq_none, List.find?_eq_none]
  refine ⟨fun m hm => ?_, fun m hm => ?_⟩
  · have hne := h m hm
    simp [jwtPathIs, hne]
  · have hne := h m hm
    cases rest with
    | nil => simp [jwtPathIsArrayItem]
    | cons second rest =>
        cases rest with
        | nil => simp [jwtPathIsArrayItem, hne]
        | cons third rest => simp [jwtPathIsArrayItem]

theorem Nest.Outside.unregistered (h : nest.Outside mode) :
    jwtPathIsRegistered mode nest.segments = false := by
  obtain ⟨c, hc, hun⟩ := h
  have hhead : nest.segments.head? = some c.segment := by
    rw [Nest.segments, List.head?_reverse, List.getLast?_map, hc]
    rfl
  obtain ⟨rest, hrest⟩ : ∃ rest, nest.segments = c.segment :: rest :=
    ⟨_, List.eq_cons_of_mem_head? hhead⟩
  have hne : ∀ m ∈ JwtMember.all mode, c.segment ≠ m.name := by
    intro m hm heq
    cases c with
    | object key => exact hun m hm heq
    | array index =>
        have hdigits := formatSizeDecimal_digits index.toNat
        rw [OpenContainer.segment] at heq
        rw [heq, name_not_digits mode m hm] at hdigits
        cases hdigits
  rw [hrest]
  exact jwtPath_unregistered hne rest

namespace JwtClaimVisit

variable {limit : ℕ} {t : Tree} {es : List VisitEvent}

/-- A callback of a container, or one outside the registered members. -/
theorem run_quiet (hactive : s.active = .none) {e : VisitEvent}
    (h : e.ofContainer = true ∨ nest.Outside s.headerMode) :
    run alloc (e :: es) s nest = run alloc es s (nest.step e) := by
  have hevent : s.event alloc (nest.path e) e = .ok s := by
    by_cases he : e.ofContainer = true
    · exact event_ofContainer he _
    · have hnest := h.resolve_left he
      rw [Nest.path, if_neg he]
      apply event_unregistered hactive hnest.unregistered
      intro hnil
      obtain ⟨c, hc, -⟩ := hnest
      cases nest with
      | nil => cases hc
      | cons d nest => simp at hnil
  rw [run, hevent]
  rfl

/-- A key is read into the place. -/
theorem run_key (hactive : s.active = .none) (chunks : List Bytes) (key : Bytes) :
    run alloc (.keyBegin :: (chunks.map .keyChunk ++ (.keyEnd :: es))) s (.object key :: nest) =
      run alloc es s (.object chunks.flatten :: nest) := by
  have hchunks (key : Bytes) :
      run alloc (chunks.map .keyChunk ++ (.keyEnd :: es)) s (.object key :: nest) =
        run alloc es s (.object (key ++ chunks.flatten) :: nest) := by
    induction chunks generalizing key with
    | nil =>
        rw [List.map_nil, List.nil_append, run_quiet hactive (.inl rfl), List.flatten_nil,
          List.append_nil]
        rfl
    | cons data chunks ih =>
        rw [List.map_cons, List.cons_append, run_quiet hactive (.inl rfl), List.flatten_cons,
          ← List.append_assoc]
        exact ih (key ++ data)
  rw [run_quiet hactive (.inl rfl)]
  exact hchunks []

theorem run_chunks_outside (hactive : s.active = .none) (hnest : nest.Outside s.headerMode)
    (chunks : List Bytes) :
    run alloc (chunks.map .stringChunk ++ es) s nest = run alloc es s nest := by
  induction chunks with
  | nil => rfl
  | cons data chunks ih =>
      rw [List.map_cons, List.cons_append, run_quiet hactive (.inr hnest)]
      exact ih

/-- A value that comes back to the same containers in front of more callbacks. -/
theorem run_then {es' : List VisitEvent} {s₁ : JwtClaimVisit} {nest₁ : Nest}
    (h : run alloc es s nest = .ok (s₁, nest₁)) :
    run alloc (es ++ es') s nest = run alloc es' s₁ nest₁ := by
  rw [run_append, h]
  rfl

mutual

theorem run_outside (hactive : s.active = .none) {nest : Nest} {t : Tree} {es : List VisitEvent}
    (hnest : nest.Outside s.headerMode) (h : EventsOf limit t es) :
    run alloc es s nest = .ok (s, nest.after) := by
  match h with
  | .null =>
      rw [run_quiet hactive (.inr hnest)]
      rfl
  | .bool =>
      rw [run_quiet hactive (.inr hnest)]
      rfl
  | .number _ _ =>
      rw [run_quiet hactive (.inr hnest), Nest.step, run_quiet hactive (.inr hnest), Nest.step,
        run_quiet hactive (.inr hnest)]
      · rfl
      all_goals simp
  | @EventsOf.string _ chunks =>
      rw [run_quiet hactive (.inr hnest), Nest.step, run_chunks_outside hactive hnest,
        run_quiet hactive (.inr hnest)]
      · rfl
      all_goals simp
  | .array hts =>
      obtain ⟨index, hrun⟩ := runItems_outside hactive (hnest.cons (.array 0)) hts
      rw [run_quiet hactive (.inr hnest), Nest.step, run_then hrun, run_quiet hactive (.inl rfl)]
      rfl
  | .object hms =>
      obtain ⟨key, hrun⟩ := runMembers_outside hactive hnest hms
      rw [run_quiet hactive (.inr hnest), Nest.step, run_then hrun, run_quiet hactive (.inl rfl)]
      rfl

theorem runItems_outside (hactive : s.active = .none) {nest : Nest} {index : UInt64}
    {ts : List Tree} {es : List VisitEvent}
    (hnest : Nest.Outside s.headerMode (.array index :: nest)) (h : EventsOfItems limit ts es) :
    ∃ index', run alloc es s (.array index :: nest) = .ok (s, .array index' :: nest) := by
  match h with
  | .nil => exact ⟨index, rfl⟩
  | .cons ht hts =>
      have hvalue := run_outside hactive hnest ht
      obtain ⟨index', hrest⟩ := runItems_outside hactive hnest.advance hts
      exact ⟨index', (run_then hvalue).trans hrest⟩

theorem runMembers_outside (hactive : s.active = .none) {nest : Nest} {key : Bytes}
    {ms : List (Text × Tree)} {es : List VisitEvent} (hnest : nest.Outside s.headerMode)
    (h : EventsOfMembers limit ms es) :
    ∃ key', run alloc es s (.object key :: nest) = .ok (s, .object key' :: nest) := by
  match h with
  | .nil => exact ⟨key, rfl⟩
  | @EventsOfMembers.cons _ chunks _ _ _ _ ht hms =>
      have hvalue := run_outside hactive (hnest.cons (.object chunks.flatten)) ht
      obtain ⟨key', hrest⟩ := runMembers_outside hactive hnest hms
      refine ⟨key', ?_⟩
      rw [run_key hactive, run_then hvalue]
      exact hrest

end

/-- A text that is no object leaves the visit alone. -/
theorem run_root (hactive : s.active = .none) (h : EventsOf limit t es)
    (ht : ∀ ms, t ≠ .object ms) : ∃ nest', run alloc es s [] = .ok (s, nest') := by
  have hroot {e : VisitEvent} {es : List VisitEvent} (he : e ≠ .objectBegin) :
      run alloc (e :: es) s [] = run alloc es s (Nest.step e []) := by
    have hpath : Nest.path e [] = [] := by
      rw [Nest.path]
      split <;> rfl
    have hunregistered : jwtPathIsRegistered s.headerMode [] = false := by
      cases s.headerMode <;> decide
    rw [run, hpath, event_unregistered hactive hunregistered fun _ => he]
    rfl
  have hchunks (chunks : List Bytes) (es : List VisitEvent) :
      run alloc (chunks.map .stringChunk ++ es) s [] = run alloc es s [] := by
    induction chunks with
    | nil => rfl
    | cons data chunks ih =>
        rw [List.map_cons, List.cons_append, hroot (by simp)]
        exact ih
  cases h with
  | null => exact ⟨_, hroot (by simp)⟩
  | bool => exact ⟨_, hroot (by simp)⟩
  | number hnum hlen =>
      refine ⟨[], ?_⟩
      rw [hroot (by simp), Nest.step, hroot (by simp), Nest.step, hroot (by simp)]
      · rfl
      all_goals simp
  | @string chunks =>
      refine ⟨[], ?_⟩
      rw [hroot (by simp), Nest.step, hchunks, hroot (by simp)]
      · rfl
      all_goals simp
  | array hts =>
      have hitem : Nest.Outside s.headerMode [.array 0] := ⟨.array 0, rfl, trivial⟩
      obtain ⟨index, hrun⟩ := runItems_outside hactive hitem hts
      refine ⟨[], ?_⟩
      rw [hroot (by simp), Nest.step, run_then hrun, run_quiet hactive (.inl rfl)]
      rfl
  | object hms => exact absurd rfl (ht _)

end JwtClaimVisit

/-! ## What a field holds -/

/-- What the outputs hold for a member. -/
structure JwtField where
  text : Option Bytes := none
  items : List Bytes := []
  date : Int64 := 0
  hasDate : Bool := false
  deriving DecidableEq

/-- The field of a member. -/
def JwtOutputs.field (out : JwtOutputs) (m : JwtMember) : JwtField :=
  match m with
  | .alg => { text := out.header.alg }
  | .kid => { text := out.header.kid }
  | .typ => { text := out.header.typ }
  | .crit => { items := out.header.crit.items }
  | .x5t => { text := out.header.x5t }
  | .x5tS256 => { text := out.header.x5tS256 }
  | .x5c => { items := out.header.x5c.items }
  | .iss => { text := out.claims.iss }
  | .sub => { text := out.claims.sub }
  | .nonce => { text := out.claims.nonce }
  | .azp => { text := out.claims.azp }
  | .scope => { text := out.claims.scope }
  | .scp => { items := out.claims.scp.items }
  | .aud => { text := out.claims.aud, items := out.claims.audArray.items }
  | .exp => { date := out.claims.exp, hasDate := out.claims.hasExp }
  | .nbf => { date := out.claims.nbf, hasDate := out.claims.hasNbf }
  | .iat => { date := out.claims.iat, hasDate := out.claims.hasIat }

/-- A member that is absent, or has a value of its type, and what its field is then. -/
inductive JwtMember.Holds (m : JwtMember) : Option Tree → JwtField → Prop where
  | absent : m.Holds none {}
  | text {value : Bytes} (hm : m.takesString = true) (hscp : m ≠ .scp) (hvalue : 0 ∉ value) :
      m.Holds (some (.string value)) { text := some value }
  | scope {value : Bytes} (hscp : m = .scp) (hvalue : 0 ∉ value) :
      m.Holds (some (.string value)) { items := [value] }
  | items {values : List Bytes} (hm : m.takesArray = true) (hvalues : ∀ value ∈ values, 0 ∉ value) :
      m.Holds (some (.array (values.map .string))) { items := values }
  | date {lexeme : Bytes} {value : Int64} (hm : m.takesNumber = true)
      (hvalue : JsonInteger lexeme value.toInt) (hpos : 0 ≤ value) :
      m.Holds (some (.number lexeme)) { date := value, hasDate := true }

/-- A value has one field. -/
theorem JwtMember.Holds.unique {t : Option Tree} {field field' : JwtField} (h : m.Holds t field)
    (h' : m.Holds t field') : field = field' := by
  cases h with
  | absent =>
      cases h'
      rfl
  | text _ hscp _ =>
      cases h' with
      | text => rfl
      | scope heq => exact absurd heq hscp
  | scope heq _ =>
      cases h' with
      | text _ hscp => exact absurd heq hscp
      | scope => rfl
  | @items values _ _ =>
      generalize ht : Tree.array (values.map .string) = t' at h'
      cases h' with
      | @items values' _ _ =>
          have hmap := Tree.array.inj ht
          rw [List.map_injective_iff.mpr (fun _ _ => Tree.string.inj) hmap]
      | _ => cases ht
  | date _ hvalue _ =>
      cases h' with
      | date _ hvalue' _ =>
          have hparse := (parseI64Word_eq_some hvalue.no_nul).mpr hvalue
          rw [(parseI64Word_eq_some hvalue.no_nul).mpr hvalue'] at hparse
          cases hparse
          rfl

section

variable {out : JwtOutputs} {other : JwtMember}

theorem JwtOutputs.field_setText (hm : m.takesString = true) (hscp : m ≠ .scp) (value : Bytes) :
    (out.setText m value).field other =
      if other = m then { out.field m with text := some value } else out.field other := by
  cases m <;> cases hm <;> first | exact absurd rfl hscp | (cases other <;> rfl)

theorem JwtOutputs.field_setArray (hm : m.takesArray = true) (array : JwtStringArray) :
    (out.setArray m array).field other =
      if other = m then { out.field m with items := array.items } else out.field other := by
  cases m <;> cases hm <;> cases other <;> rfl

theorem JwtOutputs.field_setDate (hm : m.takesNumber = true) (value : Int64) :
    (out.setDate m value).field other =
      if other = m then { out.field m with date := value, hasDate := true }
      else out.field other := by
  cases m <;> cases hm <;> cases other <;> rfl

theorem JwtOutputs.array_items (hm : m.takesArray = true) :
    (out.array m).items = (out.field m).items := by
  cases m <;> cases hm <;> rfl

end

/-! ## Registered paths -/

theorem jwtMemberAt_name : ∀ mode, ∀ m ∈ JwtMember.all mode, jwtMemberAt mode [m.name] = some m := by
  decide +kernel

theorem jwtMemberAt_two (first second : Bytes) : jwtMemberAt mode [first, second] = none := by
  rw [jwtMemberAt, List.find?_eq_none]
  intro m hm
  simp [jwtPathIs]

theorem jwtItemAt_name : ∀ mode, ∀ m ∈ JwtMember.all mode,
    ((JwtMember.all mode).find? fun other => other.takesArray && m.name == other.name) =
      if m.takesArray then some m else none := by
  decide +kernel

/-- An index under the name of a registered member is an item of its array. -/
theorem jwtItemAt_index (hm : m ∈ JwtMember.all mode) (index : UInt64) :
    jwtItemAt mode [m.name, (OpenContainer.array index).segment] =
      if m.takesArray then some m else none := by
  rw [← jwtItemAt_name mode m hm, jwtItemAt]
  congr 1
  funext other
  have hdigits := formatSizeDecimal_digits index.toNat
  have hne : (formatSizeDecimal index.toNat != []) = true :=
    bne_iff_ne.mpr (formatSizeDecimal_ne_nil index.toNat)
  simp [jwtPathIsArrayItem, OpenContainer.segment, hdigits, hne]

namespace JwtClaimVisit

variable {limit : ℕ} {t : Tree} {es : List VisitEvent}

/-! ## The text of a field -/

theorem bufferReset_text : s.bufferReset.buffer.getD [] = [] := by
  rw [bufferReset]
  cases s.buffer <;> rfl

section

variable (hgrants : ∀ n, alloc n = true)
include hgrants

theorem bufferAppend_ok {data : Bytes} (hnul : 0 ∉ data)
    (hroom : (s.buffer.getD []).length + data.length < sizeMax) :
    ∃ buffer capacity, s.bufferAppend alloc data = .ok { s with buffer, capacity } ∧
      buffer.getD [] = s.buffer.getD [] ++ data := by
  rw [bufferAppend]
  dsimp only
  by_cases hdata : data = []
  · rw [if_pos hdata]
    exact ⟨s.buffer, s.capacity, rfl, by simp [hdata]⟩
  rw [if_neg hdata, if_neg hnul, if_neg (by omega)]
  split
  · rw [if_pos (hgrants _)]
    exact ⟨_, _, rfl, rfl⟩
  · exact ⟨_, s.capacity, rfl, rfl⟩

theorem bufferTake_ok :
    s.bufferTake alloc = .ok (s.buffer.getD [], { s with buffer := none, capacity := 0 }) := by
  rw [bufferTake]
  cases s.buffer with
  | some text => rfl
  | none => exact if_pos (hgrants 1)

theorem keepText_ok (m : JwtMember) : s.keepText alloc m = .ok { s with
    out := s.out.setText m (s.buffer.getD []), buffer := none, capacity := 0 } := by
  rw [keepText, bufferTake_ok hgrants]
  rfl

theorem keepItem_ok (hlength : (s.out.array m).items.length < 2 ^ 63) :
    ∃ array : JwtStringArray, array.items = (s.out.array m).items ++ [s.buffer.getD []] ∧
      s.keepItem alloc m = .ok { s with
        out := s.out.setArray m array, buffer := none, capacity := 0 } := by
  suffices happend : ∃ array : JwtStringArray,
      array.items = (s.out.array m).items ++ [s.buffer.getD []] ∧
        jwtStringArrayAppend alloc (s.out.array m) (s.buffer.getD []) = .ok array by
    obtain ⟨array, hitems, happend⟩ := happend
    refine ⟨array, hitems, ?_⟩
    rw [keepItem, bufferTake_ok hgrants]
    change (jwtStringArrayAppend alloc (s.out.array m) (s.buffer.getD [])).bind _ = _
    rw [happend]
    rfl
  rw [jwtStringArrayAppend]
  split
  · next hfull =>
      dsimp only
      rw [if_neg, if_pos (hgrants _)]
      · exact ⟨_, rfl, rfl⟩
      · split
        · omega
        · omega
  · exact ⟨_, rfl, rfl⟩

/-- The chunks of a string that is read for a field. -/
theorem run_chunks (hactive : s.active ≠ .none) {chunks : List Bytes}
    (hroom : (s.buffer.getD []).length + chunks.flatten.length < sizeMax)
    (hnul : 0 ∉ chunks.flatten) :
    ∃ buffer capacity, run alloc (chunks.map .stringChunk ++ es) s nest =
        run alloc es { s with buffer, capacity } nest ∧
      buffer.getD [] = s.buffer.getD [] ++ chunks.flatten := by
  induction chunks generalizing s with
  | nil => exact ⟨s.buffer, s.capacity, rfl, (List.append_nil _).symm⟩
  | cons data chunks ih =>
      rw [List.flatten_cons, List.mem_append, not_or] at hnul
      rw [List.flatten_cons, List.length_append] at hroom
      obtain ⟨buffer, capacity, happend, hbuffer⟩ :=
        bufferAppend_ok (s := s) hgrants hnul.1 (by omega)
      obtain ⟨buffer', capacity', hrun, hbuffer'⟩ :=
        ih (s := { s with buffer, capacity }) hactive
          (by rw [hbuffer, List.length_append]; omega) hnul.2
      refine ⟨buffer', capacity', ?_, ?_⟩
      · rw [List.map_cons, List.cons_append, run, event, stringChunk, if_neg hactive, happend]
        exact hrun
      · rw [hbuffer', hbuffer, List.flatten_cons, List.append_assoc]

/-- A string that is read for a field, up to the callback at its end. -/
theorem run_text (hactive : s.active ≠ .none) (hempty : s.buffer.getD [] = [])
    {chunks : List Bytes} (hroom : chunks.flatten.length < sizeMax) (hnul : 0 ∉ chunks.flatten) :
    ∃ buffer capacity, run alloc (chunks.map .stringChunk ++ [.stringEnd]) s nest =
        (stringEnd alloc { s with buffer, capacity }).map (·, nest.after) ∧
      buffer.getD [] = chunks.flatten := by
  obtain ⟨buffer, capacity, hrun, htext⟩ := run_chunks (s := s) hgrants hactive (by simpa [hempty] using hroom) hnul
  refine ⟨buffer, capacity, ?_, ?_⟩
  · rw [hrun, run_one]
    rfl
  · rw [htext, hempty, List.nil_append]

end

/-- A NUL in a string that is read for a field ends the visit. -/
theorem run_chunks_nul (hactive : s.active ≠ .none) {chunks : List Bytes}
    (hnul : 0 ∈ chunks.flatten) :
    ∃ e, run alloc (chunks.map .stringChunk ++ es) s nest = .error e := by
  induction chunks generalizing s with
  | nil => simp at hnul
  | cons data chunks ih =>
      rw [List.map_cons, List.cons_append, run, event, stringChunk, if_neg hactive]
      by_cases hdata : 0 ∈ data
      · have hne : data ≠ [] := List.ne_nil_of_mem hdata
        rw [bufferAppend]
        dsimp only
        rw [if_neg hne, if_pos hdata]
        exact ⟨_, rfl⟩
      · have hrest : 0 ∈ chunks.flatten := by simpa [hdata] using hnul
        cases happend : s.bufferAppend alloc data with
        | error e => exact ⟨e, rfl⟩
        | ok s' => exact ih (bufferAppend_active happend ▸ hactive) hrest

/-! ## The items of a member -/

/-- A value has gone to the field of a member. -/
structure Took (m : JwtMember) (field : JwtField) (s s' : JwtClaimVisit) : Prop where
  mode : s'.headerMode = s.headerMode
  root : s'.rootObjectSeen = s.rootObjectSeen
  active : s'.active = .none
  seen : ∀ other, s'.seen other = if other = m then true else s.seen other
  field : ∀ other, s'.out.field other = if other = m then field else s.out.field other

/-- The place of a member of the root, and of an item of it. -/
def memberNest (m : JwtMember) : Nest := [.object m.name]

def itemNest (m : JwtMember) (index : UInt64) : Nest := [.array index, .object m.name]

theorem memberNest_segments : (memberNest m).segments = [m.name] := rfl

theorem itemNest_segments (index : UInt64) :
    (itemNest m index).segments = [m.name, (OpenContainer.array index).segment] := rfl

theorem registered_member (hm : m ∈ JwtMember.all mode) :
    jwtPathIsRegistered mode [m.name] = true := by
  rw [jwtPathIsRegistered, jwtMemberAt_name mode m hm]
  rfl

theorem registered_item (hm : m ∈ JwtMember.all mode) (htakes : m.takesArray = true)
    (index : UInt64) :
    jwtPathIsRegistered mode [m.name, (OpenContainer.array index).segment] = true := by
  rw [jwtPathIsRegistered, jwtItemAt_index hm, if_pos htakes, Bool.or_comm]
  rfl

section

variable (hm : m ∈ JwtMember.all s.headerMode) (htakes : m.takesArray = true)
include hm htakes

theorem item_stringBegin (index : UInt64) :
    s.event alloc (Nest.path .stringBegin (itemNest m index)) .stringBegin =
      .ok (bufferReset { s with active := .item m }) := by
  rw [Nest.path, if_neg (by decide), itemNest_segments, event, stringBegin, jwtMemberAt_two,
    jwtItemAt_index hm, if_pos htakes]

/-- A string with a NUL is no item. -/
theorem run_item_nul {index : UInt64} {chunks : List Bytes} (hnul : 0 ∈ chunks.flatten) :
    ∃ e, run alloc (.stringBegin :: (chunks.map .stringChunk ++ [.stringEnd])) s
      (itemNest m index) = .error e := by
  rw [run, item_stringBegin hm htakes]
  exact run_chunks_nul (s := bufferReset { s with active := .item m }) (fun h => by cases h) hnul

/-- A string becomes an item. -/
theorem run_item_string (hgrants : ∀ n, alloc n = true) (hseen : s.seen m = true)
    (hlength : (s.out.field m).items.length < 2 ^ 63) {index : UInt64} {chunks : List Bytes}
    (hroom : chunks.flatten.length < sizeMax) (hnul : 0 ∉ chunks.flatten) :
    ∃ s', run alloc (.stringBegin :: (chunks.map .stringChunk ++ [.stringEnd])) s
        (itemNest m index) = .ok (s', itemNest m (index + 1)) ∧
      Took m { s.out.field m with items := (s.out.field m).items ++ [chunks.flatten] } s s' := by
  obtain ⟨buffer, capacity, hrun, htext⟩ := run_text
    (s := bufferReset { s with active := .item m }) hgrants (fun h => by cases h) bufferReset_text
    hroom hnul
  have hlength' : (s.out.array m).items.length < 2 ^ 63 := by
    rwa [JwtOutputs.array_items htakes]
  obtain ⟨array, hitems, hkeep⟩ := keepItem_ok (m := m)
    (s := { bufferReset { s with active := .item m } with buffer, capacity }) hgrants hlength'
  rw [htext, JwtOutputs.array_items htakes] at hitems
  refine ⟨{ s with
    out := s.out.setArray m array, active := .none, buffer := none, capacity := 0 },
    ?_, rfl, rfl, rfl, ?_, ?_⟩
  · rw [run, item_stringBegin hm htakes]
    change run alloc (chunks.map .stringChunk ++ [.stringEnd]) _ (itemNest m index) = _
    rw [hrun]
    change ((keepItem alloc { bufferReset { s with active := .item m } with buffer, capacity }
      m).map endField).map _ = _
    rw [hkeep]
    rfl
  · intro other
    split
    · next hother => exact hother ▸ hseen
    · rfl
  · intro other
    change ((s.out.setArray m array).field other) = _
    rw [JwtOutputs.field_setArray htakes, hitems]
    rfl

/-- What is no string is no item. -/
theorem run_item_other {index : UInt64} (h : EventsOf limit t es) (ht : ∀ value, t ≠ .string value) :
    ∃ e, run alloc es s (itemNest m index) = .error e := by
  have hpath {e : VisitEvent} (he : e.ofContainer = false) :
      Nest.path e (itemNest m index) = [m.name, (OpenContainer.array index).segment] := by
    rw [Nest.path, he]
    exact itemNest_segments index
  have hregistered := registered_item hm htakes index
  have hmember := @jwtMemberAt_two s.headerMode m.name (OpenContainer.array index).segment
  have hitem := jwtItemAt_index hm index
  rw [if_pos htakes] at hitem
  cases h with
  | null =>
      rw [run, hpath rfl, event, literalType, hregistered]
      exact ⟨_, rfl⟩
  | bool =>
      rw [run, hpath rfl, event, literalType, hregistered]
      exact ⟨_, rfl⟩
  | number hnum hlen =>
      rw [run, hpath rfl, event, numberBegin, hmember, hitem]
      exact ⟨_, rfl⟩
  | string => exact absurd rfl (ht _)
  | array hts =>
      rw [run, hpath rfl, event, arrayBegin, hmember, hitem]
      exact ⟨_, rfl⟩
  | object hms =>
      rw [run, hpath rfl, event, objectBegin, if_neg (by simp), hregistered]
      exact ⟨_, rfl⟩

end

theorem Took.trans {field field' : JwtField} {s₁ s₂ : JwtClaimVisit} (h : Took m field s s₁)
    (h' : Took m field' s₁ s₂) : Took m field' s s₂ where
  mode := h'.mode.trans h.mode
  root := h'.root.trans h.root
  active := h'.active
  seen other := by
    rw [h'.seen, h.seen]
    split <;> rfl
  field other := by
    rw [h'.field, h.field]
    split <;> rfl

theorem Took.own {field : JwtField} (h : Took m field s s') : s'.out.field m = field := by
  rw [h.field, if_pos rfl]

theorem run_then_error {es' : List VisitEvent} (h : ∃ e, run alloc es s nest = .error e) :
    ∃ e, run alloc (es ++ es') s nest = .error e := by
  obtain ⟨e, h⟩ := h
  rw [run_append, h]
  exact ⟨e, rfl⟩

/-- The values of an array of strings without NUL. -/
def Strings (ts : List Tree) (values : List Bytes) : Prop :=
  ts = values.map .string ∧ ∀ value ∈ values, 0 ∉ value

theorem strings_cons {value : Bytes} {ts : List Tree} {values : List Bytes} (hnul : 0 ∉ value)
    (h : Strings ts values) : Strings (.string value :: ts) (value :: values) := by
  refine ⟨congrArg _ h.1, fun other hother => ?_⟩
  rcases List.mem_cons.mp hother with rfl | hother
  · exact hnul
  · exact h.2 other hother

theorem strings_of_cons {ts : List Tree} {values : List Bytes} (h : Strings (t :: ts) values) :
    ∃ value rest, t = .string value ∧ 0 ∉ value ∧ Strings ts rest ∧ values = value :: rest := by
  obtain ⟨hts, hnul⟩ := h
  cases values with
  | nil => cases hts
  | cons value rest =>
      obtain ⟨rfl, hrest⟩ := List.cons.inj hts
      exact ⟨value, rest, rfl, hnul value List.mem_cons_self,
        ⟨hrest, fun other hother => hnul other (List.mem_cons_of_mem _ hother)⟩, rfl⟩

/-- The items of an array of strings are appended, and any other array ends the visit. -/
theorem run_items (hgrants : ∀ n, alloc n = true) (hm : m ∈ JwtMember.all s.headerMode)
    (htakes : m.takesArray = true) (hseen : s.seen m = true) (hactive : s.active = .none)
    {index : UInt64} {ts : List Tree} (h : EventsOfItems limit ts es)
    (hsize : 2 * (s.out.field m).items.length + itemsBytes ts < 2 ^ 64) :
    (∃ values index' s', Strings ts values ∧
      run alloc es s (itemNest m index) = .ok (s', itemNest m index') ∧
      Took m { s.out.field m with items := (s.out.field m).items ++ values } s s') ∨
    (∀ values, ¬ Strings ts values) ∧ ∃ e, run alloc es s (itemNest m index) = .error e := by
  induction ts generalizing s es index with
  | nil =>
      cases h
      refine .inl ⟨[], index, s, ⟨rfl, by simp⟩, rfl, rfl, rfl, hactive, fun other => ?_,
        fun other => ?_⟩
      · split
        · next hother => exact hother ▸ hseen
        · rfl
      · rw [List.append_nil]
        split
        · next hother => exact hother ▸ rfl
        · rfl
  | cons t ts ih =>
      cases h with
      | @cons _ _ es es' ht hts =>
      rw [itemsBytes] at hsize
      by_cases hstring : ∃ value, t = .string value
      · obtain ⟨value, rfl⟩ := hstring
        rw [treeBytes] at hsize
        cases ht with
        | @string chunks =>
        by_cases hnul : 0 ∈ chunks.flatten
        · refine .inr ⟨fun values hvalues => ?_, ?_⟩
          · obtain ⟨value, rest, hvalue, hvalue', -⟩ := strings_of_cons hvalues
            cases hvalue
            exact hvalue' hnul
          · exact run_then_error (run_item_nul hm htakes hnul)
        · obtain ⟨s₁, hrun, htook⟩ := run_item_string hm htakes hgrants hseen
            (by omega) (show chunks.flatten.length < sizeMax by rw [sizeMax]; omega) hnul
          have hlength : (s₁.out.field m).items.length = (s.out.field m).items.length + 1 := by
            rw [htook.own, List.length_append, List.length_singleton]
          have hseen₁ : s₁.seen m = true := by rw [htook.seen, if_pos rfl]
          have hm₁ : m ∈ JwtMember.all s₁.headerMode := htook.mode.symm ▸ hm
          have hrest := @ih s₁ _ hm₁ hseen₁ htook.active (index + 1) hts (by omega)
          rw [run_then hrun]
          rcases hrest with ⟨values, index', s', hvalues, hrun', htook'⟩ | ⟨hnone, herror⟩
          · refine .inl ⟨chunks.flatten :: values, index', s', strings_cons hnul hvalues, hrun', ?_⟩
            rw [htook.own, List.append_assoc] at htook'
            exact htook.trans htook'
          · refine .inr ⟨fun values hvalues => ?_, herror⟩
            obtain ⟨value, rest, -, -, hrest, -⟩ := strings_of_cons hvalues
            exact hnone rest hrest
      · refine .inr ⟨fun values hvalues => ?_, ?_⟩
        · obtain ⟨value, rest, hvalue, -⟩ := strings_of_cons hvalues
          exact hstring ⟨value, hvalue⟩
        · exact run_then_error (run_item_other hm htakes ht fun value hvalue =>
            hstring ⟨value, hvalue⟩)

/-! ## The value of a member -/

/-- What the callbacks of a value of a member see. -/
theorem memberNest_path {e : VisitEvent} (he : e.ofContainer = false) :
    Nest.path e (memberNest m) = [m.name] := by
  rw [Nest.path, he]
  rfl

/-- The run of a value ends well, with its field, exactly if the member may have that value and
did not have one. -/
def Settles (alloc : ℕ → Bool) (m : JwtMember) (t : Tree) (es : List VisitEvent)
    (s : JwtClaimVisit) : Prop :=
  (∃ field s', s.seen m = false ∧ m.Holds (some t) field ∧
    run alloc es s (memberNest m) = .ok (s', memberNest m) ∧ Took m field s s') ∨
  (s.seen m = true ∨ ∀ field, ¬ m.Holds (some t) field) ∧
    ∃ e, run alloc es s (memberNest m) = .error e

section

variable (hm : m ∈ JwtMember.all s.headerMode)
include hm

theorem settles_literal {e : VisitEvent} (he : e.ofContainer = false)
    (hevent : s.event alloc [m.name] e = s.literalType [m.name])
    (ht : ∀ field, ¬ m.Holds (some t) field) : Settles alloc m t [e] s := by
  refine .inr ⟨.inr ht, ?_⟩
  rw [run, memberNest_path he, hevent, literalType, registered_member hm]
  exact ⟨_, rfl⟩

theorem settles_object {ms : List (Text × Tree)} {es : List VisitEvent} :
    Settles alloc m (.object ms) (.objectBegin :: es) s := by
  refine .inr ⟨.inr (fun field hfield => by cases hfield), ?_⟩
  rw [run, memberNest_path rfl, event, objectBegin, if_neg (by simp), registered_member hm]
  exact ⟨_, rfl⟩

theorem settles_array (hgrants : ∀ n, alloc n = true) (hactive : s.active = .none)
    (hempty : s.seen m = false → s.out.field m = {}) {ts : List Tree}
    (h : EventsOfItems limit ts es) (hsize : itemsBytes ts < 2 ^ 64) :
    Settles alloc m (.array ts) (.arrayBegin :: (es ++ [.arrayEnd])) s := by
  by_cases htakes : m.takesArray = true
  · cases hseen : s.seen m with
    | true =>
        refine .inr ⟨.inl hseen, ?_⟩
        rw [run, memberNest_path rfl, event, arrayBegin, jwtMemberAt_name _ _ hm]
        dsimp only
        rw [if_pos htakes, if_pos hseen]
        exact ⟨_, rfl⟩
    | false =>
        obtain ⟨s₁, hs₁⟩ : ∃ s₁ : JwtClaimVisit, s₁ = { s with
          seen := fun other => if other = m then true else s.seen other } := ⟨_, rfl⟩
        have hrun : run alloc (.arrayBegin :: (es ++ [.arrayEnd])) s (memberNest m) =
            run alloc (es ++ [.arrayEnd]) s₁ (itemNest m 0) := by
          rw [run, memberNest_path rfl, event, arrayBegin, jwtMemberAt_name _ _ hm]
          dsimp only
          rw [if_pos htakes, if_neg (by simp [hseen]), hs₁]
          rfl
        have hfield : s₁.out.field m = {} := by
          rw [hs₁]
          exact hempty hseen
        have hitems := @run_items _ s₁ m _ _ hgrants (by rw [hs₁]; exact hm)
          htakes (by rw [hs₁]; exact if_pos rfl) (by rw [hs₁]; exact hactive) 0 _ h
          (by rw [hfield]; simpa using hsize)
        rcases hitems with ⟨values, index, s', ⟨rfl, hnul⟩, hrun', htook⟩ | ⟨hnone, herror⟩
        · refine .inl ⟨_, s', hseen, .items htakes hnul, ?_, ?_⟩
          · rw [hrun, run_then hrun', run_quiet htook.active (.inl rfl)]
            rfl
          · rw [hfield] at htook
            refine ⟨htook.mode.trans (by rw [hs₁]), htook.root.trans (by rw [hs₁]), htook.active,
              fun other => ?_, fun other => ?_⟩
            · rw [htook.seen, hs₁]
              split
              · rfl
              · next hother => exact if_neg hother
            · rw [htook.field, hs₁]
              rfl
        · refine .inr ⟨.inr fun field hfield => ?_, ?_⟩
          · cases hfield with
            | items _ hvalues => exact hnone _ ⟨rfl, hvalues⟩
          · rw [hrun]
            exact run_then_error herror
  · refine .inr ⟨.inr fun field hfield => ?_, ?_⟩
    · cases hfield
      contradiction
    · rw [run, memberNest_path rfl, event, arrayBegin, jwtMemberAt_name _ _ hm]
      dsimp only
      rw [if_neg htakes]
      exact ⟨_, rfl⟩

theorem member_stringBegin (htakes : m.takesString = true) (hseen : s.seen m = false) :
    s.event alloc (Nest.path .stringBegin (memberNest m)) .stringBegin =
      .ok (bufferReset { s with
        seen := fun other => if other = m then true else s.seen other
        active := .member m }) := by
  rw [memberNest_path rfl, event, stringBegin, jwtMemberAt_name _ _ hm]
  dsimp only
  rw [if_pos htakes, beginField, if_neg (by simp [hseen])]

theorem settles_string (hgrants : ∀ n, alloc n = true)
    (hempty : s.seen m = false → s.out.field m = {}) {chunks : List Bytes}
    (hroom : chunks.flatten.length < sizeMax) :
    Settles alloc m (.string chunks.flatten)
      (.stringBegin :: (chunks.map .stringChunk ++ [.stringEnd])) s := by
  by_cases htakes : m.takesString = true
  · cases hseen : s.seen m with
    | true =>
        refine .inr ⟨.inl hseen, ?_⟩
        rw [run, memberNest_path rfl, event, stringBegin, jwtMemberAt_name _ _ hm]
        dsimp only
        rw [if_pos htakes, beginField, if_pos hseen]
        exact ⟨_, rfl⟩
    | false =>
        obtain ⟨s₁, hs₁⟩ : ∃ s₁ : JwtClaimVisit, s₁ = bufferReset { s with
          seen := fun other => if other = m then true else s.seen other
          active := .member m } := ⟨_, rfl⟩
        have hactive : s₁.active = .member m := by
          rw [hs₁]
          rfl
        have hbusy : s₁.active ≠ .none := by
          rw [hactive]
          exact fun h => by cases h
        have hrun : run alloc (.stringBegin :: (chunks.map .stringChunk ++ [.stringEnd])) s
            (memberNest m) =
              run alloc (chunks.map .stringChunk ++ [.stringEnd]) s₁ (memberNest m) := by
          rw [run, member_stringBegin hm htakes hseen, hs₁]
          rfl
        rw [Settles, hrun]
        by_cases hnul : 0 ∈ chunks.flatten
        · refine .inr ⟨.inr fun field hfield => ?_, run_chunks_nul hbusy hnul⟩
          cases hfield with
          | text _ _ hvalue => exact hvalue hnul
          | scope _ hvalue => exact hvalue hnul
        · obtain ⟨buffer, capacity, htext, hbuffer⟩ := run_text (s := s₁)
            hgrants hbusy (by rw [hs₁]; exact bufferReset_text) hroom hnul
          rw [htext]
          obtain ⟨s₂, hs₂⟩ : ∃ s₂ : JwtClaimVisit, s₂ = { s₁ with buffer, capacity } := ⟨_, rfl⟩
          have hactive₂ : s₂.active = .member m := by rw [hs₂]; exact hactive
          have hbuffer₂ : s₂.buffer.getD [] = chunks.flatten := by rw [hs₂]; exact hbuffer
          have hout : s₂.out = s.out := by rw [hs₂, hs₁]; rfl
          have hseen₂ (other : JwtMember) :
              s₂.seen other = if other = m then true else s.seen other := by rw [hs₂, hs₁]; rfl
          have hmode : s₂.headerMode = s.headerMode := by rw [hs₂, hs₁]; rfl
          have hroot : s₂.rootObjectSeen = s.rootObjectSeen := by rw [hs₂, hs₁]; rfl
          rw [← hs₂, stringEnd, hactive₂]
          dsimp only
          rw [if_neg (by simp [htakes])]
          by_cases hscp : m = .scp
          · have harray : m.takesArray = true := hscp ▸ rfl
            have hitems : (s₂.out.array m).items = [] := by
              rw [JwtOutputs.array_items harray, hout, hempty hseen]
            obtain ⟨array, hlast, hkeep⟩ := keepItem_ok (s := s₂) (m := m) hgrants
              (by rw [hitems]; simp)
            rw [hitems, hbuffer₂, List.nil_append] at hlast
            rw [if_pos hscp, hkeep]
            refine .inl ⟨_, _, hseen, .scope hscp hnul, rfl, hmode, hroot, rfl, hseen₂,
              fun other => ?_⟩
            change (s₂.out.setArray m array).field other = _
            rw [JwtOutputs.field_setArray harray, hlast, hout, hempty hseen]
          · rw [if_neg hscp, keepText_ok hgrants, hbuffer₂]
            refine .inl ⟨_, _, hseen, .text htakes hscp hnul, rfl, hmode, hroot, rfl, hseen₂,
              fun other => ?_⟩
            change (s₂.out.setText m chunks.flatten).field other = _
            rw [JwtOutputs.field_setText htakes hscp, hout, hempty hseen]
  · refine .inr ⟨.inr fun field hfield => ?_, ?_⟩
    · cases hfield with
      | text htext _ _ => exact htakes htext
      | scope hscp _ => exact htakes (hscp ▸ rfl)
    · rw [run, memberNest_path rfl, event, stringBegin, jwtMemberAt_name _ _ hm]
      dsimp only
      rw [if_neg htakes]
      exact ⟨_, rfl⟩

theorem settles_number (hgrants : ∀ n, alloc n = true)
    (hempty : s.seen m = false → s.out.field m = {}) {lexeme : Bytes} (hnum : JsonNumber lexeme)
    (hroom : lexeme.length < sizeMax) :
    Settles alloc m (.number lexeme) [.numberBegin, .numberChunk lexeme, .numberEnd] s := by
  have hnul : (0 : Byte) ∉ lexeme := fun h => by
    have hbyte := JsonNumber.bytes hnum 0 h
    revert hbyte
    decide
  by_cases htakes : m.takesNumber = true
  · cases hseen : s.seen m with
    | true =>
        refine .inr ⟨.inl hseen, ?_⟩
        rw [run, memberNest_path rfl, event, numberBegin, jwtMemberAt_name _ _ hm]
        dsimp only
        rw [if_pos htakes, beginField, if_pos hseen]
        exact ⟨_, rfl⟩
    | false =>
        obtain ⟨s₁, hs₁⟩ : ∃ s₁ : JwtClaimVisit, s₁ = bufferReset { s with
          seen := fun other => if other = m then true else s.seen other
          active := .member m } := ⟨_, rfl⟩
        have hrun : run alloc [.numberBegin, .numberChunk lexeme, .numberEnd] s (memberNest m) =
              run alloc [.numberChunk lexeme, .numberEnd] s₁ (memberNest m) := by
          rw [run, memberNest_path rfl, event, numberBegin, jwtMemberAt_name _ _ hm]
          dsimp only
          rw [if_pos htakes, beginField, if_neg (by simp [hseen]), hs₁]
          rfl
        have hdate {buffer : Option Bytes} {capacity : ℕ} :
            dateActive { s₁ with buffer, capacity } = some m := by
          rw [hs₁]
          exact if_pos htakes
        have hempty₁ : s₁.buffer.getD [] = [] := by rw [hs₁]; exact bufferReset_text
        obtain ⟨buffer, capacity, happend, hbuffer⟩ := bufferAppend_ok (s := s₁) hgrants hnul
          (by rw [hempty₁]; simpa using hroom)
        rw [hempty₁, List.nil_append] at hbuffer
        have hsome : buffer = some lexeme := by
          cases buffer with
          | none => exact absurd hbuffer.symm (strictLexis_lawful.number _ hnum)
          | some text => exact congrArg some hbuffer
        obtain ⟨s₂, hs₂⟩ : ∃ s₂ : JwtClaimVisit, s₂ = { s₁ with buffer, capacity } := ⟨_, rfl⟩
        have hchunk : run alloc [.numberChunk lexeme, .numberEnd] s₁ (memberNest m) =
            s₂.numberEnd.map (·, memberNest m) := by
          rw [run, event, numberChunk, if_neg (by rw [hdate]; simp), happend, ← hs₂]
          exact run_one .numberEnd s₂ (memberNest m)
        rw [Settles, hrun, hchunk, numberEnd, hs₂, hdate, hsome]
        dsimp only [Option.bind_some]
        cases hparse : parseI64Word lexeme with
        | none =>
            refine .inr ⟨.inr fun field hfield => ?_, _, rfl⟩
            cases hfield with
            | date _ hvalue _ =>
                rw [(parseI64Word_eq_some hnul).mpr hvalue] at hparse
                cases hparse
        | some value =>
            have hvalue := (parseI64Word_eq_some hnul).mp hparse
            dsimp only
            by_cases hneg : value < 0
            · rw [if_pos hneg]
              refine .inr ⟨.inr fun field hfield => ?_, _, rfl⟩
              cases hfield with
              | @date _ other _ hother hpos =>
                  rw [(parseI64Word_eq_some hnul).mpr hother] at hparse
                  cases hparse
                  exact absurd hneg (Int64.not_lt.mpr hpos)
            · rw [if_neg hneg]
              refine .inl ⟨_, _, hseen, .date htakes hvalue (Int64.not_lt.mp hneg), rfl, ?_, ?_,
                rfl, fun other => ?_, fun other => ?_⟩
              · rw [hs₁]
                rfl
              · rw [hs₁]
                rfl
              · rw [hs₁]
                rfl
              · change (s₁.out.setDate m value).field other = _
                have hout : s₁.out = s.out := by rw [hs₁]; rfl
                rw [JwtOutputs.field_setDate htakes, hout, hempty hseen]
  · refine .inr ⟨.inr fun field hfield => ?_, ?_⟩
    · cases hfield
      contradiction
    · rw [run, memberNest_path rfl, event, numberBegin, jwtMemberAt_name _ _ hm]
      dsimp only
      rw [if_neg htakes]
      exact ⟨_, rfl⟩

/-- The value of a registered member. -/
theorem settles (hgrants : ∀ n, alloc n = true) (hactive : s.active = .none)
    (hempty : s.seen m = false → s.out.field m = {}) (h : EventsOf limit t es)
    (hsize : treeBytes t < sizeMax) : Settles alloc m t es s := by
  cases h with
  | null => exact settles_literal hm rfl rfl fun field hfield => by cases hfield
  | bool => exact settles_literal hm rfl rfl fun field hfield => by cases hfield
  | number hnum hlen => exact settles_number hm hgrants hempty hnum (by rwa [treeBytes] at hsize)
  | string =>
      rw [treeBytes] at hsize
      exact settles_string hm hgrants hempty (by omega)
  | array hts =>
      rw [treeBytes] at hsize
      exact settles_array hm hgrants hactive hempty hts (by rw [sizeMax] at hsize; omega)
  | object hms => exact settles_object hm

end

end JwtClaimVisit

/-! ## The members of an object -/

/-- The first value under the name of a member. -/
def memberOf (ms : List (Text × Tree)) (m : JwtMember) : Option Tree :=
  (ms.find? fun x => x.1 == m.name).map Prod.snd

/-- Every registered member occurs at most once and has a value of its type, and the field of
the member holds that value, or nothing. -/
structure JwtObject (mode : Bool) (ms : List (Text × Tree)) (out : JwtOutputs) : Prop where
  once : ∀ m ∈ JwtMember.all mode, (ms.map Prod.fst).count m.name ≤ 1
  holds : ∀ m ∈ JwtMember.all mode, m.Holds (memberOf ms m) (out.field m)

/-- What the rest of an object makes of the fields, behind the members that have been `seen`. -/
def FillsMembers (mode : Bool) (seen : JwtMember → Bool) (ms : List (Text × Tree))
    (before after : JwtMember → JwtField) : Prop :=
  ∀ m ∈ JwtMember.all mode,
    (seen m = true → m.name ∉ ms.map Prod.fst ∧ after m = before m) ∧
    (seen m = false → (ms.map Prod.fst).count m.name ≤ 1 ∧ m.Holds (memberOf ms m) (after m))

theorem name_inj : ∀ mode, ∀ m ∈ JwtMember.all mode, ∀ other ∈ JwtMember.all mode,
    m.name = other.name → m = other := by
  decide +kernel

theorem jwtObject_iff {ms : List (Text × Tree)} {out : JwtOutputs}
    {before : JwtMember → JwtField} :
    JwtObject mode ms out ↔ FillsMembers mode (fun _ => false) ms before out.field := by
  constructor
  · intro h m hm
    exact ⟨(fun h => by cases h), fun _ => ⟨h.once m hm, h.holds m hm⟩⟩
  · intro h
    exact ⟨fun m hm => ((h m hm).2 rfl).1, fun m hm => ((h m hm).2 rfl).2⟩

section

variable {seen : JwtMember → Bool} {key : Text} {t : Tree} {ms : List (Text × Tree)}
  {before after : JwtMember → JwtField}

theorem memberOf_cons_ne (h : key ≠ m.name) : memberOf ((key, t) :: ms) m = memberOf ms m := by
  rw [memberOf, List.find?_cons_of_neg (by simpa using h)]
  rfl

theorem memberOf_cons_self : memberOf ((m.name, t) :: ms) m = some t := by
  rw [memberOf, List.find?_cons_of_pos (by simp)]
  rfl

theorem memberOf_none (h : m.name ∉ ms.map Prod.fst) : memberOf ms m = none := by
  rw [memberOf, Option.map_eq_none_iff, List.find?_eq_none]
  rintro x hx heq
  exact h (List.mem_map.mpr ⟨x, hx, by simpa using heq⟩)

/-- Another key does not touch the condition of a member. -/
theorem fills_cons_ne (h : key ≠ m.name) :
    (m.name ∉ ((key, t) :: ms).map Prod.fst ↔ m.name ∉ ms.map Prod.fst) ∧
      (((key, t) :: ms).map Prod.fst).count m.name = (ms.map Prod.fst).count m.name ∧
        memberOf ((key, t) :: ms) m = memberOf ms m := by
  refine ⟨?_, ?_, memberOf_cons_ne h⟩
  · rw [List.map_cons, List.mem_cons, not_or]
    exact ⟨fun h => h.2, fun hrest => ⟨h.symm, hrest⟩⟩
  · rw [List.map_cons]
    exact List.count_cons_of_ne h

theorem fills_unregistered (h : ∀ m ∈ JwtMember.all mode, key ≠ m.name) :
    FillsMembers mode seen ((key, t) :: ms) before after ↔ FillsMembers mode seen ms before after := by
  refine forall₂_congr fun m hm => ?_
  obtain ⟨hmem, hcount, hvalue⟩ := fills_cons_ne (t := t) (h m hm)
  rw [hmem, hcount, hvalue]

theorem fills_registered (hm : m ∈ JwtMember.all mode) :
    FillsMembers mode seen ((m.name, t) :: ms) before after ↔
      seen m = false ∧ ∃ field, m.Holds (some t) field ∧
        FillsMembers mode (fun other => if other = m then true else seen other) ms
          (fun other => if other = m then field else before other) after := by
  have hother {other : JwtMember} (h : other ∈ JwtMember.all mode) (hne : other ≠ m) :
      m.name ≠ other.name := fun heq => hne (name_inj mode m hm other h heq).symm
  constructor
  · intro h
    obtain ⟨hseen, hnew⟩ := h m hm
    have hfalse : seen m = false := by
      cases htrue : seen m with
      | false => rfl
      | true => exact absurd (by simp) (hseen htrue).1
    obtain ⟨hcount, hvalue⟩ := hnew hfalse
    rw [memberOf_cons_self] at hvalue
    refine ⟨hfalse, after m, hvalue, fun other hin => ?_⟩
    dsimp only
    by_cases heq : other = m
    · rw [if_pos heq, if_pos heq, heq]
      refine ⟨fun _ => ⟨?_, rfl⟩, (fun h => by cases h)⟩
      rw [List.map_cons, List.count_cons_self] at hcount
      exact List.count_eq_zero.mp (by omega)
    · rw [if_neg heq, if_neg heq]
      obtain ⟨hmem, hcount', hvalue'⟩ := fills_cons_ne (t := t) (hother hin heq)
      have hthis := h other hin
      rwa [hmem, hcount', hvalue'] at hthis
  · rintro ⟨hfalse, field, hvalue, h⟩ other hin
    have hthis := h other hin
    dsimp only at hthis
    by_cases heq : other = m
    · rw [if_pos heq, if_pos heq, heq] at hthis
      obtain ⟨hmem, hafter⟩ := hthis.1 rfl
      rw [heq]
      refine ⟨fun htrue => ?_, fun _ => ⟨?_, ?_⟩⟩
      · rw [hfalse] at htrue
        cases htrue
      · rw [List.map_cons, List.count_cons_self, List.count_eq_zero.mpr hmem]
      · rw [memberOf_cons_self, hafter]
        exact hvalue
    · rw [if_neg heq, if_neg heq] at hthis
      obtain ⟨hmem, hcount', hvalue'⟩ := fills_cons_ne (t := t) (hother hin heq)
      rwa [hmem, hcount', hvalue']

/-- The key of a registered member. -/
def registeredKey (mode : Bool) (x : Text × Tree) : Bool :=
  (JwtMember.all mode).any fun m => x.1 == m.name

theorem fills_filter : FillsMembers mode seen (ms.filter (registeredKey mode)) before after ↔
    FillsMembers mode seen ms before after := by
  induction ms generalizing seen before with
  | nil => exact Iff.rfl
  | cons x ms ih =>
      obtain ⟨key, t⟩ := x
      by_cases hregistered : ∃ m ∈ JwtMember.all mode, key = m.name
      · obtain ⟨m, hm, rfl⟩ := hregistered
        have htrue : registeredKey mode (m.name, t) = true :=
          List.any_eq_true.mpr ⟨m, hm, beq_self_eq_true _⟩
        rw [List.filter_cons_of_pos htrue, fills_registered hm, fills_registered hm]
        simp only [ih]
      · have hkey : ∀ m ∈ JwtMember.all mode, key ≠ m.name :=
          fun m hm heq => hregistered ⟨m, hm, heq⟩
        have hfalse : registeredKey mode (key, t) = false :=
          List.any_eq_false.mpr fun m hm => by simpa using hkey m hm
        rw [List.filter_cons_of_neg (by simp [hfalse]), fills_unregistered hkey]
        exact ih

/-- What stands under other keys, whatever is inside, does not matter. -/
theorem jwtObject_filter {out : JwtOutputs} :
    JwtObject mode (ms.filter (registeredKey mode)) out ↔ JwtObject mode ms out := by
  rw [jwtObject_iff, @jwtObject_iff _ _ _ fun _ => {}]
  exact fills_filter

end

namespace JwtClaimVisit

variable {limit : ℕ} {es : List VisitEvent}

/-- The members of the root object. -/
theorem run_members (hgrants : ∀ n, alloc n = true) {ms : List (Text × Tree)}
    (hmode : s.headerMode = mode) (hactive : s.active = .none)
    (hempty : ∀ m ∈ JwtMember.all mode, s.seen m = false → s.out.field m = {})
    (h : EventsOfMembers limit ms es) (hsize : membersBytes ms < sizeMax) {key : Bytes} :
    (∃ key' s', run alloc es s [.object key] = .ok (s', [.object key']) ∧
      s'.rootObjectSeen = s.rootObjectSeen ∧ s'.active = .none ∧
      FillsMembers mode s.seen ms s.out.field s'.out.field ∧
      ∀ m ∉ JwtMember.all mode, s'.out.field m = s.out.field m) ∨
    (∀ after, ¬ FillsMembers mode s.seen ms s.out.field after) ∧
      ∃ e, run alloc es s [.object key] = .error e := by
  induction ms generalizing s es key with
  | nil =>
      cases h
      refine .inl ⟨key, s, rfl, rfl, hactive, fun m hm => ⟨fun _ => ⟨by simp, rfl⟩, fun hseen => ?_⟩,
        fun m _ => rfl⟩
      rw [hempty m hm hseen]
      exact ⟨by simp, .absent⟩
  | cons x ms ih =>
      cases h with
      | @cons chunks t _ es es' ht hms =>
      rw [membersBytes] at hsize
      rw [run_key hactive]
      by_cases hregistered : ∃ m ∈ JwtMember.all mode, chunks.flatten = m.name
      · obtain ⟨m, hm, hname⟩ := hregistered
        rw [hname]
        simp only [fills_registered hm]
        subst hmode
        rcases settles hm hgrants hactive (hempty m hm) ht (by omega) with
          ⟨field, s₁, hseen, hholds, hrun, htook⟩ | ⟨hbad, herror⟩
        · have hseen₁ : s₁.seen = fun other => if other = m then true else s.seen other :=
            funext htook.seen
          have hfield₁ : s₁.out.field = fun other => if other = m then field else s.out.field other :=
            funext htook.field
          have hempty₁ : ∀ other ∈ JwtMember.all s.headerMode, s₁.seen other = false →
              s₁.out.field other = {} := by
            intro other hin hfalse
            rw [hseen₁] at hfalse
            rw [hfield₁]
            dsimp only at hfalse ⊢
            split at hfalse
            · cases hfalse
            · next hne =>
                rw [if_neg hne]
                exact hempty other hin hfalse
          have hrun' : run alloc es s [.object m.name] = .ok (s₁, [.object m.name]) := hrun
          rw [run_then hrun']
          rcases ih (s := s₁) htook.mode htook.active hempty₁ hms (by omega) with
            ⟨key', s', hrest, hroot, hactive', hfills, hother⟩ | ⟨hnone, herror⟩
          · rw [hseen₁, hfield₁] at hfills
            refine .inl ⟨key', s', hrest, hroot.trans htook.root, hactive',
              ⟨hseen, field, hholds, hfills⟩, fun other hout => ?_⟩
            have hne : other ≠ m := fun heq => hout (heq ▸ hm)
            rw [hother other hout, hfield₁]
            exact if_neg hne
          · refine .inr ⟨fun after hafter => ?_, herror⟩
            obtain ⟨-, field', hholds', hfills⟩ := hafter
            obtain rfl : field' = field := hholds'.unique hholds
            rw [hseen₁, hfield₁] at hnone
            exact hnone after hfills
        · refine .inr ⟨fun after hafter => ?_, run_then_error herror⟩
          obtain ⟨hfalse, field, hholds, -⟩ := hafter
          rcases hbad with htrue | hbad
          · rw [hfalse] at htrue
            cases htrue
          · exact hbad field hholds
      · have hkey : ∀ m ∈ JwtMember.all mode, chunks.flatten ≠ m.name :=
          fun m hm heq => hregistered ⟨m, hm, heq⟩
        simp only [fills_unregistered hkey]
        have houtside : Nest.Outside s.headerMode [.object chunks.flatten] :=
          ⟨_, rfl, hmode ▸ hkey⟩
        rw [run_then (run_outside hactive houtside ht)]
        exact ih hmode hactive hempty hms (by omega)

/-- The visit has not begun, and the fields of its members are empty. -/
structure Fresh (mode : Bool) (s : JwtClaimVisit) : Prop where
  headerMode : s.headerMode = mode
  root : s.rootObjectSeen = false
  active : s.active = .none
  seen : s.seen = fun _ => false
  field : ∀ m ∈ JwtMember.all mode, s.out.field m = {}

/-- A root object. -/
theorem run_object (hgrants : ∀ n, alloc n = true) (hfresh : Fresh mode s)
    {ms : List (Text × Tree)} (h : EventsOf limit (.object ms) es)
    (hsize : treeBytes (.object ms) ≤ sizeMax) :
    (∃ s', run alloc es s [] = .ok (s', []) ∧ s'.rootObjectSeen = true ∧
      JwtObject mode ms s'.out ∧ ∀ m ∉ JwtMember.all mode, s'.out.field m = s.out.field m) ∨
    (∀ out, ¬ JwtObject mode ms out) ∧ ∃ e, run alloc es s [] = .error e := by
  cases h with
  | @object _ es hms =>
  rw [treeBytes] at hsize
  obtain ⟨s₁, hs₁⟩ : ∃ s₁ : JwtClaimVisit, s₁ = { s with rootObjectSeen := true } := ⟨_, rfl⟩
  have hbegin : run alloc (.objectBegin :: (es ++ [.objectEnd])) s [] =
      run alloc (es ++ [.objectEnd]) s₁ [.object []] := by
    have hpath : Nest.path .objectBegin [] = [] := rfl
    rw [run, hpath, event, objectBegin, if_pos rfl, hfresh.root, hs₁]
    rfl
  have hseen : s₁.seen = fun _ => false := by rw [hs₁]; exact hfresh.seen
  have hout : s₁.out = s.out := by rw [hs₁]
  rw [hbegin]
  rcases @run_members _ s₁ mode _ _ hgrants _ (by rw [hs₁]; exact hfresh.headerMode)
      (by rw [hs₁]; exact hfresh.active) (fun m hm _ => by rw [hout]; exact hfresh.field m hm) hms
      (by omega) [] with ⟨key, s', hrun, hroot, hactive, hfills, hother⟩ | ⟨hnone, herror⟩
  · rw [hseen] at hfills
    rw [hout] at hother
    refine .inl ⟨s', ?_, by rw [hroot, hs₁], jwtObject_iff.mpr hfills, hother⟩
    rw [run_then hrun, run_quiet hactive (.inl rfl)]
    rfl
  · rw [hseen] at hnone
    exact .inr ⟨fun out hobject => hnone out.field (jwtObject_iff.mp hobject),
      run_then_error herror⟩

end JwtClaimVisit

end Lonejson
