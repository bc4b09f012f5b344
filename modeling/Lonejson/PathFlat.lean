import Lonejson.PathWalk
import Lonejson.VisitorTotal

/-!
# Visits without frames

A visitor with paths whose stack has no room at all can call its callbacks with the empty path
only: it fails in front of the first member or item.
-/

namespace Lonejson

open Json (Text Related Space bind_eq_ok map_eq_ok)

variable {υ : Type} {env : VisitEnv} {pv : PathVisitor υ} {grants : ℕ → Bool} {p p' : PathIo υ}
  {Q : υ → Prop} {α β : Type}

/-- A run in step with another one that succeeds. -/
theorem related_ok {ε ε' : Type} {E : ε → ε' → Prop} {R : α → β → Prop} {x : Except ε α}
    {y : Except ε' β} {a : α} (h : Related E R x y) (hx : x = .ok a) : ∃ b, R a b := by
  cases h with
  | error => cases hx
  | ok h =>
      cases hx
      exact ⟨_, h⟩

/-- The callbacks outside every container. -/
def flat (pv : PathVisitor υ) : Visitor υ := fun out => pv out []

/-- Both visitors are outside every container, and `Q` holds of the state of the user. -/
structure AtRoot (Q : υ → Prop) (p : PathIo υ) (j : JsonIo υ) : Prop where
  same : p.toJsonIo = j
  segments : p.segments = []
  user : Q p.out

theorem AtRoot.fails {j : JsonIo υ} (h : AtRoot Q p j) :
    FailsIn (fun (p : PathIo υ) (j : JsonIo υ) => p.toJsonIo = j) p j :=
  fun code message => congrArg (JsonIo.fail · code message) h.same

section

variable (hQ : ∀ out event error, Q out → event ≠ .objectBegin → Q (pv out [] event error).1)
include hQ

theorem visitAny_root {j : JsonIo υ} (h : AtRoot Q p j) {event : VisitEvent}
    (hevent : event ≠ .objectBegin) :
    Related (fun (p : PathIo υ) (j : JsonIo υ) => p.toJsonIo = j) (AtRoot Q)
      (p.visitAny (env.withPaths pv grants) event) (j.visit (flat pv) event) := by
  obtain ⟨rfl, hsegments, huser⟩ := h
  have hnext := hQ p.out event p.error huser hevent
  have hcall : (fun out => pv out p.segments) = flat pv := by
    rw [hsegments]
    rfl
  change Related _ _ (p.visit (fun out => pv out p.segments) event) _
  rw [hcall, PathIo.visit, JsonIo.visit]
  dsimp only
  split
  · exact .ok ⟨rfl, hsegments, hnext⟩
  · exact .error rfl

theorem root_steps : ScalarSteps (env.withPaths pv grants) (flat pv)
    (fun (p : PathIo υ) (j : JsonIo υ) => p.toJsonIo = j) (AtRoot Q) (AtRoot Q) where
  error h := h.same
  fail h := h.fails
  event {p j event} h hevent := visitAny_root hQ h (fun heq => by rw [heq] at hevent; cases hevent)
  last {p j event} h hevent := visitAny_root hQ h (fun heq => by rw [heq] at hevent; cases hevent)

variable (hcapacity : env.pathCapacity = 0)
include hcapacity

theorem root_key : InStep (env.withPaths pv grants) (flat pv) true
    (fun (p : PathIo υ) (j : JsonIo υ) => p.toJsonIo = j) (fun _ => AtRoot Q) (AtRoot Q) where
  le h _ := h
  error h := h.same
  fail h := h.fails
  chunk {n p j data} hdata h := by
    have hfull : p.pathDepth ≥ (env.withPaths pv grants).pathCapacity :=
      (Nat.le_of_eq hcapacity).trans (Nat.zero_le _)
    rw [PathIo.visitAnyChunk, if_pos rfl, PathIo.keyAppend, if_pos (.inr hfull)]
    dsimp only [Except.bind]
    rw [if_neg hdata]
    exact visitAny_root hQ h (by simp [textChunk])
  close h := visitAny_root hQ h (by simp [textEnd])

/-- A key without a frame. -/
theorem visitKey_root (i : Text) {j : JsonIo υ} (h : AtRoot Q p j) :
    Related (fun (p : PathIo υ) (j : JsonIo υ) => p.toJsonIo = j) (BehindToken (AtRoot Q) i)
      (Paths.visitKey (env.withPaths pv grants) i p) (visitKey env (flat pv) i j) := by
  apply visitKey_steps i h.fails
  · intro k hk
    apply visitString_inStep (root_key hQ hcapacity)
    have hbegin : Paths.beginKey (env.withPaths pv grants) true p = p := by
      apply if_neg
      rintro ⟨-, hroom⟩
      have hroom' : p.pathDepth < env.pathCapacity := hroom
      omega
    rw [hbegin]
    exact visitAny_root hQ h (by simp [textBegin])
  · intro p j h
    exact h.fails

end

/-- A run of the visitor with paths that does not succeed reports a status of failure. -/
def FirmPath (x : Except (PathIo υ) α) : Prop := ∀ p, x = .error p → p.status.soft = false

theorem FirmPath.error (h : p.status.soft = false) : FirmPath (.error p : Except (PathIo υ) α) := by
  intro p' h'
  cases h'
  exact h

theorem FirmPath.bind {x : Except (PathIo υ) α} {f : α → Except (PathIo υ) β} (hx : FirmPath x)
    (hf : ∀ a, x = .ok a → FirmPath (f a)) : FirmPath (x.bind f) := by
  cases x with
  | error p => exact .error (hx p rfl)
  | ok a => exact hf a rfl

/-- A run in step with one of the visitor without paths. -/
theorem FirmPath.of_related {R : α → β → Prop} {x : Except (PathIo υ) α}
    {y : Except (JsonIo υ) β}
    (h : Related (fun (p : PathIo υ) (j : JsonIo υ) => p.toJsonIo = j) R x y) (hy : Firm y) :
    FirmPath x := by
  intro p hp
  cases h with
  | @error p' j h =>
      cases hp
      have hsoft := hy j rfl
      rwa [← h] at hsoft
  | ok => cases hp

theorem visitAny_firm (event : VisitEvent) :
    FirmPath (p.visitAny (env.withPaths pv grants) event) := by
  intro p' h
  have hvisit : (p.visit (fun out => pv out p.segments) event) = .error p' := h
  rw [PathIo.visit] at hvisit
  cases hcall : p.toJsonIo.visit (fun out => pv out p.segments) event with
  | ok j =>
      rw [hcall] at hvisit
      cases hvisit
  | error j =>
      rw [hcall] at hvisit
      cases hvisit
      exact visit_firm _ _ j hcall

theorem visitAny_segments {event : VisitEvent}
    (h : p.visitAny (env.withPaths pv grants) event = .ok p') : p'.segments = p.segments := by
  have hvisit : (p.visit (fun out => pv out p.segments) event) = .ok p' := h
  obtain ⟨j, -, rfl⟩ := map_eq_ok hvisit
  rfl

/-- A scalar fails with a status of failure, if it fails. -/
theorem visitScalar_firm {v : Visitor υ} {ch : Byte} (k : Text) (j : JsonIo υ) :
    Firm (if ch = 0x74 then visitLiteral env v (.bool true) [0x72, 0x75, 0x65] k j
      else if ch = 0x66 then visitLiteral env v (.bool false) [0x61, 0x6c, 0x73, 0x65] k j
      else if ch = 0x6e then visitLiteral env v .null [0x75, 0x6c, 0x6c] k j
      else if isNumberStart ch then visitNumber env v ch k j
      else .error (j.fail .invalidJson "expected JSON value")) :=
  .ite (fun _ => visitLiteral_firm _ _ k j) fun _ =>
    .ite (fun _ => visitLiteral_firm _ _ k j) fun _ =>
    .ite (fun _ => visitLiteral_firm _ _ k j) fun _ =>
    .ite (fun _ => visitNumber_firm ch k j) fun _ => .fail j _ rfl

theorem lift_peek_firm (i : Text) : FirmPath (p.lift (visitPeek env p.toJsonIo i)) := by
  cases hpeek : visitPeek env p.toJsonIo i with
  | ok r =>
      intro p' h
      cases h
  | error j => exact .error (visitPeek_firm _ _ j hpeek)

/-- An object without members, with its blanks. -/
def EmptyObject (env : VisitEnv) (i r : Text) : Prop :=
  ∃ j, Space i (0x7b :: j) ∧ Space j (0x7d :: r) ∧ Counted env r

theorem FirmPath.map {x : Except (PathIo υ) α} (hx : FirmPath x) (f : α → β) :
    FirmPath (x.map f) := by
  cases x with
  | error p => exact .error (hx p rfl)
  | ok a =>
      intro p h
      cases h

theorem lift_eq_ok {x : Except (JsonIo υ) α} {a : α} (h : p.lift x = .ok a) : x = .ok a := by
  cases x with
  | error j => cases h
  | ok b => exact congrArg _ (Except.ok.inj h)

/-- There is no room for the key of a member. -/
theorem pushObjectKey_full (hcapacity : env.pathCapacity = 0) :
    p.pushObjectKey (env.withPaths pv grants) =
      .error (p.fail .internalError "invalid JSON path stack state") :=
  if_pos ((Nat.le_of_eq hcapacity).trans (Nat.zero_le _))

theorem pushArrayIndex_full (hcapacity : env.pathCapacity = 0) :
    p.pushArrayIndex (env.withPaths pv grants) =
      .error (p.fail .internalError "invalid JSON path stack state") :=
  if_pos ((Nat.le_of_eq hcapacity).trans (Nat.zero_le _))

section

variable (hcapacity : env.pathCapacity = 0)
include hcapacity

theorem visitMembers_root_firm {n : ℕ} {i : Text} (hsegments : p.segments = []) :
    FirmPath (Paths.visitMembers (env.withPaths pv grants) (n + 1) 0 true i p) := by
  rw [Paths.visitMembers]
  apply (lift_peek_firm i).bind
  intro k hpeek
  cases k with
  | nil => exact .error rfl
  | cons ch k =>
      dsimp only
      split
      · exact (visitAny_firm _).map _
      rw [if_neg (by simp), if_pos rfl]
      have hkey := @visitKey_root _ env pv grants (fun _ => True)
        (fun _ _ _ _ _ => trivial) hcapacity (ch :: k) (p := p) _ ⟨rfl, hsegments, trivial⟩
      apply (FirmPath.of_related hkey (visitKey_firm _ _)).bind
      intro x hx
      rw [pushObjectKey_full hcapacity]
      exact .error rfl

/-- Members that are visited without frames are none. -/
theorem visitMembers_root_ok {n : ℕ} {i r : Text}
    (h : Paths.visitMembers (env.withPaths pv grants) (n + 1) 0 true i p = .ok (r, p')) :
    Space i (0x7d :: r) ∧ Counted env r := by
  rw [Paths.visitMembers] at h
  obtain ⟨k, hpeek, hbody⟩ := bind_eq_ok h
  have hpeek' := lift_eq_ok hpeek
  cases k with
  | nil => cases hbody
  | cons ch k =>
      dsimp only at hbody
      split at hbody
      · next hclose =>
          subst hclose
          obtain ⟨p₁, -, hr⟩ := map_eq_ok hbody
          cases hr
          exact ⟨(visitPeek_ok hpeek').1, visitPeek_counted hpeek'⟩
      · rw [if_neg (by simp)] at hbody
        obtain ⟨x, -, hrest⟩ := bind_eq_ok hbody
        rw [pushObjectKey_full hcapacity] at hrest
        cases hrest

theorem setIndex_noFrame (index : UInt64 → UInt64) :
    p.setIndex (env.withPaths pv grants) index = p := by
  apply if_neg
  change ¬ p.pathDepth < env.pathCapacity
  omega

theorem visitItems_root_firm {n : ℕ} {i : Text} :
    FirmPath (Paths.visitItems (env.withPaths pv grants) (n + 1) 0 true i p) := by
  rw [Paths.visitItems]
  apply (lift_peek_firm i).bind
  intro k hpeek
  cases k with
  | nil => exact .error rfl
  | cons ch k =>
      dsimp only
      split
      · exact (visitAny_firm _).map _
      · rw [if_neg (by simp), pushArrayIndex_full hcapacity]
        exact .error rfl

theorem visitItems_root_ok (hQ : ∀ out event error, Q out → event ≠ .objectBegin →
      Q (pv out [] event error).1) {n : ℕ} {i r : Text} {j : JsonIo υ} (hp : AtRoot Q p j)
    (h : Paths.visitItems (env.withPaths pv grants) (n + 1) 0 true i p = .ok (r, p')) :
    Q p'.out := by
  rw [Paths.visitItems] at h
  obtain ⟨k, hpeek, hbody⟩ := bind_eq_ok h
  cases k with
  | nil => cases hbody
  | cons ch k =>
      dsimp only at hbody
      split at hbody
      · obtain ⟨p₁, hend, hr⟩ := map_eq_ok hbody
        cases hr
        obtain ⟨j', h'⟩ := related_ok (visitAny_root hQ hp (by simp)) hend
        exact h'.user
      · rw [if_neg (by simp), pushArrayIndex_full hcapacity] at hbody
        cases hbody

variable (hQ : ∀ out event error, Q out → event ≠ .objectBegin → Q (pv out [] event error).1)
include hQ

/-- A visit without frames fails with a status of failure, has read an object without members,
or has made no callback at the start of an object. -/
theorem visitValue_root {n : ℕ} {i : Text} {j : JsonIo υ} (hp : AtRoot Q p j) :
    FirmPath (Paths.visitValue (env.withPaths pv grants) (n + 2) 0 i p) ∧
      ∀ r p', Paths.visitValue (env.withPaths pv grants) (n + 2) 0 i p = .ok (r, p') →
        Q p'.out ∨ EmptyObject env i r := by
  have hS := @root_steps _ env _ grants _ hQ
  have hbegin {p' : PathIo υ}
      (h : p.visitAny (env.withPaths pv grants) .objectBegin = .ok p') : p'.segments = [] :=
    (visitAny_segments h).trans hp.segments
  rw [Paths.visitValue]
  constructor
  · apply (lift_peek_firm i).bind
    intro k hpeek
    cases k with
    | nil => exact .error rfl
    | cons ch k =>
        dsimp only
        split
        · exact .of_related (visitString_steps hS k hp) (visitString_firm _ _)
        split
        · split
          · exact .error rfl
          · apply (visitAny_firm _).bind
            intro p' hp'
            exact visitMembers_root_firm hcapacity (hbegin hp')
        split
        · split
          · exact .error rfl
          · apply (visitAny_firm _).bind
            intro p' hp'
            exact visitItems_root_firm hcapacity
        · exact .of_related (visitScalar_steps hS k hp) (visitScalar_firm k _)
  · intro r p' h
    obtain ⟨k, hpeek, hbody⟩ := bind_eq_ok h
    have hpeek' := lift_eq_ok hpeek
    cases k with
    | nil => cases hbody
    | cons ch k =>
        dsimp only at hbody
        split at hbody
        · obtain ⟨y, h'⟩ := related_ok (visitString_steps hS k hp) hbody
          exact .inl h'.2.1.user
        split at hbody
        · next hobject =>
            subst hobject
            split at hbody
            · cases hbody
            · obtain ⟨p₁, hp₁, hmembers⟩ := bind_eq_ok hbody
              obtain ⟨hspace, hcounted⟩ := visitMembers_root_ok hcapacity hmembers
              exact .inr ⟨k, (visitPeek_ok hpeek').1, hspace, hcounted⟩
        split at hbody
        · split at hbody
          · cases hbody
          · obtain ⟨p₁, hp₁, hitems⟩ := bind_eq_ok hbody
            rw [setIndex_noFrame hcapacity] at hp₁
            obtain ⟨j₁, h₁⟩ := related_ok (visitAny_root hQ hp (by simp)) hp₁
            exact .inl (visitItems_root_ok hcapacity hQ h₁ hitems)
        · obtain ⟨y, h'⟩ := related_ok (visitScalar_steps hS k hp) hbody
          exact .inl h'.2.1.user

end

/-! ## Whole visits -/

variable {text : Text} {io : JsonIo υ}

/-- A whole visit without frames that does not report a failure. -/
theorem jsonVisitPaths_root (hcapacity : env.pathCapacity = 0)
    (hQ : ∀ out event error, Q out → event ≠ .objectBegin → Q (pv out [] event error).1)
    (hgrants : ∀ n, grants n = true) (hlength : env.length = text.length)
    (hdepth : 0 < env.limits.maxDepth) (hio : Q io.out)
    (h : (jsonVisitPaths env pv grants text io).status.soft = true) :
    Q (jsonVisitPaths env pv grants text io).out ∨ ReadsText env.limits (.object []) text := by
  have hp : AtRoot Q ({ toJsonIo := io } : PathIo υ) io := ⟨rfl, rfl, hio⟩
  obtain ⟨hfirm, hok⟩ :=
    visitValue_root (n := 2 * text.length) (i := text) hcapacity
      hQ hp
  rw [jsonVisitPaths, hgrants, hgrants, if_neg (by simp)] at h ⊢
  cases hvalue : Paths.visitValue (env.withPaths pv grants) (2 * text.length + 2) 0 text
      { toJsonIo := io } with
  | error p =>
      rw [hvalue] at h
      exact absurd (h.symm.trans (hfirm p hvalue)) (by simp)
  | ok x =>
      obtain ⟨rest, p⟩ := x
      rw [hvalue] at h
      dsimp only at h ⊢
      split at h
      · next hpeek =>
          rcases hok rest p hvalue with hq | ⟨j, hopen, hclose, hcounted⟩
          · exact .inl hq
          · obtain ⟨hend, hall⟩ := visitPeek_nil hcounted hpeek
            refine .inr ⟨⟨hopen, .emptyObject hclose, hend⟩, ?_, counted_nil hlength hall⟩
            simpa [treeWithin, membersWithin] using hdepth
      · cases h

/-- The visit of an object without members makes two callbacks. -/
theorem jsonVisitPaths_emptyObject (hgrants : ∀ n, grants n = true)
    (hlength : env.length = text.length) (h : ReadsText env.limits (.object []) text)
    {out : υ} {error : ErrorInfo}
    (hbegin : pv io.out [] .objectBegin io.error = (out, error, .ok))
    (hend : pv out [] .objectEnd error = (out, error, .ok)) :
    jsonVisitPaths env pv grants text io = { out, error, status := .ok } := by
  obtain ⟨hspelled, hwithin, htotal⟩ := h
  have hroom := roomy_of_total hlength htotal
  have hdeep : ¬ 0 ≥ (env.withPaths pv grants).limits.maxDepth := by
    have hpos : 0 < env.limits.maxDepth := by simpa [treeWithin, membersWithin] using hwithin
    exact Nat.not_le.mpr hpos
  obtain ⟨p, hp⟩ : ∃ p : PathIo υ, p = { toJsonIo := io } := ⟨_, rfl⟩
  cases hspelled with
  | @mk _ _ k r _ hopen hobject hblanks =>
  obtain ⟨j, rfl, hclose⟩ : ∃ j, k = 0x7b :: j ∧ Space j (0x7d :: r) := by
    cases hobject with
    | object h => cases h
    | emptyObject h => exact ⟨_, rfl, h⟩
  have hfirst : p.visitAny (env.withPaths pv grants) .objectBegin =
      .ok { p with out, error, status := .ok } := by
    rw [hp]
    change ((JsonIo.visit (fun out => pv out []) io .objectBegin).mapError _).map _ = _
    rw [JsonIo.visit, hbegin]
    rfl
  have hlast : PathIo.visitAny (env.withPaths pv grants) .objectEnd
      { p with out, error, status := .ok } = .ok { p with out, error, status := .ok } := by
    rw [hp]
    change ((JsonIo.visit (fun out => pv out []) { out, error, status := .ok }
      .objectEnd).mapError _).map _ = _
    rw [JsonIo.visit, hend]
    rfl
  have hvalue : Paths.visitValue (env.withPaths pv grants) (2 * text.length + 2) 0 text p =
      .ok (r, { p with out, error, status := .ok }) := by
    rw [Paths.visitValue]
    change (p.lift (visitPeek env p.toJsonIo text)).bind _ = _
    rw [visitPeek_eq hroom _ hopen (by simp [isJsonSpace])]
    change (if 0 ≥ (env.withPaths pv grants).limits.maxDepth then _ else _) = _
    rw [if_neg hdeep, hfirst]
    change Paths.visitMembers (env.withPaths pv grants) (2 * text.length + 1) 0 true j _ = _
    rw [Paths.visitMembers]
    change (PathIo.lift _ (visitPeek env _ j)).bind _ = _
    rw [visitPeek_eq hroom _ hclose (by simp [isJsonSpace])]
    change (PathIo.visitAny _ .objectEnd _).map _ = _
    rw [hlast]
    rfl
  rw [jsonVisitPaths, hgrants, hgrants, if_neg (by simp), ← hp, hvalue]
  dsimp only
  rw [visitPeek_eq hroom _ hblanks (by simp)]

end Lonejson
