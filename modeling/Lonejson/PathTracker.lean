import Lonejson.PathWalk

/-!
# Paths from the callbacks alone

The path that the visitor hands to a callback is a function of the callbacks before it: the
visitor with paths does what the visitor without paths does with callbacks that keep track of
the containers around them.
-/

namespace Lonejson

open Json (Text Related)

variable {υ : Type} {env : VisitEnv} {pv : PathVisitor υ} {grants : ℕ → Bool} {nest : Nest}
  {key : Bytes} {index : UInt64} {p : PathIo υ} {j : JsonIo (υ × Nest)}

/-! ## The containers around -/

/-- The path segment of what is visited inside a container. -/
def OpenContainer.segment : OpenContainer → Bytes
  | .object key => key
  | .array index => formatSizeDecimal index.toNat

def Nest.segments (nest : Nest) : List Bytes := (nest.map OpenContainer.segment).reverse

/-- A value is complete. -/
def Nest.after : Nest → Nest
  | .array index :: nest => .array (index + 1) :: nest
  | nest => nest

/-- The containers around after an event. -/
def Nest.step (event : VisitEvent) (nest : Nest) : Nest :=
  match event, nest with
  | .objectBegin, nest => .object [] :: nest
  | .arrayBegin, nest => .array 0 :: nest
  | .objectEnd, nest | .arrayEnd, nest => Nest.after nest.tail
  | .keyBegin, .object _ :: nest => .object [] :: nest
  | .keyChunk data, .object key :: nest => .object (key ++ data) :: nest
  | .stringEnd, nest | .numberEnd, nest | .bool _, nest | .null, nest => Nest.after nest
  | _, nest => nest

/-- The event belongs to the innermost container itself. -/
def VisitEvent.ofContainer : VisitEvent → Bool
  | .objectEnd | .arrayEnd | .keyBegin | .keyChunk _ | .keyEnd => true
  | _ => false

/-- The path of an event. -/
def Nest.path (event : VisitEvent) (nest : Nest) : List Bytes :=
  if event.ofContainer then Nest.segments nest.tail else nest.segments

/-- Callbacks with paths, for the visitor without paths. -/
def tracked (pv : PathVisitor υ) : Visitor (υ × Nest) := fun out event error =>
  let r := pv out.1 (out.2.path event) event error
  ((r.1, out.2.step event), r.2)

@[simp] theorem Nest.segments_cons (c : OpenContainer) (nest : Nest) :
    Nest.segments (c :: nest) = nest.segments ++ [c.segment] := by
  simp [Nest.segments]

@[simp] theorem Nest.segments_length (nest : Nest) : nest.segments.length = nest.length := by
  simp [Nest.segments]

/-! ## The path stack follows -/

/-- The same user state, error and status. -/
def SameUser (p : PathIo υ) (j : JsonIo (υ × Nest)) : Prop :=
  p.toJsonIo = { out := j.out.1, error := j.error, status := j.status }

/-- The frames of the arrays count their items. -/
def Nest.Held (frames : ℕ → PathFrame) : Nest → Prop
  | [] => True
  | .array index :: nest => (frames nest.length).nextIndex = index ∧ Nest.Held frames nest
  | .object _ :: nest => Nest.Held frames nest

theorem Nest.Held.congr {frames frames' : ℕ → PathFrame} (h : nest.Held frames)
    (hsame : ∀ d < nest.length, (frames' d).nextIndex = (frames d).nextIndex) :
    nest.Held frames' := by
  induction nest with
  | nil => trivial
  | cons c nest ih =>
      have hrest (d : ℕ) (hd : d < nest.length) : (frames' d).nextIndex = (frames d).nextIndex :=
        hsame d (Nat.lt_succ_of_lt hd)
      cases c with
      | object key => exact ih h hrest
      | array index => exact ⟨(hsame _ (Nat.lt_succ_self _)).trans h.1, ih h.2 hrest⟩

/-- The segments are those of `here`, the callbacks have come to `now`. -/
structure OnTrack (here now held : Nest) (p : PathIo υ) (j : JsonIo (υ × Nest)) : Prop where
  same : SameUser p j
  tracker : j.out.2 = now
  segments : p.segments = here.segments
  held : held.Held p.frames

section

variable {here now held : Nest}

theorem OnTrack.fails (h : OnTrack here now held p j) : FailsIn SameUser p j := by
  intro code message
  have hfail := congrArg (JsonIo.fail · code message) h.same
  exact hfail

theorem OnTrack.pathDepth (h : OnTrack here now held p j) : p.pathDepth = here.length := by
  rw [PathIo.pathDepth, h.segments, Nest.segments_length]

/-- A callback in step. -/
theorem OnTrack.visitAny_frame (h : OnTrack here now held p j) (event : VisitEvent)
    (hpath : now.path event = here.segments) :
    Related SameUser
      (fun p' j' => OnTrack here (now.step event) held p' j' ∧ p'.frame = p.frame)
      (p.visitAny (env.withPaths pv grants) event) (j.visit (tracked pv) event) := by
  have hcall : tracked pv j.out event j.error =
      (((pv j.out.1 p.segments event j.error).1, now.step event),
        (pv j.out.1 p.segments event j.error).2) := by
    rw [tracked, h.tracker, hpath, h.segments]
  have hout : p.out = j.out.1 := congrArg JsonIo.out h.same
  have herror : p.error = j.error := congrArg JsonIo.error h.same
  change Related _ _ (p.visit (fun out => pv out p.segments) event) _
  rw [PathIo.visit, JsonIo.visit, JsonIo.visit, hcall, hout, herror]
  dsimp only
  split
  · exact .ok ⟨⟨rfl, rfl, h.segments, h.held⟩, rfl⟩
  · exact .error rfl

theorem OnTrack.visitAny (h : OnTrack here now held p j) (event : VisitEvent)
    (hpath : now.path event = here.segments) :
    Related SameUser (OnTrack here (now.step event) held)
      (p.visitAny (env.withPaths pv grants) event) (j.visit (tracked pv) event) :=
  (h.visitAny_frame event hpath).imp fun _ _ h => h.1

theorem OnTrack.setFrame (h : OnTrack here now held p j) {frame : PathFrame}
    (hframe : held.Held (p.setFrame frame).frames) :
    OnTrack here now held (p.setFrame frame) j :=
  ⟨h.same, h.tracker, h.segments, hframe⟩

end

/-- A write to the frame of the container that is entered next leaves the others alone. -/
theorem held_setFrame (h : nest.Held p.frames) (hdepth : p.pathDepth = nest.length)
    (frame : PathFrame) : nest.Held (p.setFrame frame).frames := by
  apply h.congr
  intro d hd
  have hother : d ≠ p.pathDepth := by omega
  rw [PathIo.setFrame]
  dsimp only
  rw [if_neg hother]

/-! ## Keys -/

/-- Inside a key of which `n` bytes may be left. -/
def InKey (nest : Nest) (n : ℕ) (p : PathIo υ) (j : JsonIo (υ × Nest)) : Prop :=
  OnTrack nest (.object p.frame.key :: nest) nest p j ∧ p.frame.key.length + n < sizeMax

/-- Behind a key. -/
def BehindKey (nest : Nest) (p : PathIo υ) (j : JsonIo (υ × Nest)) : Prop :=
  OnTrack nest.tail nest nest p j ∧ nest = .object p.frame.key :: nest.tail

theorem chunk_inKey (hgrants : ∀ n, grants n = true) (hdepth : nest.length < env.pathCapacity)
    {n : ℕ} {data : Bytes} (hdata : data ≠ []) (h : InKey nest (data.length + n) p j) :
    Related SameUser (InKey nest n) (p.visitAnyChunk (env.withPaths pv grants) true data)
      (j.visit (tracked pv) (textChunk true data)) := by
  obtain ⟨hstands, hroom⟩ := h
  have hgrant : ∀ n, (env.withPaths pv grants).grants n = true := hgrants
  have hcap : p.pathDepth < (env.withPaths pv grants).pathCapacity :=
    lt_of_eq_of_lt hstands.pathDepth hdepth
  obtain ⟨frame, hkey, hindex, hrun | ⟨hnil, -⟩⟩ := PathIo.keyAppend_eq hgrant hcap
    (show p.frame.key.length + data.length < sizeMax by omega)
  · rw [PathIo.visitAnyChunk, if_pos rfl, hrun]
    dsimp only [Except.bind]
    rw [if_neg hdata]
    have hnext : OnTrack nest (.object p.frame.key :: nest) nest (p.setFrame frame) j :=
      hstands.setFrame (held_setFrame hstands.held hstands.pathDepth frame)
    apply (hnext.visitAny_frame (textChunk true data) rfl).imp
    rintro p' j' ⟨h', hframe⟩
    have hnow : p'.frame.key = p.frame.key ++ data := by
      rw [hframe, PathIo.setFrame_frame, hkey]
    rw [InKey, hnow, List.length_append]
    exact ⟨h', by omega⟩
  · exact absurd hnil hdata

theorem key_inStep (hgrants : ∀ n, grants n = true) (hdepth : nest.length < env.pathCapacity) :
    InStep (env.withPaths pv grants) (tracked pv) true SameUser (InKey nest)
      (fun p j => ∃ key, BehindKey (.object key :: nest) p j) where
  le h hm := ⟨h.1, lt_of_le_of_lt (Nat.add_le_add_left hm _) h.2⟩
  error h := h.1.same
  fail h := h.1.fails
  chunk hdata h := chunk_inKey hgrants hdepth hdata h
  close {n p j} h := by
    apply (h.1.visitAny_frame .keyEnd rfl).imp
    rintro p' j' ⟨h', hframe⟩
    refine ⟨p'.frame.key, ?_, rfl⟩
    rw [hframe]
    exact ⟨h'.same, h'.tracker, h'.segments, h'.held⟩

theorem beginKey_inKey (hdepth : nest.length < env.pathCapacity) {i : Text}
    (hi : i.length < sizeMax) (h : OnTrack nest (.object key :: nest) nest p j) :
    Related SameUser (InKey nest i.length)
      ((Paths.beginKey (env.withPaths pv grants) true p).visitAny (env.withPaths pv grants)
        .keyBegin) (j.visit (tracked pv) .keyBegin) := by
  have hcap : p.pathDepth < (env.withPaths pv grants).pathCapacity :=
    lt_of_eq_of_lt h.pathDepth hdepth
  rw [Paths.beginKey, if_pos ⟨rfl, hcap⟩]
  have hnext := h.setFrame (held_setFrame h.held h.pathDepth { p.frame with
    key := []
    keyCap := if p.frame.keyCap = 0 then 64 else p.frame.keyCap
    keyHeap := if p.frame.keyCap = 0 then false else p.frame.keyHeap })
  apply (hnext.visitAny_frame .keyBegin rfl).imp
  rintro p' j' ⟨h', hframe⟩
  have hnow : p'.frame.key = [] := by
    rw [hframe, PathIo.setFrame_frame]
  rw [InKey, hnow]
  exact ⟨h', by simpa using hi⟩

/-! ## Values -/

theorem pop_segments {c : OpenContainer} (h : p.segments = Nest.segments (c :: nest)) :
    p.pop.segments = nest.segments := by
  change p.segments.dropLast = nest.segments
  rw [h, Nest.segments_cons, List.dropLast_concat]

theorem push_segments (h : p.segments = nest.segments) (c : OpenContainer) :
    p.segments ++ [c.segment] = Nest.segments (c :: nest) := by
  rw [h, Nest.segments_cons]

/-- The index of the frame is set where there is room. -/
theorem setIndex_eq {penv : PathEnv υ} (hcap : p.pathDepth < penv.pathCapacity)
    (f : UInt64 → UInt64) :
    p.setIndex penv f = p.setFrame { p.frame with nextIndex := f p.frame.nextIndex } :=
  if_pos hcap

theorem setFrame_held_array (h : nest.Held p.frames) (hdepth : p.pathDepth = nest.length)
    (frame : PathFrame) :
    Nest.Held (p.setFrame frame).frames (.array frame.nextIndex :: nest) := by
  refine ⟨?_, held_setFrame h hdepth frame⟩
  rw [PathIo.setFrame, ← hdepth]
  dsimp only
  rw [if_pos rfl]

/-- The callbacks keep track of the path stack over whole values. -/
theorem tracked_walk (hgrants : ∀ n, grants n = true)
    (hcapacity : env.limits.maxDepth < env.pathCapacity) :
    Walk (env.withPaths pv grants) (tracked pv) SameUser
      (fun nest => OnTrack nest nest nest) (fun nest => OnTrack nest nest.after nest)
      (fun nest => OnTrack nest.tail nest nest) BehindKey where
  scalar nest := {
    error := fun h => h.same
    fail := fun h => h.fails
    event := fun {p j event} h hevent => by
      cases event with
      | stringBegin => exact h.visitAny .stringBegin rfl
      | stringChunk data => exact h.visitAny (.stringChunk data) rfl
      | numberBegin => exact h.visitAny .numberBegin rfl
      | numberChunk data => exact h.visitAny (.numberChunk data) rfl
      | _ => cases hevent
    last := fun {p j event} h hevent => by
      cases event with
      | stringEnd => exact h.visitAny .stringEnd rfl
      | numberEnd => exact h.visitAny .numberEnd rfl
      | bool value => exact h.visitAny (.bool value) rfl
      | null => exact h.visitAny .null rfl
      | _ => cases hevent }
  inside h := ⟨h.same, h.fails⟩
  keyed h := h.1.fails
  objectBegin {nest p j} h := by
    apply (h.visitAny .objectBegin rfl).imp
    intro p' j' h'
    exact ⟨h'.same, h'.tracker, h'.segments, h'.held⟩
  arrayBegin {nest p j} hdepth h := by
    have hcap : p.pathDepth < (env.withPaths pv grants).pathCapacity :=
      lt_of_eq_of_lt h.pathDepth (lt_trans hdepth hcapacity)
    rw [setIndex_eq hcap]
    have hnext : OnTrack nest nest (.array 0 :: nest)
        (p.setFrame { p.frame with nextIndex := 0 }) j :=
      ⟨h.same, h.tracker, h.segments, setFrame_held_array h.held h.pathDepth _⟩
    exact hnext.visitAny .arrayBegin rfl
  key {nest key p j i} hdepth hi h := by
    have hcap := lt_trans hdepth hcapacity
    exact visitString_inStep (key_inStep hgrants hcap) (beginKey_inKey hcap hi
      ⟨h.same, h.tracker, h.segments, h.held⟩)
  pushKey {nest key p j} hdepth h := by
    obtain ⟨h, hkey⟩ := h
    obtain rfl : key = p.frame.key := by simpa using hkey
    have hcap : ¬ p.pathDepth ≥ (env.withPaths pv grants).pathCapacity :=
      Nat.not_le.mpr (lt_of_eq_of_lt h.pathDepth (lt_trans hdepth hcapacity))
    exact ⟨_, if_neg hcap, h.same, h.tracker,
      push_segments h.segments (.object p.frame.key), h.held⟩
  pushIndex {nest index p j} hdepth h := by
    have hcap : p.pathDepth < (env.withPaths pv grants).pathCapacity :=
      lt_of_eq_of_lt h.pathDepth (lt_trans hdepth hcapacity)
    obtain ⟨hindex, -⟩ := h.held
    have hframe : p.frame.nextIndex = index := by
      rw [PathIo.frame, h.pathDepth]
      exact hindex
    refine ⟨_, PathIo.pushArrayIndex_eq hcap, h.same, h.tracker, ?_, h.held⟩
    rw [hframe]
    exact push_segments h.segments (.array index)
  popKey {nest key p j} h := ⟨h.same, h.tracker, pop_segments h.segments, h.held⟩
  popIndex {nest index p j} hdepth h := by
    have hsegments : p.pop.segments = Nest.segments nest := pop_segments h.segments
    have hdepth' : p.pop.pathDepth = nest.length := by
      rw [PathIo.pathDepth, hsegments, Nest.segments_length]
    have hcap : p.pop.pathDepth < (env.withPaths pv grants).pathCapacity :=
      lt_of_eq_of_lt hdepth' (lt_trans hdepth hcapacity)
    obtain ⟨hindex, hheld⟩ := h.held
    have hframe : p.pop.frame.nextIndex = index := by
      rw [PathIo.frame, hdepth']
      exact hindex
    have hheld' : Nest.Held p.pop.frames nest := hheld
    rw [setIndex_eq hcap, hframe]
    exact ⟨h.same, h.tracker, hsegments, setFrame_held_array hheld' hdepth' _⟩
  objectEnd {nest key p j} h := by
    apply (h.visitAny .objectEnd rfl).imp
    intro p' j' h'
    exact ⟨h'.same, h'.tracker, h'.segments, h'.held⟩
  arrayEnd {nest index p j} h := by
    apply (h.visitAny .arrayEnd rfl).imp
    intro p' j' h'
    exact ⟨h'.same, h'.tracker, h'.segments, h'.held.2⟩

/-- The visitor with paths is the visitor without them, with callbacks that keep track. -/
theorem visitValue_tracked (hgrants : ∀ n, grants n = true)
    (hcapacity : env.limits.maxDepth < env.pathCapacity) {text : Text}
    (htext : text.length ≤ sizeMax) (n : ℕ) (io : JsonIo υ) :
    Related SameUser (BehindToken (OnTrack [] [] []) text)
      (Paths.visitValue (env.withPaths pv grants) n 0 text { toJsonIo := io })
      (visitValue env (tracked pv) n 0 text
        { out := (io.out, []), error := io.error, status := io.status }) :=
  ((tracked_walk hgrants hcapacity).runs n).1 [] text _ _ (Nat.zero_le _) htext
    ⟨rfl, rfl, rfl, trivial⟩

/-- The user's part of a visit that keeps track of the containers around. -/
def JsonIo.user (j : JsonIo (υ × Nest)) : JsonIo υ :=
  { out := j.out.1, error := j.error, status := j.status }

/-- A whole visit with paths. -/
theorem jsonVisitPaths_tracked (hgrants : ∀ n, grants n = true)
    (hcapacity : env.limits.maxDepth < env.pathCapacity) {text : Text}
    (htext : text.length ≤ sizeMax) (io : JsonIo υ) :
    jsonVisitPaths env pv grants text io = (jsonVisit env (tracked pv) text
      { out := (io.out, []), error := io.error, status := io.status }).user := by
  have hvisit := @visitValue_tracked _ env pv _ hgrants hcapacity _ htext (2 * text.length + 2) io
  rw [jsonVisitPaths, jsonVisit, hgrants, hgrants, if_neg (by simp)]
  revert hvisit
  generalize Paths.visitValue (env.withPaths pv grants) (2 * text.length + 2) 0 text
    { toJsonIo := io } = x
  generalize visitValue env (tracked pv) (2 * text.length + 2) 0 text
    { out := (io.out, []), error := io.error, status := io.status } = y
  intro hvisit
  cases hvisit with
  | error h => exact h
  | @ok a b h =>
      obtain ⟨rest, p⟩ := a
      obtain ⟨rest', j⟩ := b
      obtain ⟨hrest, hp, -⟩ := h
      obtain rfl : rest = rest' := hrest
      have hfail : p.toJsonIo.fail .invalidJson "visited JSON must contain exactly one value" =
          (j.fail .invalidJson "visited JSON must contain exactly one value").user :=
        congrArg (JsonIo.fail · .invalidJson "visited JSON must contain exactly one value") hp.same
      dsimp only
      split
      · next hpeek =>
          rw [(visitPeek_ok_iff _ j _ _).mp hpeek]
          exact hp.same
      · next hpeek =>
          split
          · next hpeek' => exact absurd ((visitPeek_ok_iff _ _ _ _).mp hpeek') hpeek
          · exact hfail

end Lonejson
