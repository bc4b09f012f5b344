import Lonejson.PathTracker
import Lonejson.VisitorTotal

/-!
# The callbacks of a document

A visit makes the callbacks of the tree that the text spells, each with the path of the value that
it belongs to, and fails on every other text.
-/

namespace Lonejson

open Json (Text Tree)

variable {υ : Type} {env : VisitEnv} {pv : PathVisitor υ} {grants : ℕ → Bool} {limit : ℕ}

/-! ## Callbacks with their paths -/

mutual

/-- The callbacks of a tree at a path. -/
inductive PathsOf (limit : ℕ) : List Bytes → Tree → List (List Bytes × VisitEvent) → Prop where
  | null {path : List Bytes} : PathsOf limit path .null [(path, .null)]
  | bool {path : List Bytes} {value : Bool} :
      PathsOf limit path (.bool value) [(path, .bool value)]
  | number {path : List Bytes} {lexeme : Bytes} (h : JsonNumber lexeme)
      (hlen : lexeme.length ≤ limit) : PathsOf limit path (.number lexeme)
        [(path, .numberBegin), (path, .numberChunk lexeme), (path, .numberEnd)]
  | string {path : List Bytes} {chunks : List Bytes} : PathsOf limit path (.string chunks.flatten)
      ((path, .stringBegin) :: (chunks.map (path, .stringChunk ·) ++ [(path, .stringEnd)]))
  | array {path : List Bytes} {ts : List Tree} {ps : List (List Bytes × VisitEvent)}
      (h : PathsOfItems limit path 0 ts ps) : PathsOf limit path (.array ts)
        ((path, .arrayBegin) :: (ps ++ [(path, .arrayEnd)]))
  | object {path : List Bytes} {ms : List (Text × Tree)} {ps : List (List Bytes × VisitEvent)}
      (h : PathsOfMembers limit path ms ps) : PathsOf limit path (.object ms)
        ((path, .objectBegin) :: (ps ++ [(path, .objectEnd)]))

/-- The callbacks of the items of an array from a position on. -/
inductive PathsOfItems (limit : ℕ) :
    List Bytes → ℕ → List Tree → List (List Bytes × VisitEvent) → Prop where
  | nil {path : List Bytes} {index : ℕ} : PathsOfItems limit path index [] []
  | cons {path : List Bytes} {index : ℕ} {t : Tree} {ts : List Tree}
      {ps ps' : List (List Bytes × VisitEvent)}
      (h : PathsOf limit (path ++ [formatSizeDecimal index]) t ps)
      (hs : PathsOfItems limit path (index + 1) ts ps') :
      PathsOfItems limit path index (t :: ts) (ps ++ ps')

/-- The callbacks of the members of an object; those of a key belong to the object. -/
inductive PathsOfMembers (limit : ℕ) :
    List Bytes → List (Text × Tree) → List (List Bytes × VisitEvent) → Prop where
  | nil {path : List Bytes} : PathsOfMembers limit path [] []
  | cons {path : List Bytes} {chunks : List Bytes} {t : Tree} {ms : List (Text × Tree)}
      {ps ps' : List (List Bytes × VisitEvent)} (h : PathsOf limit (path ++ [chunks.flatten]) t ps)
      (hs : PathsOfMembers limit path ms ps') :
      PathsOfMembers limit path ((chunks.flatten, t) :: ms)
        ((path, .keyBegin) ::
          (chunks.map (path, .keyChunk ·) ++ ((path, .keyEnd) :: (ps ++ ps'))))

end

/-- A list of callbacks with their paths. -/
def JsonIo.feedPaths (pv : PathVisitor υ) :
    JsonIo υ → List (List Bytes × VisitEvent) → Except (JsonIo υ) (JsonIo υ)
  | io, [] => .ok io
  | io, (path, e) :: ps => (io.visit (fun out => pv out path) e).bind fun io => io.feedPaths pv ps

/-- The state in which a visit ends, after its last callback or a failed one. -/
def JsonIo.ended : Except (JsonIo υ) (JsonIo υ) → JsonIo υ
  | .ok io => io
  | .error io => io

/-! ## What the tracker hands on -/

/-- The containers around after some events. -/
def Nest.run (nest : Nest) : List VisitEvent → Nest
  | [] => nest
  | e :: es => Nest.run (nest.step e) es

/-- The events with their paths. -/
def Nest.trace (nest : Nest) : List VisitEvent → List (List Bytes × VisitEvent)
  | [] => []
  | e :: es => (nest.path e, e) :: Nest.trace (nest.step e) es

theorem Nest.run_append (nest : Nest) (es es' : List VisitEvent) :
    nest.run (es ++ es') = (nest.run es).run es' := by
  induction es generalizing nest with
  | nil => rfl
  | cons e es ih => exact ih _

theorem Nest.trace_append (nest : Nest) (es es' : List VisitEvent) :
    nest.trace (es ++ es') = nest.trace es ++ (nest.run es).trace es' := by
  induction es generalizing nest with
  | nil => rfl
  | cons e es ih => exact congrArg _ (ih _)

/-- The callbacks that keep track see what is handed on. -/
theorem feed_tracked (es : List VisitEvent) (j : JsonIo (υ × Nest)) :
    Json.Related (fun io j => io = j.user) (fun io j => io = j.user)
      (JsonIo.feedPaths pv j.user (j.out.2.trace es)) (j.feed (tracked pv) es) := by
  induction es generalizing j with
  | nil => exact .ok rfl
  | cons e es ih =>
      rw [Nest.trace, JsonIo.feedPaths, JsonIo.feed]
      have hvisit : Json.Related (fun io j => io = j.user)
          (fun io j' => io = j'.user ∧ j'.out.2 = j.out.2.step e)
          (j.user.visit (fun out => pv out (j.out.2.path e)) e) (j.visit (tracked pv) e) := by
        rw [JsonIo.visit, JsonIo.visit]
        exact Json.Related.ite Iff.rfl (fun _ => .ok ⟨rfl, rfl⟩) fun _ => .error rfl
      refine hvisit.bind fun io j' h => ?_
      obtain ⟨rfl, hnest⟩ := h
      rw [← hnest]
      exact ih j'

theorem Nest.run_chunks (nest : Nest) (chunks : List Bytes) :
    nest.run (chunks.map .stringChunk) = nest ∧
      nest.trace (chunks.map .stringChunk) = chunks.map (nest.segments, .stringChunk ·) := by
  induction chunks with
  | nil => exact ⟨rfl, rfl⟩
  | cons chunk chunks ih => exact ⟨ih.1, congrArg _ ih.2⟩

theorem Nest.run_keyChunks (nest : Nest) (key : Bytes) (chunks : List Bytes) :
    Nest.run (.object key :: nest) (chunks.map .keyChunk) =
        .object (key ++ chunks.flatten) :: nest ∧
      Nest.trace (.object key :: nest) (chunks.map .keyChunk) =
        chunks.map (nest.segments, .keyChunk ·) := by
  induction chunks generalizing key with
  | nil => simp [Nest.run, Nest.trace]
  | cons chunk chunks ih =>
      obtain ⟨hrun, htrace⟩ := ih (key ++ chunk)
      rw [List.map_cons, Nest.run, Nest.trace, List.flatten_cons, ← List.append_assoc]
      exact ⟨hrun, congrArg _ htrace⟩

mutual

/-- The events of a tree, with the paths of the tree. -/
theorem trace_tree {t : Tree} {es : List VisitEvent} :
    EventsOf limit t es → treeBytes t < 2 ^ 64 → ∀ nest : Nest,
      nest.run es = nest.after ∧ PathsOf limit nest.segments t (nest.trace es)
  | .null, _, nest => ⟨rfl, .null⟩
  | .bool, _, nest => ⟨rfl, .bool⟩
  | .number h hlen, _, nest => ⟨rfl, .number h hlen⟩
  | @EventsOf.string _ chunks, _, nest => by
      obtain ⟨hrun, htrace⟩ := nest.run_chunks chunks
      have hbegin : nest.step .stringBegin = nest := by cases nest <;> rfl
      rw [Nest.run, Nest.trace, hbegin, Nest.run_append, Nest.trace_append, hrun, htrace]
      exact ⟨rfl, .string⟩
  | .array h, hbytes, nest => by
      rw [treeBytes] at hbytes
      obtain ⟨index, hrun, hpaths⟩ := trace_items h 0 (by rw [UInt64.toNat_zero]; omega) nest
      have hbegin : nest.step .arrayBegin = .array 0 :: nest := rfl
      rw [Nest.run, Nest.trace, hbegin, Nest.run_append, Nest.trace_append, hrun]
      exact ⟨rfl, .array hpaths⟩
  | .object h, hbytes, nest => by
      rw [treeBytes] at hbytes
      obtain ⟨key, hrun, hpaths⟩ := trace_members h (by omega) [] nest
      have hbegin : nest.step .objectBegin = .object [] :: nest := rfl
      rw [Nest.run, Nest.trace, hbegin, Nest.run_append, Nest.trace_append, hrun]
      exact ⟨rfl, .object hpaths⟩

theorem trace_items {ts : List Tree} {es : List VisitEvent} :
    EventsOfItems limit ts es → ∀ index : UInt64, index.toNat + itemsBytes ts < 2 ^ 64 →
      ∀ nest : Nest, ∃ index', Nest.run (.array index :: nest) es = .array index' :: nest ∧
        PathsOfItems limit nest.segments index.toNat ts (Nest.trace (.array index :: nest) es)
  | .nil, index, _, nest => ⟨index, rfl, .nil⟩
  | .cons h hs, index, hbytes, nest => by
      rw [itemsBytes] at hbytes
      obtain ⟨hrun, hpaths⟩ := trace_tree h (by omega) (.array index :: nest)
      have hnext : (index + 1).toNat = index.toNat + 1 := by
        rw [UInt64.toNat_add]
        exact Nat.mod_eq_of_lt (by change index.toNat + 1 < _; omega)
      obtain ⟨index', hrun', hpaths'⟩ := trace_items hs (index + 1) (by omega) nest
      rw [hnext] at hpaths'
      rw [Nest.segments_cons] at hpaths
      have hafter : Nest.after (.array index :: nest) = .array (index + 1) :: nest := rfl
      rw [Nest.run_append, Nest.trace_append, hrun, hafter]
      exact ⟨index', hrun', .cons hpaths hpaths'⟩

theorem trace_members {ms : List (Text × Tree)} {es : List VisitEvent} :
    EventsOfMembers limit ms es → membersBytes ms < 2 ^ 64 → ∀ (key : Bytes) (nest : Nest),
      ∃ key', Nest.run (.object key :: nest) es = .object key' :: nest ∧
        PathsOfMembers limit nest.segments ms (Nest.trace (.object key :: nest) es)
  | .nil, _, key, nest => ⟨key, rfl, .nil⟩
  | @EventsOfMembers.cons _ chunks _ _ _ _ h hs, hbytes, key, nest => by
      rw [membersBytes] at hbytes
      obtain ⟨hrun, htrace⟩ := nest.run_keyChunks [] chunks
      rw [List.nil_append] at hrun
      obtain ⟨hvalue, hpaths⟩ := trace_tree h (by omega) (.object chunks.flatten :: nest)
      obtain ⟨key', hrest, hpaths'⟩ := trace_members hs (by omega) chunks.flatten nest
      rw [Nest.segments_cons] at hpaths
      have hbegin : Nest.step .keyBegin (.object key :: nest) = .object [] :: nest := rfl
      have hend : Nest.step .keyEnd (.object chunks.flatten :: nest) =
          .object chunks.flatten :: nest := rfl
      have hafter : Nest.after (.object chunks.flatten :: nest) =
          .object chunks.flatten :: nest := rfl
      rw [Nest.run, Nest.trace, hbegin, Nest.run_append, Nest.trace_append, hrun, htrace, Nest.run,
        Nest.trace, hend, Nest.run_append, Nest.trace_append, hvalue, hafter]
      exact ⟨key', hrest, .cons hpaths hpaths'⟩

end

/-! ## Whole visits -/

section

variable {text : Text}

theorem jsonVisit_ended (v : Visitor υ) (hlength : env.length = text.length) {t : Tree}
    (ht : ReadsText env.limits t text) : ∃ es, EventsOf env.limits.maxNumberBytes t es ∧
      ∀ io, jsonVisit env v text io = JsonIo.ended (io.feed v es) := by
  obtain ⟨es, hes, hvisit⟩ := jsonVisit_feeds v hlength ht
  refine ⟨es, hes, fun io => ?_⟩
  rw [hvisit]
  cases io.feed v es <;> rfl

theorem jsonVisit_rejects (v : Visitor υ) (hlength : env.length = text.length)
    (hnone : ∀ t, ¬ ReadsText env.limits t text) (io : JsonIo υ) :
    (jsonVisit env v text io).status.soft = false :=
  Bool.eq_false_of_not_eq_true fun hsoft =>
    have ⟨t, ht⟩ := jsonVisit_reads hlength hsoft
    hnone t ht

/-- The chunks of a text in front of the event behind them. -/
theorem chunks_inj {chunk : Bytes → VisitEvent} (hchunk : ∀ a b, chunk a = chunk b → a = b)
    {close : VisitEvent} (hclose : ∀ a, chunk a ≠ close) {chunks chunks' : List Bytes}
    {r r' : List VisitEvent}
    (h : chunks.map chunk ++ close :: r = chunks'.map chunk ++ close :: r') :
    chunks = chunks' ∧ r = r' := by
  induction chunks generalizing chunks' with
  | nil =>
      cases chunks' with
      | nil => exact ⟨rfl, (List.cons.inj h).2⟩
      | cons c cs => exact absurd (List.cons.inj h).1.symm (hclose c)
  | cons c cs ih =>
      cases chunks' with
      | nil => exact absurd (List.cons.inj h).1 (hclose c)
      | cons c' cs' =>
          obtain ⟨hc, hcs⟩ := List.cons.inj h
          obtain ⟨rfl, hr⟩ := ih hcs
          exact ⟨by rw [hchunk c c' hc], hr⟩

/-- What the events begin with, where they are those of a tree. -/
theorem EventsOf.head {t : Tree} {es : List VisitEvent} (h : EventsOf limit t es) :
    ∃ e es', es = e :: es' ∧ e ≠ .arrayEnd := by
  cases h with
  | null => exact ⟨_, _, rfl, VisitEvent.noConfusion⟩
  | bool => exact ⟨_, _, rfl, VisitEvent.noConfusion⟩
  | number => exact ⟨_, _, rfl, VisitEvent.noConfusion⟩
  | string => exact ⟨_, _, rfl, VisitEvent.noConfusion⟩
  | array => exact ⟨_, _, rfl, VisitEvent.noConfusion⟩
  | object => exact ⟨_, _, rfl, VisitEvent.noConfusion⟩

mutual

/-- The events of a tree tell which tree it is, and where its events end. -/
theorem EventsOf.unique {t : Tree} {es : List VisitEvent} :
    EventsOf limit t es → ∀ {t' : Tree} {es' r r' : List VisitEvent}, EventsOf limit t' es' →
      es ++ r = es' ++ r' → t = t' ∧ r = r'
  | .null => fun h' h => by
      cases h' <;> simp_all
  | .bool => fun h' h => by
      cases h' <;> simp_all
  | .number _ _ => fun h' h => by
      cases h' <;> simp_all
  | .string => fun h' h => by
      cases h' with
      | string =>
          simp only [List.cons_append, List.append_assoc, List.cons.injEq, true_and,
            List.nil_append] at h
          obtain ⟨rfl, rfl⟩ := chunks_inj (fun _ _ => VisitEvent.stringChunk.inj)
            (fun _ => VisitEvent.noConfusion) h
          exact ⟨rfl, rfl⟩
      | _ => simp_all
  | .array hitems => fun h' h => by
      cases h' with
      | array hitems' =>
          simp only [List.cons_append, List.append_assoc, List.cons.injEq, true_and,
            List.nil_append] at h
          obtain ⟨rfl, rfl⟩ := EventsOfItems.unique hitems hitems' h
          exact ⟨rfl, rfl⟩
      | _ => simp_all
  | .object hmembers => fun h' h => by
      cases h' with
      | object hmembers' =>
          simp only [List.cons_append, List.append_assoc, List.cons.injEq, true_and,
            List.nil_append] at h
          obtain ⟨rfl, rfl⟩ := EventsOfMembers.unique hmembers hmembers' h
          exact ⟨rfl, rfl⟩
      | _ => simp_all

theorem EventsOfItems.unique {ts : List Tree} {es : List VisitEvent} :
    EventsOfItems limit ts es → ∀ {ts' : List Tree} {es' r r' : List VisitEvent},
      EventsOfItems limit ts' es' → es ++ .arrayEnd :: r = es' ++ .arrayEnd :: r' →
      ts = ts' ∧ r = r'
  | .nil => fun h' h => by
      cases h' with
      | nil => exact ⟨rfl, (List.cons.inj h).2⟩
      | cons ht _ =>
          obtain ⟨e, es', rfl, hne⟩ := ht.head
          exact absurd (List.cons.inj h).1.symm hne
  | .cons ht hts => fun h' h => by
      cases h' with
      | nil =>
          obtain ⟨e, es', rfl, hne⟩ := ht.head
          exact absurd (List.cons.inj h).1 hne
      | cons ht' hts' =>
          rw [List.append_assoc, List.append_assoc] at h
          obtain ⟨rfl, h⟩ := EventsOf.unique ht ht' h
          obtain ⟨rfl, rfl⟩ := EventsOfItems.unique hts hts' h
          exact ⟨rfl, rfl⟩

theorem EventsOfMembers.unique {ms : List (Text × Tree)} {es : List VisitEvent} :
    EventsOfMembers limit ms es → ∀ {ms' : List (Text × Tree)} {es' r r' : List VisitEvent},
      EventsOfMembers limit ms' es' → es ++ .objectEnd :: r = es' ++ .objectEnd :: r' →
      ms = ms' ∧ r = r'
  | .nil => fun h' h => by
      cases h' with
      | nil => exact ⟨rfl, (List.cons.inj h).2⟩
      | cons _ _ => exact absurd (List.cons.inj h).1 VisitEvent.noConfusion
  | .cons ht hms => fun h' h => by
      cases h' with
      | nil => exact absurd (List.cons.inj h).1 VisitEvent.noConfusion
      | cons ht' hms' =>
          simp only [List.cons_append, List.append_assoc, List.cons.injEq, true_and] at h
          obtain ⟨hchunks, hvalue⟩ := chunks_inj (fun _ _ => VisitEvent.keyChunk.inj)
            (fun _ => VisitEvent.noConfusion) h
          obtain ⟨rfl, hrest⟩ := EventsOf.unique ht ht' hvalue
          obtain ⟨rfl, rfl⟩ := EventsOfMembers.unique hms hms' hrest
          exact ⟨by rw [hchunks], rfl⟩

end

/-- The visitor that lists its callbacks. -/
def listing : Visitor (List VisitEvent) := fun out e error => (out ++ [e], error, .ok)

theorem feed_listing (es : List VisitEvent) (io : JsonIo (List VisitEvent)) :
    ∃ io', io.feed listing es = .ok io' ∧ io'.out = io.out ++ es := by
  induction es generalizing io with
  | nil => exact ⟨io, rfl, (List.append_nil _).symm⟩
  | cons e es ih =>
      obtain ⟨io', hfeed, hout⟩ :=
        ih { out := io.out ++ [e], error := io.error, status := .ok }
      exact ⟨io', hfeed, by rw [hout, List.append_assoc]; rfl⟩

/-- A text spells one tree at most. -/
theorem ReadsText.unique {limits : ValueLimits} {t t' : Tree} (ht : ReadsText limits t text)
    (ht' : ReadsText limits t' text) : t = t' := by
  obtain ⟨es, hes, hvisit⟩ := @jsonVisit_ended _ ⟨limits, text.length, id⟩ _ listing rfl t ht
  obtain ⟨es', hes', hvisit'⟩ := @jsonVisit_ended _ ⟨limits, text.length, id⟩ _ listing rfl t' ht'
  obtain ⟨io, hfeed, hout⟩ := feed_listing es { out := [] }
  obtain ⟨io', hfeed', hout'⟩ := feed_listing es' { out := [] }
  have hsame := (hvisit { out := [] }).symm.trans (hvisit' { out := [] })
  rw [hfeed, hfeed'] at hsame
  have hio : io = io' := hsame
  rw [hio] at hout
  have hlist : es ++ [] = es' ++ [] := by
    rw [List.append_nil, List.append_nil]
    exact hout.symm.trans hout'
  exact (EventsOf.unique hes hes' hlist).1

/-- The text `[{"a":null}]`. -/
def nestedText : Text :=
  [0x5b, 0x7b, 0x22, 0x61, 0x22, 0x3a, 0x6e, 0x75, 0x6c, 0x6c, 0x7d, 0x5d]

end

end Lonejson
