import Lonejson.ArrayPositions
import Lonejson.ArraySessions
import Lonejson.ObjectStream

/-!
# Bytes that come with `would_block`

A refill loop of the object stream or of the array stream looks at `would_block` before it looks at the
bytes, so a result that carries both is dropped. Without such a result a session gets every byte and
comes to what it comes to without the flags.
-/

namespace Lonejson

open StateTransition

variable {π ρ ω : Type}

/-! ## Sessions that begin -/

theorem objectOpened_load (parser : ObjectParser π) (dsts : ℕ → ℕ) (p : π)
    (script script' : List ReadResult) : ObjectSession.opened parser dsts script p =
      (ObjectSession.opened parser dsts script' p).withScript script := by
  have hbegin := @begin_withScript _ parser
    { source := .reader script', parser := p } script (dsts 0)
  exact congrArg (fun r : ObjectStream π × Option ObjectResult =>
    (⟨r.1, [], r.2⟩ : ObjectSession π)) hbegin

/-- None of the results that a session of an object stream reads carries bytes together with
`would_block`. -/
def CleanObjects (parser : ObjectParser π) (dsts : ℕ → ℕ) (p : π) (script : List ReadResult) : Prop :=
  (objectPoller parser dsts).Clean (.opened parser dsts script p)

/-- A session of an object stream gets every byte that its reads return, and delivers the objects and
comes to the end that it comes to without the flags. -/
def ObjectsKept (parser : ObjectParser π) (dsts : ℕ → ℕ) (p : π) (script : List ReadResult) : Prop :=
  (objectPoller parser dsts).Keeps (.opened parser dsts script p) ∧
    (objectPoller parser dsts).result
        (.opened parser dsts (script.map ReadResult.unblocked) p) =
      (objectPoller parser dsts).result (.opened parser dsts script p)

theorem objectsKept_iff {parser : ObjectParser π} {dsts : ℕ → ℕ} {p : π} {script : List ReadResult}
    (h : Orderly script) : ObjectsKept parser dsts p script ↔ CleanObjects parser dsts p script := by
  have hscript : (objectPoller parser dsts).script (.opened parser dsts script p) = script := by
    rw [objectOpened_load parser dsts p script []]
    rfl
  have hready : (objectPoller parser dsts).Ready (.opened parser dsts script p) := by
    rw [objectOpened_load parser dsts p script []]
    exact Poller.ready_load (P := objectPoller parser dsts) script _
  have horderly : Orderly ((objectPoller parser dsts).script (.opened parser dsts script p)) := by
    rw [hscript]
    exact h
  have hgood : (objectPoller parser dsts).good (.opened parser dsts script p) := fun hnone =>
    begin_going hnone
  have hkeeps := Poller.keeps_iff hready horderly
  refine ⟨fun hkept => hkeeps.mp hkept.1, fun hclean => ⟨hkeeps.mpr hclean, ?_⟩⟩
  have hresult := Poller.result_unblocked hready hgood horderly hclean
  rw [hscript] at hresult
  rw [objectOpened_load parser dsts p (script.map ReadResult.unblocked) script]
  exact hresult

/-- None of the results that a session of an array stream reads carries bytes together with
`would_block`. -/
def CleanItems (parser : ItemParser π ω) (targets : ℕ → ItemTarget) (s : ArraySession π ω) : Prop :=
  (arrayPoller parser targets).Clean s

/-- A session of an array stream gets every byte that its reads return, and delivers the elements and
comes to the end that it comes to without the flags. -/
def ItemsKept (parser : ItemParser π ω) (targets : ℕ → ItemTarget) (s : ArraySession π ω) : Prop :=
  (arrayPoller parser targets).Keeps s ∧
    (arrayPoller parser targets).result (s.withScript (s.script.map ReadResult.unblocked)) =
      (arrayPoller parser targets).result s

theorem arrayOpened_ready (parser : ItemParser π ω) (targets : ℕ → ItemTarget)
    (script : List ReadResult) (user : ω) (path : Bytes) (reject : Bool) :
    (arrayPoller parser targets).Ready (.opened script user path reject) := rfl

theorem itemsKept_clean {parser : ItemParser π ω} {targets : ℕ → ItemTarget}
    {script : List ReadResult} (h : Orderly script) (user : ω) (path : Bytes) (reject : Bool)
    (hkept : ItemsKept parser targets (.opened script user path reject)) :
    CleanItems parser targets (.opened script user path reject) :=
  (Poller.keeps_iff (arrayOpened_ready parser targets script user path reject) h).mp hkept.1

theorem itemsKept_of_clean {parser : ItemParser π ω} {targets : ℕ → ItemTarget}
    {script : List ReadResult} (h : Orderly script) (user : ω) (path : Bytes) (reject : Bool)
    (hfirm : parser.Firm) (hclean : CleanItems parser targets (.opened script user path reject)) :
    ItemsKept parser targets (.opened script user path reject) :=
  have hready := arrayOpened_ready parser targets script user path reject
  ⟨(Poller.keeps_iff hready h).mpr hclean,
    Poller.result_unblocked hready ⟨hfirm, fun _ => ⟨rfl, rfl⟩⟩ h hclean⟩

/-- Over the results of a reader that returns no errors, and nothing behind the end: a session gets
every byte and comes to what it comes to without the flags exactly where no result that it reads
carries bytes together with `would_block`. For an array stream that is enough where the parser of an
element and the sinks fail with hard errors only. -/
theorem streams_unblocked {script : List ReadResult} (h : Orderly script) :
    (∀ (parser : ObjectParser π) (dsts : ℕ → ℕ) (p : π),
      ObjectsKept parser dsts p script ↔ CleanObjects parser dsts p script) ∧
    ∀ (parser : ItemParser ρ ω) (targets : ℕ → ItemTarget) (user : ω) (path : Bytes) (reject : Bool),
      (ItemsKept parser targets (.opened script user path reject) →
        CleanItems parser targets (.opened script user path reject)) ∧
      (parser.Firm → CleanItems parser targets (.opened script user path reject) →
        ItemsKept parser targets (.opened script user path reject)) :=
  ⟨fun _ _ _ => objectsKept_iff h, fun _ _ user path reject =>
    ⟨itemsKept_clean h user path reject, itemsKept_of_clean h user path reject⟩⟩

/-! ## Mapped objects -/

/-- The parser of an object stream, with the destinations that it has left. -/
structure MappedParser (σ : Type) where
  parser : Parser σ
  dst : ℕ
  records : ℕ → Record

/-- The parser of an object stream with a map. -/
def mappedObjects {σ : Type} (env : Env σ) : ObjectParser (MappedParser σ) where
  restart m dst :=
    let core := cleanupJsonStreamPath env (directStringClear env m.parser.core)
    let records := Function.update m.records m.dst core.dst
    ⟨parserInit env (records dst) core.world, dst, records⟩
  clears := env.options.clearDestination
  resetMap m _ := { m with
    parser := { m.parser with core := m.parser.core.resetAt env env.rootMap [] } }
  initMap m _ := { m with parser := { m.parser with core := initMapParse env m.parser.core } }
  feed m bytes :=
    let r := feedBytes env true m.parser bytes
    (({ m with parser := r.1.1 }, r.1.2), r.2)
  finish m :=
    let r := parserFinish env m.parser
    ({ m with parser := r.1 }, r.2)
  rootComplete m := rootComplete m.parser
  rootStarted m := m.parser.rootStarted
  failed m := m.parser.core.failed
  error m :=
    { code := m.parser.core.error.code, message := m.parser.core.error.message, pos := m.parser.pos,
      truncated := m.parser.core.error.truncated }

/-- A map with one boolean. -/
def Env.flag : Env Unit :=
  { Env.bare with
    maps := fun _ => { fields := [{ jsonKey := [0x6b], kind := .bool }] }
    rootMap := some 0 }

def flagParser : MappedParser Unit :=
  ⟨parserInit .flag [(.bool false, false)] (), 0, fun _ => [(.bool false, false)]⟩

/-- A reader that returns `{}`, then nothing, then the end. -/
def pausedScript : List ReadResult := [{ bytes := [0x7b, 0x7d] }, { wouldBlock := true }, { eof := true }]

theorem pausedScript_orderly : Orderly pausedScript := by
  refine ⟨rfl, nofun, rfl, nofun, rfl, ?_, trivial⟩
  exact fun _ => nofun

/-- Where the reader blocks without bytes, the flags do not matter. -/
theorem streams_unblocked_paused :
    ObjectsKept (mappedObjects .flag) (fun _ => 0) flagParser pausedScript ∧
      ItemsKept rawItems (fun _ => { mode := .raw }) (.opened pausedScript () [] false) := by
  have hempty : ∀ used rest, pausedScript = used ++ rest →
      ∀ r ∈ used, r.wouldBlock = true → r.bytes = [] := by
    intro used rest hused r hr
    have hall : ∀ r ∈ pausedScript, r.wouldBlock = true → r.bytes = [] := by decide
    exact hall r (hused ▸ List.mem_append_left rest hr)
  have hobjects : CleanObjects (mappedObjects .flag) (fun _ => 0) flagParser pausedScript :=
    fun t _ used hused => hempty used _ hused
  have hitems : CleanItems rawItems (fun _ => { mode := .raw }) (.opened pausedScript () [] false) :=
    fun t _ used hused => hempty used _ hused
  have hfirm : rawItems.Firm := ⟨fun _ _ => nofun, fun _ _ _ => nofun⟩
  obtain ⟨hobject, hitem⟩ := streams_unblocked (π := MappedParser Unit) (ρ := Parser Unit)
    (ω := Unit) pausedScript_orderly
  exact ⟨(hobject _ _ _).mpr hobjects, (hitem _ _ _ _ _).2 hfirm hitems⟩

/-! ## Bytes that are dropped -/

/-- The session after some turns. -/
def turnsOf {σ : Type} (step : σ → Option σ) : ℕ → σ → σ
  | 0, s => s
  | n + 1, s => match step s with
    | some t => turnsOf step n t
    | none => s

theorem turnsOf_reaches {σ : Type} (step : σ → Option σ) (n : ℕ) (s : σ) :
    StateTransition.Reaches step s (turnsOf step n s) := by
  induction n generalizing s with
  | zero => exact .refl
  | succ n ih =>
      rw [turnsOf]
      cases h : step s with
      | none => exact .refl
      | some t => exact .head h (ih t)

theorem turnsOf_mem {σ : Type} {step : σ → Option σ} {n : ℕ} {s : σ}
    (h : (step (turnsOf step n s)).isNone = true) : turnsOf step n s ∈ eval step s :=
  mem_eval.mpr ⟨turnsOf_reaches step n s, Option.isNone_iff_eq_none.mp h⟩

/-- Sessions that come to different ends. -/
theorem result_ne {σ α : Type} {P : Poller σ} {s s' : σ} (n : ℕ) (see : σ → α)
    (hsee : ∀ t, see (P.load [] t) = see t)
    (h : (P.step (turnsOf P.step n s)).isNone = true)
    (h' : (P.step (turnsOf P.step n s')).isNone = true)
    (hne : see (turnsOf P.step n s) ≠ see (turnsOf P.step n s')) : P.result s ≠ P.result s' := by
  intro heq
  have hmem : P.load [] (turnsOf P.step n s) ∈ P.result s := Part.mem_map _ (turnsOf_mem h)
  have hmem' : P.load [] (turnsOf P.step n s') ∈ P.result s' := Part.mem_map _ (turnsOf_mem h')
  rw [heq] at hmem
  have hsame := congrArg see (Part.mem_unique hmem hmem')
  rw [hsee, hsee] at hsame
  exact hne hsame

/-- A reader that returns `{}` together with `would_block`, and then the end. -/
def droppedObject : List ReadResult :=
  [{ bytes := [0x7b, 0x7d], wouldBlock := true }, { eof := true }]

/-- A reader that returns `[1` together with `would_block`, then `]`, and then the end. -/
def droppedItem : List ReadResult :=
  [{ bytes := [0x5b, 0x31], wouldBlock := true }, { bytes := [0x5d] }, { eof := true }]

/-- An object, or an element, that comes together with `would_block` is not delivered. -/
theorem streams_dropped :
    ¬ (∀ script, Orderly script →
      (objectPoller (mappedObjects .flag) fun _ => 0).result
          (.opened (mappedObjects .flag) (fun _ => 0) (script.map ReadResult.unblocked) flagParser) =
        (objectPoller (mappedObjects .flag) fun _ => 0).result
          (.opened (mappedObjects .flag) (fun _ => 0) script flagParser)) ∧
    ¬ (∀ script, Orderly script →
      (arrayPoller rawItems fun _ => { mode := .raw }).result
          (.opened (script.map ReadResult.unblocked) () [] false) =
        (arrayPoller rawItems fun _ => { mode := .raw }).result (.opened script () [] false)) := by
  refine ⟨fun h => ?_, fun h => ?_⟩
  · refine absurd (h droppedObject ⟨rfl, nofun, rfl, fun _ => nofun, trivial⟩) ?_
    exact result_ne 8 (fun s => s.objects.length) (fun _ => rfl) (by decide) (by decide)
      (by decide)
  · refine absurd (h droppedItem ⟨rfl, nofun, rfl, nofun, rfl, fun _ => nofun, trivial⟩) ?_
    exact result_ne 16 (fun s => s.items.length) (fun _ => rfl) (by decide) (by decide)
      (by decide)

end Lonejson
