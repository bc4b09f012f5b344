import Lonejson.ArrayStream

/-!
# Polling

A machine whose steps poll a reader for bytes. A step that has been blocked is taken again, and does
what it would have done. Two runs are compared: over the results that a reader returns, and over the
same results without `would_block`.
-/

namespace Lonejson

open StateTransition

/-! ## What a reader returns -/

/-- The same result, without `would_block`. -/
def ReadResult.unblocked (r : ReadResult) : ReadResult := { r with wouldBlock := false }

/-- No error, and no bytes behind the end. -/
def Orderly : List ReadResult → Prop
  | [] => True
  | r :: script => r.errorCode = 0 ∧ (r.eof → ∀ r' ∈ script, r'.bytes = []) ∧ Orderly script

/-- The bytes, read by read. -/
def chunks (script : List ReadResult) : List Bytes :=
  (script.map ReadResult.bytes).filter (· ≠ [])

/-- The bytes of the results that do not block. -/
def passed (script : List ReadResult) : Bytes :=
  (script.filter fun r => !r.wouldBlock).flatMap ReadResult.bytes

/-- What a refill loop has got. -/
def Refill.got : Refill → Bytes
  | .bytes chunk => chunk
  | _ => []

theorem chunks_cons (r : ReadResult) (script : List ReadResult) :
    chunks (r :: script) = if r.bytes = [] then chunks script else r.bytes :: chunks script := by
  rw [chunks, List.map_cons, List.filter_cons]
  by_cases h : r.bytes = []
  · rw [if_pos h, if_neg (by simpa using h)]
    rfl
  · rw [if_neg h, if_pos (by simpa using h)]
    rfl

theorem chunks_eq_nil {script : List ReadResult} (h : ∀ r ∈ script, r.bytes = []) :
    chunks script = [] := by
  rw [chunks, List.filter_eq_nil_iff]
  intro bytes hmem
  obtain ⟨r, hr, rfl⟩ := List.mem_map.mp hmem
  simpa using h r hr

theorem orderly_append {used rest : List ReadResult} (h : Orderly (used ++ rest)) : Orderly rest := by
  induction used with
  | nil => exact h
  | cons r used ih => exact ih h.2.2

theorem orderly_unblocked {script : List ReadResult} (h : Orderly script) :
    Orderly (script.map ReadResult.unblocked) := by
  induction script with
  | nil => exact trivial
  | cons r script ih =>
      refine ⟨h.1, fun heof r' hr' => ?_, ih h.2.2⟩
      obtain ⟨r'', hr'', rfl⟩ := List.mem_map.mp hr'
      exact h.2.1 heof r'' hr''

theorem chunks_unblocked (script : List ReadResult) :
    chunks (script.map ReadResult.unblocked) = chunks script := by
  rw [chunks, chunks, List.map_map]
  rfl

/-- The results that a refill loop has read, and what it has got of them. -/
theorem readScript_used {script : List ReadResult} (h : Orderly script) :
    ∃ used, script = used ++ (readScript script).2 ∧ passed used = (readScript script).1.got ∧
      ((readScript script).1 = .blocked → used ≠ [] ∧
        ((∀ r ∈ used, r.wouldBlock → r.bytes = []) →
          chunks (readScript script).2 = chunks script)) ∧
      ((readScript script).1 ≠ .blocked → ∀ r ∈ used, r.wouldBlock = false) := by
  induction script with
  | nil => exact ⟨[], rfl, rfl, nofun, fun _ => nofun⟩
  | cons r script ih =>
      obtain ⟨herror, -, horderly⟩ := h
      rw [readScript, if_neg (not_not.mpr herror)]
      by_cases hblock : r.wouldBlock = true
      · rw [if_pos hblock]
        refine ⟨[r], rfl, ?_, fun _ => ⟨nofun, fun hclean => ?_⟩, fun hne => absurd rfl hne⟩
        · rw [passed, List.filter_cons_of_neg (by simpa using hblock)]
          rfl
        · rw [chunks_cons, if_pos (hclean r (List.mem_singleton_self r) hblock)]
      rw [if_neg hblock]
      have hfree : r.wouldBlock = false := Bool.eq_false_iff.mpr hblock
      have hpassed (used : List ReadResult) : passed (r :: used) = r.bytes ++ passed used := by
        rw [passed, List.filter_cons_of_pos (by simpa using hfree), List.flatMap_cons]
        rfl
      have hsingle : ∀ r' ∈ [r], r'.wouldBlock = false := by
        intro r' hr'
        rw [List.mem_singleton.mp hr']
        exact hfree
      by_cases hbytes : r.bytes = []
      · rw [if_neg (not_not.mpr hbytes)]
        by_cases heof : r.eof = true
        · rw [if_pos heof]
          refine ⟨[r], rfl, ?_, nofun, fun _ => hsingle⟩
          rw [hpassed, hbytes]
          rfl
        · rw [if_neg heof]
          obtain ⟨used, hscript, hused, hblocked, hfreed⟩ := ih horderly
          refine ⟨r :: used, congrArg (r :: ·) hscript, ?_, fun heq => ⟨nofun, fun hclean => ?_⟩,
            fun hne r' hr' => ?_⟩
          · rw [hpassed, hbytes, hused]
            rfl
          · rw [(hblocked heq).2 fun r' hr' => hclean r' (List.mem_cons_of_mem _ hr'), chunks_cons,
              if_pos hbytes]
          · cases hr' with
            | head => exact hfree
            | tail _ hmem => exact hfreed hne r' hmem
      · rw [if_pos hbytes]
        refine ⟨[r], rfl, ?_, nofun, fun _ => hsingle⟩
        rw [hpassed]
        exact List.append_nil _

/-- What a refill loop gets that is not blocked: the next bytes, or the end. -/
theorem readScript_chunks {script : List ReadResult} (h : Orderly script)
    (hblocked : (readScript script).1 ≠ .blocked) :
    (readScript script).1 = (match chunks script with | [] => .ended | c :: _ => .bytes c) ∧
      chunks (readScript script).2 = (chunks script).tail := by
  induction script with
  | nil => exact ⟨rfl, rfl⟩
  | cons r script ih =>
      obtain ⟨herror, hend, horderly⟩ := h
      rw [readScript, if_neg (not_not.mpr herror)] at hblocked ⊢
      by_cases hblock : r.wouldBlock = true
      · rw [if_pos hblock] at hblocked
        exact absurd rfl hblocked
      rw [if_neg hblock] at hblocked ⊢
      rw [chunks_cons]
      by_cases hbytes : r.bytes = []
      · rw [if_neg (not_not.mpr hbytes)] at hblocked ⊢
        rw [if_pos hbytes]
        by_cases heof : r.eof = true
        · rw [if_pos heof, chunks_eq_nil (hend heof)]
          exact ⟨rfl, rfl⟩
        · rw [if_neg heof] at hblocked ⊢
          exact ih horderly hblocked
      · rw [if_pos hbytes, if_neg hbytes]
        exact ⟨rfl, rfl⟩

theorem readScript_free {script : List ReadResult} (h : ∀ r ∈ script, r.wouldBlock = false) :
    (readScript script).1 ≠ .blocked := by
  induction script with
  | nil => exact nofun
  | cons r script ih =>
      have hfree : ¬ r.wouldBlock = true := Bool.eq_false_iff.mp (h r List.mem_cons_self)
      rw [readScript]
      by_cases herror : r.errorCode = 0
      · rw [if_neg (not_not.mpr herror), if_neg hfree]
        split_ifs
        · exact nofun
        · exact nofun
        · exact ih fun r' hr' => h r' (List.mem_cons_of_mem _ hr')
      · rw [if_pos herror]
        exact nofun

/-! ## Pollers -/

/-- A step of a machine against the results that are left: it is over, it reads nothing, or it goes
on with what a refill loop has got. A good step that is blocked is the same step again. -/
inductive Polls {σ : Type} (step : σ → Option σ) (load : List ReadResult → σ → σ) (held : σ → Bytes)
    (good : σ → Prop) (s : σ) : Prop
  | halts (next : ∀ script, step (load script s) = none)
  | still (t : σ) (kept : good s → good t) (held : held t = held s)
      (next : ∀ script, step (load script s) = some (load script t))
  | reads (fed : Refill → σ) (kept : good s → ∀ r, good (fed r)) (held : ∀ r, held (fed r) = held s ++ r.got)
      (next : ∀ script,
        step (load script s) = some (load (readScript script).2 (fed (readScript script).1)))
      (resume : good s → ∀ script, step (load script (fed .blocked)) = step (load script s))

/-- A machine that polls a reader. `held` are the bytes that it has got. -/
structure Poller (σ : Type) where
  step : σ → Option σ
  script : σ → List ReadResult
  load : List ReadResult → σ → σ
  held : σ → Bytes
  good : σ → Prop
  script_load : ∀ script' s, script (load script' s) = script'
  load_load : ∀ script' script'' s, load script' (load script'' s) = load script' s
  held_load : ∀ script' s, held (load script' s) = held s
  good_load : ∀ script' s, good (load script' s) ↔ good s
  polls : ∀ s, Polls step load held good s

namespace Poller

variable {σ : Type} (P : Poller σ)

/-- The machine reads the results that it is before. -/
def Ready (s : σ) : Prop := P.load (P.script s) s = s

/-- None of the results that have been read carries bytes together with `would_block`. -/
def Clean (s : σ) : Prop :=
  ∀ t, StateTransition.Reaches P.step s t → ∀ used, P.script s = used ++ P.script t →
    ∀ r ∈ used, r.wouldBlock → r.bytes = []

/-- The machine has got all the bytes of the results that have been read. -/
def Keeps (s : σ) : Prop :=
  ∀ t, StateTransition.Reaches P.step s t → ∀ used, P.script s = used ++ P.script t →
    P.held t = P.held s ++ used.flatMap ReadResult.bytes

/-- What the machine comes to, but for the results that are left. -/
noncomputable def result (s : σ) : Part σ := (eval P.step s).map (P.load [])

variable {P} {s t : σ}

theorem ready_load (script : List ReadResult) (s : σ) : P.Ready (P.load script s) := by
  rw [Ready, P.script_load, P.load_load]

/-- What a step does to the results that are left, and to the bytes. -/
theorem step_used (hload : P.Ready s) (horderly : Orderly (P.script s)) (h : P.step s = some t) :
    P.Ready t ∧ ∃ used, P.script s = used ++ P.script t ∧ P.held t = P.held s ++ passed used := by
  rw [Ready] at hload
  cases P.polls s with
  | halts hstep =>
      rw [← hload, hstep] at h
      cases h
  | still t' hkept hheld hstep =>
      rw [← hload, hstep] at h
      injection h with h
      subst h
      refine ⟨ready_load _ _, [], ?_, ?_⟩
      · rw [P.script_load]
        rfl
      · rw [P.held_load, hheld]
        exact (List.append_nil _).symm
  | reads fed hkept hheld hstep hresume =>
      rw [← hload, hstep] at h
      injection h with h
      subst h
      obtain ⟨used, hscript, hpassed, -, -⟩ := readScript_used horderly
      refine ⟨ready_load _ _, used, ?_, ?_⟩
      · rw [P.script_load]
        exact hscript
      · rw [P.held_load, hheld, hpassed]

theorem reaches_used (hready : P.Ready s) (horderly : Orderly (P.script s))
    (h : StateTransition.Reaches P.step s t) :
    P.Ready t ∧ ∃ used, P.script s = used ++ P.script t ∧ P.held t = P.held s ++ passed used := by
  induction h with
  | refl => exact ⟨hready, [], rfl, (List.append_nil _).symm⟩
  | tail _ hstep ih =>
      obtain ⟨hready', used, hscript, hheld⟩ := ih
      obtain ⟨hready'', used', hscript', hheld'⟩ :=
        step_used hready' (orderly_append (hscript ▸ horderly)) hstep
      refine ⟨hready'', used ++ used', ?_, ?_⟩
      · rw [hscript, hscript', List.append_assoc]
      · rw [hheld', hheld, List.append_assoc, passed, passed, passed, List.filter_append,
          List.flatMap_append]

/-- The results that block carry no bytes, exactly when leaving them out leaves out no bytes. -/
theorem passed_eq_iff (used : List ReadResult) :
    passed used = used.flatMap ReadResult.bytes ↔ ∀ r ∈ used, r.wouldBlock → r.bytes = [] := by
  induction used with
  | nil => exact ⟨fun _ => nofun, fun _ => rfl⟩
  | cons r used ih =>
      have hle : (passed used).length ≤ (used.flatMap ReadResult.bytes).length := by
        refine List.Sublist.length_le ?_
        exact List.filter_sublist.flatMap ReadResult.bytes
      rw [List.flatMap_cons, List.forall_mem_cons]
      cases hblock : r.wouldBlock with
      | true =>
          have hpassed : passed (r :: used) = passed used := by
            rw [passed, List.filter_cons_of_neg (by simp [hblock])]
            rfl
          rw [hpassed]
          refine ⟨fun h => ?_, fun h => ?_⟩
          · have hlength := congrArg List.length h
            rw [List.length_append] at hlength
            have hnil : r.bytes = [] := List.eq_nil_of_length_eq_zero (by omega)
            rw [hnil, List.nil_append] at h
            exact ⟨fun _ => hnil, ih.mp h⟩
          · rw [h.1 rfl, List.nil_append]
            exact ih.mpr h.2
      | false =>
          have hpassed : passed (r :: used) = r.bytes ++ passed used := by
            rw [passed, List.filter_cons_of_pos (by simp [hblock]), List.flatMap_cons]
            rfl
          rw [hpassed, List.append_cancel_left_eq, ih]
          exact ⟨fun h => ⟨nofun, h⟩, fun h => h.2⟩

/-- Bytes are dropped exactly where a result carries them together with `would_block`. -/
theorem keeps_iff (hready : P.Ready s) (horderly : Orderly (P.script s)) : P.Keeps s ↔ P.Clean s := by
  have hcount : ∀ t, StateTransition.Reaches P.step s t → ∀ used, P.script s = used ++ P.script t →
      P.held t = P.held s ++ passed used := by
    intro t hreaches used hused
    obtain ⟨-, used', hused', hheld⟩ := reaches_used hready horderly hreaches
    have hsame : used = used' := List.append_cancel_right (hused.symm.trans hused')
    rw [hsame, hheld]
  refine ⟨fun h t hreaches used hused => ?_, fun h t hreaches used hused => ?_⟩
  · have heq := h t hreaches used hused
    rw [hcount t hreaches used hused, List.append_cancel_left_eq] at heq
    exact (passed_eq_iff used).mp heq
  · rw [hcount t hreaches used hused, (passed_eq_iff used).mpr (h t hreaches used hused)]

/-- The same machine at the same point, before the same bytes, which nothing blocks for the first. -/
structure Same (P : Poller σ) (s' s : σ) : Prop where
  load : P.load [] s' = P.load [] s
  ready' : P.Ready s'
  ready : P.Ready s
  good : P.good s
  orderly' : Orderly (P.script s')
  orderly : Orderly (P.script s)
  free : ∀ r ∈ P.script s', r.wouldBlock = false
  chunks : chunks (P.script s') = chunks (P.script s)
  clean : P.Clean s

theorem Clean.of_reaches (h : P.Clean s) (hready : P.Ready s) (horderly : Orderly (P.script s))
    (hreaches : StateTransition.Reaches P.step s t) : P.Clean t := by
  intro u hu used hused r hr
  obtain ⟨-, before, hbefore, -⟩ := reaches_used hready horderly hreaches
  refine h u (hreaches.trans hu) (before ++ used) ?_ r (List.mem_append_right before hr)
  rw [hbefore, hused, List.append_assoc]

/-- The results of the step that comes next. -/
theorem Clean.of_step (h : P.Clean s) {used : List ReadResult} (hstep : P.step s = some t)
    (hused : P.script s = used ++ P.script t) : ∀ r ∈ used, r.wouldBlock → r.bytes = [] :=
  h t (Relation.ReflTransGen.single hstep) used hused

/-- A step over the results that do not block, and the steps up to the same point over those that
may. -/
theorem same_reads {fed : Refill → σ} (core : σ) (hfed : ∀ r, P.good (fed r))
    (hstep : ∀ script,
      P.step (P.load script core) = some (P.load (readScript script).2 (fed (readScript script).1)))
    (hresume : ∀ script, P.step (P.load script (fed .blocked)) = P.step (P.load script core))
    {script' : List ReadResult} (horderly' : Orderly script')
    (hfree : ∀ r ∈ script', r.wouldBlock = false) :
    ∀ (n : ℕ) (script : List ReadResult), script.length ≤ n → Orderly script →
      chunks script' = chunks script → P.Clean (P.load script core) →
      ∃ t, P.Same (P.load (readScript script').2 (fed (readScript script').1)) t ∧
        Reaches₁ P.step (P.load script core) t := by
  obtain ⟨hnext', hrest'⟩ := readScript_chunks horderly' (readScript_free hfree)
  obtain ⟨used', hused', -, -, -⟩ := readScript_used horderly'
  intro n
  induction n with
  | zero =>
      intro script hlength horderly hchunks hclean
      have hnil : script = [] := List.eq_nil_of_length_eq_zero (Nat.le_zero.mp hlength)
      subst hnil
      have hended : (readScript script').1 = .ended := by
        rw [hnext', hchunks]
        rfl
      refine ⟨P.load [] (fed .ended), ⟨?_, ready_load _ _, ready_load _ _, ?_, ?_, ?_, ?_, ?_, ?_⟩,
        .single (hstep [])⟩
      · rw [P.load_load, P.load_load, hended]
      · exact (P.good_load _ _).mpr (hfed _)
      · rw [P.script_load]
        exact orderly_append (hused' ▸ horderly')
      · rw [P.script_load]
        exact trivial
      · rw [P.script_load]
        exact fun r hr => hfree r (hused' ▸ List.mem_append_right used' hr)
      · rw [P.script_load, P.script_load, hrest', hchunks]
        rfl
      · exact hclean.of_reaches (ready_load _ _) (by rw [P.script_load]; exact trivial) (.single (hstep []))
  | succ n ih =>
      intro script hlength horderly hchunks hclean
      have horderlyLoad : Orderly (P.script (P.load script core)) := by
        rw [P.script_load]
        exact horderly
      obtain ⟨used, hused, -, hblocked, -⟩ := readScript_used horderly
      have hsplit : P.script (P.load script core) =
          used ++ P.script (P.load (readScript script).2 (fed (readScript script).1)) := by
        rw [P.script_load, P.script_load]
        exact hused
      have horderlyRest : Orderly (readScript script).2 := orderly_append (hused ▸ horderly)
      have hcleanNext := hclean.of_reaches (ready_load _ _) horderlyLoad (.single (hstep script))
      by_cases heq : (readScript script).1 = .blocked
      · -- the step is taken again
        obtain ⟨hne, hkept⟩ := hblocked heq
        have hshort : (readScript script).2.length ≤ n := by
          have hcount := congrArg List.length hused
          rw [List.length_append] at hcount
          have hpos := List.length_pos_of_ne_nil hne
          omega
        have hagain : P.step (P.load (readScript script).2 (fed .blocked)) =
            P.step (P.load (readScript script).2 core) := hresume _
        rw [heq] at hcleanNext
        have hcleanRest : P.Clean (P.load (readScript script).2 core) := by
          intro u hu more hmore r hr
          rw [P.script_load] at hmore
          rcases Relation.ReflTransGen.cases_head hu with rfl | ⟨v, hv, hvu⟩
          · rw [P.script_load] at hmore
            have hnil : more = [] := List.append_left_eq_self.mp hmore.symm
            rw [hnil] at hr
            cases hr
          · refine hcleanNext u (.head (hagain.trans hv) hvu) more ?_ r hr
            rw [P.script_load]
            exact hmore
        obtain ⟨t, hsame, hreaches⟩ := ih _ hshort horderlyRest
          (hchunks.trans (hkept (hclean.of_step (hstep script) hsplit)).symm) hcleanRest
        refine ⟨t, hsame, .head (hstep script) ?_⟩
        rw [heq]
        exact (reaches₁_eq hagain).mpr hreaches
      · obtain ⟨hnext, hrest⟩ := readScript_chunks horderly heq
        have hresult : (readScript script').1 = (readScript script).1 := by
          rw [hnext', hnext, hchunks]
        refine ⟨P.load (readScript script).2 (fed (readScript script).1),
          ⟨?_, ready_load _ _, ready_load _ _, ?_, ?_, ?_, ?_, ?_, hcleanNext⟩, .single (hstep script)⟩
        · rw [P.load_load, P.load_load, hresult]
        · exact (P.good_load _ _).mpr (hfed _)
        · rw [P.script_load]
          exact orderly_append (hused' ▸ horderly')
        · rw [P.script_load]
          exact horderlyRest
        · rw [P.script_load]
          exact fun r hr => hfree r (hused' ▸ List.mem_append_right used' hr)
        · rw [P.script_load, P.script_load, hrest', hrest, hchunks]

theorem same_respects (P : Poller σ) : Respects P.step P.step P.Same := by
  intro s' s h
  have hs : P.load (P.script s) s = s := h.ready
  have hs' : P.load (P.script s') s = s' := by
    rw [← P.load_load _ [] s, ← h.load, P.load_load]
    exact h.ready'
  cases P.polls s with
  | halts hstep =>
      rw [← hs', hstep, ← hs, hstep]
  | still t hkept hheld hstep =>
      have hnext : P.step s = some (P.load (P.script s) t) := (congrArg P.step hs).symm.trans (hstep _)
      rw [← hs', hstep]
      refine ⟨P.load (P.script s) t, ⟨?_, ready_load _ _, ready_load _ _,
        (P.good_load _ _).mpr (hkept h.good), ?_, ?_, ?_, ?_, h.clean.of_reaches h.ready h.orderly (.single hnext)⟩, .single hnext⟩
      · rw [P.load_load, P.load_load]
      · rw [P.script_load]
        exact h.orderly'
      · rw [P.script_load]
        exact h.orderly
      · rw [P.script_load]
        exact h.free
      · rw [P.script_load, P.script_load]
        exact h.chunks
  | reads fed hkept hheld hstep hresume =>
      obtain ⟨t, hsame, hreaches⟩ := same_reads s (hkept h.good) hstep (hresume h.good) h.orderly'
        h.free (P.script s).length (P.script s) le_rfl h.orderly h.chunks (hs.symm ▸ h.clean)
      rw [← hs', hstep]
      exact ⟨t, hsame, hs ▸ hreaches⟩

/-- Where no result that is read carries bytes together with `would_block`, the machine comes to what
it comes to without the flags. -/
theorem result_unblocked (hready : P.Ready s) (hgood : P.good s) (horderly : Orderly (P.script s)) (hclean : P.Clean s) :
    P.result (P.load ((P.script s).map ReadResult.unblocked) s) = P.result s := by
  have hsame : P.Same (P.load ((P.script s).map ReadResult.unblocked) s) s := by
    refine ⟨P.load_load _ _ _, ready_load _ _, hready, hgood, ?_, horderly, ?_, ?_, hclean⟩
    · rw [P.script_load]
      exact orderly_unblocked horderly
    · rw [P.script_load]
      intro r hr
      obtain ⟨r', -, rfl⟩ := List.mem_map.mp hr
      rfl
    · rw [P.script_load]
      exact chunks_unblocked _
  refine Part.ext fun end' => ?_
  rw [result, result, Part.mem_map_iff, Part.mem_map_iff]
  refine ⟨fun ⟨t', ht', hend⟩ => ?_, fun ⟨t, ht, hend⟩ => ?_⟩
  · obtain ⟨t, hst, ht⟩ := tr_eval (same_respects P) hsame ht'
    exact ⟨t, ht, hst.load ▸ hend⟩
  · obtain ⟨t', hst, ht'⟩ := tr_eval_rev (same_respects P) hsame ht
    exact ⟨t', ht', hst.load.symm ▸ hend⟩

end Poller

end Lonejson
