import Lonejson.PathEvents
import Lonejson.ValueRewriteTrees

/-!
# A rewrite of a document

The callbacks of a rewrite get the events of the tree that the document spells, and the writer
is finished behind them: what the sink was passed is the compact text of the edited tree.
-/

namespace Lonejson

open Json (Text Tree EditAction)

variable {σ γ : Type}

/-! ## The visitor of a rewrite -/

/-- The state of a rewrite inside a visit; the error record is that of the visit. -/
def JsonIo.rewriting (io : JsonIo (RewriteState σ γ)) : RewriteState σ γ :=
  { io.out with writer := { io.out.writer with error := io.error } }

section

variable {env : RewriteEnv σ γ}

/-- One callback of a visit is one callback of the rewrite. -/
theorem visit_rewriting (e : VisitEvent) (io : JsonIo (RewriteState σ γ)) :
    (((rewriteEvent env e io.rewriting).2.soft = true ∧
      ∃ io', io.visit (rewriteVisitor env) e = .ok io' ∧
        io'.rewriting = (rewriteEvent env e io.rewriting).1 ∧
        io'.status = (rewriteEvent env e io.rewriting).2) ∨
    ((rewriteEvent env e io.rewriting).2.soft = false ∧
      ∃ io', io.visit (rewriteVisitor env) e = .error io' ∧
        io'.status = (rewriteEvent env e io.rewriting).2)) := by
  rw [JsonIo.visit, rewriteVisitor, ← JsonIo.rewriting]
  obtain ⟨s, status⟩ := rewriteEvent env e io.rewriting
  dsimp only
  cases hsoft : status.soft with
  | true => exact .inl ⟨rfl, _, rfl, rfl, rfl⟩
  | false => exact .inr ⟨rfl, _, rfl, rfl⟩

theorem feed_rewriting (es : List VisitEvent) {io : JsonIo (RewriteState σ γ)}
    (hio : io.status = .ok) :
    ((rewriteEvents env es io.rewriting).2 = .ok → ∃ io', io.feed (rewriteVisitor env) es = .ok io' ∧
      io'.rewriting = (rewriteEvents env es io.rewriting).1 ∧ io'.status = .ok) ∧
    ((rewriteEvents env es io.rewriting).2.soft = false →
      ∃ io', io.feed (rewriteVisitor env) es = .error io' ∧ io'.status.soft = false) := by
  induction es generalizing io with
  | nil => exact ⟨fun _ => ⟨io, rfl, rfl, hio⟩, fun h => by cases h⟩
  | cons e es ih =>
      rw [rewriteEvents, JsonIo.feed]
      rcases @visit_rewriting _ _ env e io with
        ⟨hsoft, io', hvisit, hstate, hstatus⟩ | ⟨hhard, io', hvisit, hstatus⟩
      · rw [hvisit]
        by_cases hok : (rewriteEvent env e io.rewriting).2 = .ok
        · rw [andThenOk, if_pos hok, ← hstate]
          exact ih (hstatus.trans hok)
        · rw [andThenOk, if_neg hok]
          exact ⟨fun h => absurd h hok, fun h => by rw [hsoft] at h; cases h⟩
      · rw [hvisit]
        have hok : (rewriteEvent env e io.rewriting).2 ≠ .ok := fun h => by
          rw [h] at hhard
          cases hhard
        rw [andThenOk, if_neg hok]
        exact ⟨fun h => absurd h hok, fun h => ⟨io', rfl, hstatus ▸ h⟩⟩

end

/-! ## The end of a rewrite -/

/-- The state behind a visit, which clears the error record where it succeeds. -/
def JsonIo.rewritten (visited : JsonIo (RewriteState σ γ)) : RewriteState σ γ :=
  let error := if visited.status = .ok then {} else visited.error
  { visited.out with writer := { visited.out.writer with error } }

/-- What follows the visit. -/
def rewriteEnd (action : RewriteAction) (visited : JsonIo (RewriteState σ γ)) :
    σ × ErrorInfo × Status :=
  let s := visited.rewritten
  let r :=
    if visited.status = .ok ∧ !s.found ∧ action ≠ .keep then
      s.setError .typeMismatch "value rewrite target was not found"
    else (s, visited.status)
  let r := andThenOk r fun s => s.write Writer.finish
  (r.1.writer.out, r.1.writer.error, r.2)

/-- The state in which a rewrite begins. -/
def rewriteStart (limits : ValueLimits) (out : σ) : JsonIo (RewriteState σ γ) :=
  { out := { writer := { out, maxNumberBytes := limits.maxNumberBytes } } }

theorem rewriteEnd_fails {action : RewriteAction} {visited : JsonIo (RewriteState σ γ)}
    (h : visited.status.soft = false) : (rewriteEnd action visited).2.2.soft = false := by
  have hok : visited.status ≠ .ok := fun hok => by
    rw [hok] at h
    cases h
  simp only [rewriteEnd, hok, false_and, if_false, andThenOk]
  exact h

section

variable {told : σ → Bytes} {x : RewriteView}

theorem shows_rewritten {visited : JsonIo (RewriteState σ γ)} (h : visited.rewriting.Shows told x) :
    visited.rewritten.Shows told x :=
  { h with writer := ⟨{ h.writer.1 with }, h.writer.2⟩ }

/-- A writer is finished behind the text of a root. -/
theorem finish_ready {w : Writer σ γ} {v : WriterView} (hw : w.Ready told v)
    (hidle : v.mode = .idle) (hframes : v.frames = []) :
    Writer.finish w = if v.root then ({ w with finished := true }, .ok)
      else w.setError .invalidJson "writer emitted no JSON value" := by
  have hstring : w.stringOpen = false := by rw [hw.1.stringOpen, hidle]; rfl
  have hnumber : w.numberOpen = false := by rw [hw.1.numberOpen, hidle]
  have hclosing : w.checkClosing = (w, .ok) := by
    simp only [Writer.checkClosing, Writer.checkFailed, Writer.checkStream, Writer.checkString,
      Writer.checkNumber, Writer.check, hw.1.failed, hw.1.stream, hstring, hnumber,
      Bool.false_eq_true, if_false, andThenOk_ok]
  have hclosed : (decide (w.frames ≠ [])) = false := by rw [hw.1.frames, hframes]; rfl
  have hroot : (!w.rootWritten) = !v.root := by rw [hw.1.root]
  rw [Writer.finish, hclosing, andThenOk_ok, hroot]
  cases v.root with
  | true =>
      rw [Writer.check, if_neg (by simp), andThenOk_ok, Writer.check, hclosed,
        if_neg Bool.false_ne_true]
      rfl
  | false => rfl

/-- The end of a rewrite whose visit has reached the view of a root. -/
theorem rewriteEnd_reached {action : RewriteAction} {visited : JsonIo (RewriteState σ γ)}
    (hstatus : visited.status = .ok) (h : visited.rewriting.Shows told x)
    (hidle : x.writer.mode = .idle) (hframes : x.writer.frames = []) :
    if (x.found || action = .keep) && x.writer.root then
      told (rewriteEnd action visited).1 = x.writer.out ∧ (rewriteEnd action visited).2.2 = .ok
    else (rewriteEnd action visited).2.2.soft = false := by
  rw [rewriteEnd]
  generalize hs : visited.rewritten = s
  have hshow : s.Shows told x := hs ▸ shows_rewritten h
  have hfinish := finish_ready hshow.writer hidle hframes
  dsimp only
  rw [hstatus, hshow.found]
  by_cases hlost : Status.ok = .ok ∧ (!x.found) = true ∧ action ≠ .keep
  · have hmissed : ((x.found || action = .keep) && x.writer.root) = false := by
      rw [(Bool.not_eq_true' _).mp hlost.2.1, decide_eq_false hlost.2.2]
      rfl
    rw [if_pos hlost, hmissed, if_neg Bool.false_ne_true]
    rfl
  · have hmet : (x.found || action = .keep) = true := by
      by_contra hno
      simp_all
    rw [if_neg hlost, hmet, Bool.true_and, andThenOk_ok, RewriteState.write, hfinish]
    cases x.writer.root with
    | true => exact ⟨hshow.writer.1.out, rfl⟩
    | false => rfl

end

/-! ## Whole rewrites -/

section

variable {wenv : WriterEnv σ γ} {options : RewriteOptions σ γ} {limits : ValueLimits}
  {maxDepth : ℕ} {text : Text} {push : σ → Bytes → σ} {told : σ → Bytes}
  {a : EditAction}

theorem valueRewriteReader_eq (hcheck : options.check = none) (window : ℕ → ℕ) (out : σ) :
    valueRewriteReader wenv options limits maxDepth window text out =
      rewriteEnd options.action
        (jsonVisit ⟨(resolveLimits limits maxDepth).orDefault, text.length, window⟩
          (rewriteVisitor ⟨wenv, options, (resolveLimits limits maxDepth).maxNumberBytes⟩) text
          (rewriteStart limits out)) := by
  rw [valueRewriteReader, hcheck]
  rfl

/-- Of an action only a dropped root is refused. -/
theorem check_refuses {n : ℕ} (ha : Performs ⟨wenv, options, n⟩ told a) {message : String}
    (hcheck : options.check = some message) : a = .drop ∧ options.target = [] := by
  cases ha with
  | keep h => simp [RewriteOptions.check, show options.action = .keep from h] at hcheck
  | drop h =>
      refine ⟨rfl, ?_⟩
      by_contra htarget
      simp [RewriteOptions.check, show options.action = .drop from h, htarget] at hcheck
  | replace h hvalid =>
      simp [RewriteOptions.check, show options.action = .replace from h,
        show options.replacement.isValid = true from hvalid] at hcheck

/-- The document that an action leaves, as what is left of the root and whether a value has been
met. -/
theorem editDocument_eq {n : ℕ} (ha : Performs ⟨wenv, options, n⟩ told a) (target : List Text)
    (t : Tree) : a.editDocument target t = (a.edit (some target) false t).bind fun r =>
      if r.2 || options.action = .keep then r.1 else none := by
  rw [EditAction.editDocument]
  refine congrArg _ (funext fun r => ?_)
  cases ha with
  | keep h => simp [show options.action = .keep from h]
  | drop h => simp [show options.action = .drop from h]
  | replace h => simp [show options.action = .replace from h]

theorem editDocument_refused {t : Tree} : EditAction.drop.editDocument [] t = none := by
  cases t <;> simp [EditAction.editDocument, EditAction.edit, EditAction.apply]

/-- The view of the root that an edit leaves. -/
def rootView (limits : ValueLimits) (written : Bytes) : RewriteView :=
  { writer :=
      { out := written, frames := [], root := false, mode := .idle
        maxNumberBytes := limits.maxNumberBytes }
    frames := [], found := false }

theorem rootView_ready {n : ℕ} (hn : n ≤ limits.maxNumberBytes)
    (hmax : limits.maxNumberBytes < sizeMax) (written : Bytes) :
    (rootView limits written).Ready n where
  fits := ⟨rfl, rfl, rfl⟩
  skip := rfl
  emit := rfl
  limit := hn
  max := hmax

theorem rewriteStart_shows (limits : ValueLimits) (out : σ) :
    RewriteState.Shows told (JsonIo.rewriting (rewriteStart limits out : JsonIo (RewriteState σ γ)))
      (rootView limits (told out)) where
  writer := ⟨{
    out := rfl, frames := rfl, root := rfl, finished := rfl, stringOpen := rfl, numberOpen := rfl
    number := fun _ h => by cases h
    failed := rfl, stream := rfl, limit := rfl }, rfl⟩
  frames := rfl
  found := rfl
  skipping := rfl
  skipDepth := fun h => absurd rfl h
  emit := rfl
  replacing := rfl
  currentReplace := rfl

/-- A rewrite of a text that a tree spells. -/
theorem valueRewriteReader_spelled (hs : wenv.Sinks push told)
    (ha : Performs ⟨wenv, options, (resolveLimits limits maxDepth).maxNumberBytes⟩ told a)
    (hpos : limits.maxNumberBytes ≠ 0) (hmax : limits.maxNumberBytes < sizeMax)
    (hcheck : options.check = none) {t : Tree}
    (ht : ReadsText (resolveLimits limits maxDepth).orDefault t text) (window : ℕ → ℕ) (out : σ) :
    match a.editDocument options.target t with
    | some t' =>
        told (valueRewriteReader wenv options limits maxDepth window text out).1 =
          told out ++ t'.text escapeText ∧
        (valueRewriteReader wenv options limits maxDepth window text out).2.2 = .ok
    | none =>
        (valueRewriteReader wenv options limits maxDepth window text out).2.2.soft = false := by
  obtain ⟨es, hes, hvisit⟩ := @jsonVisit_ended _
    ⟨(resolveLimits limits maxDepth).orDefault, text.length, window⟩ text
    (rewriteVisitor ⟨wenv, options, (resolveLimits limits maxDepth).maxNumberBytes⟩) rfl t ht
  have hlimit : (resolveLimits limits maxDepth).orDefault.maxNumberBytes = limits.maxNumberBytes :=
    if_neg hpos
  rw [valueRewriteReader_eq hcheck, hvisit, editDocument_eq ha]
  have hfeed := @feed_rewriting _ _
    ⟨wenv, options, (resolveLimits limits maxDepth).maxNumberBytes⟩ es (rewriteStart limits out) rfl
  have hresult := results_value hs ha
    (@rootView_ready limits _ hlimit.le hmax (told out)) hes
  have hshow := @rewriteStart_shows σ γ told limits out
  revert hresult
  change Results told _ _ ((a.edit (some options.target) false t).map _) → _
  cases a.edit (some options.target) false t with
  | none =>
      intro hresult
      obtain ⟨io', hio', hstatus⟩ := hfeed.2 (hresult _ hshow)
      rw [hio']
      exact rewriteEnd_fails hstatus
  | some r =>
      intro hresult
      obtain ⟨s', hrun, hs'⟩ := hresult _ hshow
      obtain ⟨io', hio', hstate, hstatus⟩ := hfeed.1 (by rw [hrun])
      have hreached : s' = io'.rewriting := by rw [hstate, hrun]
      rw [hreached] at hs'
      rw [hio', Option.bind_some]
      obtain ⟨left, found⟩ := r
      cases left with
      | none =>
          have hend : (rewriteEnd options.action io').2.2.soft = false := by
            simpa [RewriteView.after, rootView, countTop] using
              @rewriteEnd_reached _ _ _ _ options.action _ hstatus hs' rfl rfl
          simpa [JsonIo.ended] using hend
      | some t' =>
          have hend := @rewriteEnd_reached _ _ _ _ options.action _ hstatus hs' rfl rfl
          simp only [RewriteView.after, rootView, countTop, WriterView.child, Bool.and_true] at hend
          dsimp only
          split_ifs at hend ⊢ with hmet
          · exact hend
          · exact hend

/-- A rewrite writes the text of the edited tree, and fails where the document spells no tree or
the edit leaves none. -/
theorem valueRewriteReader_edits (hs : wenv.Sinks push told)
    (ha : Performs ⟨wenv, options, (resolveLimits limits maxDepth).maxNumberBytes⟩ told a)
    (hpos : limits.maxNumberBytes ≠ 0) (hmax : limits.maxNumberBytes < sizeMax)
    (window : ℕ → ℕ) (out : σ) :
    (∃ t t', ReadsText (resolveLimits limits maxDepth).orDefault t text ∧
      a.editDocument options.target t = some t' ∧
      told (valueRewriteReader wenv options limits maxDepth window text out).1 =
        told out ++ t'.text escapeText ∧
      (valueRewriteReader wenv options limits maxDepth window text out).2.2 = .ok) ∨
    (∀ t, ReadsText (resolveLimits limits maxDepth).orDefault t text →
      a.editDocument options.target t = none) ∧
      (valueRewriteReader wenv options limits maxDepth window text out).2.2.soft = false := by
  by_cases h : ∃ t, ReadsText (resolveLimits limits maxDepth).orDefault t text
  · obtain ⟨t, ht⟩ := h
    cases hcheck : options.check with
    | some message =>
        obtain ⟨rfl, htarget⟩ := check_refuses ha hcheck
        rw [valueRewriteReader, hcheck, htarget]
        exact .inr ⟨fun _ _ => editDocument_refused, rfl⟩
    | none =>
        have hedits := valueRewriteReader_spelled hs ha hpos hmax hcheck ht window out
        cases hedit : a.editDocument options.target t with
        | some t' =>
            rw [hedit] at hedits
            exact .inl ⟨t, t', ht, hedit, hedits⟩
        | none =>
            rw [hedit] at hedits
            exact .inr ⟨fun t' ht' => ht.unique ht' ▸ hedit, hedits⟩
  · refine .inr ⟨fun t ht => absurd ⟨t, ht⟩ h, ?_⟩
    cases hcheck : options.check with
    | some message =>
        rw [valueRewriteReader, hcheck]
        rfl
    | none =>
        rw [valueRewriteReader_eq hcheck]
        exact rewriteEnd_fails (jsonVisit_rejects _ rfl (fun t ht => h ⟨t, ht⟩) _)

end

/-! ## Selectors -/

/-- `lonejson__value_rewrite_selector_add`. -/
def selectorAdd (segments : List Bytes) (segment : Bytes) : Except String (List Bytes) :=
  if segment = [] then .error "value rewrite selector contains empty segment"
  else .ok (segments ++ [segment])

/-- The loop of `lonejson__value_rewrite_parse_selector`. -/
def parseSelectorFrom : Bytes → Bytes → List Bytes → Except String (List Bytes)
  | [], segment, segments => selectorAdd segments segment
  | 0x2e :: p, segment, segments =>
      (selectorAdd segments segment).bind fun segments => parseSelectorFrom p [] segments
  | [0x5c], _, _ => .error "value rewrite selector ends with an escape"
  | 0x5c :: c :: p, segment, segments => parseSelectorFrom p (segment ++ [c]) segments
  | c :: p, segment, segments => parseSelectorFrom p (segment ++ [c]) segments

/-- `lonejson__value_rewrite_parse_selector`; the text is a C string, without its NUL. -/
def parseSelector (text : Bytes) : Except String (List Bytes) :=
  if text = [] then .ok [] else parseSelectorFrom text [] []

/-- `lonejson_value_rewrite_selector_buffer`. -/
def valueRewriteSelectorBuffer (wenv : WriterEnv σ γ) (selector : Bytes)
    (options : RewriteOptions σ γ) (limits : ValueLimits) (maxDepth : ℕ) (text : Text) (out : σ) :
    σ × ErrorInfo × Status :=
  match parseSelector selector with
  | .error message => (out, ErrorInfo.set {} .invalidArgument message, .invalidArgument)
  | .ok target => valueRewriteBuffer wenv { options with target } limits maxDepth text out

/-- A text that spells one segment, where a backslash may stand in front of any byte. -/
inductive SpellsSegment : Bytes → Bytes → Prop where
  | nil : SpellsSegment [] []
  | plain {c : Byte} {text segment : Bytes} (hdot : c ≠ 0x2e) (hslash : c ≠ 0x5c)
      (h : SpellsSegment text segment) : SpellsSegment (c :: text) (c :: segment)
  | escaped {c : Byte} {text segment : Bytes} (h : SpellsSegment text segment) :
      SpellsSegment (0x5c :: c :: text) (c :: segment)

/-- Segments with dots between them. -/
inductive SpellsSelector : Bytes → List Bytes → Prop where
  | last {text segment : Bytes} (h : SpellsSegment text segment) (hne : segment ≠ []) :
      SpellsSelector text [segment]
  | dot {text rest segment : Bytes} {segments : List Bytes} (h : SpellsSegment text segment)
      (hne : segment ≠ []) (hs : SpellsSelector rest segments) :
      SpellsSelector (text ++ 0x2e :: rest) (segment :: segments)

theorem parseSelectorFrom_segment {text segment : Bytes} (h : SpellsSegment text segment)
    (rest before : Bytes) (segments : List Bytes) :
    parseSelectorFrom (text ++ rest) before segments =
      parseSelectorFrom rest (before ++ segment) segments := by
  induction h generalizing before with
  | nil => rw [List.nil_append, List.append_nil]
  | @plain c text segment hdot hslash _ ih =>
      rw [List.cons_append, parseSelectorFrom, ih, List.append_assoc]
      · rfl
      · exact fun h => hdot h
      · exact fun h _ => hslash h
      · exact fun _ _ h _ => hslash h
  | escaped _ ih =>
      rw [List.cons_append, List.cons_append, parseSelectorFrom, ih, List.append_assoc]
      rfl

theorem selectorAdd_ok_iff {segments segments' : List Bytes} {segment : Bytes} :
    selectorAdd segments segment = .ok segments' ↔
      segment ≠ [] ∧ segments' = segments ++ [segment] := by
  rw [selectorAdd]
  split_ifs with h <;> simp [h, eq_comm]

theorem parseSelectorFrom_spelled {text : Bytes} {segments : List Bytes}
    (h : SpellsSelector text segments) (before : List Bytes) :
    parseSelectorFrom text [] before = .ok (before ++ segments) := by
  induction h generalizing before with
  | @last text segment h hne =>
      have hparse := parseSelectorFrom_segment h [] [] before
      rw [List.append_nil] at hparse
      rw [hparse, parseSelectorFrom]
      exact selectorAdd_ok_iff.mpr ⟨hne, rfl⟩
  | @dot text rest segment segments h hne _ ih =>
      have hadd : selectorAdd before segment = .ok (before ++ [segment]) :=
        selectorAdd_ok_iff.mpr ⟨hne, rfl⟩
      rw [parseSelectorFrom_segment h, parseSelectorFrom, List.nil_append, hadd]
      change parseSelectorFrom rest [] (before ++ [segment]) = _
      rw [ih, List.append_assoc]
      rfl

/-- What the loop accepts is the rest of a segment, and the segments behind it. -/
theorem parseSelectorFrom_spells {text before : Bytes} {segments segments' : List Bytes}
    (h : parseSelectorFrom text before segments = .ok segments') :
    ∃ content segment rest behind, SpellsSegment content segment ∧ before ++ segment ≠ [] ∧
      segments' = segments ++ (before ++ segment) :: behind ∧
      ((text = content ∧ behind = []) ∨
        (text = content ++ 0x2e :: rest ∧ SpellsSelector rest behind)) := by
  induction text, before, segments using parseSelectorFrom.induct with
  | case1 before segments =>
      rw [parseSelectorFrom, selectorAdd_ok_iff] at h
      refine ⟨[], [], [], [], .nil, ?_, ?_, .inl ⟨rfl, rfl⟩⟩
      · rw [List.append_nil]
        exact h.1
      · rw [List.append_nil]
        exact h.2
  | case2 p before segments ih =>
      rw [parseSelectorFrom] at h
      obtain ⟨added, hadd, h⟩ := Json.bind_eq_ok h
      obtain ⟨hne, rfl⟩ := selectorAdd_ok_iff.mp hadd
      obtain ⟨content, segment, rest, behind, hcontent, hsegment, rfl, hp⟩ := ih _ h
      refine ⟨[], [], p, segment :: behind, .nil, ?_, ?_, .inr ⟨rfl, ?_⟩⟩
      · rw [List.append_nil]
        exact hne
      · rw [List.append_nil, List.append_assoc]
        rfl
      · rcases hp with ⟨rfl, rfl⟩ | ⟨rfl, hrest⟩
        · exact .last hcontent hsegment
        · exact .dot hcontent hsegment hrest
  | case3 before segments =>
      rw [parseSelectorFrom] at h
      cases h
  | case4 c p before segments ih =>
      rw [parseSelectorFrom] at h
      obtain ⟨content, segment, rest, behind, hcontent, hsegment, rfl, hp⟩ := ih h
      rw [List.append_assoc] at hsegment ⊢
      refine ⟨0x5c :: c :: content, c :: segment, rest, behind, .escaped hcontent, hsegment, rfl, ?_⟩
      rcases hp with ⟨rfl, rfl⟩ | ⟨rfl, hrest⟩
      · exact .inl ⟨rfl, rfl⟩
      · exact .inr ⟨rfl, hrest⟩
  | case5 c p before segments hdot hlast hslash ih =>
      rw [parseSelectorFrom] at h
      · obtain ⟨content, segment, rest, behind, hcontent, hsegment, rfl, hp⟩ := ih h
        rw [List.append_assoc] at hsegment ⊢
        have hc : c ≠ 0x5c := by
          rintro rfl
          cases p with
          | nil => exact hlast rfl rfl
          | cons b p => exact hslash b p rfl rfl
        refine ⟨c :: content, c :: segment, rest, behind, .plain hdot hc hcontent, hsegment, rfl, ?_⟩
        rcases hp with ⟨rfl, rfl⟩ | ⟨rfl, hrest⟩
        · exact .inl ⟨rfl, rfl⟩
        · exact .inr ⟨rfl, hrest⟩
      all_goals assumption

/-- A selector is read as some segments where it spells them. -/
theorem parseSelector_ok_iff {text : Bytes} {segments : List Bytes} :
    parseSelector text = .ok segments ↔
      (text = [] ∧ segments = []) ∨ (text ≠ [] ∧ SpellsSelector text segments) := by
  rw [parseSelector]
  by_cases htext : text = []
  · rw [if_pos htext]
    simp [htext, eq_comm]
  · rw [if_neg htext]
    simp only [htext, false_and, false_or, ne_eq, not_false_eq_true, true_and]
    constructor
    · intro h
      obtain ⟨content, segment, rest, behind, hcontent, hne, rfl, hp⟩ := parseSelectorFrom_spells h
      rcases hp with ⟨rfl, rfl⟩ | ⟨rfl, hrest⟩
      · exact .last hcontent hne
      · exact .dot hcontent hne hrest
    · exact fun h => parseSelectorFrom_spelled h []

/-- A selector and the target that it stands for. -/
def Selects (selector : Bytes) (target : List Bytes) : Prop :=
  (selector = [] ∧ target = []) ∨ (selector ≠ [] ∧ SpellsSelector selector target)

section

variable {wenv : WriterEnv σ γ} {options : RewriteOptions σ γ} {limits : ValueLimits}
  {maxDepth : ℕ} {text : Text} {push : σ → Bytes → σ} {told : σ → Bytes} {a : EditAction}

theorem Performs.retarget {n : ℕ} (ha : Performs ⟨wenv, options, n⟩ told a) (target : List Bytes) :
    Performs ⟨wenv, { options with target }, n⟩ told a := by
  cases ha with
  | keep h => exact .keep h
  | drop h => exact .drop h
  | replace h hvalid hcall => exact .replace h hvalid hcall

end

/-- A writer into a list of bytes. -/
def plainWriter : WriterEnv Bytes Unit where
  sink out data error := (out ++ data, error, .ok)
  blocked _ := false
  available _ := none
  canGrow _ _ := true
  childInit _ _ error := .error error
  childRead g _ := { generator := g, bytes := [], error := {}, status := .ok, eof := true }
  childFuel _ := 0

theorem plainWriter_sinks : plainWriter.Sinks (· ++ ·) id where
  sink _ _ _ := rfl
  told _ _ := rfl
  blocked _ := rfl
  available _ := rfl
  canGrow _ _ := rfl

/-- The member `b` of a document becomes null. -/
def nullAtB : RewriteOptions Bytes Unit where
  target := [[0x62]]
  action := .replace
  replacement := { emit := some (Writer.null plainWriter) }

theorem nullAtB_performs (n : ℕ) : Performs ⟨plainWriter, nullAtB, n⟩ id (.replace .null) :=
  .replace rfl rfl fun _ _ hidle hplace => does_null plainWriter_sinks hidle hplace

/-- The text `{"b":null}`. -/
def nullMember : Text := [0x7b, 0x22, 0x62, 0x22, 0x3a, 0x6e, 0x75, 0x6c, 0x6c, 0x7d]

end Lonejson
