import Lonejson.ValueEdit
import Lonejson.ValueRewrite
import Lonejson.VisitorTrees
import Lonejson.WriterTrees

/-!
# A rewrite edits the tree

The callbacks of a rewrite on the events of a tree write the text of the edited tree. The
induction is on the events; what it carries is the view of the writer, the frames, and the
rest of the target path that the frames stand for.
-/

namespace Lonejson

open Json (Text Tree commaUnless quoted decimal below EditAction)

variable {σ γ : Type}

/-! ## Positions in decimal -/

theorem decimalFrom_eq {fuel value : ℕ} (hfuel : value < fuel) (hvalue : 0 < value)
    (digits : Bytes) : decimalFrom fuel value digits =
      (Nat.digits 10 value).reverse.map (fun d => (0x30 + d).toUInt8) ++ digits := by
  induction fuel generalizing value digits with
  | zero => omega
  | succ fuel ih =>
      rw [decimalFrom, Nat.digits_def' (by norm_num) hvalue]
      by_cases hlast : value / 10 = 0
      · simp [hlast]
      · rw [if_neg hlast, ih (by omega) (by omega)]
        simp

theorem formatSize_eq (n : ℕ) : formatSize n = decimal n := by
  rw [formatSize, decimal]
  split
  · next hn => subst hn; rfl
  · next hn => rw [decimalFrom_eq (Nat.lt_succ_self n) (Nat.pos_of_ne_zero hn), List.append_nil]

/-! ## The path of the frames -/

/-- The rest of the target below a frame. -/
def RewriteFrame.rest (target : List Bytes) (frame : RewriteFrame) : Option (List Text) :=
  if frame.prefixMatches then some (target.drop frame.pathLen) else none

/-- The segment of the next child of a frame. -/
def RewriteFrame.segment (frame : RewriteFrame) : Text :=
  match frame.kind with
  | .object => frame.key
  | .array => decimal frame.count

/-- The rest of the target at the next value. -/
def restAt (target : List Bytes) : List RewriteFrame → Option (List Text)
  | [] => some target
  | parent :: _ => below parent.segment (parent.rest target)

theorem childMatches_eq (target : List Bytes) (parent : RewriteFrame) :
    parent.childMatches target = (below parent.segment (parent.rest target)).isSome := by
  rw [RewriteFrame.childMatches, RewriteFrame.rest]
  by_cases hmatch : parent.prefixMatches = true
  · rw [hmatch, Bool.true_and, if_pos rfl]
    by_cases hlen : parent.pathLen < target.length
    · rw [List.getElem?_eq_getElem hlen, List.drop_eq_getElem_cons hlen, below]
      dsimp only
      rw [RewriteFrame.segment]
      cases hkind : parent.kind with
      | object =>
          by_cases heq : target[parent.pathLen] = parent.key
          · simp [heq]
          · simp [heq, Ne.symm heq]
      | array =>
          rw [formatSize_eq]
          by_cases heq : target[parent.pathLen] = decimal parent.count
          · simp [heq]
          · simp [heq, Ne.symm heq]
    · rw [List.getElem?_eq_none (by omega), List.drop_eq_nil_of_le (by omega)]
      rfl
  · simp [hmatch, below]

/-- What stands below a child that matches. -/
theorem below_rest {target : List Bytes} {parent : RewriteFrame} {path : List Text}
    (h : below parent.segment (parent.rest target) = some path) :
    parent.pathLen < target.length ∧ path = target.drop (parent.pathLen + 1) := by
  rw [RewriteFrame.rest] at h
  split at h
  · by_cases hlen : parent.pathLen < target.length
    · rw [List.drop_eq_getElem_cons hlen, below] at h
      split at h
      · exact ⟨hlen, (Option.some.inj h).symm⟩
      · cases h
    · rw [List.drop_eq_nil_of_le (by omega)] at h
      cases h
  · cases h

section

variable {env : RewriteEnv σ γ}

/-- The number of segments at the next value. -/
def pathLenAt : List RewriteFrame → ℕ
  | [] => 0
  | parent :: _ => parent.pathLen + 1

theorem place_eq {s : RewriteState σ γ} (hskip : s.skipping = false) :
    s.place env =
      { emitOriginal := !(restAt env.options.target s.frames = some [] : Bool) ||
          env.options.action = .keep
        prefixMatches := (restAt env.options.target s.frames).isSome
        pathLen := pathLenAt s.frames
        atTarget := (restAt env.options.target s.frames = some [] : Bool) } := by
  have hat : (pathLenAt s.frames = env.options.target.length &&
      (restAt env.options.target s.frames).isSome) =
      (restAt env.options.target s.frames = some [] : Bool) := by
    cases hframes : s.frames with
    | nil =>
        simp [restAt, pathLenAt, eq_comm, List.length_eq_zero_iff]
    | cons parent rest =>
        rw [restAt, pathLenAt]
        cases hbelow : below parent.segment (parent.rest env.options.target) with
        | none => simp
        | some path =>
            obtain ⟨hlen, rfl⟩ := below_rest hbelow
            rw [Option.isSome_some, Bool.and_true, decide_eq_decide, Option.some.injEq,
              List.drop_eq_nil_iff]
            omega
  rw [RewriteState.place, hskip, if_neg (by simp)]
  cases hframes : s.frames with
  | nil =>
      rw [hframes] at hat
      rw [← hat]
      rfl
  | cons parent rest =>
      rw [hframes] at hat
      rw [← hat]
      simp only [restAt, pathLenAt, childMatches_eq]
      rfl

/-- The path of a frame that is pushed at a value. -/
theorem rest_pushed (target : List Bytes) (frames : List RewriteFrame) (kind : ContainerKind) :
    RewriteFrame.rest target
      { kind, pathLen := pathLenAt frames, prefixMatches := (restAt target frames).isSome } =
      restAt target frames := by
  rw [RewriteFrame.rest]
  cases frames with
  | nil => simp [restAt, pathLenAt]
  | cons parent rest =>
      rw [restAt, pathLenAt]
      cases hbelow : below parent.segment (parent.rest target) with
      | none => rfl
      | some path => rw [(below_rest hbelow).2]; rfl

end

/-! ## What a rewrite shows -/

/-- The outside of a rewrite that is not inside a replaced value: the writer, the frames,
whether a value has been met, how deep it is inside a skipped value, and whether the string
or number that it is inside is copied. -/
structure RewriteView where
  writer : WriterView
  frames : List RewriteFrame
  found : Bool
  skip : ℕ := 0
  emit : Bool := false

structure RewriteState.Shows (told : σ → Bytes) (s : RewriteState σ γ) (x : RewriteView) :
    Prop where
  writer : s.writer.Ready told x.writer
  frames : s.frames = x.frames
  found : s.found = x.found
  skipping : s.skipping = (x.skip ≠ 0 : Bool)
  skipDepth : x.skip ≠ 0 → s.skipDepth = x.skip
  emit : s.currentEmit = x.emit
  replacing : s.replacing = false
  currentReplace : s.currentReplace = false

/-- A step that leads from one view to another, or that fails. -/
def Results (told : σ → Bytes) (step : RewriteState σ γ → RewriteState σ γ × Status)
    (x : RewriteView) : Option RewriteView → Prop
  | some x' => ∀ s : RewriteState σ γ, s.Shows told x → ∃ s', step s = (s', .ok) ∧ s'.Shows told x'
  | none => ∀ s : RewriteState σ γ, s.Shows told x → (step s).2.soft = false

/-- The callbacks of a list of events. -/
def rewriteEvents (env : RewriteEnv σ γ) :
    List VisitEvent → RewriteState σ γ → RewriteState σ γ × Status
  | [], s => (s, .ok)
  | e :: es, s => andThenOk (rewriteEvent env e s) (rewriteEvents env es)

section

variable {env : RewriteEnv σ γ} {push : σ → Bytes → σ} {told : σ → Bytes} {x x' : RewriteView}
  {step step' : RewriteState σ γ → RewriteState σ γ × Status}

theorem Results.andThen {o : Option RewriteView} {f : RewriteView → Option RewriteView}
    (h : Results told step x o) (h' : ∀ x', o = some x' → Results told step' x' (f x')) :
    Results told (fun s => andThenOk (step s) step') x (o.bind f) := by
  cases o with
  | none =>
      intro s hs
      have hsoft := h s hs
      have hne : (step s).2 ≠ .ok := fun hok => by simp [hok] at hsoft
      dsimp only
      rw [andThenOk, if_neg hne]
      exact hsoft
  | some x' =>
      have hnext := h' x' rfl
      rw [Option.bind_some]
      revert hnext
      cases f x' with
      | none =>
          intro hnext s hs
          obtain ⟨s', hstep, hs'⟩ := h s hs
          dsimp only
          rw [hstep, andThenOk_ok]
          exact hnext s' hs'
      | some x'' =>
          intro hnext s hs
          obtain ⟨s', hstep, hs'⟩ := h s hs
          dsimp only
          rw [hstep, andThenOk_ok]
          exact hnext s' hs'

/-- A step that succeeds, and one behind it. -/
theorem Results.next {o : Option RewriteView} (h : Results told step x (some x'))
    (h' : Results told step' x' o) : Results told (fun s => andThenOk (step s) step') x o :=
  Results.andThen (f := fun _ => o) h fun _ hx => by cases hx; exact h'

theorem Results.congr {o : Option RewriteView} (h : Results told step' x o)
    (heq : ∀ s : RewriteState σ γ, s.Shows told x → step s = step' s) : Results told step x o := by
  cases o with
  | none => exact fun s hs => by rw [heq s hs]; exact h s hs
  | some x' => exact fun s hs => by rw [heq s hs]; exact h s hs

theorem Results.congr_result {o o' : Option RewriteView} (h : Results told step x o)
    (ho : o = o') : Results told step x o' := ho ▸ h

theorem Results.pure (f : RewriteState σ γ → RewriteState σ γ)
    (h : ∀ s : RewriteState σ γ, s.Shows told x → (f s).Shows told x') :
    Results told (fun s => (f s, .ok)) x (some x') :=
  fun s hs => ⟨f s, rfl, h s hs⟩

theorem results_nil : Results told (rewriteEvents env []) x (some x) :=
  Results.pure id fun _ hs => hs

theorem Results.events_cons {e : VisitEvent} {es : List VisitEvent} {o : Option RewriteView}
    (h : Results told (rewriteEvent env e) x (some x')) (h' : Results told (rewriteEvents env es) x' o) :
    Results told (rewriteEvents env (e :: es)) x o := h.next h'

theorem rewriteEvents_append (es es' : List VisitEvent) (s : RewriteState σ γ) :
    rewriteEvents env (es ++ es') s =
      andThenOk (rewriteEvents env es s) (rewriteEvents env es') := by
  induction es generalizing s with
  | nil => rfl
  | cons e es ih =>
      rw [List.cons_append, rewriteEvents, rewriteEvents, andThenOk_assoc]
      exact andThenOk_congr fun _ => ih _

theorem Results.events_append {es es' : List VisitEvent} {o : Option RewriteView}
    {f : RewriteView → Option RewriteView} (h : Results told (rewriteEvents env es) x o)
    (h' : ∀ x', o = some x' → Results told (rewriteEvents env es') x' (f x')) :
    Results told (rewriteEvents env (es ++ es')) x (o.bind f) :=
  (h.andThen h').congr fun s _ => rewriteEvents_append es es' s

/-- A view that depends on a value, and what follows for each. -/
theorem Results.events_map {α : Type} {es es' : List VisitEvent} {o : Option α}
    {view : α → RewriteView} {g : α → Option RewriteView}
    (h : Results told (rewriteEvents env es) x (o.map view))
    (h' : ∀ r, o = some r → Results told (rewriteEvents env es') (view r) (g r)) :
    Results told (rewriteEvents env (es ++ es')) x (o.bind g) := by
  cases o with
  | none =>
      exact Results.events_append (f := fun _ => none) h fun _ hx => by cases hx
  | some r =>
      exact Results.events_append (f := fun _ => g r) h fun _ hx => by cases hx; exact h' r rfl

/-- One event is the callback. -/
theorem Results.event {e : VisitEvent} {o : Option RewriteView}
    (h : Results told (rewriteEvent env e) x o) : Results told (rewriteEvents env [e]) x o :=
  h.congr fun s _ => andThenOk_pure (rewriteEvent env e s)

/-! ## Writes -/

theorem results_write {call : Writer σ γ → Writer σ γ × Status} {v : WriterView}
    (h : Does told call x.writer v) :
    Results told (fun s => s.write call) x (some { x with writer := v }) := by
  intro s hs
  obtain ⟨w, hcall, hw⟩ := h.ready hs.writer
  refine ⟨{ s with writer := w }, ?_, { hs with writer := hw }⟩
  dsimp only
  rw [RewriteState.write, hcall]

/-- A writer that stands where the top frame says: in front of a key or a value. -/
def RewriteView.Fits (x : RewriteView) : Prop :=
  x.writer.mode = .idle ∧
    match x.frames with
    | [] => x.writer.frames = [] ∧ x.writer.root = false
    | frame :: _ => ∃ count rest, x.writer.frames = ⟨frame.kind, count, false⟩ :: rest

/-- The key of the next value. -/
def keyAt : List RewriteFrame → Bytes
  | [] => []
  | frame :: _ => frame.key

/-- The writer behind the key of the next value, if that has one. -/
def RewriteView.keyed (x : RewriteView) : WriterView :=
  match x.frames with
  | ⟨.object, _, _, _, _, key⟩ :: _ => x.writer.keyed key
  | _ => x.writer

theorem WriterView.child_add (v : WriterView) (key text : Bytes) :
    (v.child key []).add text = v.child key text := by
  unfold WriterView.child
  split <;> simp [WriterView.add]

theorem WriterView.child_mode (v : WriterView) (key text : Bytes) :
    (v.child key text).mode = v.mode := by
  unfold WriterView.child
  split <;> rfl

theorem WriterView.child_limit (v : WriterView) (key text : Bytes) :
    (v.child key text).maxNumberBytes = v.maxNumberBytes := by
  unfold WriterView.child
  split <;> rfl

theorem RewriteView.Fits.keyed (h : x.Fits) :
    x.keyed.mode = .idle ∧ x.keyed.place = some (x.writer.child (keyAt x.frames) []) := by
  obtain ⟨hidle, hframes⟩ := h
  cases hx : x.frames with
  | nil =>
      rw [hx] at hframes
      simp [RewriteView.keyed, hx, WriterView.place, hframes.1, hframes.2, WriterView.child, hidle]
  | cons frame rest =>
      rw [hx] at hframes
      obtain ⟨count, wrest, hw⟩ := hframes
      cases hkind : frame.kind with
      | array =>
          have hkeyed : x.keyed = x.writer := by
            unfold RewriteView.keyed
            rw [hx]
            split
            · next heq =>
              cases heq
              cases hkind
            · rfl
          rw [hkeyed]
          simp [WriterView.place, hw, hkind, WriterView.child, hidle]
      | object =>
          have hkeyed : x.keyed = x.writer.keyed frame.key := by
            unfold RewriteView.keyed
            rw [hx]
            obtain ⟨kind, pathLen, fcount, prefixMatches, saw, key⟩ := frame
            cases hkind
            rfl
          rw [hkind] at hw
          rw [hkeyed, WriterView.keyed_eq hw]
          simp [WriterView.withFrames, WriterView.place, WriterView.add, WriterView.child, hw, hidle,
            keyAt]

/-- The key of a member is written in front of its value. -/
theorem results_writeKey (hs : env.writer.Sinks push told) (h : x.Fits) :
    Results told (RewriteState.writeKey env) x (some { x with writer := x.keyed }) := by
  obtain ⟨v, frames, found, skip, emit⟩ := x
  obtain ⟨hidle, hframes⟩ := h
  match frames with
  | [] =>
      intro s hshow
      exact ⟨s, by rw [RewriteState.writeKey, hshow.frames], hshow⟩
  | ⟨.array, _, _, _, _, _⟩ :: _ =>
      intro s hshow
      exact ⟨s, by rw [RewriteState.writeKey, hshow.frames], hshow⟩
  | ⟨.object, _, _, _, _, key⟩ :: _ =>
      obtain ⟨count, wrest, hw⟩ := hframes
      refine (results_write (does_key hs hidle hw { bytes := key })).congr fun s hshow => ?_
      rw [RewriteState.writeKey, hshow.frames]

/-! ## In front of a value -/

/-- The action of the options, as an edit: what the replacement emits is the text of the new
value. -/
inductive Performs (env : RewriteEnv σ γ) (told : σ → Bytes) : EditAction → Prop where
  | keep (h : env.options.action = .keep) : Performs env told .keep
  | drop (h : env.options.action = .drop) : Performs env told .drop
  | replace {value : Tree} (h : env.options.action = .replace)
      (hvalid : env.options.replacement.isValid = true)
      (hcall : ∀ v v' : WriterView, v.mode = .idle → v.place = some v' →
        Does told (env.options.replacement.call env.writer) v (v'.add (value.text escapeText))) :
      Performs env told (.replace value)

/-- The frames with one more child in the top frame. -/
def countTop (target : List Bytes) : List RewriteFrame → List RewriteFrame
  | [] => []
  | parent :: rest => parent.count1 target :: rest

/-- The view behind the key and the checks of a value. -/
def RewriteView.before (target : List Bytes) (a : EditAction) (x : RewriteView) : RewriteView :=
  let counted := { x with frames := countTop target x.frames }
  if restAt target x.frames = some [] then
    match a with
    | .keep => { counted with found := true, writer := x.keyed }
    | .drop => { counted with found := true }
    | .replace value =>
      { counted with
        found := true, writer := x.writer.child (keyAt x.frames) (value.text escapeText) }
  else { counted with writer := x.keyed }

theorem keyed_countTop (target : List Bytes) (x : RewriteView) (found : Bool) :
    RewriteView.keyed { x with frames := countTop target x.frames, found } = x.keyed := by
  obtain ⟨v, frames, _, skip, emit⟩ := x
  match frames with
  | [] => rfl
  | ⟨.array, _, _, _, _, _⟩ :: _ => rfl
  | ⟨.object, _, _, _, _, _⟩ :: _ => rfl

theorem RewriteView.Fits.countTop (h : x.Fits) (target : List Bytes) (found : Bool) :
    RewriteView.Fits { x with frames := countTop target x.frames, found } := by
  obtain ⟨v, frames, _, skip, emit⟩ := x
  match frames with
  | [] => exact h
  | _ :: _ => exact h

theorem results_emitSource {value : Tree} (h : env.options.replacement.isValid = true)
    (hcall : ∀ v v' : WriterView, v.mode = .idle → v.place = some v' →
      Does told (env.options.replacement.call env.writer) v (v'.add (value.text escapeText)))
    (hidle : x.writer.mode = .idle) {v : WriterView} (hplace : x.writer.place = some v) :
    Results told (RewriteState.emitSource env) x
      (some { x with writer := v.add (value.text escapeText) }) := by
  refine (results_write (hcall _ _ hidle hplace)).congr fun s _ => ?_
  rw [RewriteState.emitSource, if_neg (by simp [h])]

theorem results_beforeValue (hs : env.writer.Sinks push told) {a : EditAction}
    (ha : Performs env told a) (h : x.Fits) (hskip : x.skip = 0) :
    Results told (RewriteState.beforeValue env) x (some (x.before env.options.target a)) := by
  have hskipping : ∀ s : RewriteState σ γ, s.Shows told x → s.skipping = false :=
    fun s hshow => by simp [hshow.skipping, hskip]
  have hcount : ∀ (found : Bool) (s : RewriteState σ γ), s.Shows told x →
      RewriteState.Shows told
        { s with frames := countTop env.options.target s.frames, found }
        { x with frames := countTop env.options.target x.frames, found } := fun found s hshow =>
    { hshow with frames := by simp only [hshow.frames], found := rfl }
  by_cases hrest : restAt env.options.target x.frames = some []
  · have hat : ∀ s : RewriteState σ γ, s.Shows told x → (s.place env).atTarget = true :=
      fun s hshow => by rw [place_eq (hskipping s hshow), hshow.frames]; simpa using hrest
    -- the key is written after the frames have been counted and the value has been met
    have hkey := results_writeKey hs (h.countTop env.options.target true)
    rw [keyed_countTop] at hkey
    have hstart : Results told _ x _ := Results.pure _ (hcount true)
    cases ha with
    | keep ha =>
        rw [RewriteView.before, if_pos hrest]
        refine (hstart.next hkey).congr fun s hshow => ?_
        rw [RewriteState.beforeValue, hskipping s hshow, if_neg (by simp)]
        simp only [hat s hshow, if_true, ha, andThenOk_ok]
        rfl
    | drop ha =>
        rw [RewriteView.before, if_pos hrest]
        refine hstart.congr fun s hshow => ?_
        rw [RewriteState.beforeValue, hskipping s hshow, if_neg (by simp)]
        simp only [hat s hshow, if_true, ha]
        rfl
    | replace ha hvalid hcall =>
        rw [RewriteView.before, if_pos hrest]
        have hsource := results_emitSource (x := { x with
          frames := countTop env.options.target x.frames, found := true, writer := x.keyed })
          hvalid hcall h.keyed.1 h.keyed.2
        rw [WriterView.child_add] at hsource
        refine (hstart.next (hkey.next hsource)).congr fun s hshow => ?_
        rw [RewriteState.beforeValue, hskipping s hshow, if_neg (by simp)]
        simp only [hat s hshow, if_true, ha, andThenOk_ok]
        rfl
  · have hat : ∀ s : RewriteState σ γ, s.Shows told x → (s.place env).atTarget = false :=
      fun s hshow => by rw [place_eq (hskipping s hshow), hshow.frames]; simpa using hrest
    have hkey := results_writeKey hs (h.countTop env.options.target x.found)
    rw [keyed_countTop] at hkey
    have hstart : Results told _ x _ := Results.pure _ (hcount x.found)
    unfold RewriteView.before
    rw [if_neg hrest]
    refine (hstart.next hkey).congr fun s hshow => ?_
    rw [RewriteState.beforeValue, hskipping s hshow, if_neg (by simp)]
    simp only [hat s hshow, Bool.false_eq_true, if_false, andThenOk_ok, ← hshow.found]
    rfl

/-- Whether a value is copied. -/
def Copies (env : RewriteEnv σ γ) (frames : List RewriteFrame) : Bool :=
  !(restAt env.options.target frames = some [] : Bool) || env.options.action = .keep

/-- The view behind a value of which the edit leaves `r`. -/
def RewriteView.after (target : List Bytes) (x : RewriteView) (r : Option Tree × Bool) :
    RewriteView :=
  { x with
    frames := countTop target x.frames
    found := r.2
    writer := match r.1 with
      | none => x.writer
      | some t => x.writer.child (keyAt x.frames) (t.text escapeText) }

/-- The view in front of a value that is copied. -/
def RewriteView.copying (target : List Bytes) (x : RewriteView) : RewriteView :=
  { x with
    frames := countTop target x.frames
    found := x.found || (restAt target x.frames = some [] : Bool)
    writer := x.keyed }

theorem copies_iff {a : EditAction} (ha : Performs env told a) (frames : List RewriteFrame) :
    Copies env frames = true ↔ restAt env.options.target frames ≠ some [] ∨ a = .keep := by
  rw [Copies]
  cases ha with
  | keep ha => simp [ha]
  | drop ha => simp [ha]
  | replace ha => simp [ha]

theorem before_copies {a : EditAction} (ha : Performs env told a)
    (h : Copies env x.frames = true) :
    x.before env.options.target a = x.copying env.options.target := by
  have hcopies := (copies_iff ha x.frames).mp h
  unfold RewriteView.before
  by_cases hrest : restAt env.options.target x.frames = some []
  · obtain rfl : a = .keep := hcopies.resolve_left (by simpa using hrest)
    simp [hrest, RewriteView.copying]
  · simp [hrest, RewriteView.copying]

theorem before_edited {a : EditAction} (ha : Performs env told a)
    (h : Copies env x.frames = false) (t : Tree) :
    restAt env.options.target x.frames = some [] ∧
      x.before env.options.target a = x.after env.options.target (a.apply t, true) := by
  have hcopies := (copies_iff ha x.frames).not.mp (by simp [h])
  have hrest : restAt env.options.target x.frames = some [] := by
    by_contra hrest
    exact hcopies (.inl hrest)
  refine ⟨hrest, ?_⟩
  unfold RewriteView.before
  rw [if_pos hrest]
  cases a with
  | keep => exact absurd (.inr rfl) hcopies
  | drop => rfl
  | replace value => rfl

/-- What the edit makes of a value that is copied whole. -/
theorem edited_copy {a : EditAction} (ha : Performs env told a)
    (h : Copies env x.frames = true) {t : Tree} :
    (if restAt env.options.target x.frames = some [] then some (a.apply t, true)
      else some (some t, x.found)) =
      some (some t, x.found || (restAt env.options.target x.frames = some [] : Bool)) := by
  by_cases hrest : restAt env.options.target x.frames = some []
  · obtain rfl := ((copies_iff ha x.frames).mp h).resolve_left (by simpa using hrest)
    simp [hrest, EditAction.apply]
  · simp [hrest]

theorem copies_place {s : RewriteState σ γ} (hshow : s.Shows told x) (hskip : x.skip = 0) :
    (s.place env).emitOriginal = Copies env x.frames := by
  rw [place_eq (by simp [hshow.skipping, hskip]), hshow.frames]
  rfl

/-! ## Values of one event -/

theorem results_literal (hs : env.writer.Sinks push told) {a : EditAction}
    (ha : Performs env told a) (h : x.Fits) (hskip : x.skip = 0) {event : VisitEvent}
    {oldValue : OldValue} {emit : Writer σ γ → Writer σ γ × Status} {t : Tree}
    (hemit : ∀ v v' : WriterView, v.mode = .idle → v.place = some v' →
      Does told emit v (v'.add (t.text escapeText)))
    (hedit : ∀ rest found, a.edit rest found t =
      if rest = some [] then some (a.apply t, true) else some (some t, found)) :
    Results told (RewriteState.literal env event oldValue emit) x
      ((a.edit (restAt env.options.target x.frames) x.found t).map
        (x.after env.options.target)) := by
  have hbefore := results_beforeValue hs ha h hskip
  have hliteral : ∀ s : RewriteState σ γ, s.Shows told x →
      s.literal env event oldValue emit =
        andThenOk (s.beforeValue env) fun s =>
          if s.currentReplace then
            andThenOk
              (RewriteState.visitOld env
                { s.beginReplaceWith oldValue.type with oldValue, currentReplace := false } event)
              fun s => RewriteState.replaceWith env { s with replacing := false }
          else if !Copies env x.frames then (s, .ok)
          else s.write emit := fun s hshow => by
    rw [RewriteState.literal, hshow.replacing, if_neg (by simp)]
    dsimp only
    rw [copies_place hshow hskip]
  refine Results.congr ?_ hliteral
  cases hcopies : Copies env x.frames with
  | true =>
      rw [before_copies ha hcopies] at hbefore
      have hwrite := results_write (x := x.copying env.options.target)
        (hemit _ _ h.keyed.1 h.keyed.2)
      rw [WriterView.child_add] at hwrite
      rw [hedit, edited_copy ha hcopies]
      refine hbefore.next (hwrite.congr fun s hshow => ?_)
      simp [hshow.currentReplace]
  | false =>
      obtain ⟨hrest, hedited⟩ := before_edited ha hcopies t
      rw [hedited] at hbefore
      rw [hedit, if_pos hrest]
      refine hbefore.next ((Results.pure id fun _ hs => hs).congr fun s hshow => ?_)
      simp [hshow.currentReplace]

/-! ## Strings and numbers -/

/-- The first callback of a string or number. -/
theorem results_textBegin (hs : env.writer.Sinks push told) {a : EditAction}
    (ha : Performs env told a) (h : x.Fits) (hskip : x.skip = 0) (t : Tree)
    {begin : Writer σ γ → Writer σ γ × Status} {v : WriterView} (hbegin : Does told begin x.keyed v)
    (reset : RewriteState σ γ → RewriteState σ γ)
    (hreset : ∀ s : RewriteState σ γ, s.Shows told x → (reset s).Shows told x)
    (replaced : RewriteState σ γ → RewriteState σ γ × Status) :
    Results told
      (fun s => andThenOk
        (RewriteState.beforeValue env
          { reset s with currentEmit := ((reset s).place env).emitOriginal }) fun s =>
        if s.currentReplace then replaced s
        else if !s.currentEmit then (s, .ok) else s.write begin) x
      (some (if Copies env x.frames then
          { x.copying env.options.target with writer := v, emit := true }
        else { x.after env.options.target (a.apply t, true) with emit := false })) := by
  have hplace : ∀ s : RewriteState σ γ, s.Shows told x →
      ((reset s).place env).emitOriginal = Copies env x.frames :=
    fun s hshow => copies_place (hreset s hshow) hskip
  have hemit : Results (σ := σ) (γ := γ) told
      (fun s => ({ reset s with currentEmit := Copies env x.frames }, .ok)) x
      (some { x with emit := Copies env x.frames }) :=
    Results.pure _ fun s hshow => { hreset s hshow with emit := rfl }
  have hbefore := results_beforeValue (x := { x with emit := Copies env x.frames }) hs ha h hskip
  cases hcopies : Copies env x.frames with
  | true =>
      rw [hcopies] at hemit hbefore
      rw [before_copies ha (x := { x with emit := true }) hcopies] at hbefore
      have hwrite : Results told
          (fun s => if s.currentReplace then replaced s
            else if !s.currentEmit then (s, .ok) else s.write begin)
          { x.copying env.options.target with emit := true }
          (some { x.copying env.options.target with writer := v, emit := true }) :=
        (results_write hbegin).congr fun s hshow => by simp [hshow.currentReplace, hshow.emit]
      exact (hemit.next (hbefore.next hwrite)).congr fun s hshow => by
        simp only [hplace s hshow, hcopies, andThenOk_ok]
  | false =>
      rw [hcopies] at hemit hbefore
      obtain ⟨hrest, hedited⟩ := before_edited ha (x := { x with emit := false }) hcopies t
      rw [hedited] at hbefore
      have hskipped : Results told
          (fun s => if s.currentReplace then replaced s
            else if !s.currentEmit then (s, .ok) else s.write begin)
          (RewriteView.after env.options.target { x with emit := false } (a.apply t, true))
          (some { x.after env.options.target (a.apply t, true) with emit := false }) :=
        (Results.pure id fun _ hs => hs).congr fun s hshow => by
          simp [hshow.currentReplace, hshow.emit, RewriteView.after]
      exact (hemit.next (hbefore.next hskipped)).congr fun s hshow => by
        simp only [hplace s hshow, hcopies, andThenOk_ok]

theorem results_numberChunk_ignored (data : Bytes) (hemit : x.emit = false) :
    Results told (rewriteEvent env (.numberChunk data)) x (some x) :=
  (Results.pure id fun _ hs => hs).congr fun s hshow => by
    simp [rewriteEvent, rewriteNumberChunk, hshow.replacing, hshow.emit, hemit]

theorem results_numberEnd_ignored (hemit : x.emit = false) :
    Results told (rewriteEvent env .numberEnd) x (some x) :=
  (Results.pure (fun s => { s with currentEmit := false }) fun _ hshow =>
    { hshow with emit := hemit.symm }).congr fun s hshow => by
      simp [rewriteEvent, rewriteNumberEnd, hshow.replacing, hshow.emit, hemit]

theorem results_stringChunk_ignored (data : Bytes) (hemit : x.emit = false) :
    Results told (rewriteEvent env (.stringChunk data)) x (some x) :=
  (Results.pure id fun _ hs => hs).congr fun s hshow => by
    simp [rewriteEvent, rewriteStringChunk, hshow.replacing, hshow.emit, hemit]

theorem results_stringEnd_ignored (hemit : x.emit = false) :
    Results told (rewriteEvent env .stringEnd) x (some x) :=
  (Results.pure (fun s => { s with currentEmit := false }) fun _ hshow =>
    { hshow with emit := hemit.symm }).congr fun s hshow => by
      simp [rewriteEvent, rewriteStringEnd, hshow.replacing, hshow.emit, hemit]

/-- The end of a string or number that is copied. -/
theorem results_copyEnd {event : VisitEvent} {call : Writer σ γ → Writer σ γ × Status}
    {v : WriterView} (h : Does told call x.writer v)
    (hevent : ∀ s : RewriteState σ γ, s.Shows told x → rewriteEvent env event s =
      ({ (s.write call).1 with currentEmit := false }, (s.write call).2)) :
    Results told (rewriteEvent env event) x (some { x with writer := v, emit := false }) := by
  intro s hshow
  obtain ⟨s', hstep, hs'⟩ := results_write h s hshow
  refine ⟨{ s' with currentEmit := false }, ?_, { hs' with emit := rfl }⟩
  rw [hevent s hshow]
  dsimp only at hstep ⊢
  rw [hstep]

/-- The view behind a string or number that has been copied. -/
theorem WriterView.child_enter {v : WriterView} (hidle : v.mode = .idle) (key text : Bytes)
    (mode : WriterMode) :
    (((v.child key []).enter mode).add text).enter .idle = v.child key text := by
  have hmode := (WriterView.child_mode v key []).trans hidle
  rw [← WriterView.child_add v key text]
  simp [WriterView.enter, WriterView.add, ← hmode]

theorem after_emit {target : List Bytes} (hemit : x.emit = false) (r : Option Tree × Bool) :
    { x.after target r with emit := false } = x.after target r := by
  rw [← hemit]
  rfl

theorem results_number (hs : env.writer.Sinks push told) {a : EditAction}
    (ha : Performs env told a) (h : x.Fits) (hskip : x.skip = 0) (hemit : x.emit = false)
    {lexeme : Bytes} (hnumber : JsonNumber lexeme) (hlen : lexeme.length ≤ x.writer.maxNumberBytes)
    (hlimit : x.writer.maxNumberBytes < sizeMax) :
    Results told (rewriteEvents env [.numberBegin, .numberChunk lexeme, .numberEnd]) x
      ((a.edit (restAt env.options.target x.frames) x.found (.number lexeme)).map
        (x.after env.options.target)) := by
  have hbegin : Results told (rewriteEvent env .numberBegin) x _ :=
    (results_textBegin hs ha h hskip (.number lexeme) (does_numberBegin hs h.keyed.1 h.keyed.2)
      (fun s => { s with number := [] }) (fun s hshow => { hshow with })
      (fun s => RewriteState.visitOld env
        { s.beginReplaceWith .number with currentReplace := false } .numberBegin)).congr
      fun s hshow => by
        rw [rewriteEvent, rewriteNumberBegin]
        dsimp only
        rw [hshow.replacing, if_neg (by simp)]
        congr 1
        funext s
        cases s.currentEmit <;> rfl
  have hedit : a.edit (restAt env.options.target x.frames) x.found (.number lexeme) =
      if restAt env.options.target x.frames = some [] then some (a.apply (.number lexeme), true)
      else some (some (.number lexeme), x.found) := rfl
  cases hcopies : Copies env x.frames with
  | true =>
      rw [hcopies, if_pos rfl] at hbegin
      rw [hedit, edited_copy ha hcopies]
      have hchunk : Results told (rewriteEvent env (.numberChunk lexeme))
          { x.copying env.options.target with
            writer := (x.writer.child (keyAt x.frames) []).enter (.inNumber []), emit := true }
          (some { x.copying env.options.target with
            writer := (x.writer.child (keyAt x.frames) []).enter (.inNumber lexeme)
            emit := true }) :=
        (results_write (does_numberChunk
          (v := (x.writer.child (keyAt x.frames) []).enter (.inNumber [])) rfl lexeme
          (by simpa [WriterView.enter, WriterView.child_limit] using hlen)
          (by simpa [WriterView.enter, WriterView.child_limit] using hlimit))).congr
          fun s hshow => by
            rw [rewriteEvent, rewriteNumberChunk, hshow.replacing, hshow.emit, if_neg (by simp),
              if_neg (by simp)]
      have hview : (((x.writer.child (keyAt x.frames) []).enter (.inNumber lexeme)).add
          lexeme).enter .idle = x.writer.child (keyAt x.frames) lexeme :=
        WriterView.child_enter h.1 _ _ _
      have hend : Results told (rewriteEvent env .numberEnd)
          { x.copying env.options.target with
            writer := (x.writer.child (keyAt x.frames) []).enter (.inNumber lexeme), emit := true }
          (some { x.copying env.options.target with
            writer := x.writer.child (keyAt x.frames) lexeme, emit := false }) := by
        rw [← hview]
        refine results_copyEnd (does_numberEnd hs rfl ((isValidJsonNumber_iff lexeme).mpr hnumber))
          fun s hshow => ?_
        rw [rewriteEvent, rewriteNumberEnd, hshow.replacing, hshow.emit, if_neg (by simp),
          if_neg (by simp)]
      rw [← hemit] at hend
      exact hbegin.events_cons (hchunk.events_cons hend.event)
  | false =>
      rw [hcopies, if_neg (by simp), after_emit hemit] at hbegin
      rw [hedit, if_pos (before_edited ha hcopies .null).1]
      have hemit' : (x.after env.options.target (a.apply (.number lexeme), true)).emit = false :=
        hemit
      exact hbegin.events_cons ((results_numberChunk_ignored lexeme hemit').events_cons
        (results_numberEnd_ignored hemit').event)

/-- The chunks of a string that is copied. -/
theorem results_stringChunks (hs : env.writer.Sinks push told) (chunks : List Bytes)
    (hmode : x.writer.mode = .inString) (hemit : x.emit = true) :
    Results told (rewriteEvents env (chunks.map .stringChunk)) x
      (some { x with writer := x.writer.add (escapeText chunks.flatten) }) := by
  induction chunks generalizing x with
  | nil =>
      have hnil : x.writer.add (escapeText ([] : List Bytes).flatten) = x.writer := by
        simp [escapeText]
      rw [hnil]
      exact results_nil
  | cons chunk chunks ih =>
      have hchunk : Results told (rewriteEvent env (.stringChunk chunk)) x
          (some { x with writer := x.writer.add (escapeText chunk) }) :=
        (results_write (does_stringChunk hs hmode { bytes := chunk })).congr fun s hshow => by
          rw [rewriteEvent, rewriteStringChunk, hshow.replacing, hshow.emit, hemit,
            if_neg (by simp), if_neg (by simp)]
      have hrest := ih (x := { x with writer := x.writer.add (escapeText chunk) }) hmode hemit
      rw [WriterView.add_add] at hrest
      have happend : escapeText chunk ++ escapeText chunks.flatten =
          escapeText (chunk :: chunks).flatten := by simp [escapeText]
      rw [← happend]
      exact hchunk.events_cons hrest

theorem results_stringChunks_ignored (chunks : List Bytes) (hemit : x.emit = false) :
    Results told (rewriteEvents env (chunks.map .stringChunk)) x (some x) := by
  induction chunks with
  | nil => exact results_nil
  | cons chunk chunks ih => exact (results_stringChunk_ignored chunk hemit).events_cons ih

theorem Results.event_list {es es' : List VisitEvent} {o : Option RewriteView}
    (h : Results told (rewriteEvents env es) x (some x'))
    (h' : Results told (rewriteEvents env es') x' o) :
    Results told (rewriteEvents env (es ++ es')) x o :=
  (h.next h').congr fun s _ => rewriteEvents_append es es' s

theorem results_string (hs : env.writer.Sinks push told) {a : EditAction}
    (ha : Performs env told a) (h : x.Fits) (hskip : x.skip = 0) (hemit : x.emit = false)
    (chunks : List Bytes) :
    Results told (rewriteEvents env (.stringBegin :: (chunks.map .stringChunk ++ [.stringEnd]))) x
      ((a.edit (restAt env.options.target x.frames) x.found (.string chunks.flatten)).map
        (x.after env.options.target)) := by
  have hbegin : Results told (rewriteEvent env .stringBegin) x _ :=
    (results_textBegin hs ha h hskip (.string chunks.flatten)
      (does_stringBegin hs h.keyed.1 h.keyed.2) id (fun s hshow => hshow)
      (fun s => RewriteState.visitOld env
        { s.beginReplaceWith .string with currentReplace := false } .stringBegin)).congr
      fun s hshow => by
        rw [rewriteEvent, rewriteStringBegin, if_neg (by simp [hshow.replacing])]
        rfl
  have hedit : a.edit (restAt env.options.target x.frames) x.found (.string chunks.flatten) =
      if restAt env.options.target x.frames = some [] then
        some (a.apply (.string chunks.flatten), true)
      else some (some (.string chunks.flatten), x.found) := rfl
  cases hcopies : Copies env x.frames with
  | true =>
      rw [hcopies, if_pos rfl] at hbegin
      rw [hedit, edited_copy ha hcopies]
      have hchunks : Results told (rewriteEvents env _) _ _ := results_stringChunks hs chunks (x := { x.copying
        env.options.target with
          writer := ((x.writer.child (keyAt x.frames) []).add [0x22]).enter .inString
          emit := true }) rfl rfl
      have hview : ((((x.writer.child (keyAt x.frames) []).add [0x22]).enter .inString).add
          (escapeText chunks.flatten) |>.add [0x22]).enter .idle =
          x.writer.child (keyAt x.frames) (quoted escapeText chunks.flatten) := by
        rw [← WriterView.child_enter h.1 (keyAt x.frames) (quoted escapeText chunks.flatten)
          .inString]
        simp [WriterView.enter, WriterView.add, quoted]
      have hend : Results told (rewriteEvent env .stringEnd)
          { x.copying env.options.target with
            writer := (((x.writer.child (keyAt x.frames) []).add [0x22]).enter .inString).add
              (escapeText chunks.flatten)
            emit := true }
          (some { x.copying env.options.target with
            writer := x.writer.child (keyAt x.frames) (quoted escapeText chunks.flatten)
            emit := false }) := by
        rw [← hview]
        refine results_copyEnd (does_stringEnd hs rfl) fun s hshow => ?_
        rw [rewriteEvent, rewriteStringEnd, hshow.replacing, hshow.emit, if_neg (by simp),
          if_neg (by simp)]
      rw [← hemit] at hend
      exact hbegin.events_cons (hchunks.event_list hend.event)
  | false =>
      rw [hcopies, if_neg (by simp), after_emit hemit] at hbegin
      rw [hedit, if_pos (before_edited ha hcopies .null).1]
      have hemit' : (x.after env.options.target
          (a.apply (.string chunks.flatten), true)).emit = false := hemit
      exact hbegin.events_cons ((results_stringChunks_ignored chunks hemit').event_list
        (results_stringEnd_ignored hemit').event)

/-! ## Inside a value that is skipped -/

theorem RewriteState.Shows.skips {s : RewriteState σ γ} (hshow : s.Shows told x) (hskip : x.skip ≠ 0) :
    s.skipping = true := by
  simp [hshow.skipping, hskip]

theorem results_skipBegin (hskip : x.skip ≠ 0) (kind : ContainerKind) (type : OldValueType)
    (event : VisitEvent) (begin : Writer σ γ → Writer σ γ × Status) :
    Results told (RewriteState.containerBegin env kind type event begin) x
      (some { x with skip := x.skip + 1 }) := by
  intro s hshow
  refine ⟨{ s with skipDepth := s.skipDepth + 1 }, ?_, { hshow with
    skipping := by simp [hshow.skips hskip]
    skipDepth := fun _ => by simp [hshow.skipDepth hskip] }⟩
  rw [RewriteState.containerBegin, hshow.replacing, if_neg (by simp), hshow.skips hskip,
    if_pos rfl]

theorem results_skipEnd {n : ℕ} (hskip : x.skip = n + 1) (event : VisitEvent)
    (close : RewriteState σ γ → RewriteState σ γ × Status) :
    Results told (RewriteState.containerEnd env event close) x (some { x with skip := n }) := by
  intro s hshow
  have hdepth : s.skipDepth = n + 1 := (hshow.skipDepth (by omega)).trans hskip
  refine ⟨{ s with skipDepth := s.skipDepth - 1, skipping := s.skipDepth - 1 ≠ 0 }, ?_,
    { hshow with
      skipping := by simp [hdepth]
      skipDepth := fun _ => by simp [hdepth] }⟩
  rw [RewriteState.containerEnd, hshow.replacing, if_neg (by simp), hshow.skips (by omega),
    if_pos rfl]

theorem results_skipLiteral (hskip : x.skip ≠ 0) {event : VisitEvent} {oldValue : OldValue}
    {emit : Writer σ γ → Writer σ γ × Status} :
    Results told (RewriteState.literal env event oldValue emit) x (some x) :=
  (Results.pure id fun _ hs => hs).congr fun s hshow => by
    have hskipping := hshow.skips hskip
    simp [RewriteState.literal, RewriteState.beforeValue, RewriteState.place, hshow.replacing,
      hskipping, hshow.currentReplace]

theorem results_skipString (hskip : x.skip ≠ 0) (hemit : x.emit = false) :
    Results told (rewriteEvent env .stringBegin) x (some x) :=
  (Results.pure (fun s => { s with currentEmit := false }) fun _ hshow =>
    { hshow with emit := hemit.symm }).congr fun s hshow => by
      have hskipping := hshow.skips hskip
      simp [rewriteEvent, rewriteStringBegin, RewriteState.beforeValue, RewriteState.place,
        hshow.replacing, hskipping, hshow.currentReplace]

theorem results_skipNumber (hskip : x.skip ≠ 0) (hemit : x.emit = false) :
    Results told (rewriteEvent env .numberBegin) x (some x) :=
  (Results.pure (fun s => { s with currentEmit := false, number := [] }) fun _ hshow =>
    { hshow with emit := hemit.symm }).congr fun s hshow => by
      have hskipping := hshow.skips hskip
      simp [rewriteEvent, rewriteNumberBegin, RewriteState.beforeValue, RewriteState.place,
        hshow.replacing, hskipping, hshow.currentReplace]

theorem results_skipKey (hskip : x.skip ≠ 0) (chunks : List Bytes) {es : List VisitEvent}
    {o : Option RewriteView} (h : Results told (rewriteEvents env es) x o) :
    Results told (rewriteEvents env (.keyBegin :: (chunks.map .keyChunk ++ .keyEnd :: es))) x o := by
  have hbegin : Results told (rewriteEvent env .keyBegin) x (some x) :=
    (Results.pure id fun _ hs => hs).congr fun s hshow => by
      simp [rewriteEvent, rewriteKeyBegin, hshow.replacing, hshow.skips hskip]
  have hchunks : Results told (rewriteEvents env (chunks.map .keyChunk)) x (some x) := by
    induction chunks with
    | nil => exact results_nil
    | cons chunk chunks ih =>
        refine Results.events_cons ((Results.pure id fun _ hs => hs).congr fun s hshow => ?_) ih
        simp [rewriteEvent, rewriteKeyChunk, hshow.replacing, hshow.skips hskip]
  have hend : Results told (rewriteEvent env .keyEnd) x (some x) :=
    (Results.pure id fun _ hs => hs).congr fun s hshow => by
      simp [rewriteEvent, rewriteKeyEnd, hshow.replacing]
  exact hbegin.events_cons (hchunks.event_list (hend.events_cons h))

/-- The events of a container that is skipped. -/
theorem results_skipContainer {begin close : VisitEvent} {es : List VisitEvent}
    (hbegin : Results told (rewriteEvent env begin) x (some { x with skip := x.skip + 1 }))
    (hes : Results told (rewriteEvents env es) { x with skip := x.skip + 1 }
      (some { x with skip := x.skip + 1 }))
    (hclose : Results told (rewriteEvent env close) { x with skip := x.skip + 1 } (some x)) :
    Results told (rewriteEvents env (begin :: (es ++ [close]))) x (some x) :=
  hbegin.events_cons (hes.event_list hclose.event)

variable {limit : ℕ}

mutual

theorem results_skip {t : Tree} {es : List VisitEvent} {x : RewriteView} (hskip : x.skip ≠ 0)
    (hemit : x.emit = false) :
    EventsOf limit t es → Results told (rewriteEvents env es) x (some x)
  | .null => (results_skipLiteral hskip).event
  | .bool => (results_skipLiteral hskip).event
  | .number _ _ =>
      (results_skipNumber hskip hemit).events_cons
        ((results_numberChunk_ignored _ hemit).events_cons (results_numberEnd_ignored hemit).event)
  | .string =>
      (results_skipString hskip hemit).events_cons
        ((results_stringChunks_ignored _ hemit).event_list (results_stringEnd_ignored hemit).event)
  | .array h =>
      results_skipContainer (results_skipBegin hskip _ _ _ _)
        (results_skipItems (x := { x with skip := x.skip + 1 }) (by simp) hemit h)
        (results_skipEnd rfl _ _)
  | .object h =>
      results_skipContainer (results_skipBegin hskip _ _ _ _)
        (results_skipMembers (x := { x with skip := x.skip + 1 }) (by simp) hemit h)
        (results_skipEnd rfl _ _)

theorem results_skipItems {ts : List Tree} {es : List VisitEvent} {x : RewriteView}
    (hskip : x.skip ≠ 0) (hemit : x.emit = false) :
    EventsOfItems limit ts es → Results told (rewriteEvents env es) x (some x)
  | .nil => results_nil
  | .cons h hs => (results_skip hskip hemit h).event_list (results_skipItems hskip hemit hs)

theorem results_skipMembers {ms : List (Text × Tree)} {es : List VisitEvent} {x : RewriteView}
    (hskip : x.skip ≠ 0) (hemit : x.emit = false) :
    EventsOfMembers limit ms es → Results told (rewriteEvents env es) x (some x)
  | .nil => results_nil
  | .cons h hs =>
      results_skipKey hskip _
        ((results_skip hskip hemit h).event_list (results_skipMembers hskip hemit hs))

end

/-! ## Children -/

/-- The view behind some members, or behind some items when the keys do not matter. -/
def WriterView.children (v : WriterView) (ms : List (Bytes × Tree)) : WriterView :=
  ms.foldl (fun v m => v.child m.1 (m.2.text escapeText)) v

theorem children_members {v : WriterView} {count : ℕ} {rest : List WriterFrame}
    (h : v.frames = ⟨.object, count, false⟩ :: rest) (ms : List (Bytes × Tree)) :
    v.children ms = (v.add (Json.membersText escapeText (count = 0) ms)).withFrames
      (⟨.object, count + ms.length, false⟩ :: rest) := by
  induction ms generalizing v count with
  | nil => simp [WriterView.children, Json.membersText, WriterView.withFrames, ← h]
  | cons m ms ih =>
      have hchild : (v.child m.1 (m.2.text escapeText)).frames =
          ⟨.object, count + 1, false⟩ :: rest := by
        simp [WriterView.child, h]
      rw [WriterView.children, List.foldl_cons, ← WriterView.children, ih hchild]
      simp [WriterView.child, h, WriterView.add, WriterView.withFrames, Json.membersText,
        Nat.add_assoc, Nat.add_comm 1]

theorem children_items {v : WriterView} {count : ℕ} {rest : List WriterFrame}
    (h : v.frames = ⟨.array, count, false⟩ :: rest) (key : Bytes) (ts : List Tree) :
    v.children (ts.map fun t => (key, t)) =
      (v.add (Json.itemsText escapeText (count = 0) ts)).withFrames
        (⟨.array, count + ts.length, false⟩ :: rest) := by
  induction ts generalizing v count with
  | nil => simp [WriterView.children, Json.itemsText, WriterView.withFrames, ← h]
  | cons t ts ih =>
      have hchild : (v.child key (t.text escapeText)).frames =
          ⟨.array, count + 1, false⟩ :: rest := by
        simp [WriterView.child, h]
      rw [List.map_cons, WriterView.children, List.foldl_cons, ← WriterView.children, ih hchild]
      simp [WriterView.child, h, WriterView.add, WriterView.withFrames, Json.itemsText,
        Nat.add_assoc, Nat.add_comm 1]

/-! ## Missing values -/

theorem keyed_place {v : WriterView} {count : ℕ} {rest : List WriterFrame} (hidle : v.mode = .idle)
    (h : v.frames = ⟨.object, count, false⟩ :: rest) (key : Bytes) :
    (v.keyed key).mode = .idle ∧ (v.keyed key).place = some (v.child key []) := by
  rw [WriterView.keyed_eq h]
  simp [WriterView.withFrames, WriterView.place, WriterView.add, WriterView.child, h, hidle]

/-- The objects of a chain are closed. -/
theorem results_chainEnd (hs : env.writer.Sinks push told) {opened rest : List WriterFrame}
    (hidle : x.writer.mode = .idle) (hframes : x.writer.frames = opened ++ rest)
    (hopened : ∀ frame ∈ opened, frame.kind = .object ∧ frame.afterKey = false) :
    Results told (RewriteState.closeObjects env opened.length) x
      (some { x with writer :=
        (x.writer.add (List.replicate opened.length 0x7d)).withFrames rest }) := by
  induction opened generalizing x with
  | nil =>
      have hview : (x.writer.add (List.replicate 0 0x7d)).withFrames rest = x.writer := by
        simp [WriterView.withFrames, ← show x.writer.frames = rest from hframes]
      rw [List.length_nil, hview]
      exact Results.pure id fun _ hs => hs
  | cons frame opened ih =>
      obtain ⟨kind, count, afterKey⟩ := frame
      obtain ⟨rfl, rfl⟩ : kind = .object ∧ afterKey = false :=
        hopened ⟨kind, count, afterKey⟩ (by simp)
      have hend := results_write (x := x) (does_endObject hs hidle hframes)
      have hrest := ih (x := { x with
        writer := (x.writer.add [0x7d]).withFrames (opened ++ rest) }) hidle rfl
        fun frame hframe => hopened frame (by simp [hframe])
      have hview : (((x.writer.add [0x7d]).withFrames (opened ++ rest)).add
          (List.replicate opened.length 0x7d)).withFrames rest =
          (x.writer.add (List.replicate (opened.length + 1) 0x7d)).withFrames rest := by
        simp [WriterView.add, WriterView.withFrames, List.replicate_succ]
      rw [hview] at hrest
      exact hend.next hrest

theorem results_emitMissing {value : Tree} (ha : Performs env told (.replace value))
    (hidle : x.writer.mode = .idle) {v : WriterView} (hplace : x.writer.place = some v) :
    Results told (RewriteState.emitMissing env) x
      (some { x with writer := v.add (value.text escapeText) }) := by
  cases ha with
  | replace haction hvalid hcall =>
      refine (results_emitSource hvalid hcall hidle hplace).congr fun s _ => ?_
      rw [RewriteState.emitMissing, if_neg (by simp [haction])]

theorem results_chainIndex {seg : Bytes} (path : List Bytes) (n : ℕ)
    (hseg : Json.isIndex seg = true) :
    Results told (RewriteState.emitChain env (seg :: path) n) x none := by
  intro s _
  rw [RewriteState.emitChain, if_pos (show segmentIsIndex seg = true from hseg)]
  rfl

/-- The view behind a chain of objects. -/
theorem chain_view {v : WriterView} {rest : List WriterFrame} {opened : List WriterFrame}
    (hframes : v.frames = ⟨.object, 0, false⟩ :: (opened ++ rest)) (seg : Bytes) (t : Tree)
    (closing : Bytes) :
    ((v.child seg (t.text escapeText)).add closing).withFrames rest =
      (v.add (Json.memberText escapeText (seg, t) ++ closing)).withFrames rest := by
  simp [WriterView.child, hframes, WriterView.add, WriterView.withFrames, Json.memberText]

/-- The objects of a chain, and the missing value in them. -/
theorem results_chain (hs : env.writer.Sinks push told) {value : Tree}
    (ha : Performs env told (.replace value)) {seg : Bytes} {path : List Bytes}
    {opened rest : List WriterFrame} (hidle : x.writer.mode = .idle)
    (hframes : x.writer.frames = ⟨.object, 0, false⟩ :: (opened ++ rest))
    (hopened : ∀ frame ∈ opened, frame.kind = .object ∧ frame.afterKey = false) :
    Results told (RewriteState.emitChain env (seg :: path) (opened.length + 1)) x
      (if Json.isIndex seg then none
      else (EditAction.chain value path).map fun t =>
        { x with writer := (x.writer.add (Json.memberText escapeText (seg, t) ++
          List.replicate (opened.length + 1) 0x7d)).withFrames rest }) := by
  induction path generalizing seg x opened with
  | nil =>
      by_cases hseg : Json.isIndex seg = true
      · rw [if_pos hseg]
        exact results_chainIndex _ _ hseg
      rw [if_neg hseg]
      have hkey := results_write (x := x) (does_key hs hidle hframes { bytes := seg })
      obtain ⟨hmode, hplace⟩ := keyed_place hidle hframes seg
      have hmissing := results_emitMissing (x := { x with writer := x.writer.keyed seg }) ha hmode
        hplace
      rw [WriterView.child_add] at hmissing
      have hchild : (x.writer.child seg (value.text escapeText)).frames =
          (⟨.object, 1, false⟩ :: opened) ++ rest := by
        simp [WriterView.child, hframes]
      have hend : Results told (RewriteState.closeObjects env _) _ _ := results_chainEnd hs (x := { x with
        writer := x.writer.child seg (value.text escapeText) })
        ((WriterView.child_mode _ _ _).trans hidle) hchild (by simpa using hopened)
      simp only [List.length_cons, chain_view hframes] at hend
      refine (hkey.next (hmissing.next hend)).congr fun s _ => ?_
      rw [RewriteState.emitChain, if_neg (show ¬segmentIsIndex seg = true from hseg)]
      simp only [if_true]
  | cons seg' path ih =>
      by_cases hseg : Json.isIndex seg = true
      · rw [if_pos hseg]
        exact results_chainIndex _ _ hseg
      rw [if_neg hseg]
      have hkey := results_write (x := x) (does_key hs hidle hframes { bytes := seg })
      obtain ⟨hmode, hplace⟩ := keyed_place hidle hframes seg
      have hbegin := results_write (x := { x with writer := x.writer.keyed seg })
        (does_beginContainer hs hmode hplace .object 0x7b)
      have hopen : ((x.writer.child seg []).opened .object 0x7b).frames =
          ⟨.object, 0, false⟩ :: ((⟨.object, 1, false⟩ :: opened) ++ rest) := by
        simp [WriterView.opened, WriterView.withFrames, WriterView.child, hframes]
      have hinner : Results told (RewriteState.emitChain env (seg' :: path) _) _ _ := ih
        (x := { x with writer := (x.writer.child seg []).opened .object 0x7b })
        ((WriterView.child_mode x.writer seg []).trans hidle) hopen (by simpa using hopened)
      have hview : ∀ t : Tree, (((x.writer.child seg []).opened .object 0x7b).add
          (Json.memberText escapeText (seg', t) ++
            List.replicate (opened.length + 1 + 1) 0x7d)).withFrames rest =
          (x.writer.add (Json.memberText escapeText (seg, .object [(seg', t)]) ++
            List.replicate (opened.length + 1) 0x7d)).withFrames rest := fun t => by
        rw [← chain_view hframes]
        simp [WriterView.opened, WriterView.child, hframes, WriterView.add, WriterView.withFrames,
          Json.memberText, Tree.text, Json.membersText, List.replicate_succ]
      simp only [List.length_cons, hview] at hinner
      have hchain : EditAction.chain value (seg' :: path) =
          if Json.isIndex seg' then none
          else (EditAction.chain value path).map fun t => .object [(seg', t)] := rfl
      have hresult : ((EditAction.chain value (seg' :: path)).map fun t =>
          ({ x with writer := (x.writer.add (Json.memberText escapeText (seg, t) ++
            List.replicate (opened.length + 1) 0x7d)).withFrames rest } : RewriteView)) =
          if Json.isIndex seg' then none
          else (EditAction.chain value path).map fun t =>
            { x with writer := (x.writer.add (Json.memberText escapeText (seg, .object [(seg', t)]) ++
              List.replicate (opened.length + 1) 0x7d)).withFrames rest } := by
        rw [hchain]
        split
        · rfl
        · rw [Option.map_map]; rfl
      rw [hresult]
      refine (hkey.next (hbegin.next hinner)).congr fun s _ => ?_
      rw [RewriteState.emitChain, if_neg (show ¬segmentIsIndex seg = true from hseg)]
      simp only [reduceCtorEq, if_false]
      rfl

/-- The last member of an object whose next segment is known. -/
theorem results_appendChain (hs : env.writer.Sinks push told) {value : Tree}
    (ha : Performs env told (.replace value)) {frame : RewriteFrame} {ms : List (Text × Tree)}
    {count : ℕ} {rest : List WriterFrame} (hidle : x.writer.mode = .idle)
    (hframes : x.writer.frames = ⟨.object, count, false⟩ :: rest)
    (hmatches : frame.prefixMatches = true) {seg : Text} {path : List Text}
    (htarget : env.options.target.drop frame.pathLen = seg :: path)
    (hnothing : ∀ step : RewriteState σ γ → RewriteState σ γ × Status,
      (∀ s : RewriteState σ γ, s.Shows told x → step s = (s, .ok)) →
      Results told step x (some { x with
        found := x.found || !([] : List (Text × Tree)).isEmpty
        writer := x.writer.children [] }))
    (hsaw : frame.sawTargetChild = ms.any fun m => m.1 = seg) :
    Results told (fun s => s.emitMissingChain env frame) x
      ((EditAction.missing ms x.found (.replace value) (some (seg :: path))).map fun more =>
        { x with found := x.found || !more.isEmpty, writer := x.writer.children more }) := by
  have haction : env.options.action = .replace := by cases ha with | replace h _ _ => exact h
  have hchain : ∀ s : RewriteState σ γ, s.Shows told x → s.emitMissingChain env frame =
      if x.found || frame.sawTargetChild || Json.isIndex seg then (s, .ok)
      else
        andThenOk (s.write fun w => w.key env.writer { bytes := seg }) fun s =>
          if path = [] then
            ({ (s.emitMissing env).1 with found := (s.emitMissing env).2 = .ok },
              (s.emitMissing env).2)
          else
            andThenOk (s.write fun w => w.beginObject env.writer) fun s =>
              andThenOk (s.emitChain env path 1) fun s => ({ s with found := true }, .ok) := by
    intro s hshow
    have hindex : segmentIsIndex seg = Json.isIndex seg := rfl
    rw [RewriteState.emitMissingChain, htarget, hshow.found, haction, hmatches]
    dsimp only
    rw [hindex]
    cases x.found <;> cases frame.sawTargetChild <;> simp
  refine Results.congr ?_ hchain
  rw [hsaw, EditAction.missing]
  by_cases hnone : (x.found || Json.isIndex seg || ms.any fun m => m.1 = seg) = true
  · rw [if_pos hnone]
    refine hnothing _ fun s _ => if_pos ?_
    rw [← hnone, Bool.or_right_comm]
  rw [if_neg hnone]
  have hkey := results_write (x := x) (does_key hs hidle hframes { bytes := seg })
  obtain ⟨hmode, hplace⟩ := keyed_place hidle hframes seg
  have hfound : x.found = false := by
    cases hx : x.found
    · rfl
    · simp [hx] at hnone
  have hskip : ¬(x.found || (ms.any fun m => m.1 = seg) || Json.isIndex seg) = true := by
    rw [Bool.or_right_comm]
    exact hnone
  cases path with
  | nil =>
      have hmissing := results_emitMissing (x := { x with writer := x.writer.keyed seg }) ha hmode
        hplace
      rw [WriterView.child_add] at hmissing
      have hdone : Results told
          (fun s => ({ (RewriteState.emitMissing env s).1 with
              found := (RewriteState.emitMissing env s).2 = .ok }, (RewriteState.emitMissing env s).2))
          { x with writer := x.writer.keyed seg }
          (some { x with found := true, writer := x.writer.child seg (value.text escapeText) }) := by
        intro s hshow
        obtain ⟨s', hstep, hs'⟩ := hmissing s hshow
        refine ⟨{ s' with found := true }, ?_, { hs' with found := rfl }⟩
        simp [hstep]
      have hresult : ((EditAction.chain value []).map fun t => [(seg, t)]).map
          (fun more => ({ x with
            found := x.found || !more.isEmpty, writer := x.writer.children more } : RewriteView)) =
          some { x with found := true, writer := x.writer.child seg (value.text escapeText) } := by
        simp [EditAction.chain, WriterView.children]
      rw [hresult]
      refine (hkey.next hdone).congr fun s _ => ?_
      rw [if_neg hskip]
      simp only [if_true]
  | cons seg' path =>
      have hbegin := results_write (x := { x with writer := x.writer.keyed seg })
        (does_beginContainer hs hmode hplace .object 0x7b)
      have hopen : ((x.writer.child seg []).opened .object 0x7b).frames =
          ⟨.object, 0, false⟩ :: ([] ++ (x.writer.child seg []).frames) := by
        simp [WriterView.opened, WriterView.withFrames]
      have hinner : Results told (RewriteState.emitChain env (seg' :: path) _) _ _ := results_chain hs ha
        (x := { x with writer := (x.writer.child seg []).opened .object 0x7b })
        ((WriterView.child_mode x.writer seg []).trans hidle) hopen (by simp)
      have hview : ∀ t : Tree, (((x.writer.child seg []).opened .object 0x7b).add
          (Json.memberText escapeText (seg', t) ++ List.replicate 1 0x7d)).withFrames
            (x.writer.child seg []).frames =
          x.writer.children [(seg, .object [(seg', t)])] := fun t => by
        rw [show x.writer.children [(seg, .object [(seg', t)])] =
          x.writer.child seg (Tree.text escapeText (.object [(seg', t)])) from rfl,
          ← WriterView.child_add x.writer seg (Tree.text escapeText _)]
        simp [WriterView.opened, WriterView.add, WriterView.withFrames, Json.memberText, Tree.text,
          Json.membersText]
      simp only [List.length_nil, hview] at hinner
      have hfinish : ∀ y : RewriteView, Results (σ := σ) (γ := γ) told
          (fun s => ({ s with found := true }, .ok)) y (some { y with found := true }) :=
        fun y => Results.pure _ fun s hshow => { hshow with found := rfl }
      have hstep := hkey.next (hbegin.next (hinner.andThen
        (f := fun y => some { y with found := true }) fun y _ => hfinish y))
      have hresult : ((EditAction.chain value (seg' :: path)).map fun t => [(seg, t)]).map
          (fun more => ({ x with
            found := x.found || !more.isEmpty, writer := x.writer.children more } : RewriteView)) =
          (if Json.isIndex seg' then none
          else (EditAction.chain value path).map fun t =>
            ({ x with writer := x.writer.children [(seg, .object [(seg', t)])] } : RewriteView)).bind
            fun y => some { y with found := true } := by
        rw [EditAction.chain]
        split
        · rfl
        · cases EditAction.chain value path <;> simp
      rw [hresult]
      refine hstep.congr fun s _ => ?_
      rw [if_neg hskip]
      simp only [reduceCtorEq, if_false]
      rfl

/-- The last member of an object that is left. -/
theorem results_emitMissingChain (hs : env.writer.Sinks push told) {a : EditAction}
    (ha : Performs env told a) {frame : RewriteFrame} {ms : List (Text × Tree)} {count : ℕ}
    {rest : List WriterFrame} (hidle : x.writer.mode = .idle)
    (hframes : x.writer.frames = ⟨.object, count, false⟩ :: rest)
    (hsaw : frame.sawTargetChild =
      ms.any fun m => (below m.1 (frame.rest env.options.target)).isSome) :
    Results told (fun s => s.emitMissingChain env frame) x
      ((EditAction.missing ms x.found a (frame.rest env.options.target)).map fun more =>
        { x with found := x.found || !more.isEmpty, writer := x.writer.children more }) := by
  have hnothing : ∀ step : RewriteState σ γ → RewriteState σ γ × Status,
      (∀ s : RewriteState σ γ, s.Shows told x → step s = (s, .ok)) →
      Results told step x (some { x with
        found := x.found || !([] : List (Text × Tree)).isEmpty
        writer := x.writer.children [] }) := fun step hstep s hshow =>
    ⟨s, hstep s hshow, { hshow with found := by simp [hshow.found] }⟩
  cases ha' : a with
  | keep =>
      cases ha'
      cases ha with
      | keep ha =>
          refine hnothing _ fun s _ => ?_
          rw [RewriteState.emitMissingChain, if_pos (by simp [ha])]
  | drop =>
      cases ha'
      cases ha with
      | drop ha =>
          refine hnothing _ fun s _ => ?_
          rw [RewriteState.emitMissingChain, if_pos (by simp [ha])]
  | replace value =>
      cases ha'
      have haction : env.options.action = .replace := by cases ha with | replace h _ _ => exact h
      rw [RewriteFrame.rest] at hsaw ⊢
      by_cases hmatches : frame.prefixMatches = true
      · rw [if_pos hmatches] at hsaw ⊢
        cases htarget : env.options.target.drop frame.pathLen with
        | nil =>
            refine hnothing _ fun s _ => ?_
            rw [RewriteState.emitMissingChain, htarget, ite_self]
        | cons seg path =>
            refine results_appendChain hs ha hidle hframes hmatches htarget hnothing ?_
            rw [hsaw, htarget]
            congr 1
            funext m
            by_cases hm : seg = m.1
            · simp [below, hm]
            · simp [below, hm, Ne.symm hm]
      · rw [if_neg hmatches]
        refine hnothing _ fun s _ => ?_
        rw [RewriteState.emitMissingChain, if_pos (by simp [hmatches])]

/-! ## Containers -/

theorem results_containerBegin (hs : env.writer.Sinks push told) {a : EditAction}
    (ha : Performs env told a) (h : x.Fits) (hskip : x.skip = 0) (kind : ContainerKind)
    (type : OldValueType) (event : VisitEvent) (mark : Byte) (t : Tree) :
    Results told
      (RewriteState.containerBegin env kind type event
        fun w => Writer.beginContainer env.writer kind mark w) x
      (some (if Copies env x.frames then
          { x.copying env.options.target with
            writer := (x.writer.child (keyAt x.frames) []).opened kind mark
            frames := { kind, pathLen := pathLenAt x.frames
                        prefixMatches := (restAt env.options.target x.frames).isSome } ::
              countTop env.options.target x.frames }
        else { x.after env.options.target (a.apply t, true) with skip := 1 })) := by
  have hbefore := results_beforeValue hs ha h hskip
  have hbegin : ∀ s : RewriteState σ γ, s.Shows told x →
      s.containerBegin env kind type event (fun w => Writer.beginContainer env.writer kind mark w) =
        andThenOk (s.beforeValue env) fun s =>
          if !Copies env x.frames then
            if s.currentReplace then
              RewriteState.visitOld env
                { s.beginReplaceWith type with replaceDepth := 1, currentReplace := false } event
            else ({ s with skipping := true, skipDepth := 1 }, .ok)
          else
            andThenOk (s.write fun w => Writer.beginContainer env.writer kind mark w) fun s =>
              s.pushFrame env kind (pathLenAt x.frames)
                (restAt env.options.target x.frames).isSome := fun s hshow => by
    have hskipping : s.skipping = false := by simp [hshow.skipping, hskip]
    rw [RewriteState.containerBegin, if_neg (by simp [hshow.replacing]),
      if_neg (by simp [hskipping])]
    dsimp only
    rw [copies_place hshow hskip, place_eq hskipping, hshow.frames]
  refine Results.congr ?_ hbegin
  cases hcopies : Copies env x.frames with
  | true =>
      rw [before_copies ha hcopies] at hbefore
      have hwrite := results_write (x := x.copying env.options.target)
        (does_beginContainer hs h.keyed.1 h.keyed.2 kind mark)
      have hpush : Results told
          (fun s => s.pushFrame env kind (pathLenAt x.frames)
            (restAt env.options.target x.frames).isSome)
          { x.copying env.options.target with
            writer := (x.writer.child (keyAt x.frames) []).opened kind mark }
          (some { x.copying env.options.target with
            writer := (x.writer.child (keyAt x.frames) []).opened kind mark
            frames := { kind, pathLen := pathLenAt x.frames
                        prefixMatches := (restAt env.options.target x.frames).isSome } ::
              countTop env.options.target x.frames }) := fun s hshow =>
        ⟨{ s with frames := _ :: s.frames }, if_pos (hs.canGrow _ _),
          { hshow with frames := by rw [hshow.frames]; rfl }⟩
      exact hbefore.next ((hwrite.next hpush).congr fun s _ => by simp)
  | false =>
      obtain ⟨hrest, hedited⟩ := before_edited ha hcopies t
      rw [hedited] at hbefore
      refine hbefore.next ?_
      intro s hshow
      refine ⟨{ s with skipping := true, skipDepth := 1 }, by simp [hshow.currentReplace], ?_⟩
      exact { hshow with skipping := by simp, skipDepth := fun _ => rfl }

theorem results_popFrame {frame : RewriteFrame} {rest : List RewriteFrame}
    (hframes : x.frames = frame :: rest) :
    Results (σ := σ) (γ := γ) told RewriteState.popFrame x (some { x with frames := rest }) :=
  fun s hshow => ⟨{ s with frames := rest }, by rw [RewriteState.popFrame, hshow.frames, hframes],
    { hshow with frames := rfl }⟩

/-- The end of a container that has been copied. -/
theorem containerEnd_copied {s : RewriteState σ γ} (hshow : s.Shows told x) (hskip : x.skip = 0)
    (event : VisitEvent) (close : RewriteState σ γ → RewriteState σ γ × Status) :
    s.containerEnd env event close = close s := by
  rw [RewriteState.containerEnd, if_neg (by simp [hshow.replacing]),
    if_neg (by simp [hshow.skipping, hskip])]

theorem results_objectEnd (hs : env.writer.Sinks push told) {a : EditAction}
    (ha : Performs env told a) (hskip : x.skip = 0) {frame : RewriteFrame}
    {frames : List RewriteFrame} (hx : x.frames = frame :: frames) (hkind : frame.kind = .object)
    {ms : List (Text × Tree)} {count : ℕ} {rest : List WriterFrame} (hidle : x.writer.mode = .idle)
    (hframes : x.writer.frames = ⟨.object, count, false⟩ :: rest)
    (hsaw : frame.sawTargetChild =
      ms.any fun m => (below m.1 (frame.rest env.options.target)).isSome) :
    Results told (rewriteEvent env .objectEnd) x
      ((EditAction.missing ms x.found a (frame.rest env.options.target)).map fun more =>
        { x with
          found := x.found || !more.isEmpty
          frames
          writer := ((x.writer.children more).add [0x7d]).withFrames rest }) := by
  have hmissing := results_emitMissingChain hs ha hidle hframes hsaw
  have hend : ∀ y : RewriteView,
      (EditAction.missing ms x.found a (frame.rest env.options.target)).map (fun more =>
        ({ x with found := x.found || !more.isEmpty, writer := x.writer.children more } :
          RewriteView)) = some y →
      Results told
        (fun s => andThenOk (s.write fun w => w.endObject env.writer) fun s => s.popFrame) y
        (some { y with frames, writer := (y.writer.add [0x7d]).withFrames rest }) := by
    intro y hy
    obtain ⟨more, -, rfl⟩ := Option.map_eq_some_iff.mp hy
    have hchildren := children_members hframes more
    have hclose : Does told (Writer.endObject env.writer) (x.writer.children more) _ :=
      does_endObject hs (by rw [hchildren]; exact hidle)
        (show _ = ⟨.object, count + more.length, false⟩ :: rest by rw [hchildren]; rfl)
    exact (results_write hclose).next (results_popFrame hx)
  have hresult := hmissing.andThen hend
  rw [Option.map_eq_bind, Option.bind_assoc] at hresult
  rw [Option.map_eq_bind]
  refine hresult.congr fun s hshow => ?_
  obtain ⟨kind, pathLen, fcount, prefixMatches, saw, key⟩ := frame
  cases hkind
  rw [rewriteEvent, rewriteObjectEnd, containerEnd_copied hshow hskip, hshow.frames, hx]

theorem results_arrayEnd (hs : env.writer.Sinks push told) (hskip : x.skip = 0)
    {frame : RewriteFrame} {frames : List RewriteFrame} (hx : x.frames = frame :: frames)
    (hkind : frame.kind = .array) {count : ℕ} {rest : List WriterFrame}
    (hidle : x.writer.mode = .idle) (hframes : x.writer.frames = ⟨.array, count, false⟩ :: rest) :
    Results told (rewriteEvent env .arrayEnd) x
      (some { x with frames, writer := (x.writer.add [0x5d]).withFrames rest }) := by
  have hclose : Results told (fun s => s.write fun w => w.endArray env.writer) x _ :=
    results_write (does_endArray hs hidle hframes)
  refine (hclose.next (results_popFrame hx)).congr fun s hshow => ?_
  obtain ⟨kind, pathLen, fcount, prefixMatches, saw, key⟩ := frame
  cases hkind
  rw [rewriteEvent, rewriteArrayEnd, containerEnd_copied hshow hskip, hshow.frames, hx]

/-! ## Every tree -/

/-- A view in front of a key or a value. -/
structure RewriteView.Ready (x : RewriteView) (limit : ℕ) : Prop where
  fits : x.Fits
  skip : x.skip = 0
  emit : x.emit = false
  limit : limit ≤ x.writer.maxNumberBytes
  max : x.writer.maxNumberBytes < sizeMax

/-- The frame behind some members. -/
def countMembers (target : List Bytes) (ms : List (Text × Tree)) (frame : RewriteFrame) :
    RewriteFrame :=
  ms.foldl (fun frame m => RewriteFrame.count1 target { frame with key := m.1 }) frame

/-- The frame behind some items. -/
def countItems (target : List Bytes) (ts : List Tree) (frame : RewriteFrame) : RewriteFrame :=
  ts.foldl (fun frame _ => frame.count1 target) frame

theorem RewriteView.Ready.after {limit : ℕ} (h : x.Ready limit) {frame : RewriteFrame}
    {frames : List RewriteFrame} (hx : x.frames = frame :: frames) (target : List Bytes)
    (r : Option Tree × Bool) : (x.after target r).Ready limit := by
  obtain ⟨⟨hidle, hframes⟩, hskip, hemit, hlimit, hmax⟩ := h
  rw [hx] at hframes
  obtain ⟨count, rest, hframes⟩ := hframes
  obtain ⟨t, found⟩ := r
  cases t with
  | none =>
      refine ⟨⟨hidle, ?_⟩, hskip, hemit, hlimit, hmax⟩
      simp only [RewriteView.after, hx, countTop]
      exact ⟨count, rest, hframes⟩
  | some t =>
      refine ⟨⟨(WriterView.child_mode _ _ _).trans hidle, ?_⟩, hskip, hemit,
        by simpa [RewriteView.after, WriterView.child_limit] using hlimit,
        by simpa [RewriteView.after, WriterView.child_limit] using hmax⟩
      simp only [RewriteView.after, hx, countTop]
      refine ⟨count + 1, rest, ?_⟩
      cases hkind : frame.kind with
      | object => simp [WriterView.child, hframes, hkind, RewriteFrame.count1]
      | array => simp [WriterView.child, hframes, hkind, RewriteFrame.count1]

theorem countMembers_spec (target : List Bytes) (ms : List (Text × Tree)) (frame : RewriteFrame)
    (hkind : frame.kind = .object) :
    (countMembers target ms frame).kind = .object ∧
      (countMembers target ms frame).rest target = frame.rest target ∧
      (countMembers target ms frame).sawTargetChild = (frame.sawTargetChild ||
        ms.any fun m => (below m.1 (frame.rest target)).isSome) := by
  induction ms generalizing frame with
  | nil => simp [countMembers, hkind]
  | cons m ms ih =>
      have hnext := ih (RewriteFrame.count1 target { frame with key := m.1 }) hkind
      refine ⟨hnext.1, hnext.2.1, hnext.2.2.trans ?_⟩
      simp only [RewriteFrame.count1, childMatches_eq, RewriteFrame.segment, hkind, List.any_cons,
        Bool.or_assoc]
      rfl

theorem countItems_kind (target : List Bytes) (ts : List Tree) (frame : RewriteFrame) :
    (countItems target ts frame).kind = frame.kind := by
  induction ts generalizing frame with
  | nil => rfl
  | cons t ts ih => exact (ih _).trans rfl

/-- The key of the next member is taken up. -/
theorem results_key (hskip : x.skip = 0) {frame : RewriteFrame} {frames : List RewriteFrame}
    (hx : x.frames = frame :: frames) (chunks : List Bytes) {es : List VisitEvent}
    {o : Option RewriteView}
    (h : Results told (rewriteEvents env es)
      { x with frames := { frame with key := chunks.flatten } :: frames } o) :
    Results told (rewriteEvents env (.keyBegin :: (chunks.map .keyChunk ++ .keyEnd :: es))) x o := by
  have hbegin : Results told (rewriteEvent env .keyBegin) x
      (some { x with frames := { frame with key := [] } :: frames }) := fun s hshow =>
    ⟨{ s with frames := withKey (fun _ => []) s.frames },
      by simp [rewriteEvent, rewriteKeyBegin, hshow.replacing, hshow.skipping, hskip],
      { hshow with frames := by rw [hshow.frames, hx]; rfl }⟩
  have hchunks : ∀ key : Bytes, Results told (rewriteEvents env (chunks.map .keyChunk))
      { x with frames := { frame with key } :: frames }
      (some { x with frames := { frame with key := key ++ chunks.flatten } :: frames }) := by
    clear h
    induction chunks with
    | nil =>
        intro key
        rw [List.flatten_nil, List.append_nil]
        exact results_nil
    | cons chunk chunks ih =>
        intro key
        rw [List.flatten_cons, ← List.append_assoc]
        refine Results.events_cons ?_ (ih (key ++ chunk))
        exact fun s hshow => ⟨{ s with frames := withKey (· ++ chunk) s.frames },
          by simp [rewriteEvent, rewriteKeyChunk, hshow.replacing, hshow.skipping, hskip],
          { hshow with frames := by rw [hshow.frames]; rfl }⟩
  have hend : Results told (rewriteEvent env .keyEnd)
      { x with frames := { frame with key := chunks.flatten } :: frames }
      (some { x with frames := { frame with key := chunks.flatten } :: frames }) :=
    (Results.pure id fun _ hs => hs).congr fun s hshow => by
      simp [rewriteEvent, rewriteKeyEnd, hshow.replacing]
  exact hbegin.events_cons ((hchunks []).event_list (hend.events_cons h))

/-- A container that is dropped or replaced. -/
theorem results_edited {a : EditAction} {t : Tree} {limit : ℕ} (hx : x.Ready limit)
    (hrest : restAt env.options.target x.frames = some [])
    (hedit : a.edit (some []) x.found t = some (a.apply t, true)) {begin close : VisitEvent}
    {es : List VisitEvent}
    (hbegin : Results told (rewriteEvent env begin) x
      (some { x.after env.options.target (a.apply t, true) with skip := 1 }))
    (hes : ∀ y : RewriteView, y.skip ≠ 0 → y.emit = false →
      Results told (rewriteEvents env es) y (some y))
    (hclose : ∀ (n : ℕ) (y : RewriteView), y.skip = n + 1 →
      Results told (rewriteEvent env close) y (some { y with skip := n })) :
    Results told (rewriteEvents env (begin :: (es ++ [close]))) x
      ((a.edit (restAt env.options.target x.frames) x.found t).map
        (x.after env.options.target)) := by
  rw [hrest, hedit]
  have hend := hclose 0 { x.after env.options.target (a.apply t, true) with skip := 1 } rfl
  have hview : { x.after env.options.target (a.apply t, true) with skip := 0 } =
      x.after env.options.target (a.apply t, true) := by
    rw [← hx.skip]
    rfl
  rw [hview] at hend
  exact hbegin.events_cons ((hes { x.after env.options.target (a.apply t, true) with skip := 1 }
    (by simp) hx.emit).event_list hend.event)

variable {limit : ℕ}

/-- The members of an object that is copied, and its end. -/
theorem results_object (hs : env.writer.Sinks push told) {a : EditAction}
    (ha : Performs env told a) (hx : x.Ready limit) (hcopies : Copies env x.frames = true)
    {ms : List (Text × Tree)} {es : List VisitEvent}
    (hes : ∀ (y : RewriteView) (frame : RewriteFrame) (frames : List RewriteFrame),
      y.Ready limit → y.frames = frame :: frames → frame.kind = .object →
      Results told (rewriteEvents env es) y
        ((a.editMembers (frame.rest env.options.target) y.found ms).map fun r =>
          { y with
            frames := countMembers env.options.target ms frame :: frames
            found := r.2
            writer := y.writer.children r.1 })) :
    Results told (rewriteEvents env (.objectBegin :: (es ++ [.objectEnd]))) x
      ((a.edit (restAt env.options.target x.frames) x.found (.object ms)).map
        (x.after env.options.target)) := by
  have hbegin := results_containerBegin hs ha hx.fits hx.skip .object .object .objectBegin 0x7b
    (.object ms)
  rw [hcopies, if_pos rfl] at hbegin
  have hopen : ((x.writer.child (keyAt x.frames) []).opened .object 0x7b).frames =
      ⟨.object, 0, false⟩ :: (x.writer.child (keyAt x.frames) []).frames := rfl
  have hidle : ((x.writer.child (keyAt x.frames) []).opened .object 0x7b).mode = .idle :=
    (WriterView.child_mode _ _ _).trans hx.fits.1
  have hlimit : ((x.writer.child (keyAt x.frames) []).opened .object 0x7b).maxNumberBytes =
      x.writer.maxNumberBytes := WriterView.child_limit _ _ _
  have hmembers := hes { x.copying env.options.target with
    writer := (x.writer.child (keyAt x.frames) []).opened .object 0x7b
    frames := { kind := .object, pathLen := pathLenAt x.frames
                prefixMatches := (restAt env.options.target x.frames).isSome } ::
      countTop env.options.target x.frames } _ _
    ⟨⟨hidle, 0, _, hopen⟩, hx.skip, hx.emit, hlimit ▸ hx.limit, hlimit ▸ hx.max⟩ rfl rfl
  rw [rest_pushed] at hmembers
  obtain ⟨hkind, hrest, hsaw⟩ := countMembers_spec env.options.target ms
    { kind := .object, pathLen := pathLenAt x.frames
      prefixMatches := (restAt env.options.target x.frames).isSome } rfl
  rw [rest_pushed] at hrest hsaw
  have hend := fun (r : List (Text × Tree) × Bool) =>
    results_objectEnd hs ha (x := { x.copying env.options.target with
      writer := ((x.writer.child (keyAt x.frames) []).opened .object 0x7b).children r.1
      frames := countMembers env.options.target ms
          { kind := .object, pathLen := pathLenAt x.frames
            prefixMatches := (restAt env.options.target x.frames).isSome } ::
        countTop env.options.target x.frames
      found := r.2 }) hx.skip rfl hkind
      (by rw [children_members hopen]; exact hidle)
      (show _ = ⟨.object, r.1.length, false⟩ :: (x.writer.child (keyAt x.frames) []).frames by
        rw [children_members hopen, Nat.zero_add]; rfl)
      (show _ = ms.any _ by rw [hsaw, hrest, Bool.false_or])
  rw [hrest] at hend
  have hview : ∀ (ms' : List (Text × Tree)) (more : List (Text × Tree)),
      (((((x.writer.child (keyAt x.frames) []).opened .object 0x7b).children ms').children
        more).add [0x7d]).withFrames (x.writer.child (keyAt x.frames) []).frames =
      x.writer.child (keyAt x.frames) (Tree.text escapeText (.object (ms' ++ more))) := by
    intro ms' more
    have happend : (((x.writer.child (keyAt x.frames) []).opened .object 0x7b).children
        ms').children more =
        ((x.writer.child (keyAt x.frames) []).opened .object 0x7b).children (ms' ++ more) := by
      rw [WriterView.children, WriterView.children, WriterView.children, List.foldl_append]
    rw [happend, children_members hopen,
      ← WriterView.child_add x.writer (keyAt x.frames) (Tree.text escapeText _)]
    simp [WriterView.opened, WriterView.add, WriterView.withFrames, Tree.text]
  simp only [hview] at hend
  rw [EditAction.edit_object ms ((copies_iff ha x.frames).mp hcopies), Option.map_bind]
  refine hbegin.events_cons ((hmembers.events_map fun r _ => (hend r).event).congr_result ?_)
  congr 1
  funext r
  rw [Function.comp, Option.map_map]
  rfl

/-- The items of an array that is copied, and its end. -/
theorem results_array (hs : env.writer.Sinks push told) {a : EditAction}
    (ha : Performs env told a) (hx : x.Ready limit) (hcopies : Copies env x.frames = true)
    {ts : List Tree} {es : List VisitEvent}
    (hes : ∀ (y : RewriteView) (frame : RewriteFrame) (frames : List RewriteFrame),
      y.Ready limit → y.frames = frame :: frames → frame.kind = .array → frame.count = 0 →
      Results told (rewriteEvents env es) y
        ((a.editItems (frame.rest env.options.target) 0 y.found ts).map fun r =>
          { y with
            frames := countItems env.options.target ts frame :: frames
            found := r.2
            writer := y.writer.children (r.1.map fun t => (frame.key, t)) })) :
    Results told (rewriteEvents env (.arrayBegin :: (es ++ [.arrayEnd]))) x
      ((a.edit (restAt env.options.target x.frames) x.found (.array ts)).map
        (x.after env.options.target)) := by
  have hbegin := results_containerBegin hs ha hx.fits hx.skip .array .array .arrayBegin 0x5b
    (.array ts)
  rw [hcopies, if_pos rfl] at hbegin
  have hopen : ((x.writer.child (keyAt x.frames) []).opened .array 0x5b).frames =
      ⟨.array, 0, false⟩ :: (x.writer.child (keyAt x.frames) []).frames := rfl
  have hidle : ((x.writer.child (keyAt x.frames) []).opened .array 0x5b).mode = .idle :=
    (WriterView.child_mode _ _ _).trans hx.fits.1
  have hlimit : ((x.writer.child (keyAt x.frames) []).opened .array 0x5b).maxNumberBytes =
      x.writer.maxNumberBytes := WriterView.child_limit _ _ _
  have hitems := hes { x.copying env.options.target with
    writer := (x.writer.child (keyAt x.frames) []).opened .array 0x5b
    frames := { kind := .array, pathLen := pathLenAt x.frames
                prefixMatches := (restAt env.options.target x.frames).isSome } ::
      countTop env.options.target x.frames } _ _
    ⟨⟨hidle, 0, _, hopen⟩, hx.skip, hx.emit, hlimit ▸ hx.limit, hlimit ▸ hx.max⟩ rfl rfl rfl
  rw [rest_pushed] at hitems
  have hend := fun (r : List Tree × Bool) =>
    results_arrayEnd hs (x := { x.copying env.options.target with
      writer := ((x.writer.child (keyAt x.frames) []).opened .array 0x5b).children
        (r.1.map fun t => ([], t))
      frames := countItems env.options.target ts
          { kind := .array, pathLen := pathLenAt x.frames
            prefixMatches := (restAt env.options.target x.frames).isSome } ::
        countTop env.options.target x.frames
      found := r.2 }) hx.skip rfl (countItems_kind _ _ _)
      (by rw [children_items hopen]; exact hidle)
      (show _ = ⟨.array, r.1.length, false⟩ :: (x.writer.child (keyAt x.frames) []).frames by
        rw [children_items hopen, Nat.zero_add]; rfl)
  have hview : ∀ ts' : List Tree,
      ((((x.writer.child (keyAt x.frames) []).opened .array 0x5b).children
        (ts'.map fun t => ([], t))).add [0x5d]).withFrames
          (x.writer.child (keyAt x.frames) []).frames =
      x.writer.child (keyAt x.frames) (Tree.text escapeText (.array ts')) := by
    intro ts'
    rw [children_items hopen,
      ← WriterView.child_add x.writer (keyAt x.frames) (Tree.text escapeText _)]
    simp [WriterView.opened, WriterView.add, WriterView.withFrames, Tree.text]
  simp only [hview] at hend
  rw [EditAction.edit_array ts ((copies_iff ha x.frames).mp hcopies), Option.map_map,
    Option.map_eq_bind]
  exact hbegin.events_cons (hitems.events_map fun r _ => (hend r).event)

mutual

theorem results_value (hs : env.writer.Sinks push told) {a : EditAction}
    (ha : Performs env told a) {t : Tree} {es : List VisitEvent} {x : RewriteView}
    (hx : x.Ready limit) : EventsOf limit t es → Results told (rewriteEvents env es) x
      ((a.edit (restAt env.options.target x.frames) x.found t).map
        (x.after env.options.target))
  | .null => (results_literal hs ha hx.fits hx.skip
      (fun _ _ hidle hplace => does_null hs hidle hplace) fun _ _ => rfl).event
  | .bool => (results_literal hs ha hx.fits hx.skip
      (fun _ _ hidle hplace => does_bool hs hidle hplace _) fun _ _ => rfl).event
  | .number h hlen =>
      results_number hs ha hx.fits hx.skip hx.emit h (hlen.trans hx.limit) hx.max
  | .string => results_string hs ha hx.fits hx.skip hx.emit _
  | @EventsOf.array _ ts es h => by
      cases hcopies : Copies env x.frames with
      | true => exact results_array hs ha hx hcopies fun y frame frames hy hframes hkind hcount =>
          results_items hs ha hy hframes hkind hcount h
      | false =>
          have hbegin := results_containerBegin hs ha hx.fits hx.skip .array .array .arrayBegin
            0x5b (.array ts)
          rw [hcopies, if_neg (by simp)] at hbegin
          exact results_edited hx (before_edited ha hcopies .null).1
            (by rw [EditAction.edit, if_pos rfl]) hbegin
            (fun y hskip hemit => results_skipItems hskip hemit h)
            fun n y hskip => results_skipEnd hskip _ _
  | @EventsOf.object _ ms es h => by
      cases hcopies : Copies env x.frames with
      | true => exact results_object hs ha hx hcopies fun y frame frames hy hframes hkind =>
          results_members hs ha hy hframes hkind h
      | false =>
          have hbegin := results_containerBegin hs ha hx.fits hx.skip .object .object .objectBegin
            0x7b (.object ms)
          rw [hcopies, if_neg (by simp)] at hbegin
          exact results_edited hx (before_edited ha hcopies .null).1
            (by rw [EditAction.edit, if_pos rfl]) hbegin
            (fun y hskip hemit => results_skipMembers hskip hemit h)
            fun n y hskip => results_skipEnd hskip _ _

theorem results_items (hs : env.writer.Sinks push told) {a : EditAction}
    (ha : Performs env told a) {ts : List Tree} {es : List VisitEvent} {x : RewriteView}
    (hx : x.Ready limit) {frame : RewriteFrame} {frames : List RewriteFrame}
    (hframes : x.frames = frame :: frames) (hkind : frame.kind = .array) {i : ℕ}
    (hcount : frame.count = i) :
    EventsOfItems limit ts es → Results told (rewriteEvents env es) x
      ((a.editItems (frame.rest env.options.target) i x.found ts).map fun r =>
        { x with
          frames := countItems env.options.target ts frame :: frames
          found := r.2
          writer := x.writer.children (r.1.map fun t => (frame.key, t)) })
  | .nil => by
      have hview : ({ x with frames := frame :: frames, writer := x.writer.children [] } :
          RewriteView) = x := by
        rw [← hframes]
        rfl
      rw [EditAction.editItems, Option.map_some]
      exact hview.symm ▸ results_nil
  | .cons h hts => by
      have hvalue := results_value hs ha hx h
      have hrest : restAt env.options.target x.frames =
          below (decimal i) (frame.rest env.options.target) := by
        rw [hframes, restAt, RewriteFrame.segment, hkind, hcount]
      rw [hrest] at hvalue
      have hnext := fun (r : Option Tree × Bool) =>
        results_items hs ha (x := x.after env.options.target r) (hx.after hframes _ _)
          (show _ = frame.count1 env.options.target :: frames by
            simp only [RewriteView.after, hframes, countTop]) hkind
          (by simp [RewriteFrame.count1, hkind, hcount] : _ = i + 1) hts
      rw [EditAction.editItems, Option.map_bind]
      refine (hvalue.events_map fun r _ => hnext r).congr_result ?_
      congr 1
      funext r
      rw [Function.comp, Option.map_map]
      congr 1
      funext rs
      obtain ⟨_ | t, found⟩ := r
      · simp [RewriteView.after, RewriteFrame.count1, countItems]
      · simp [RewriteView.after, RewriteFrame.count1, countItems, hframes, keyAt,
          WriterView.children]

theorem results_members (hs : env.writer.Sinks push told) {a : EditAction}
    (ha : Performs env told a) {ms : List (Text × Tree)} {es : List VisitEvent} {x : RewriteView}
    (hx : x.Ready limit) {frame : RewriteFrame} {frames : List RewriteFrame}
    (hframes : x.frames = frame :: frames) (hkind : frame.kind = .object) :
    EventsOfMembers limit ms es → Results told (rewriteEvents env es) x
      ((a.editMembers (frame.rest env.options.target) x.found ms).map fun r =>
        { x with
          frames := countMembers env.options.target ms frame :: frames
          found := r.2
          writer := x.writer.children r.1 })
  | .nil => by
      have hview : ({ x with frames := frame :: frames, writer := x.writer.children [] } :
          RewriteView) = x := by
        rw [← hframes]
        rfl
      rw [EditAction.editMembers, Option.map_some]
      exact hview.symm ▸ results_nil
  | @EventsOfMembers.cons _ chunks t ms es es' h hms => by
      have hkeyed : ({ x with frames := { frame with key := chunks.flatten } :: frames } :
          RewriteView).Ready limit := by
        refine ⟨⟨hx.fits.1, ?_⟩, hx.skip, hx.emit, hx.limit, hx.max⟩
        have hfits := hx.fits.2
        rw [hframes] at hfits
        exact hfits
      have hvalue := results_value hs ha hkeyed h
      have hrest : restAt env.options.target ({ frame with key := chunks.flatten } :: frames) =
          below chunks.flatten (frame.rest env.options.target) := by
        simp only [restAt, RewriteFrame.segment, hkind]
        rfl
      dsimp only at hvalue
      rw [hrest] at hvalue
      have hnext := fun (r : Option Tree × Bool) =>
        results_members hs ha (hkeyed.after rfl env.options.target r)
          (show _ = RewriteFrame.count1 env.options.target
            { frame with key := chunks.flatten } :: frames from rfl) hkind hms
      refine results_key hx.skip hframes chunks ?_
      rw [EditAction.editMembers, Option.map_bind]
      refine (hvalue.events_map fun r _ => hnext r).congr_result ?_
      congr 1
      funext r
      rw [Function.comp, Option.map_map]
      congr 1
      funext rs
      obtain ⟨_ | t, found⟩ := r
      · simp [RewriteView.after, RewriteFrame.count1, countMembers]
      · simp [RewriteView.after, RewriteFrame.count1, countMembers, keyAt, WriterView.children]

end

end

end Lonejson
