import Lonejson.ValueRewriting
import Lonejson.WriterPulls

/-!
# Trees as lists of calls

The lists of writer calls that describe a tree, and what they write: into a sink the text of the
tree without blanks, and the same text through the reads of a generator.
-/

namespace Lonejson

open Json (Tree commaUnless quoted)

variable {ω γ : Type} {nest : WriterNest γ} {Holds : γ → Bytes → Prop}

/-- A tree, or what is left of the items or the members of one. -/
inductive WriterPart where
  | value (t : Tree)
  | items (ts : List Tree)
  | members (ms : List (Bytes × Tree))

/-- The calls that describe a tree. A string or a number comes in one call or in pieces, a number
within the limit of the writer; a nested value comes from a generator that gives its text. -/
inductive WriterPart.Describes (nest : WriterNest γ) (Holds : γ → Bytes → Prop) (limit : ℕ) :
    WriterPart → List (WriterCall ω) → Prop where
  | null : Describes nest Holds limit (.value .null) [.null]
  | nullSource : Describes nest Holds limit (.value .null) [.nullSource]
  | bool (value : Bool) : Describes nest Holds limit (.value (.bool value)) [.bool value]
  | i64 (value : Int64) :
      Describes nest Holds limit (.value (.number (formatI64 value.toInt))) [.i64 value]
  | u64 (value : UInt64) :
      Describes nest Holds limit (.value (.number (decimalText value.toNat))) [.u64 value]
  | f64 (text : Bytes) : Describes nest Holds limit (.value (.number text)) [.f64 true (some text)]
  | numberText (data : Slice) (h : JsonNumber data.bytes) :
      Describes nest Holds limit (.value (.number data.bytes)) [.numberText data]
  | number (chunks : List Bytes) (h : JsonNumber chunks.flatten)
      (hlimit : chunks.flatten.length ≤ limit) :
      Describes nest Holds limit (.value (.number chunks.flatten))
        (.numberBegin :: (chunks.map .numberChunk ++ [.numberEnd]))
  | string (data : Slice) : Describes nest Holds limit (.value (.string data.bytes)) [.string data]
  | chunks (chunks : List Slice) :
      Describes nest Holds limit (.value (.string (chunks.map Slice.bytes).flatten))
        (.stringBegin :: (chunks.map .stringChunk ++ [.stringEnd]))
  | child (arg0 arg1 tag : ℕ) {root : GeneratorRoot} {t : Tree} {child : γ}
      (hinit : ∀ error, nest.childInit root error = .ok child)
      (htext : Holds child (t.text escapeText)) :
      Describes nest Holds limit (.value t) [.child arg0 arg1 tag root]
  | array {ts : List Tree} {calls : List (WriterCall ω)}
      (h : Describes nest Holds limit (.items ts) calls) :
      Describes nest Holds limit (.value (.array ts)) (.beginArray :: (calls ++ [.endArray]))
  | object {ms : List (Bytes × Tree)} {calls : List (WriterCall ω)}
      (h : Describes nest Holds limit (.members ms) calls) :
      Describes nest Holds limit (.value (.object ms)) (.beginObject :: (calls ++ [.endObject]))
  | noItems : Describes nest Holds limit (.items []) []
  | item {t : Tree} {ts : List Tree} {calls calls' : List (WriterCall ω)}
      (h : Describes nest Holds limit (.value t) calls)
      (h' : Describes nest Holds limit (.items ts) calls') :
      Describes nest Holds limit (.items (t :: ts)) (calls ++ calls')
  | noMembers : Describes nest Holds limit (.members []) []
  | member (key : Slice) {t : Tree} {ms : List (Bytes × Tree)} {calls calls' : List (WriterCall ω)}
      (h : Describes nest Holds limit (.value t) calls)
      (h' : Describes nest Holds limit (.members ms) calls') :
      Describes nest Holds limit (.members ((key.bytes, t) :: ms)) (.key key :: (calls ++ calls'))

/-! ## Calls in order -/

/-- The calls of a list on a writer into a sink. -/
def WriterNest.callAll (nest : WriterNest γ) :
    List (WriterCall ω) → Writer (WriterTape ω) γ → Writer (WriterTape ω) γ × Status
  | [], b => (b, .ok)
  | call :: calls, b => andThenOk (call.tape.run nest.tapeEnv b) (WriterNest.callAll nest calls)

theorem callAll_append (calls calls' : List (WriterCall ω)) (b : Writer (WriterTape ω) γ) :
    nest.callAll (calls ++ calls') b = andThenOk (nest.callAll calls b) (nest.callAll calls') := by
  induction calls generalizing b with
  | nil => rfl
  | cons call calls ih =>
      rw [List.cons_append, WriterNest.callAll, WriterNest.callAll, andThenOk_assoc]
      exact andThenOk_congr fun _ => ih _

theorem issue_callAll (calls : List (WriterCall ω)) (b : Writer (WriterTape ω) γ) :
    ((Resuming.issue .ok (fun call : WriterCall ω => call.tape.run nest.tapeEnv) calls b).1.2,
      (Resuming.issue .ok (fun call : WriterCall ω => call.tape.run nest.tapeEnv) calls b).2) =
      nest.callAll calls b := by
  induction calls generalizing b with
  | nil => rfl
  | cons call calls ih =>
      rw [Resuming.issue, WriterNest.callAll, andThenOk]
      split_ifs
      · exact ih _
      · rfl

theorem sinkRun_eq (calls : List (WriterCall ω)) (b : Writer (WriterTape ω) γ) :
    nest.sinkRun calls b = andThenOk (nest.callAll calls b) Writer.finish := by
  rw [← issue_callAll]
  rfl

theorem does_callAll {told : WriterTape ω → Bytes} {v v' v'' : WriterView}
    {calls calls' : List (WriterCall ω)} (h : Does told (@WriterNest.callAll ω γ nest calls) v v')
    (h' : Does told (@WriterNest.callAll ω γ nest calls') v' v'') :
    Does told (@WriterNest.callAll ω γ nest (calls ++ calls')) v v'' := by
  rw [show @WriterNest.callAll ω γ nest (calls ++ calls') = fun b =>
    andThenOk (nest.callAll calls b) (nest.callAll calls') from funext fun b => callAll_append _ _ b]
  exact h.andThen h'

theorem does_one {told : WriterTape ω → Bytes} {v v' : WriterView} {call : WriterCall ω}
    (h : Does told (@WriterCall.run _ γ nest.tapeEnv call.tape) v v') :
    Does told (@WriterNest.callAll ω γ nest [call]) v v' := by
  have hone : @WriterNest.callAll ω γ nest [call] = @WriterCall.run _ γ nest.tapeEnv call.tape :=
    funext fun b => andThenOk_pure _
  rw [hone]
  exact h

/-! ## The calls that are left -/

section

variable {σ : Type} {env : WriterEnv σ γ} {push : σ → Bytes → σ} {told : σ → Bytes}
  {v v' : WriterView}

theorem does_string (hs : env.Sinks push told) (hidle : v.mode = .idle) (hplace : v.place = some v')
    (data : Slice) :
    Does told (fun w => w.string env data) v (v'.add (quoted escapeText data.bytes)) := by
  intro ev hev
  have hview : ((v'.add [0x22]).add (data.bytes.flatMap writtenByte)).add [0x22] =
      v'.add (quoted escapeText data.bytes) := by
    simp [WriterView.add, quoted, escapeText]
  rw [← hview]
  exact ⟨{ buffer := ev.buffer }, rfl, (steps_beginEvent (.inl hidle) hev _ _ _).andThen <|
    (steps_inPhase rfl ((steps_beforeValue hs hidle hplace).andThen (steps_setPhase 1))).andThen <|
    (steps_inPhase rfl (steps_emitPhase hs (by simp) 2)).andThen <|
    (steps_inPhase rfl
      ((steps_emitFrom hs writtenByte_ne data.bytes rfl).andThen (steps_setPhase 3))).andThen <|
    (steps_emitPhase hs (by simp) 3).andThen steps_clearEvent⟩

theorem does_numberText (hs : env.Sinks push told) (hidle : v.mode = .idle)
    (hplace : v.place = some v') (data : Slice) (h : JsonNumber data.bytes) :
    Does told (fun w => w.numberText env data) v (v'.add data.bytes) := by
  intro ev hev
  have hvalid : isValidJsonNumber data.bytes = true := (isValidJsonNumber_iff _).mpr h
  have hsome : data.bytes.isEmpty = false := by
    cases hbytes : data.bytes with
    | nil => rw [hbytes] at hvalid; cases hvalid
    | cons b rest => rfl
  refine ⟨{ buffer := ev.buffer }, rfl, Steps.andThen (steps_check fun w _ _ => ?_) <|
    Steps.andThen (steps_check fun w _ _ => ?_) <|
    (steps_beginEvent (.inl hidle) hev _ _ _).andThen <|
    (steps_inPhase rfl ((steps_beforeValue hs hidle hplace).andThen (steps_setPhase 1))).andThen <|
    (steps_emitBytes hs data.bytes rfl).andThen steps_clearEvent⟩
  · rw [hsome, check_false]
  · rw [hvalid]
    rfl

theorem does_valueBytes (hs : env.Sinks push told) (hidle : v.mode = .idle)
    (hplace : v.place = some v') {data : Bytes} (hdata : data ≠ []) :
    Does told (fun w => w.emitValueBytes env data) v (v'.add data) :=
  Steps.does fun _ => (steps_beforeValue hs hidle hplace).andThen (steps_emit hs hdata)

end

section

variable {v v' : WriterView} {limit : ℕ}

theorem tapeEnv_sinks (hgrow : ∀ n, nest.canGrow n = true) :
    (@WriterNest.tapeEnv ω γ nest).Sinks (fun o data => { o with out := o.out ++ data })
      WriterTape.out :=
  ⟨fun _ _ _ => rfl, fun _ _ => rfl, fun _ => rfl, fun _ => rfl, fun _ n => hgrow n⟩

theorem does_stringChunks (hgrow : ∀ n, nest.canGrow n = true) (hmode : v.mode = .inString)
    (chunks : List Slice) :
    Does WriterTape.out (@WriterNest.callAll ω γ nest (chunks.map .stringChunk)) v
      (v.add (escapeText (chunks.map Slice.bytes).flatten)) := by
  induction chunks generalizing v with
  | nil =>
      have hsame : v.add (escapeText (([] : List Slice).map Slice.bytes).flatten) = v := by
        simp [WriterView.add, escapeText]
      rw [hsame]
      exact Steps.does fun _ w hw hev => ⟨w, rfl, hw, hev⟩
  | cons chunk chunks ih =>
      have hview : (v.add (escapeText chunk.bytes)).add
          (escapeText (chunks.map Slice.bytes).flatten) =
            v.add (escapeText ((chunk :: chunks).map Slice.bytes).flatten) := by
        simp [WriterView.add, escapeText]
      rw [← hview]
      exact (does_stringChunk (tapeEnv_sinks hgrow) hmode chunk).andThen (ih hmode)

theorem does_numberChunks (hlimit : v.maxNumberBytes < sizeMax) (chunks : List Bytes)
    {digits : Bytes} (hlen : digits.length + chunks.flatten.length ≤ v.maxNumberBytes) :
    Does WriterTape.out (@WriterNest.callAll ω γ nest (chunks.map .numberChunk))
      (v.enter (.inNumber digits)) (v.enter (.inNumber (digits ++ chunks.flatten))) := by
  induction chunks generalizing digits with
  | nil =>
      rw [List.flatten_nil, List.append_nil]
      exact Steps.does fun _ w hw hev => ⟨w, rfl, hw, hev⟩
  | cons chunk chunks ih =>
      rw [List.flatten_cons, List.length_append] at hlen
      rw [List.flatten_cons, ← List.append_assoc]
      have hrest := @ih (digits ++ chunk) (by rw [List.length_append]; omega)
      have hfirst : Does WriterTape.out (fun w : Writer (WriterTape ω) γ => w.numberChunk chunk)
          (v.enter (.inNumber digits)) ((v.enter (.inNumber digits)).enter (.inNumber (digits ++ chunk))) :=
        does_numberChunk rfl chunk (show _ ≤ v.maxNumberBytes by omega) hlimit
      exact hfirst.andThen hrest

theorem does_child (hgives : nest.Gives Holds) (hgrow : ∀ n, nest.canGrow n = true)
    (hidle : v.mode = .idle) (hplace : v.place = some v') (arg0 : Address) (arg1 tag : ℕ)
    {root : GeneratorRoot} {child : γ} {text : Bytes}
    (hinit : ∀ error, nest.childInit root error = .ok child) (htext : Holds child text) :
    Does WriterTape.out (fun b : Writer (WriterTape ω) γ =>
      b.childEvent nest.tapeEnv arg0 arg1 tag root) v (v'.add text) := by
  intro ev hev
  let began : WriterEvent γ :=
    { kind := .child, address := arg0, len := tag, buffer := ev.buffer, child := ev.child }
  let started : WriterEvent γ := { began with data2 := arg1, phase := 1, child := some child }
  have hset : Steps WriterTape.out (@Writer.initChild γ _ (@WriterNest.tapeEnv ω γ nest) arg1 root)
      v' began v' started := by
    intro w hw hwev
    have hok : nest.tapeEnv.childInit w.out root w.error = .ok child := hinit w.error
    rw [Writer.initChild, hok]
    exact ⟨_, rfl, { hw with }, by simp [Writer.setPhase, Writer.withChild, hwev, started]⟩
  have hstart : Steps WriterTape.out
      (fun w => w.startChild (@WriterNest.tapeEnv ω γ nest) arg1 root) v began v' started := by
    intro w hw hwev
    have hphase : w.event.phase = 0 := by rw [hwev]
    dsimp only
    rw [Writer.startChild, if_pos hphase]
    exact (steps_beforeValue (tapeEnv_sinks hgrow) hidle hplace).andThen hset w hw hwev
  have hrest : Steps WriterTape.out
      (fun w => w.childRest (@WriterNest.tapeEnv ω γ nest) w.event.child) v' started (v'.add text)
      { buffer := ev.buffer } := by
    intro w hw hwev
    have hchild : w.event.child = some child := by rw [hwev]
    dsimp only
    rw [hchild, childRest_tape hgives htext]
    refine ⟨_, rfl, { hw with out := ?_ }, ?_⟩
    · exact congrArg (· ++ text) hw.out
    · rw [Writer.nested, Writer.clearEvent, hwev]
  exact ⟨{ buffer := ev.buffer }, rfl,
    (steps_beginEvent (.inl hidle) hev .child arg0 tag).andThen (hstart.andThen hrest)⟩

/-- A container that has been closed. -/
theorem child_enclosed (v : WriterView) (key text : Bytes) (kind : ContainerKind) (mark mark' : Byte)
    (frames : List WriterFrame) :
    (((((v.child key []).opened kind mark).add text).withFrames frames).add [mark']).withFrames
        (v.child key []).frames = v.child key (mark :: (text ++ [mark'])) := by
  rw [← WriterView.child_add v key (mark :: (text ++ [mark']))]
  simp [WriterView.opened, WriterView.add, WriterView.withFrames]

theorem items_place {v : WriterView} {count : ℕ} {rest : List WriterFrame}
    (hframes : v.frames = ⟨.array, count, false⟩ :: rest) (key : Bytes) :
    v.place = some (v.child key []) := by
  simp [WriterView.place, WriterView.child, hframes]

/-- What the calls of a part do with a writer that is ready for it. -/
def WriterPart.Written (nest : WriterNest γ) (calls : List (WriterCall ω)) :
    WriterPart → WriterView → Prop
  | .value t, v => ∀ key v₀, v₀.mode = .idle → v₀.place = some (v.child key []) →
      Does WriterTape.out (@WriterNest.callAll ω γ nest calls) v₀ (v.child key (t.text escapeText))
  | .items ts, v => ∀ count rest, v.frames = ⟨.array, count, false⟩ :: rest →
      Does WriterTape.out (@WriterNest.callAll ω γ nest calls) v (v.children (ts.map fun t => ([], t)))
  | .members ms, v => ∀ count rest, v.frames = ⟨.object, count, false⟩ :: rest →
      Does WriterTape.out (@WriterNest.callAll ω γ nest calls) v (v.children ms)

/-- A value in one call, which puts its text in the place of the value. -/
theorem written_one {call : WriterCall ω} {t : Tree}
    (h : ∀ {v v' : WriterView}, v.mode = .idle → v.place = some v' →
      Does WriterTape.out (@WriterCall.run _ γ nest.tapeEnv call.tape) v (v'.add (t.text escapeText)))
    (v : WriterView) : (WriterPart.value t).Written nest [call] v := by
  intro key v₀ hidle hplace
  rw [← WriterView.child_add]
  exact does_one (h hidle hplace)

/-- A container: the call that opens it, the calls of what is in it, and the call that closes it. -/
theorem written_enclosed {kind : ContainerKind} {mark mark' : Byte} {text : Bytes} {count : ℕ}
    {first last : WriterCall ω} {calls : List (WriterCall ω)} {v v₀ : WriterView} {key : Bytes}
    (hidle : v.mode = .idle)
    (hfirst : Does WriterTape.out (@WriterCall.run _ γ nest.tapeEnv first.tape) v₀
      ((v.child key []).opened kind mark))
    (hcalls : Does WriterTape.out (@WriterNest.callAll ω γ nest calls)
      ((v.child key []).opened kind mark) ((((v.child key []).opened kind mark).add text).withFrames
        (⟨kind, count, false⟩ :: (v.child key []).frames)))
    (hlast : ∀ {u : WriterView} {rest : List WriterFrame}, u.mode = .idle →
      u.frames = ⟨kind, count, false⟩ :: rest →
      Does WriterTape.out (@WriterCall.run _ γ nest.tapeEnv last.tape) u
        ((u.add [mark']).withFrames rest)) :
    Does WriterTape.out (@WriterNest.callAll ω γ nest (first :: (calls ++ [last]))) v₀
      (v.child key (mark :: (text ++ [mark']))) := by
  have hend := hlast (u := (((v.child key []).opened kind mark).add text).withFrames
    (⟨kind, count, false⟩ :: (v.child key []).frames)) ((WriterView.child_mode v key []).trans hidle)
    rfl
  rw [← child_enclosed v key text kind mark mark' (⟨kind, count, false⟩ :: (v.child key []).frames)]
  exact hfirst.andThen (does_callAll hcalls (does_one hend))

theorem written_number (hgrow : ∀ n, nest.canGrow n = true) (hlimit : limit < sizeMax)
    {chunks : List Bytes} (h : JsonNumber chunks.flatten) (hlen : chunks.flatten.length ≤ limit)
    (hidle : v.mode = .idle) (hmax : v.maxNumberBytes = limit) :
    (WriterPart.value (.number chunks.flatten)).Written (ω := ω) nest
      (.numberBegin :: (chunks.map .numberChunk ++ [.numberEnd])) v := by
  intro key v₀ hidle₀ hplace
  have hs := @tapeEnv_sinks ω γ nest hgrow
  rw [Tree.text, ← WriterView.child_enter hidle key chunks.flatten (.inNumber chunks.flatten)]
  have hplaced : (v.child key []).maxNumberBytes = limit :=
    (WriterView.child_limit v key []).trans hmax
  have hchunks := @does_numberChunks ω γ nest (v.child key []) (by rw [hplaced]; exact hlimit)
    chunks [] (by rw [hplaced, List.length_nil, Nat.zero_add]; exact hlen)
  rw [List.nil_append] at hchunks
  have hend := does_numberEnd hs (v := (v.child key []).enter (.inNumber chunks.flatten)) rfl
    ((isValidJsonNumber_iff _).mpr h)
  exact (does_numberBegin hs hidle₀ hplace).andThen (does_callAll hchunks (does_one hend))

theorem written_chunks (hgrow : ∀ n, nest.canGrow n = true) (chunks : List Slice)
    (hidle : v.mode = .idle) :
    (WriterPart.value (.string (chunks.map Slice.bytes).flatten)).Written (ω := ω) nest
      (.stringBegin :: (chunks.map .stringChunk ++ [.stringEnd])) v := by
  intro key v₀ hidle₀ hplace
  have hs := @tapeEnv_sinks ω γ nest hgrow
  have hview : ((((((v.child key []).add [0x22]).enter .inString).add
      (escapeText (chunks.map Slice.bytes).flatten)).add [0x22]).enter .idle) =
        v.child key ((Tree.string (chunks.map Slice.bytes).flatten).text escapeText) := by
    rw [← WriterView.child_add v key ((Tree.string (chunks.map Slice.bytes).flatten).text escapeText)]
    simp [WriterView.add, WriterView.enter, Tree.text, quoted,
      (WriterView.child_mode v key []).trans hidle]
  rw [← hview]
  have hchunks := @does_stringChunks ω γ nest (((v.child key []).add [0x22]).enter .inString) hgrow
    rfl chunks
  exact (does_stringBegin hs hidle₀ hplace).andThen
    (does_callAll hchunks (does_one (does_stringEnd hs rfl)))

theorem written_describes (hgives : nest.Gives Holds) (hgrow : ∀ n, nest.canGrow n = true)
    (hlimit : limit < sizeMax) {part : WriterPart} {calls : List (WriterCall ω)}
    (h : part.Describes nest Holds limit calls) :
    ∀ v : WriterView, v.mode = .idle → v.maxNumberBytes = limit → part.Written nest calls v := by
  have hs := @tapeEnv_sinks ω γ nest hgrow
  induction h with
  | null =>
      intro v _ _
      exact written_one (fun hidle hplace => does_null hs hidle hplace) v
  | nullSource =>
      intro v _ _
      exact written_one (fun hidle hplace => does_valueBytes hs hidle hplace (by decide)) v
  | bool value =>
      intro v _ _
      exact written_one (fun hidle hplace => does_bool hs hidle hplace value) v
  | i64 value =>
      intro v _ _
      exact written_one (fun hidle hplace => does_emitScalarBytes hs hidle hplace _) v
  | u64 value =>
      intro v _ _
      exact written_one (fun hidle hplace => does_emitScalarBytes hs hidle hplace _) v
  | f64 text =>
      intro v _ _
      exact written_one (fun hidle hplace => does_emitScalarBytes hs hidle hplace _) v
  | numberText data h =>
      intro v _ _
      exact written_one (fun hidle hplace => does_numberText hs hidle hplace data h) v
  | number chunks h hlen =>
      intro v hidle hmax
      exact written_number hgrow hlimit h hlen hidle hmax
  | string data =>
      intro v _ _
      exact written_one (fun hidle hplace => does_string hs hidle hplace data) v
  | chunks chunks =>
      intro v hidle _
      exact written_chunks hgrow chunks hidle
  | child arg0 arg1 tag hinit htext =>
      intro v _ _
      exact written_one (fun hidle hplace => does_child hgives hgrow hidle hplace (.caller arg0) arg1 tag hinit htext) v
  | @array ts calls h ih =>
      intro v hidle hmax key v₀ hidle₀ hplace
      have hitems := ih ((v.child key []).opened .array 0x5b)
        ((WriterView.child_mode v key []).trans hidle)
        ((WriterView.child_limit v key []).trans hmax) 0 _ rfl
      rw [children_items (v := (v.child key []).opened .array 0x5b) rfl] at hitems
      exact written_enclosed hidle (does_beginContainer hs hidle₀ hplace .array 0x5b) hitems
        fun hmode hframes => does_endArray hs hmode hframes
  | @object ms calls h ih =>
      intro v hidle hmax key v₀ hidle₀ hplace
      have hmembers := ih ((v.child key []).opened .object 0x7b)
        ((WriterView.child_mode v key []).trans hidle)
        ((WriterView.child_limit v key []).trans hmax) 0 _ rfl
      rw [children_members (v := (v.child key []).opened .object 0x7b) rfl] at hmembers
      exact written_enclosed hidle (does_beginContainer hs hidle₀ hplace .object 0x7b) hmembers
        fun hmode hframes => does_endObject hs hmode hframes
  | noItems =>
      intro v hidle hmax count rest hframes
      exact Steps.does fun _ w hw hev => ⟨w, rfl, hw, hev⟩
  | @item t ts calls calls' h h' ih ih' =>
      intro v hidle hmax count rest hframes
      have hfirst := ih v hidle hmax [] v hidle (items_place hframes [])
      have hnext : (v.child [] (t.text escapeText)).frames = ⟨.array, count + 1, false⟩ :: rest := by
        simp [WriterView.child, hframes]
      exact does_callAll hfirst (ih' _ ((WriterView.child_mode v _ _).trans hidle)
        ((WriterView.child_limit v _ _).trans hmax) (count + 1) rest hnext)
  | noMembers =>
      intro v hidle hmax count rest hframes
      exact Steps.does fun _ w hw hev => ⟨w, rfl, hw, hev⟩
  | @member key t ms calls calls' h h' ih ih' =>
      intro v hidle hmax count rest hframes
      obtain ⟨hkeyed, hplace⟩ := keyed_place hidle hframes key.bytes
      have hfirst := ih v hidle hmax key.bytes _ hkeyed hplace
      have hnext : (v.child key.bytes (t.text escapeText)).frames =
          ⟨.object, count + 1, false⟩ :: rest := by
        simp [WriterView.child, hframes]
      exact (does_key hs hidle hframes key).andThen (does_callAll hfirst
        (ih' _ ((WriterView.child_mode v _ _).trans hidle)
          ((WriterView.child_limit v _ _).trans hmax) (count + 1) rest hnext))

/-- Calls between a call that opens and one that closes. -/
theorem resumable_enclosed {first last : WriterCall ω} {calls : List (WriterCall ω)}
    (hfirst : first.Resumable nest Holds) (h : ∀ call ∈ calls, call.Resumable nest Holds)
    (hlast : last.Resumable nest Holds) :
    ∀ call ∈ first :: (calls ++ [last]), call.Resumable nest Holds := by
  intro call hcall
  rw [List.mem_cons, List.mem_append, List.mem_singleton] at hcall
  obtain rfl | hcall | rfl := hcall
  · exact hfirst
  · exact h call hcall
  · exact hlast

/-- The calls that describe a tree can be resumed. -/
theorem resumable_describes {part : WriterPart} {calls : List (WriterCall ω)}
    (h : part.Describes nest Holds limit calls) : ∀ call ∈ calls, call.Resumable nest Holds := by
  induction h with
  | null => simp [WriterCall.Resumable]
  | nullSource => simp [WriterCall.Resumable]
  | bool value => simp [WriterCall.Resumable]
  | i64 value => simp [WriterCall.Resumable]
  | u64 value => simp [WriterCall.Resumable]
  | f64 text => simp [WriterCall.Resumable]
  | numberText data h => simp [WriterCall.Resumable]
  | number chunks h hlen =>
      refine resumable_enclosed trivial (fun call hcall => ?_) trivial
      obtain ⟨chunk, -, rfl⟩ := List.mem_map.mp hcall
      trivial
  | string data => simp [WriterCall.Resumable]
  | chunks chunks =>
      refine resumable_enclosed trivial (fun call hcall => ?_) trivial
      obtain ⟨chunk, -, rfl⟩ := List.mem_map.mp hcall
      trivial
  | @child arg0 arg1 tag root t child hinit htext =>
      intro call hcall
      rw [List.mem_singleton.mp hcall]
      intro error child' hchild
      rw [hinit error] at hchild
      exact ⟨_, Except.ok.inj hchild ▸ htext⟩
  | array h ih => exact resumable_enclosed trivial ih trivial
  | object h ih => exact resumable_enclosed trivial ih trivial
  | noItems => simp
  | item h h' ih ih' =>
      simp only [List.mem_append]
      rintro call (hcall | hcall)
      · exact ih call hcall
      · exact ih' call hcall
  | noMembers => simp
  | member key h h' ih ih' =>
      simp only [List.mem_cons, List.mem_append]
      rintro call (rfl | hcall | hcall)
      · trivial
      · exact ih call hcall
      · exact ih' call hcall

/-- Into a sink the calls that describe a tree write its text. -/
theorem describes_sinkRun (hgives : nest.Gives Holds) (hgrow : ∀ n, nest.canGrow n = true)
    (hlimit : limit < sizeMax) {t : Tree} {calls : List (WriterCall ω)}
    (h : (WriterPart.value t).Describes nest Holds limit calls) (world : ω) :
    ∃ b, nest.sinkRun calls { out := { world }, maxNumberBytes := limit } = (b, .ok) ∧
      b.out.out = t.text escapeText := by
  obtain ⟨v, hv⟩ : ∃ v : WriterView, v = ⟨[], [], false, .idle, limit⟩ := ⟨_, rfl⟩
  have hready : Writer.Ready WriterTape.out
      ({ out := { world }, maxNumberBytes := limit } : Writer (WriterTape ω) γ) v := by
    subst hv
    refine ⟨⟨rfl, rfl, rfl, rfl, rfl, rfl, fun _ h => (by cases h), rfl, rfl, rfl⟩, rfl⟩
  have hwritten := written_describes hgives hgrow hlimit h v (by rw [hv]) (by rw [hv]) [] v (by rw [hv])
    (by rw [hv]; rfl)
  obtain ⟨b, hcalls, hb⟩ := hwritten.ready hready
  have hshown : v.child [] (t.text escapeText) = ⟨t.text escapeText, [], true, .idle, limit⟩ := by
    rw [hv]
    rfl
  rw [hshown] at hb
  refine ⟨{ b with finished := true }, ?_, hb.1.out⟩
  rw [sinkRun_eq, hcalls, andThenOk_ok, finish_ready hb rfl rfl]
  rfl

end

/-- A generator whose producer issues the calls of a description gives the text of the tree. -/
theorem readAll_describes (hgives : nest.Gives Holds) (hgrow : ∀ n, nest.canGrow n = true)
    {canHold : ℕ → Bool} (hold : ∀ n, canHold n = true) {limit : ℕ} (hlimit : limit < sizeMax)
    {t : Tree} {calls : List (WriterCall ω)}
    (h : (WriterPart.value t).Describes nest Holds limit calls) (world : ω) {fuel : ℕ}
    (hfuel : 2 ≤ fuel) {capacities : List ℕ} (hcapacities : ∀ capacity ∈ capacities, 0 < capacity) :
    ∃ r, WriterGenerator.readAll (nest.producer canHold) fuel capacities
        (WriterGenerator.init world limit calls) = some r ∧
      r.error = none ∧ r.bytes = (t.text escapeText).take capacities.sum ∧
      (r.state.eof = true → (t.text escapeText).length ≤ capacities.sum) ∧
      ((t.text escapeText).length < capacities.sum → r.state.eof = true) := by
  obtain ⟨b, hrun, htext⟩ := describes_sinkRun hgives hgrow hlimit h world
  obtain ⟨r, hread, hdelivers⟩ := WriterGenerator.readAll_delivers hgives hold (by decide) (by decide)
    (fuel - 2) hcapacities (owes_init (resumable_describes h) hrun) fun heof => by cases heof
  rw [Nat.sub_add_cancel hfuel] at hread
  rw [htext] at hdelivers
  refine ⟨r, hread, ?_⟩
  cases hdelivers with
  | ok hrest hall hend => exact ⟨rfl, rfl, hall, fun hlt => (hend hlt).1⟩
  | fail hfail hbytes => exact absurd rfl hfail

def pairTree : Tree :=
  .object [(ascii "a", .string (ascii "hi")), (ascii "b", .array [.number (ascii "1"), .bool true])]

def pairCalls : List (WriterCall ℕ) :=
  [.beginObject, .key { address := .caller 1, bytes := ascii "a" }, .stringBegin,
    .stringChunk { bytes := ascii "h" }, .stringChunk { bytes := ascii "i" }, .stringEnd,
    .key { address := .caller 2, bytes := ascii "b" },
    .child 3 0 5 (.jsonValue { kind := .path } (ascii "[1,true]")), .endObject]

theorem pairTree_text : pairTree.text escapeText = ascii "\x7b\"a\":\"hi\",\"b\":[1,true]\x7d" := by
  decide +kernel

theorem pairCalls_describes :
    (WriterPart.value pairTree).Describes rawNest (· = ·) 64 pairCalls := by
  have hnested : ascii "[1,true]" =
      (Tree.array [.number (ascii "1"), .bool true]).text escapeText := by decide +kernel
  have hinit : ∀ error, rawNest.childInit (.jsonValue { kind := .path } (ascii "[1,true]")) error =
      .ok (ascii "[1,true]") := fun _ => rfl
  have hcontent : ([{ bytes := ascii "h" }, { bytes := ascii "i" }].map Slice.bytes).flatten =
      ascii "hi" := by decide +kernel
  have hstring := @WriterPart.Describes.chunks ℕ Bytes rawNest (· = ·) 64
    [{ bytes := ascii "h" }, { bytes := ascii "i" }]
  rw [hcontent] at hstring
  exact .object (.member { address := .caller 1, bytes := ascii "a" } hstring
    (.member { address := .caller 2, bytes := ascii "b" } (.child 3 0 5 hinit hnested) .noMembers))

end Lonejson
