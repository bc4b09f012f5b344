import Lonejson.Capturing
import Lonejson.Position
import Lonejson.StreamingRun

/-!
# What is left of a value that was captured or sent to a sink

Behind the value the member, or the sink, has the compact text of its tokens, unless the mark
of the member lies over the token of a scalar. The total limit does not bound that text: what
the strings and the keys hold is not counted.
-/

namespace Lonejson

open Json (Text Tree Spells quoted)

variable {σ : Type}

/-! ## Calls of the parser -/

/-- Calls that succeed, one after another. -/
theorem feedAll_then (env : Env σ) (p : Parser σ) (chunks : List Bytes) :
    (feedAll env false p chunks).map Prod.fst =
      if (feedThen env (fun p => (p, .ok)) p chunks).2.soft then
        some (feedThen env (fun p => (p, .ok)) p chunks).1
      else none := by
  induction chunks generalizing p with
  | nil => rfl
  | cons chunk rest ih =>
      rw [feedAll, feedThen]
      change Option.map Prod.fst (if (parserFeed env p chunk).2.soft = true then
        (feedAll env false (parserFeed env p chunk).1 rest).map fun q =>
          (q.1, chunk.take (feedBytes env false p chunk).2 ++ q.2) else none) = _
      split
      · rw [← ih, Option.map_map]
        rfl
      · rfl

section

variable {env : Env σ} {ptr : SlotPtr} {O : TextOutput σ} {ref : FieldRef} {start : Parser σ}
  {ts : List Json.Token}

theorem exit_lengths {env : Env σ} (R : Recorder env ptr) {marked : Bytes → Bytes}
    (hmarked : ∀ text, (marked text).length = text.length) (ts : List Json.Token) :
    (writtenText (R.exit marked ts)).length = (writtenText ts).length ∧
      countedBytes (R.exit marked ts) = countedBytes ts := by
  match ts with
  | [] => exact ⟨rfl, rfl⟩
  | [t] =>
      have htoken : ((R.exitToken marked t).text escapeText).length = (t.text escapeText).length ∧
          countedToken (R.exitToken marked t) = countedToken t := by
        cases t with
        | number text => exact ⟨hmarked text, hmarked text⟩
        | literal text =>
            rw [Recorder.exitToken]
            split
            · exact ⟨rfl, rfl⟩
            · exact ⟨hmarked text, hmarked text⟩
        | opening _ | closing _ | comma | key _ | string _ => exact ⟨rfl, rfl⟩
      simpa [Recorder.exit, writtenText, countedBytes] using htoken
  | _ :: _ :: _ => exact ⟨rfl, rfl⟩

theorem exit_permits {env : Env σ} (R : Recorder env ptr) {marked : Bytes → Bytes}
    (hmarked : ∀ text, (marked text).length = text.length)
    (h : O.Permits (R.exit marked ts)) : O.Permits ts := by
  obtain ⟨hwritten, hcounted⟩ := exit_lengths R hmarked ts
  obtain ⟨htakes, hunder, hallows⟩ := h
  rw [hwritten] at htakes
  rw [hcounted] at hunder
  refine ⟨htakes, hunder, ?_⟩
  match ts with
  | [] => exact nofun
  | [t] =>
      have ht := hallows (R.exitToken marked t) (by simp [Recorder.exit])
      intro t' ht'
      rw [List.mem_singleton.mp ht']
      cases t with
      | key _ | string _ => exact ht
      | opening _ | closing _ | comma | number _ | literal _ => exact trivial
  | _ :: _ :: _ => exact hallows

/-- The tokens of a value that the parser has room for, within the limits of the value. -/
def Affords (env : Env σ) (O : TextOutput σ) (ref : FieldRef) (start : Parser σ)
    (ts : List Json.Token) : Prop :=
  (start.valueRoom env ref).marks = true ∧ (start.valueRoom env ref).fitsAll env 0 ts = true ∧
    O.Permits ts

theorem not_denied_iff : ¬ Denied env (textRecorder O env ptr) ref start ts ↔
    Affords env O ref start ts := by
  rw [Denied, ValueRoom.Denies, not_or, not_or, Bool.not_eq_false, Bool.not_eq_false]
  exact and_congr_right fun _ => and_congr_right fun _ => not_not

/-- The parser takes a value and a blank behind it, and the text of its tokens has arrived, or
it fails, and then the value is not afforded. -/
theorem feedAll_value (hO : O.Lawful env ptr)
    (hstart : AwaitsValue env (textRecorder O env ptr) ref start) {b : Byte}
    (hb : isJsonSpace b = true) {chunks : List Bytes}
    (htokens : valueTokens ⟨.value, []⟩ chunks.flatten = some (ts, [b])) :
    (Affords env O ref start ts ∧ ∃ q text, feedAll env false start chunks = some (q, text) ∧
        O.Ended ((textRecorder O env ptr).exit (start.markedText env ref) ts) q.core) ∨
      (¬ Affords env O ref start ts ∧ feedAll env false start chunks = none) := by
  have hR := textRecorder_lawful hO
  have hmap := feedAll_then env start chunks
  rcases feedThen_value hR hstart (fun p => (p, .ok)) htokens with
    ⟨q, rest, hrest, hfinished, hrun⟩ | ⟨hhard, -, hdenied⟩
  · have hafford : Affords env O ref start ts := by
      rw [← @not_denied_iff _ env ptr]
      refine hfinished.not_denied fun hended => ?_
      have hne : (textRecorder O env ptr).exit (start.markedText env ref) ts ≠ [] := by
        have htold := hfinished.told
        match ts with
        | [] => exact absurd rfl htold
        | [_] => exact List.cons_ne_nil _ _
        | _ :: _ :: _ => exact List.cons_ne_nil _ _
      exact not_not.mpr (exit_permits _ (@markedText_length _ env ref start) (hended.permits hne))
    rw [hrun, hfinished.blank hR hb _ hrest, if_pos (by rfl)] at hmap
    obtain ⟨⟨q', text⟩, hq', hsame⟩ := Option.map_eq_some_iff.mp hmap
    have hcore : q'.core = q.core := by
      rw [show q' = _ from hsame]
    refine .inl ⟨hafford, q', text, hq', ?_⟩
    rw [hcore]
    exact hfinished.core
  · rw [if_neg (by simp [hhard])] at hmap
    refine .inr ⟨?_, Option.map_eq_none_iff.mp hmap⟩
    rw [← @not_denied_iff _ env ptr]
    exact not_not.mpr hdenied

end

/-! ## Members that wait for a value -/

/-- A parser at the value of a member that captures it or sends it to a sink. -/
structure AwaitsText (env : Env σ) (ref : FieldRef) (ptr : SlotPtr) (sink : Bool) (value : JsonValue)
    (p : Parser σ) : Prop where
  lex : p.lexMode = .none
  frame : ∃ f fs, p.frames = f :: fs ∧ f.Waits ref ptr
  field : (env.maps.field? ref).any (·.kind == .jsonValue) = true
  core : p.core.Awaits ptr sink value
  started : p.rootStarted = true
  above : ∀ f ∈ p.frames, ∀ seen, f.seenFields = some seen → p.workspaceTop ≤ seen.offset

/-- The capture of the member, or the sink. -/
def textOutput (env : Env σ) (ptr : SlotPtr) (S : Option (SinkCallback env ptr)) (c : Core σ)
    (value : JsonValue) : TextOutput σ :=
  match S with
  | none => captureOutput env ptr c value
  | some S => S.output c value

/-- What a member has captured. -/
def Core.captured (ptr : SlotPtr) (c : Core σ) : Bytes :=
  match c.value? ptr with
  | some (.jsonValue v) => (v.json.map Owned.data).getD []
  | _ => []

/-- The bytes that were put out between two states of the core. -/
def produced {env : Env σ} {ptr : SlotPtr} (S : Option (SinkCallback env ptr))
    (before after : Core σ) : ℕ :=
  match S with
  | none => (after.captured ptr).length
  | some S => (S.gathered after.world).length - (S.gathered before.world).length

/-- A text that is one value, which a blank may follow, with its tokens. -/
def ValueText (v : Bytes) (ts : List Json.Token) : Prop :=
  ∀ b, isJsonSpace b = true → valueTokens ⟨.value, []⟩ (v ++ [b]) = some (ts, [b])

section

variable {env : Env σ} {ptr : SlotPtr} {ref : FieldRef} {start : Parser σ} {value : JsonValue}
  {S : Option (SinkCallback env ptr)} {ts : List Json.Token}

theorem AwaitsText.awaits {sink : Bool} (h : AwaitsText env ref ptr sink value start)
    {O : TextOutput σ} (hfirst : O.first = start.core) :
    AwaitsValue env (textRecorder O env ptr) ref start :=
  ⟨h.lex, h.frame, h.field, hfirst.symm, h.started, h.above⟩

theorem textOutput_first (c : Core σ) : (textOutput env ptr S c value).first = c := by
  cases S <;> rfl

theorem textOutput_limits (c : Core σ) : (textOutput env ptr S c value).limits = value.limits := by
  cases S <;> rfl

theorem textOutput_lawful (hbudget : env.options.maxAllocBytes < sizeMax) {c : Core σ}
    (h : c.Awaits ptr S.isSome value) : (textOutput env ptr S c value).Lawful env ptr := by
  cases S with
  | none => exact captureOutput_lawful hbudget h
  | some S => exact S.output_lawful h

theorem captured_holds {c c' : Core σ} {text : Bytes}
    (h : (captureOutput env ptr c value).holds text c') : c'.captured ptr = text := by
  obtain ⟨v, hv, -, -, hblock⟩ := h
  rw [Core.captured, hv]
  dsimp only
  rcases hblock with ⟨rfl, hjson, -⟩ | ⟨header, hjson, -⟩
  · rw [hjson]
    rfl
  · rw [hjson]
    rfl

theorem produced_holds {c c' : Core σ} {text : Bytes}
    (h : (textOutput env ptr S c value).holds text c') : produced S c c' = text.length := by
  cases S with
  | none => exact congrArg List.length (captured_holds h)
  | some S =>
      have hgathered : S.gathered c'.world = S.gathered c.world ++ text := h.2
      rw [produced, hgathered, List.length_append, Nat.add_sub_cancel_left]

/-! ## The total limit -/

variable (S start value) in
/-- A value that the parser takes has put out no more bytes than its total limit. -/
def TotalBounded (v : Bytes) : Prop :=
  ∀ b, isJsonSpace b = true → ∀ chunks : List Bytes, chunks.flatten = v ++ [b] →
    ∀ q text, feedAll env false start chunks = some (q, text) →
      produced S start.core q.core ≤ value.limits.maxTotalBytes

theorem totalBounded_iff (hbudget : env.options.maxAllocBytes < sizeMax)
    (hstart : AwaitsText env ref ptr S.isSome value start) {v : Bytes} (hv : ValueText v ts) :
    TotalBounded start value S v ↔ (writtenText ts).length ≤ value.limits.maxTotalBytes ∨
      ¬ Affords env (textOutput env ptr S start.core value) ref start ts := by
  have hO := textOutput_lawful hbudget hstart.core
  have hfirst : (textOutput env ptr S start.core value).first = start.core := textOutput_first _
  have hawaits := hstart.awaits hfirst
  have hlengths := exit_lengths (textRecorder (textOutput env ptr S start.core value) env ptr)
    (@markedText_length _ env ref start) ts
  have hrun {b : Byte} (hb : isJsonSpace b = true) {chunks : List Bytes}
      (hchunks : chunks.flatten = v ++ [b]) :=
    feedAll_value hO hawaits hb (by rw [hchunks]; exact hv b hb)
  constructor
  · intro hbounded
    by_cases hafford : Affords env (textOutput env ptr S start.core value) ref start ts
    swap
    · exact .inr hafford
    have hflat : [v ++ [0x20]].flatten = v ++ [0x20] := by simp
    rcases hrun (b := 0x20) rfl hflat with ⟨-, q, text, hfeed, hended⟩ | ⟨hno, -⟩
    · have hproduced := hbounded 0x20 rfl _ hflat q text hfeed
      rw [produced_holds hended.holds, hlengths.1] at hproduced
      exact .inl hproduced
    · exact absurd hafford hno
  · intro h b hb chunks hchunks q text hfeed
    rcases hrun hb hchunks with ⟨hafford, q', text', hfeed', hended⟩ | ⟨-, hnone⟩
    · rw [hfeed] at hfeed'
      cases hfeed'
      rw [produced_holds hended.holds, hlengths.1]
      exact h.resolve_right (not_not.mpr hafford)
    · rw [hfeed] at hnone
      cases hnone

end

/-! ## A member that captures at most five bytes -/

def capturedField : Field := { jsonKey := [0x6b], kind := .jsonValue }

/-- A parse into one JSON value that captures. -/
def Env.capturing : Env Unit :=
  { Env.bare with
    maps := fun _ => { fields := [capturedField] }
    rootMap := some 0
    options := { clearDestination := false } }

def fiveBytes : JsonValue :=
  { initialized := true, parseMode := .capture, limits := ⟨0, 0, 0, 0, 5⟩ }

/-- The parser behind `{"k":`. -/
def capturingParser : Parser Unit :=
  (parserFeed .capturing (parserInit .capturing [(.jsonValue fiveBytes, false)] ())
    [0x7b, 0x22, 0x6b, 0x22, 0x3a]).1

theorem capturingParser_awaits :
    AwaitsText .capturing ⟨0, 0⟩ ⟨[], 0⟩ false fiveBytes capturingParser where
  lex := rfl
  frame := ⟨_, _, rfl, rfl, rfl, rfl, rfl⟩
  field := rfl
  core := ⟨rfl, rfl, rfl, rfl, rfl⟩
  started := rfl
  above := by decide

/-- The value `"abc"`. -/
theorem totalBounded_iff_abc :
    TotalBounded capturingParser fiveBytes (none : Option (SinkCallback .capturing ⟨[], 0⟩))
        [0x22, 0x61, 0x62, 0x63, 0x22] ↔
      (writtenText [.string [0x61, 0x62, 0x63]]).length ≤ 5 ∨
        ¬ Affords .capturing (textOutput .capturing ⟨[], 0⟩ none capturingParser.core fiveBytes)
          ⟨0, 0⟩ capturingParser [.string [0x61, 0x62, 0x63]] :=
  totalBounded_iff (by decide) capturingParser_awaits fun _ _ => rfl

/-- The document `{"k":"aaaaaaaa"}` is accepted, and the member holds ten bytes. -/
theorem totalBounded_fails :
    let r := parseBuffer .capturing [(.jsonValue fiveBytes, false)] ()
      [0x7b, 0x22, 0x6b, 0x22, 0x3a, 0x22, 0x61, 0x61, 0x61, 0x61, 0x61, 0x61, 0x61, 0x61, 0x22, 0x7d]
    r.2 = .ok ∧ (r.1.core.captured ⟨[], 0⟩).length = 10 ∧
      ¬ TotalBounded capturingParser fiveBytes (none : Option (SinkCallback .capturing ⟨[], 0⟩))
        [0x22, 0x61, 0x61, 0x61, 0x61, 0x61, 0x61, 0x61, 0x61, 0x22] := by
  refine ⟨rfl, rfl, fun hbounded => ?_⟩
  have hfeed : feedAll .capturing false capturingParser
      [[0x22, 0x61, 0x61, 0x61, 0x61, 0x61, 0x61, 0x61, 0x61, 0x22, 0x20]] =
    some (_, [0x22, 0x61, 0x61, 0x61, 0x61, 0x61, 0x61, 0x61, 0x61, 0x22, 0x20]) := rfl
  have hten := hbounded 0x20 rfl _ rfl _ _ hfeed
  exact absurd hten (by decide)

end Lonejson
