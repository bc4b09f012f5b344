import Lonejson.Copying
import Lonejson.Validator

/-!
# The transcoder of JSON values

The recursive parser that copies a JSON text into a sink, compact or indented, and the
two functions over it that set a JSON value from a buffer and write it out again. The
cursor is the text that is left, a byte that was pushed back in front of it.
-/

namespace Lonejson

open Json (Text Lexer Machine Rules Document Bracket Descent Holds)

/-! ## The io record -/

/-- `lonejson_sink_fn`. -/
abbrev Sink (τ : Type) := τ → Bytes → ErrorInfo → τ × ErrorInfo × Status

/-- The members of `lonejson__json_io` that a transcoding writes, and the status of the
last call. -/
structure JsonIo (τ : Type) where
  out : τ
  error : ErrorInfo := {}
  status : Status := .ok

variable {τ σ : Type}

/-- `lonejson__json_emit`. -/
def JsonIo.call (sink : Sink τ) (io : JsonIo τ) (data : Bytes) : JsonIo τ :=
  let r := sink io.out data io.error
  { out := r.1, error := r.2.1, status := r.2.2 }

/-- `lonejson__json_emit`, and a return unless the status is one to go on with. -/
def JsonIo.emit (sink : Sink τ) (io : JsonIo τ) (data : Bytes) : Except (JsonIo τ) (JsonIo τ) :=
  let io := io.call sink data
  if io.status.soft then .ok io else .error io

/-- A return unless the status of the call is one to go on with. -/
def JsonIo.checked (io : JsonIo τ) : Except (JsonIo τ) (JsonIo τ) :=
  if io.status.soft then .ok io else .error io

def JsonIo.emitAll (sink : Sink τ) : JsonIo τ → List Bytes → Except (JsonIo τ) (JsonIo τ)
  | io, [] => .ok io
  | io, piece :: pieces => (io.emit sink piece).bind fun io => JsonIo.emitAll sink io pieces

/-- `lonejson__set_error` without a position. -/
def JsonIo.fail (io : JsonIo τ) (code : Status) (message : String) : JsonIo τ :=
  { io with
    error := { io.error with code, message, messageArg := [], atZero := true }
    status := code }

/-- `return LONEJSON_STATUS_OK;` -/
def JsonIo.done (io : JsonIo τ) : JsonIo τ := { io with status := .ok }

def spaces (n : ℕ) : Bytes := List.replicate n 0x20

/-- The runs of spaces behind the first 64. -/
def indentRuns : ℕ → ℕ → List Bytes
  | 0, _ => []
  | fuel + 1, n =>
    if n > 64 then spaces 64 :: indentRuns fuel (n - 64)
    else if n ≠ 0 then [spaces n]
    else []

/-- The pieces of an indentation. -/
def indentPieces (depth : ℕ) : List Bytes :=
  if depth * 2 ≤ 64 then [0x0a :: spaces (depth * 2)]
  else (0x0a :: spaces 64) :: indentRuns depth (depth * 2 - 64)

/-- A sum of two `size_t`s. -/
def sizeAdd (m n : ℕ) : ℕ := (m + n) % (sizeMax + 1)

/-- `lonejson__json_emit_indent`. -/
def JsonIo.emitIndent (sink : Sink τ) (io : JsonIo τ) (depth : ℕ) :
    Except (JsonIo τ) (JsonIo τ) :=
  if depth > sizeMax / 2 then .error (io.fail .overflow "JSON indentation depth is too large")
  else io.emitAll sink (indentPieces depth)

/-! ## Tokens -/

/-- The digits of a `\u` escape. -/
def copyDigits (sink : Sink τ) : ℕ → Text → JsonIo τ → Except (JsonIo τ) (Text × JsonIo τ)
  | 0, i, io => .ok (i, io)
  | _ + 1, [], io => .error (io.fail .invalidJson "invalid unicode escape")
  | n + 1, hx :: i, io =>
    if (hexValue hx).isNone then .error (io.fail .invalidJson "invalid unicode escape")
    else (io.emit sink [hx]).bind (copyDigits sink n i)

/-- An escape behind its backslash. -/
def copyEscape (sink : Sink τ) (i : Text) (io : JsonIo τ) :
    Except (JsonIo τ) (Text × JsonIo τ) :=
  match i with
  | [] => .error (io.fail .invalidJson "unterminated escape sequence")
  | esc :: i =>
    if (simpleEscape esc).isSome then (io.emit sink [esc]).map (i, ·)
    else if esc = 0x75 then (io.emit sink [esc]).bind (copyDigits sink 4 i)
    else .error (io.fail .invalidJson "invalid string escape")

/-- The bytes that a cursor holds, by how many are left of the text: all of them in a buffer, and
otherwise those of the last read. -/
abbrev Ahead := ℕ → ℕ

/-- The plain bytes in front of the bytes that a cursor holds. -/
def plainSpan (ahead : Ahead) (i : Text) : Text := (i.take (ahead i.length)).takeWhile isPlain

/-- The loop of `lonejson__json_parse_string`. -/
def copyString (sink : Sink τ) (ahead : Ahead) :
    ℕ → Text → JsonIo τ → Except (JsonIo τ) (Text × JsonIo τ)
  | 0, _, io => .error io
  | n + 1, i, io =>
    if plainSpan ahead i ≠ [] then
      (io.emit sink (plainSpan ahead i)).bind
        (copyString sink ahead n (i.drop (plainSpan ahead i).length))
    else
      match i with
      | [] => .error (io.fail .invalidJson "unterminated JSON string")
      | ch :: i =>
        if ch < 0x20 then .error (io.fail .invalidJson "control character in string")
        else
          (io.emit sink [ch]).bind fun io =>
            if ch = 0x22 then .ok (i, io.done)
            else if ch = 0x5c then
              (copyEscape sink i io).bind fun x => copyString sink ahead n x.1 x.2
            else copyString sink ahead n i io

/-- `lonejson__json_parse_string`. -/
def jsonParseString (sink : Sink τ) (ahead : Ahead) (i : Text) (io : JsonIo τ) :
    Except (JsonIo τ) (Text × JsonIo τ) :=
  (io.emit sink [0x22]).bind (copyString sink ahead (i.length + 1) i)

/-- `lonejson__json_parse_number`. -/
def jsonParseNumber (sink : Sink τ) (first : Byte) (i : Text) (io : JsonIo τ) :
    Except (JsonIo τ) (Text × JsonIo τ) :=
  let number := first :: i.takeWhile isNumberByte
  if isValidJsonNumber number then (io.emit sink number).map (i.dropWhile isNumberByte, ·)
  else .error (io.fail .invalidJson "invalid JSON number")

/-- The bytes of a literal behind its first one. -/
def copyLiteral (sink : Sink τ) : Text → Text → JsonIo τ → Except (JsonIo τ) (Text × JsonIo τ)
  | [], i, io => .ok (i, io.done)
  | _ :: _, [], io => .error (io.fail .invalidJson "invalid JSON literal")
  | c :: rest, ch :: i, io =>
    if ch = c then (io.emit sink [ch]).bind (copyLiteral sink rest i)
    else .error (io.fail .invalidJson "invalid JSON literal")

/-- `lonejson__json_parse_literal`. -/
def jsonParseLiteral (sink : Sink τ) (first : Byte) (rest i : Text) (io : JsonIo τ) :
    Except (JsonIo τ) (Text × JsonIo τ) :=
  (io.emit sink [first]).bind (copyLiteral sink rest i)

/-- The messages of the parser. -/
def transcodeMessage : Json.Fault → String
  | .value => "expected JSON value"
  | .unterminated .array => "unterminated JSON array"
  | .unterminated .object => "unterminated JSON object"
  | .comma .array => "expected ',' in array"
  | .comma .object => "expected ',' in object"
  | .key true => "unterminated JSON object"
  | .key false => "expected object key"
  | .colon => "expected ':' after object key"
  | .fuel => ""

/-- The recursive parser. -/
def transcoder (sink : Sink τ) (ahead : Ahead) (pretty : Bool) (baseDepth : ℕ) :
    Descent (JsonIo τ) (JsonIo τ) where
  string _ := jsonParseString sink ahead
  numberStart := isNumberStart
  number := jsonParseNumber sink
  literal := jsonParseLiteral sink
  opening c _ io := io.emit sink [c.opening]
  closing c first depth io :=
    (if pretty && !first then io.emitIndent sink (sizeAdd baseDepth depth) else .ok io).bind
      fun io => io.emit sink [c.closing]
  item _ first depth io :=
    (if first then .ok io else io.emit sink [0x2c]).bind fun io =>
      if pretty then io.emitIndent sink (sizeAdd baseDepth (depth + 1)) else .ok io
  colon io := io.emit sink (if pretty then [0x3a, 0x20] else [0x3a])
  fault f io := io.fail .invalidJson (transcodeMessage f)

/-- `lonejson__json_parse_value`. -/
def jsonParseValue (sink : Sink τ) (ahead : Ahead) (pretty : Bool) (baseDepth fuel depth : ℕ) :
    Text → JsonIo τ → Except (JsonIo τ) (Text × JsonIo τ) :=
  (transcoder sink ahead pretty baseDepth).value fuel depth

/-- `lonejson__json_parse_object`, behind the brace. -/
def jsonParseObject (sink : Sink τ) (ahead : Ahead) (pretty : Bool) (baseDepth fuel depth : ℕ) :
    Text → JsonIo τ → Except (JsonIo τ) (Text × JsonIo τ) :=
  (transcoder sink ahead pretty baseDepth).members fuel depth true

/-- `lonejson__json_parse_array`, behind the bracket. -/
def jsonParseArray (sink : Sink τ) (ahead : Ahead) (pretty : Bool) (baseDepth fuel depth : ℕ) :
    Text → JsonIo τ → Except (JsonIo τ) (Text × JsonIo τ) :=
  (transcoder sink ahead pretty baseDepth).items fuel depth true

/-- `lonejson__json_transcode_cursor`. -/
def jsonTranscodeCursor (sink : Sink τ) (ahead : Ahead) (pretty : Bool) (baseDepth : ℕ)
    (text : Text) (io : JsonIo τ) : JsonIo τ :=
  match jsonParseValue sink ahead pretty baseDepth (2 * text.length + 1) 0 text io with
  | .error io => io
  | .ok (rest, io) =>
    if Json.dropSpace rest = [] then io
    else io.fail .invalidJson "embedded JSON must contain exactly one value"

/-! ## JSON values -/

/-- The bytes of `json`. -/
def JsonValue.text (v : JsonValue) : Bytes := (v.json.map Owned.data).getD []

/-- `lonejson__json_buffer_sink`. -/
def jsonBufferSink : Sink JsonValue := fun v data error =>
  if data = [] then (v, error, .ok)
  else
    let required := v.text.length + data.length + 1
    let header := (v.json.map Owned.header).getD { size := 0 }
    let size :=
      if header.size < required then
        growDouble required required (if header.size ≠ 0 then header.size else 64)
      else header.size
    ({ v with json := some { header := { header with size }, data := v.text ++ data } }, error, .ok)

/-- `lonejson_json_value_init_with_allocator`. -/
def jsonValueInit : JsonValue :=
  { initialized := true, limits := defaultValueLimits, runtimeLimits := defaultValueLimits,
    limitsFollowRuntime := true }

/-- `lonejson_json_value_set_buffer`. -/
def jsonValueSetBuffer (v : JsonValue) (data : Bytes) (error : ErrorInfo) :
    JsonValue × ErrorInfo × Status :=
  let io := jsonTranscodeCursor jsonBufferSink id false 0 data { out := jsonValueInit, error }
  if io.status.soft then
    ({ io.out with
        kind := .buffer, limits := v.limits, runtimeLimits := v.runtimeLimits,
        limitsFollowRuntime := v.limitsFollowRuntime },
      {}, .ok)
  else (v, io.error, io.status)

/-- `lonejson__json_transcode`; `source` is what the reader, the file or the path of the
value delivers, in the reads of `ahead`. -/
def jsonTranscode (sink : Sink τ) (v : JsonValue) (source : Bytes) (ahead : Ahead)
    (pretty : Bool) (baseDepth : ℕ) (io : JsonIo τ) : JsonIo τ :=
  match v.kind with
  | .null => io.call sink nullText
  | .buffer =>
    if pretty then jsonTranscodeCursor sink id pretty baseDepth v.text io
    else io.call sink v.text
  | _ => jsonTranscodeCursor sink ahead pretty baseDepth source io

/-- `lonejson_json_value_write_to_sink`. -/
def jsonValueWriteToSink (sink : Sink τ) (v : JsonValue) (source : Bytes) (ahead : Ahead)
    (io : JsonIo τ) : JsonIo τ :=
  jsonTranscode sink v source ahead false 0 io

/-- A sink that collects what it is given. -/
def collectSink : Sink Bytes := fun text data error => (text ++ data, error, .ok)

/-- The text that is written for a value. -/
def JsonValue.written (v : JsonValue) (source : Bytes) : Bytes :=
  (jsonValueWriteToSink collectSink v source id { out := [] }).out

example : ((jsonValueSetBuffer {} [0x20, 0x5b, 0x31, 0x20, 0x2c, 0x7b, 0x7d, 0x5d] {}).1.written []) =
    [0x5b, 0x31, 0x2c, 0x7b, 0x7d, 0x5d] := by decide

/-! ## The strings of the transcoder -/

/-- What may follow an opening quote when surrogates are not looked at. -/
inductive CopyTail : Text → Text → Prop where
  | close {r : Text} : CopyTail (0x22 :: r) r
  | plain {b : Byte} {i r : Text} (hb : isPlain b = true) (h : CopyTail i r) : CopyTail (b :: i) r
  | escape {e ch : Byte} {i r : Text} (he : simpleEscape e = some ch) (h : CopyTail i r) :
      CopyTail (0x5c :: e :: i) r
  | unit {a b c d : Byte} {cp : ℕ} {i r : Text} (hcp : decodeUnicodeQuad a b c d = some cp)
      (h : CopyTail i r) : CopyTail (0x5c :: 0x75 :: a :: b :: c :: d :: i) r

/-- How far an escape has been read. -/
inductive CopyState where
  | body
  | escape
  | hex (needed : ℕ)
  deriving DecidableEq, Repr

/-- The lexer behind an opening quote. -/
def copyLexer : Lexer CopyState where
  start := .body
  next
    | .body, b =>
      if b = 0x22 then some none
      else if b = 0x5c then some (some .escape)
      else if b < 0x20 then none
      else some (some .body)
    | .escape, b =>
      if (simpleEscape b).isSome then some (some .body)
      else if b = 0x75 then some (some (.hex 4))
      else none
    | .hex needed, b =>
      if (hexValue b).isNone then none
      else if needed - 1 ≠ 0 then some (some (.hex (needed - 1)))
      else some (some .body)

theorem copy_plain {b : Byte} (hb : isPlain b = true) :
    copyLexer.next .body b = some (some .body) := by
  obtain ⟨hquote, hback, hcontrol⟩ := isPlain_iff.mp hb
  simp [copyLexer, hquote, hback, hcontrol]

theorem copy_backslash : copyLexer.next .body 0x5c = some (some .escape) := by
  simp [copyLexer]

/-- Digits that lead to a state. -/
theorem copy_simple {e ch : Byte} (he : simpleEscape e = some ch) :
    copyLexer.next .escape e = some (some .body) := by
  simp [copyLexer, he]

theorem copy_unit : copyLexer.next .escape 0x75 = some (some (.hex 4)) := by
  simp [copyLexer, simpleEscape]

theorem copy_digits {n : ℕ} {ds : Text} (hn : ds.length = n + 1)
    (hds : ∀ b ∈ ds, (hexValue b).isSome = true) {q : CopyState} {i r : Text}
    (h : copyLexer.Ends .body i q r) : copyLexer.Ends (.hex (n + 1)) (ds ++ i) q r := by
  induction n generalizing ds with
  | zero =>
      obtain ⟨b, rfl⟩ := List.length_eq_one_iff.mp hn
      have hb := hds b (by simp)
      refine .step ?_ h
      cases hv : hexValue b <;> simp_all [copyLexer]
  | succ n ih =>
      cases ds with
      | nil => simp at hn
      | cons b ds =>
          have hb := hds b (by simp)
          refine .step ?_ (ih (by simpa using hn) fun c hc => hds c (by simp [hc]))
          cases hv : hexValue b <;> simp_all [copyLexer]

/-- The digits that a lexer has read when the string goes on. -/
theorem copy_digits_inv {n : ℕ} {q : CopyState} {i r : Text}
    (h : copyLexer.Ends (.hex (n + 1)) i q r) : ∃ ds j, i = ds ++ j ∧ ds.length = n + 1 ∧
      (∀ b ∈ ds, (hexValue b).isSome = true) ∧ copyLexer.Ends .body j q r := by
  induction n generalizing i with
  | zero =>
      cases h with
      | @close _ b _ hnext => cases hv : hexValue b <;> simp [copyLexer, hv] at hnext
      | @step _ s' _ b i _ hnext hrest =>
          cases hv : hexValue b with
          | none => simp [copyLexer, hv] at hnext
          | some v =>
              obtain rfl : CopyState.body = s' := by simpa [copyLexer, hv] using hnext
              exact ⟨[b], i, rfl, rfl, by simp [hv], hrest⟩
  | succ n ih =>
      cases h with
      | @close _ b _ hnext => cases hv : hexValue b <;> simp [copyLexer, hv] at hnext
      | @step _ s' _ b i _ hnext hrest =>
          cases hv : hexValue b with
          | none => simp [copyLexer, hv] at hnext
          | some v =>
              obtain rfl : CopyState.hex (n + 1) = s' := by simpa [copyLexer, hv] using hnext
              obtain ⟨ds, j, rfl, hlen, hds, hj⟩ := ih hrest
              exact ⟨b :: ds, j, rfl, by simp [hlen], by simpa [hv] using hds, hj⟩

theorem ends_step_iff {s s' : CopyState} {b : Byte} (hnext : copyLexer.next s b = some (some s'))
    {i r : Text} {q : CopyState} : copyLexer.Ends s (b :: i) q r ↔ copyLexer.Ends s' i q r := by
  constructor
  · intro h
    cases h with
    | close h => simp [hnext] at h
    | step h hrest =>
        obtain rfl := Option.some.inj (Option.some.inj (hnext.symm.trans h))
        exact hrest
  · exact .step hnext

theorem not_ends_reject {s : CopyState} {b : Byte} (hnext : copyLexer.next s b = none) {i r : Text}
    {q : CopyState} : ¬ copyLexer.Ends s (b :: i) q r := by
  intro h
  cases h with
  | close h => simp [hnext] at h
  | step h _ => simp [hnext] at h

theorem ends_digits_iff {n : ℕ} {ds : Text} (hn : ds.length = n + 1)
    (hds : ∀ b ∈ ds, (hexValue b).isSome = true) {q : CopyState} {i r : Text} :
    copyLexer.Ends (.hex (n + 1)) (ds ++ i) q r ↔ copyLexer.Ends .body i q r := by
  constructor
  · intro h
    obtain ⟨ds', j, hsplit, hlen, -, hj⟩ := copy_digits_inv h
    obtain ⟨rfl, rfl⟩ := List.append_inj hsplit (hn.trans hlen.symm)
    exact hj
  · exact copy_digits hn hds

theorem ends_plain_iff {run : Text} (hrun : ∀ b ∈ run, isPlain b = true) {q : CopyState}
    {i r : Text} : copyLexer.Ends .body (run ++ i) q r ↔ copyLexer.Ends .body i q r := by
  induction run with
  | nil => rfl
  | cons b run ih =>
      rw [List.cons_append, ends_step_iff (copy_plain (hrun b (by simp))),
        ih fun c hc => hrun c (by simp [hc])]

/-! ## What the tokens copy -/

theorem plainSpan_append (ahead : Ahead) (i : Text) :
    plainSpan ahead i ++ i.drop (plainSpan ahead i).length = i := by
  have hprefix : plainSpan ahead i <+: i :=
    (List.takeWhile_prefix _).trans (List.take_prefix _ _)
  conv_lhs => rw [List.prefix_iff_eq_take.mp hprefix, List.length_take_of_le hprefix.length_le]
  exact List.take_append_drop _ i

theorem plainSpan_plain (ahead : Ahead) (i : Text) : ∀ b ∈ plainSpan ahead i, isPlain b = true :=
  fun _ hb => List.mem_takeWhile_imp hb

/-- A sink that appends what it takes to a text. -/
def Sink.Appends (sink : Sink τ) (text : τ → Bytes) : Prop := ∀ out data error,
  (sink out data error).2.2.soft = true → text (sink out data error).1 = text out ++ data

/-- A sink that always takes what it is given. -/
def Sink.Reliable (sink : Sink τ) : Prop := ∀ out data error,
  (sink out data error).2.2.soft = true

theorem collectSink_appends : collectSink.Appends id := fun _ _ _ _ => rfl

theorem collectSink_reliable : collectSink.Reliable := fun _ _ _ => rfl

section

variable {sink : Sink τ} {text : τ → Bytes} (hsink : sink.Appends text)
include hsink

theorem emit_appends (io : JsonIo τ) (data : Bytes) :
    Holds (fun io' : JsonIo τ => text io'.out = text io.out ++ data) (fun _ => ¬ sink.Reliable)
      (io.emit sink data) := by
  unfold JsonIo.emit
  dsimp only
  split
  · next hsoft => exact hsink _ _ _ hsoft
  · next hsoft => exact fun h => hsoft (h _ _ _)

theorem copyDigits_appends (n : ℕ) (i : Text) (io : JsonIo τ) :
    Holds (fun x => ∃ ds, i = ds ++ x.1 ∧ ds.length = n ∧ (∀ b ∈ ds, (hexValue b).isSome = true) ∧
        text x.2.out = text io.out ++ ds)
      (fun _ => ¬ sink.Reliable ∨
        ¬ ∃ ds j, i = ds ++ j ∧ ds.length = n ∧ ∀ b ∈ ds, (hexValue b).isSome = true)
      (copyDigits sink n i io) := by
  induction n generalizing i io with
  | zero => exact ⟨[], rfl, rfl, by simp, by simp⟩
  | succ n ih =>
      cases i with
      | nil =>
          apply Or.inr
          rintro ⟨ds, j, hi, hlen, -⟩
          simp_all
      | cons hx i =>
          rw [copyDigits]
          split
          · next hnone =>
            apply Or.inr
            rintro ⟨ds, j, hi, hlen, hds⟩
            cases ds with
            | nil => simp at hlen
            | cons d ds =>
                obtain ⟨rfl, -⟩ := List.cons.inj hi
                have := hds hx (by simp)
                simp_all
          · next hsome =>
            apply ((emit_appends hsink io [hx]).imp_error fun _ => Or.inl).bind
            intro io' hemit
            apply ((ih i io').imp_error fun e => ?_).imp
            · rintro x ⟨ds, rfl, hlen, hds, htext⟩
              refine ⟨hx :: ds, rfl, by simp [hlen], ?_, ?_⟩
              · intro b hb
                rcases List.mem_cons.mp hb with rfl | hb
                · cases hv : hexValue b <;> simp_all
                · exact hds b hb
              · rw [htext, hemit, List.append_assoc]
                rfl
            · apply Or.imp_right
              rintro hno ⟨ds, j, hi, hlen, hds⟩
              cases ds with
              | nil => simp at hlen
              | cons d ds =>
                  obtain ⟨rfl, rfl⟩ := List.cons.inj hi
                  exact hno ⟨ds, j, rfl, by simpa using hlen, fun b hb => hds b (by simp [hb])⟩

/-- An escape is copied and the string goes on behind it, or there is none. -/
theorem copyEscape_appends (i : Text) (io : JsonIo τ) :
    Holds (fun x => ∃ esc, i = esc ++ x.1 ∧ text x.2.out = text io.out ++ esc ∧
        ∀ q r, copyLexer.Ends .escape i q r ↔ copyLexer.Ends .body x.1 q r)
      (fun _ => ¬ sink.Reliable ∨ ∀ q r, ¬ copyLexer.Ends .escape i q r)
      (copyEscape sink i io) := by
  cases i with
  | nil =>
      apply Or.inr
      intro q r h
      cases h
  | cons esc i =>
      rw [copyEscape]
      split
      · next hsimple =>
        apply ((emit_appends hsink io [esc]).imp_error fun _ => Or.inl).map
        intro io' hemit
        exact ⟨[esc], rfl, hemit, fun q r => ends_step_iff (by simp [copyLexer, hsimple])⟩
      · next hsimple =>
        split
        · next hu =>
          have hnext : copyLexer.next .escape esc = some (some (.hex 4)) := by
            simp [copyLexer, hu, simpleEscape]
          apply ((emit_appends hsink io [esc]).imp_error fun _ => Or.inl).bind
          intro io' hemit
          apply ((copyDigits_appends hsink 4 i io').imp_error fun e => ?_).imp
          · rintro ⟨j, io''⟩ ⟨ds, rfl, hlen, hds, htext⟩
            refine ⟨esc :: ds, rfl, ?_, fun q r => ?_⟩
            · rw [htext, hemit, List.append_assoc]
              rfl
            · rw [ends_step_iff hnext, ends_digits_iff hlen hds]
          · apply Or.imp_right
            intro hno q r h
            obtain ⟨ds, j, hi, hlen, hds, -⟩ := copy_digits_inv ((ends_step_iff hnext).mp h)
            exact hno ⟨ds, j, hi, hlen, hds⟩
        · next hu =>
          apply Or.inr
          intro q r
          exact not_ends_reject (by simp [copyLexer, hsimple, hu])

/-- The loop copies the body of a string, or there is none. -/
theorem copyString_appends (ahead : Ahead) (n : ℕ) (i : Text) (io : JsonIo τ) (hn : i.length < n) :
    Holds (fun x => ∃ body q, i = body ++ x.1 ∧ copyLexer.Ends .body i q x.1 ∧
        text x.2.out = text io.out ++ body)
      (fun _ => ¬ sink.Reliable ∨ ∀ q r, ¬ copyLexer.Ends .body i q r)
      (copyString sink ahead n i io) := by
  induction n generalizing i io with
  | zero => exact absurd hn (by omega)
  | succ n ih =>
      unfold copyString
      split
      · next hrun =>
        have hsplit := plainSpan_append ahead i
        have hends (q : CopyState) (r : Text) : copyLexer.Ends .body i q r ↔
            copyLexer.Ends .body (i.drop (plainSpan ahead i).length) q r := by
          conv_lhs => rw [← hsplit, ends_plain_iff (plainSpan_plain ahead i)]
        have hshort : (i.drop (plainSpan ahead i).length).length < n := by
          have hlength := congrArg List.length hsplit
          have hpos := List.length_pos_of_ne_nil hrun
          rw [List.length_append] at hlength
          omega
        apply ((emit_appends hsink io (plainSpan ahead i)).imp_error fun _ => Or.inl).bind
        intro io' hemit
        apply ((ih _ io' hshort).imp_error fun e => ?_).imp
        · rintro x ⟨body, q, hbody, hrest, htext⟩
          refine ⟨plainSpan ahead i ++ body, q, ?_, (hends _ _).mpr hrest, ?_⟩
          · rw [List.append_assoc, ← hbody]
            exact hsplit.symm
          · rw [htext, hemit, List.append_assoc]
        · apply Or.imp_right
          intro hno q r h
          exact hno q r ((hends q r).mp h)
      · next hrun =>
        cases i with
        | nil =>
            apply Or.inr
            intro q r h
            cases h
        | cons ch i =>
            have hshort : i.length < n := Nat.lt_of_succ_lt_succ hn
            dsimp only
            split
            · next hcontrol =>
              have hquote : ch ≠ 0x22 := by
                rintro rfl
                simp at hcontrol
              have hback : ch ≠ 0x5c := by
                rintro rfl
                simp at hcontrol
              apply Or.inr
              intro q r
              exact not_ends_reject (by simp [copyLexer, hquote, hback, hcontrol])
            · next hcontrol =>
              apply ((emit_appends hsink io [ch]).imp_error fun _ => Or.inl).bind
              intro io' hemit
              split
              · next hquote =>
                subst hquote
                exact ⟨[0x22], .body, rfl, .close (by simp [copyLexer]), hemit⟩
              · next hquote =>
                split
                · next hback =>
                  subst hback
                  apply ((copyEscape_appends hsink i io').imp_error fun e => ?_).bind
                  · rintro ⟨j, io''⟩ ⟨esc, hsplit, htext, hends⟩
                    change i = esc ++ j at hsplit
                    have hj : j.length < n := by
                      have := congrArg List.length hsplit
                      rw [List.length_append] at this
                      omega
                    apply ((ih j io'' hj).imp_error fun e => ?_).imp
                    · rintro x ⟨body, q, rfl, hrest, htext'⟩
                      refine ⟨0x5c :: (esc ++ body), q, ?_, ?_, ?_⟩
                      · rw [hsplit, List.cons_append, List.append_assoc]
                      · rw [ends_step_iff copy_backslash, hends]
                        exact hrest
                      · rw [htext', htext, hemit]
                        simp
                    · apply Or.imp_right
                      intro hno q r h
                      rw [ends_step_iff copy_backslash, hends] at h
                      exact hno q r h
                  · apply Or.imp_right
                    intro hno q r h
                    rw [ends_step_iff copy_backslash] at h
                    exact hno q r h
                · next hback =>
                  -- a plain byte that the cursor has to fetch
                  have hnext := copy_plain (isPlain_iff.mpr ⟨hquote, hback, hcontrol⟩)
                  apply ((ih i io' hshort).imp_error fun e => ?_).imp
                  · rintro x ⟨body, q, hbody, hrest, htext⟩
                    refine ⟨ch :: body, q, ?_, (ends_step_iff hnext).mpr hrest, ?_⟩
                    · rw [hbody]
                      rfl
                    · rw [htext, hemit, List.append_assoc]
                      rfl
                  · apply Or.imp_right
                    intro hno q r h
                    exact hno q r ((ends_step_iff hnext).mp h)

theorem jsonParseString_appends (ahead : Ahead) (i : Text) (io : JsonIo τ) :
    Holds (fun x => ∃ body q, i = body ++ x.1 ∧ copyLexer.Ends .body i q x.1 ∧
        text x.2.out = text io.out ++ 0x22 :: body)
      (fun _ => ¬ sink.Reliable ∨ ∀ q r, ¬ copyLexer.Ends .body i q r)
      (jsonParseString sink ahead i io) := by
  apply ((emit_appends hsink io [0x22]).imp_error fun _ => Or.inl).bind
  intro io' hemit
  apply (copyString_appends hsink ahead _ i io' (Nat.lt_succ_self _)).imp
  rintro x ⟨body, q, hbody, hends, htext⟩
  refine ⟨body, q, hbody, hends, ?_⟩
  rw [htext, hemit, List.append_assoc]
  rfl

theorem jsonParseNumber_appends (first : Byte) (i : Text) (io : JsonIo τ) :
    Holds (fun x => x.1 = i.dropWhile isNumberByte ∧
        isValidJsonNumber (first :: i.takeWhile isNumberByte) = true ∧
        text x.2.out = text io.out ++ first :: i.takeWhile isNumberByte)
      (fun _ => ¬ sink.Reliable ∨ isValidJsonNumber (first :: i.takeWhile isNumberByte) = false)
      (jsonParseNumber sink first i io) := by
  unfold jsonParseNumber
  dsimp only
  split
  · next hvalid =>
    apply ((emit_appends hsink io _).imp_error fun _ => Or.inl).map
    intro io' hemit
    exact ⟨rfl, hvalid, hemit⟩
  · next hvalid => exact .inr (by simpa using hvalid)

theorem copyLiteral_appends (rest i : Text) (io : JsonIo τ) :
    Holds (fun x => i = rest ++ x.1 ∧ text x.2.out = text io.out ++ rest)
      (fun _ => ¬ sink.Reliable ∨ ¬ rest <+: i) (copyLiteral sink rest i io) := by
  induction rest generalizing i io with
  | nil => exact ⟨rfl, (List.append_nil _).symm⟩
  | cons c rest ih =>
      cases i with
      | nil => exact .inr (by simp)
      | cons ch i =>
          rw [copyLiteral]
          split
          · next hch =>
            subst hch
            apply ((emit_appends hsink io [ch]).imp_error fun _ => Or.inl).bind
            intro io' hemit
            apply ((ih i io').imp_error fun e => ?_).imp
            · rintro x ⟨rfl, htext⟩
              refine ⟨rfl, ?_⟩
              rw [htext, hemit, List.append_assoc]
              rfl
            · apply Or.imp_right
              intro hno hprefix
              exact hno (List.cons_prefix_cons.mp hprefix).2
          · next hch =>
            apply Or.inr
            intro hprefix
            exact hch (List.cons_prefix_cons.mp hprefix).1.symm

theorem jsonParseLiteral_appends (first : Byte) (rest i : Text) (io : JsonIo τ) :
    Holds (fun x => i = rest ++ x.1 ∧ text x.2.out = text io.out ++ first :: rest)
      (fun _ => ¬ sink.Reliable ∨ ¬ rest <+: i) (jsonParseLiteral sink first rest i io) := by
  apply ((emit_appends hsink io [first]).imp_error fun _ => Or.inl).bind
  intro io' hemit
  apply (copyLiteral_appends hsink rest i io').imp
  rintro x ⟨hi, htext⟩
  refine ⟨hi, ?_⟩
  rw [htext, hemit, List.append_assoc]
  rfl

theorem emitAll_appends (pieces : List Bytes) (io : JsonIo τ) :
    Holds (fun io' : JsonIo τ => text io'.out = text io.out ++ pieces.flatten) (fun _ => True)
      (io.emitAll sink pieces) := by
  induction pieces generalizing io with
  | nil => exact (List.append_nil _).symm
  | cons piece pieces ih =>
      apply ((emit_appends hsink io piece).imp_error fun _ _ => trivial).bind
      intro io' hemit
      apply (ih io').imp
      intro io'' htext
      rw [htext, hemit, List.append_assoc]
      rfl

end

theorem mem_indentRuns {fuel n : ℕ} {piece : Bytes} (h : piece ∈ indentRuns fuel n) :
    ∀ b ∈ piece, b = 0x20 := by
  induction fuel generalizing n with
  | zero => simp [indentRuns] at h
  | succ fuel ih =>
      rw [indentRuns] at h
      split_ifs at h
      · rcases List.mem_cons.mp h with rfl | h
        · intro b hb
          exact List.eq_of_mem_replicate hb
        · exact ih h
      · obtain rfl := List.mem_singleton.mp h
        intro b hb
        exact List.eq_of_mem_replicate hb
      · simp at h

/-- An indentation is a newline and spaces. -/
theorem indentPieces_blank (depth : ℕ) :
    ∀ b ∈ (indentPieces depth).flatten, Json.isSpace b = true := by
  intro b hb
  have hpiece : b = 0x0a ∨ b = 0x20 := by
    obtain ⟨piece, hpiece, hb⟩ := List.mem_flatten.mp hb
    unfold indentPieces at hpiece
    split at hpiece
    · obtain rfl := List.mem_singleton.mp hpiece
      exact (List.mem_cons.mp hb).imp_right List.eq_of_mem_replicate
    · rcases List.mem_cons.mp hpiece with rfl | hpiece
      · exact (List.mem_cons.mp hb).imp_right List.eq_of_mem_replicate
      · exact .inr (mem_indentRuns hpiece b hb)
  rcases hpiece with rfl | rfl <;> rfl

section

variable {sink : Sink τ} {text : τ → Bytes} (hsink : sink.Appends text)
include hsink

theorem emitIndent_appends (depth : ℕ) (io : JsonIo τ) :
    Holds (fun io' : JsonIo τ => ∃ blanks, (∀ b ∈ blanks, Json.isSpace b = true) ∧
      text io'.out = text io.out ++ blanks) (fun _ => True) (io.emitIndent sink depth) := by
  unfold JsonIo.emitIndent
  split
  · trivial
  · apply (emitAll_appends hsink (indentPieces depth) io).imp
    intro io' htext
    exact ⟨_, indentPieces_blank depth, htext⟩

/-- The transcoder copies its text, compact or indented. -/
theorem transcoder_copies (ahead : Ahead) (pretty : Bool) (baseDepth : ℕ) :
    (transcoder sink ahead pretty baseDepth).Copies (fun _ => copyLexer) isNumberByte
      (fun io => text io.out) where
  string isKey i io := (jsonParseString_appends hsink ahead i io).imp_error fun _ _ => trivial
  number b i io _ := by
    apply ((jsonParseNumber_appends hsink b i io).imp_error fun _ _ => trivial).imp
    rintro ⟨j, io'⟩ ⟨rfl, -, htext⟩
    refine ⟨_, List.takeWhile_append_dropWhile.symm, fun c hc => List.mem_takeWhile_imp hc, ?_, htext⟩
    intro c hc
    have := List.head?_dropWhile_not isNumberByte i
    rw [hc] at this
    simpa using this
  literal b rest i io _ := (jsonParseLiteral_appends hsink b rest i io).imp_error fun _ _ => trivial
  opening c d io := (emit_appends hsink io _).imp_error fun _ _ => trivial
  closing c first d io := by
    have hindent : Holds (fun io' : JsonIo τ => ∃ blanks, (∀ b ∈ blanks, Json.isSpace b = true) ∧
        text io'.out = text io.out ++ blanks) (fun _ => True)
        (if pretty && !first then io.emitIndent sink (sizeAdd baseDepth d) else .ok io) := by
      split
      · exact emitIndent_appends hsink _ io
      · exact ⟨[], by simp, (List.append_nil _).symm⟩
    apply hindent.bind
    rintro io' ⟨blanks, hblanks, htext⟩
    apply ((emit_appends hsink io' _).imp_error fun _ _ => trivial).imp
    intro io'' hemit
    exact ⟨blanks, hblanks, by rw [hemit, htext, List.append_assoc]⟩
  item c first d io := by
    have hcomma : Holds (fun io' : JsonIo τ => text io'.out =
        text io.out ++ if first then [] else [0x2c]) (fun _ => True)
        (if first then .ok io else io.emit sink [0x2c]) := by
      cases first with
      | true => exact (List.append_nil _).symm
      | false => exact (emit_appends hsink io _).imp_error fun _ _ => trivial
    apply hcomma.bind
    intro io' htext
    cases pretty with
    | false => exact ⟨[], by simp, by rw [htext, List.append_nil]⟩
    | true =>
        apply (emitIndent_appends hsink (sizeAdd baseDepth (d + 1)) io').imp
        rintro io'' ⟨blanks, hblanks, htext'⟩
        exact ⟨blanks, hblanks, by rw [htext', htext, List.append_assoc]⟩
  colon io := by
    apply ((emit_appends hsink io _).imp_error fun _ _ => trivial).imp
    intro io' htext
    cases pretty with
    | true => exact ⟨[0x20], by simp [Json.isSpace], htext⟩
    | false => exact ⟨[], by simp, htext⟩

end

/-! ## What the transcoder accepts -/

/-- JSON texts within limits, whatever their surrogates are. -/
def copyRules (limits : Limits) : Rules where
  stringTail _ := CopyTail
  keyTail _ := CopyTail
  number := JsonNumber
  fitsNumber := limits.number
  fitsLiteral := limits.literal
  enter d b := b == 0x22 || limits.opens d

/-- A machine for these texts. -/
def copyMachine (limits : Limits) : Machine CopyState where
  lexer _ _ := copyLexer
  numberStart := isNumberStart
  numberByte := isNumberByte
  number := isValidJsonNumber
  fitsNumber := limits.number
  fitsLiteral := limits.literal
  enter d b := b == 0x22 || limits.opens d

theorem copyTail_iff (i r : Text) : copyLexer.Tail .body i r ↔ CopyTail i r := by
  constructor
  · rw [Lexer.tail_iff_ends]
    rintro ⟨q, h⟩
    induction hlen : i.length using Nat.strong_induction_on generalizing i with
    | _ n ih =>
        have hshort {j : Text} (hj : j.length < n) (h : copyLexer.Ends .body j q r) : CopyTail j r :=
          ih j.length hj j h rfl
        cases i with
        | nil => cases h
        | cons b i =>
            rw [List.length_cons] at hlen
            by_cases hquote : b = 0x22
            · subst hquote
              cases h with
              | close _ => exact .close
              | step hnext _ => simp [copyLexer] at hnext
            by_cases hback : b = 0x5c
            · subst hback
              rw [ends_step_iff copy_backslash] at h
              cases i with
              | nil => cases h
              | cons e i =>
                  rw [List.length_cons] at hlen
                  cases he : simpleEscape e with
                  | some ch =>
                      rw [ends_step_iff (copy_simple he)] at h
                      exact .escape he (hshort (by omega) h)
                  | none =>
                      by_cases hu : e = 0x75
                      · subst hu
                        rw [ends_step_iff copy_unit] at h
                        obtain ⟨ds, j, rfl, hds, hhex, hj⟩ := copy_digits_inv h
                        obtain ⟨a, b, c, d, rfl⟩ := List.length_eq_four.mp hds
                        obtain ⟨va, ha⟩ := Option.isSome_iff_exists.mp (hhex a (by simp))
                        obtain ⟨vb, hb⟩ := Option.isSome_iff_exists.mp (hhex b (by simp))
                        obtain ⟨vc, hc⟩ := Option.isSome_iff_exists.mp (hhex c (by simp))
                        obtain ⟨vd, hd⟩ := Option.isSome_iff_exists.mp (hhex d (by simp))
                        refine .unit (decodeUnicodeQuad_eq_some.mpr
                          ⟨va, vb, vc, vd, ha, hb, hc, hd, rfl⟩) (hshort ?_ hj)
                        simp only [List.length_append, List.length_cons, List.length_nil] at hlen
                        have hlt : j.length < n := by omega
                        exact hlt
                      · exact (not_ends_reject (by simp [copyLexer, he, hu]) h).elim
            by_cases hcontrol : b < 0x20
            · exact (not_ends_reject (by simp [copyLexer, hquote, hback, hcontrol]) h).elim
            · have hplain : isPlain b = true := isPlain_iff.mpr ⟨hquote, hback, hcontrol⟩
              rw [ends_step_iff (copy_plain hplain)] at h
              exact .plain hplain (hshort (by omega) h)
  · intro h
    induction h with
    | close => exact .close (by simp [copyLexer])
    | plain hb _ ih => exact .step (copy_plain hb) ih
    | escape he _ ih => exact .step copy_backslash (.step (copy_simple he) ih)
    | @unit a b c d cp i r hcp _ ih =>
        obtain ⟨q, hq⟩ := Lexer.tail_iff_ends.mp ih
        obtain ⟨va, vb, vc, vd, ha, hb, hc, hd, -⟩ := decodeUnicodeQuad_eq_some.mp hcp
        have hdigits : copyLexer.Ends (.hex 4) ([a, b, c, d] ++ i) q r :=
          copy_digits rfl (by simp [ha, hb, hc, hd]) hq
        exact .step copy_backslash
          (.step (by simp [copyLexer, simpleEscape]) (Lexer.tail_iff_ends.mpr ⟨q, hdigits⟩))

theorem copyMachine_rules (limits : Limits) : (copyMachine limits).rules = copyRules limits := by
  have htail (i r : Text) : copyLexer.Tail copyLexer.start i r ↔ CopyTail i r := copyTail_iff i r
  simp [Machine.rules, copyMachine, copyRules, funext_iff, htail, isValidJsonNumber_iff]

theorem copyMachine_lawful (limits : Limits) : (copyMachine limits).Lawful :=
  lawful_of_numbers rfl rfl rfl limits.number_mono limits.literal_mono

theorem copyMachine_accepts (limits : Limits) (s : Text) :
    Json.accepts (copyMachine limits) s = true ↔ Document (copyRules limits) s := by
  rw [Json.accepts_iff_document _ (copyMachine_lawful limits), copyMachine_rules]

instance (limits : Limits) (s : Text) : Decidable (Document (copyRules limits) s) :=
  decidable_of_iff _ (copyMachine_accepts limits s)

/-- The compact transcoder reads these texts unless its sink gives up. -/
theorem transcoder_reads {sink : Sink τ} {text : τ → Bytes} (hsink : sink.Appends text)
    (ahead : Ahead) :
    (transcoder sink ahead false 0).Reads (copyMachine .none) (Json.Output.silent CopyState Unit)
      (fun _ => []) fun _ => ¬ sink.Reliable where
  lawful := copyMachine_lawful .none
  numberStart := rfl
  quotes _ := rfl
  literals _ _ := rfl
  string isKey d i io := by
    apply ((jsonParseString_appends hsink ahead i io).imp_error fun e => ?_).imp
    · rintro x ⟨body, q, -, hends, -⟩
      exact ⟨q, hends, rfl⟩
    · apply Or.imp_right
      intro hno r htail
      obtain ⟨q, hq⟩ := Lexer.tail_iff_ends.mp htail
      exact hno q r hq
  number d b i io _ := by
    refine ⟨i.takeWhile isNumberByte, i.dropWhile isNumberByte,
      List.takeWhile_append_dropWhile.symm, fun c hc => List.mem_takeWhile_imp hc, ?_, ?_⟩
    · intro c hc
      have := List.head?_dropWhile_not isNumberByte i
      rw [hc] at this
      simpa [copyMachine] using this
    · apply ((jsonParseNumber_appends hsink b i io).imp_error fun e => ?_).imp
      · rintro x ⟨hrest, hvalid, -⟩
        exact ⟨hrest, rfl, hvalid, rfl⟩
      · exact Or.imp_right .inr
  literal b rest i io _ := (jsonParseLiteral_appends hsink b rest i io).imp fun x hx => ⟨hx.1, rfl⟩
  opening c d io := ((emit_appends hsink io _).imp_error fun _ => Or.inl).imp fun io' _ => ⟨by
    simp [copyMachine, Limits.none], rfl⟩
  closing c first d io := (emit_appends hsink io [c.closing]).imp fun _ _ => rfl
  item c first d io := by
    cases first with
    | true => rfl
    | false =>
        apply (emit_appends hsink io [0x2c]).bind
        intro _ _
        rfl
  colon io := (emit_appends hsink io [0x3a]).imp fun _ _ => rfl

/-- What is left of an accepted text is blank. -/
theorem dropSpace_eq_nil (i : Text) :
    Json.dropSpace i = [] ↔ ∀ b ∈ i, Json.isSpace b = true := by
  induction i with
  | nil => simp [Json.dropSpace]
  | cons b i ih =>
      rw [Json.dropSpace]
      cases hb : Json.isSpace b with
      | true => simp [hb, ih]
      | false => simp [hb]

end Lonejson
