import Lonejson.Actions

/-!
# The parser engine

The lexers and the dispatch loop: the fast paths that read runs of a chunk, the lexer
that reads one character, and the loop of `lonejson__parser_feed_bytes` that chooses
between them. Loops over the bytes of a chunk are bounded by a fuel that the number
of bytes is enough for.
-/

namespace Lonejson

variable {σ : Type}

/-! ## String bytes -/

/-- `lonejson__append_unicode_codepoint`. -/
def appendUnicodeCodepoint (env : Env σ) (p : Parser σ) (cp : ℕ) : Parser σ × Status :=
  let invalid := p.setError .invalidJson "invalid unicode codepoint"
  match p.captureMode with
  | .token =>
    p.orFull ((utf8Encode cp).bind p.scratchAppendBytes) "failed to append unicode escape"
  | .direct =>
    if !p.core.direct.dynamic then p.onCore (directStringAppendCodepoint p.core cp)
    else
      match utf8Encode cp with
      | none => invalid
      | some utf8 =>
        if cp = 0 then p.onCore (directStringRejectNul p.core)
        else p.onCore (directStringAppendBytes env p.core utf8)
  | .jsonVisitor =>
    match utf8Encode cp with
    | none => invalid
    | some utf8 => p.onCore (jsonValueStringChunk env p.core utf8)
  | .stream =>
    match utf8Encode cp with
    | none => invalid
    | some utf8 => p.onCore (streamValueAppend env p.core utf8)
  | .discard => if (utf8Encode cp).isNone then invalid else (p, .ok)

/-- `lonejson__append_string_byte`. -/
def appendStringByte (env : Env σ) (p : Parser σ) (ch : Byte) : Parser σ × Status :=
  match p.captureMode with
  | .token => p.orFull (p.scratchAppend ch) "failed to append string"
  | .direct =>
    if ch = 0 then p.onCore (directStringRejectNul p.core)
    else p.onCore (directStringAppendBytes env p.core [ch])
  | .jsonVisitor => p.onCore (jsonValueStringChunk env p.core [ch])
  | .stream => p.onCore (streamValueAppend env p.core [ch])
  | .discard => (p, .ok)

/-- The errors of a surrogate that is not part of a pair. -/
def Parser.badPair (p : Parser σ) : Parser σ × Status :=
  p.setError .invalidJson "invalid unicode surrogate pair"

def Parser.badLow (p : Parser σ) : Parser σ × Status :=
  p.setError .invalidJson "unexpected low surrogate"

/-- `lonejson__consume_simple_escape_fast` and its direct twin, which differ in how the
byte is appended. The number is `*used`. -/
def consumeSimpleEscape (append : Parser σ → Byte → Parser σ × Status) (p : Parser σ) :
    Bytes → (Parser σ × Status) × ℕ
  | 0x5c :: letter :: _ =>
    if p.unicodePendingHigh ≠ 0 then ((p, .ok), 0)
    else
      match simpleEscape letter with
      | none => ((p, .ok), 0)
      | some ch => (append (p.advance 2) ch, 2)
  | _ => ((p, .ok), 0)

/-- The low half that `lonejson__consume_unicode_escape_fast` looks for behind a high
surrogate. -/
def nextQuad : Bytes → Option ℕ
  | 0x5c :: 0x75 :: a :: b :: c :: d :: _ => decodeUnicodeQuad a b c d
  | _ => none

/-- `lonejson__consume_unicode_escape_fast` and its direct twin. -/
def consumeUnicodeEscape (append : Parser σ → ℕ → Parser σ × Status) (p : Parser σ)
    (bytes : Bytes) : (Parser σ × Status) × ℕ :=
  match nextQuad bytes with
  | none => ((p, .ok), 0)
  | some cp =>
    if p.unicodePendingHigh ≠ 0 then
      if isLowSurrogate cp then
        let cp := combineSurrogates p.unicodePendingHigh cp
        (append ({ p with unicodePendingHigh := 0 }.advance 6) cp, 6)
      else (p.badPair, 0)
    else if isHighSurrogate cp then
      match nextQuad (bytes.drop 6) with
      | none => ((p, .ok), 0)
      | some low =>
        if isLowSurrogate low then (append (p.advance 12) (combineSurrogates cp low), 12)
        else (p.badPair, 0)
    else if isLowSurrogate cp then (p.badLow, 0)
    else (append (p.advance 6) cp, 6)

/-- What the three string loops do differently. -/
structure StringSink (σ : Type) where
  run : Parser σ → Bytes → Parser σ × Status
  byte : Parser σ → Byte → Parser σ × Status
  codepoint : Parser σ → ℕ → Parser σ × Status
  finish : Parser σ → Parser σ × Status

/-- The escape at the head of the bytes: the simple form is tried first. -/
def consumeEscape (sink : StringSink σ) (p : Parser σ) (bytes : Bytes) :
    (Parser σ × Status) × ℕ :=
  let simple := consumeSimpleEscape sink.byte p bytes
  if simple.1.2 ≠ .ok ∨ simple.2 ≠ 0 then simple
  else consumeUnicodeEscape sink.codepoint simple.1.1 bytes

/-- The loop of the three string scanners. The number is `*used`: an error leaves it at
zero, except in an escape and in the completion of the string. -/
def stringLoop (sink : StringSink σ) : ℕ → Parser σ → Bytes → ℕ → (Parser σ × Status) × ℕ
  | 0, p, _, pos => ((p, .ok), pos)
  | fuel + 1, p, bytes, pos =>
    if bytes = [] then ((p, .ok), pos)
    else
      let run := bytes.takeWhile isPlain
      let r := if run = [] then (p, .ok) else sink.run p run
      if r.2 ≠ .ok then (r, 0)
      else
        let p := r.1.advance run.length
        let pos := pos + run.length
        match bytes.dropWhile isPlain with
        | [] => ((p, .ok), pos)
        | ch :: rest =>
          if ch = 0x22 then
            if p.unicodePendingHigh ≠ 0 then
              (p.setError .invalidJson "unterminated unicode surrogate pair", 0)
            else (sink.finish { p.advance 1 with lexMode := .none }, pos + 1)
          else if ch = 0x5c then
            let e := consumeEscape sink p (ch :: rest)
            if e.1.2 ≠ .ok then (e.1, pos + e.2)
            else if e.2 ≠ 0 then stringLoop sink fuel e.1.1 ((ch :: rest).drop e.2) (pos + e.2)
            else (e.1, pos)
          else (p.setError .invalidJson "control character in string literal", 0)

/-- The string is complete: deliver it as a token. -/
def deliverString (env : Env σ) (p : Parser σ) : Parser σ × Status := deliverToken env p .string

/-- `lonejson__consume_string_discard_fast`. -/
def discardSink (env : Env σ) : StringSink σ where
  run p _ := (p, .ok)
  byte := appendStringByte env
  codepoint := appendUnicodeCodepoint env
  finish := deliverString env

/-- `lonejson__consume_string_direct_fast`. A code point always goes through the append
for fixed strings. -/
def directSink (env : Env σ) : StringSink σ where
  run p data := p.onCore (directStringAppendBytes env p.core data)
  byte p ch := p.onCore (directStringAppendBytes env p.core [ch])
  codepoint p cp := p.onCore (directStringAppendCodepoint p.core cp)
  finish p := andThenOk (finishDirectString env p) (deliverString env)

/-- The end of a string in the mode that captures a JSON value. -/
def finishJsonString (env : Env σ) (p : Parser σ) : Parser σ × Status :=
  andThenOk (p.onCore (jsonValueStringEnd env p.core)) fun p =>
    if !p.core.json.parseVisitorActive || streamedJsonValueScalarFieldActive env p then
      completeStreamedStringToken env p
    else deliverString env p

/-- `lonejson__consume_string_fast`. -/
def generalSink (env : Env σ) : StringSink σ where
  run p data :=
    match p.captureMode with
    | .token => p.orFull (p.scratchAppendBytes data) "failed to append string"
    | .direct => p.onCore (directStringAppendBytes env p.core data)
    | .jsonVisitor => p.onCore (jsonValueStringChunk env p.core data)
    | .stream => p.onCore (streamValueAppend env p.core data)
    | .discard => p.setError .internalError "invalid string capture mode"
  byte := appendStringByte env
  codepoint := appendUnicodeCodepoint env
  finish p :=
    match p.captureMode with
    | .direct => finishDirectString env p
    | .jsonVisitor => finishJsonString env p
    | .stream => andThenOk (finishStreamValue env p) (deliverString env)
    | _ => deliverString env p

/-- A string read by one of the three loops. -/
def scanString (sink : StringSink σ) (p : Parser σ) (bytes : Bytes) : (Parser σ × Status) × ℕ :=
  stringLoop sink bytes.length p bytes 0

/-- `lonejson__consume_string_fast`: a key without escapes that ends in the chunk is
delivered from the chunk. -/
def consumeStringFast (env : Env σ) (p : Parser σ) (bytes : Bytes) : (Parser σ × Status) × ℕ :=
  match p.captureMode with
  | .discard => scanString (discardSink env) p bytes
  | .direct => scanString (directSink env) p bytes
  | mode =>
    let key := bytes.takeWhile isPlain
    if p.lexIsKey ∧ mode = .token ∧ p.token.bytes.length = 0 ∧
        (bytes.dropWhile isPlain).head? = some 0x22 then
      (deliverKeyText env { p.advance (key.length + 1) with lexMode := .none } key,
        key.length + 1)
    else scanString (generalSink env) p bytes

/-! ## One character -/

/-- The digits of a `\u` escape, one at a time. -/
def consumeHexDigit (env : Env σ) (p : Parser σ) (ch : Byte) : Parser σ × Status :=
  match hexValue ch with
  | none => p.setError .invalidJson "invalid unicode escape"
  | some hv =>
    let p := { p with unicodeAccum := pushHex p.unicodeAccum hv,
                      unicodeDigitsNeeded := p.unicodeDigitsNeeded - 1 }
    if p.unicodeDigitsNeeded ≠ 0 then (p, .ok)
    else
      let cp := p.unicodeAccum
      if p.unicodePendingHigh ≠ 0 then
        if isLowSurrogate cp then
          appendUnicodeCodepoint env { p with unicodePendingHigh := 0 }
            (combineSurrogates p.unicodePendingHigh cp)
        else p.badPair
      else if isHighSurrogate cp then ({ p with unicodePendingHigh := cp }, .ok)
      else if isLowSurrogate cp then p.badLow
      else appendUnicodeCodepoint env p cp

/-- The end of a string in `lonejson__parser_consume_char`. -/
def finishStringChar (env : Env σ) (p : Parser σ) : Parser σ × Status :=
  let p := { p with lexMode := .none }
  if p.unicodePendingHigh ≠ 0 then
    p.setError .invalidJson "unterminated unicode surrogate pair"
  else
    match p.captureMode with
    | .token | .discard => deliverString env p
    | .direct => finishDirectString env p
    | .jsonVisitor => finishJsonString env p
    | .stream =>
      let r := finishStreamValue env p
      if r.2 = .ok then deliverString env r.1 else (r.1, r.1.core.error.code)

/-- `lonejson__parser_consume_char` inside a string. -/
def consumeStringChar (env : Env σ) (p : Parser σ) (ch : Byte) : Parser σ × Status :=
  if p.unicodeDigitsNeeded ≠ 0 then consumeHexDigit env p ch
  else if p.lexEscape then
    let p := { p with lexEscape := false }
    match simpleEscape ch with
    | some byte => appendStringByte env p byte
    | none =>
      if ch = 0x75 then ({ p with unicodeDigitsNeeded := 4, unicodeAccum := 0 }, .ok)
      else p.setError .invalidJson "invalid escape sequence"
  else if ch = 0x5c then ({ p with lexEscape := true }, .ok)
  else if ch = 0x22 then finishStringChar env p
  else if ch < 0x20 then p.setError .invalidJson "control character in string"
  else if p.core.stream.active then p.onCore (streamValueAppend env p.core [ch])
  else p.orFull (p.scratchAppend ch) "failed to append string"

/-- `lonejson__parser_consume_char` inside a literal. -/
def consumeLiteralChar (env : Env σ) (p : Parser σ) (literal : Bytes) (ch : Byte) :
    Parser σ × Status :=
  let mode := p.lexMode
  if literal[p.token.bytes.length]? = some ch then
    match p.scratchAppend ch with
    | none => p.setError .allocationFailed "failed to append literal"
    | some p =>
      if p.token.bytes.length = literal.length then
        deliverToken env { p with lexMode := .none } mode
      else (p, .ok)
  else p.setError .invalidJson "invalid literal"

/-- The registers that `lonejson__parser_consume_char` sets at the start of a string;
the capture mode is left as it is. -/
def Parser.startStringChar (p : Parser σ) (isKey : Bool) : Parser σ :=
  { p with lexMode := .string, lexIsKey := isKey, lexEscape := false,
           unicodePendingHigh := 0, unicodeDigitsNeeded := 0 }

/-- The first character of the document. -/
def consumeRootChar (env : Env σ) (p : Parser σ) (ch : Byte) : Parser σ × Status :=
  let notObject (p : Parser σ) : Parser σ × Status :=
    if env.validateOnly then (p, .ok)
    else p.setError .typeMismatch "root value must be an object"
  if ch = 0x7b then beginObjectValue env p
  else if ch = 0x5b then beginArrayValue env p
  else if ch = 0x22 then
    let p := p.startStringChar false
    if env.validateOnly then
      if p.core.json.active then
        andThenOk (p.onCore (jsonValueStringBegin env p.core false)) fun p =>
          (p.capture .jsonVisitor, .ok)
      else (p.capture .discard, .ok)
    else andThenOk (prepareToken env p) notObject
  else if ch = 0x2d ∨ isDigit ch then andThenOk (beginNumberLex env p ch) notObject
  else if ch = 0x74 ∨ ch = 0x66 ∨ ch = 0x6e then
    andThenOk (beginLiteralLex env p (literalMode ch) ch) notObject
  else if env.validateOnly then p.setError .invalidJson "expected JSON value"
  else p.setError .typeMismatch "root value must be an object"

/-- The comma between members or items, which a captured value repeats. -/
def consumeComma (env : Env σ) (p : Parser σ) (next : FrameState) : Parser σ × Status :=
  andThenOk (if p.core.json.active && !p.core.json.parseVisitorActive then
      p.onCore (jsonValueEmit env p.core [0x2c]) else (p, .ok)) fun p =>
    (p.modifyTop fun f => { f with state := next, afterComma := true }, .ok)

/-- A number or a literal that starts a value; `none` when the character starts
neither. -/
def beginScalar (env : Env σ) (p : Parser σ) (ch : Byte) : Option (Parser σ × Status) :=
  if ch = 0x2d ∨ isDigit ch then some (beginNumberLex env p ch)
  else if ch = 0x74 ∨ ch = 0x66 ∨ ch = 0x6e then
    some (beginLiteralLex env p (literalMode ch) ch)
  else none

/-- The literal `true` as an object member, in `lonejson__parser_consume_char`: here a
full token is reported without an error record. -/
def beginTrueMember (env : Env σ) (p : Parser σ) : Parser σ × Status :=
  andThenOk (prepareToken env { p with lexMode := .true, lexIsKey := false }) fun p =>
    match p.scratchAppend 0x74 with
    | some p => (p, .ok)
    | none => (p, .allocationFailed)

/-- The value of an object member, in `lonejson__parser_consume_char`. -/
def consumeMemberValue (env : Env σ) (p : Parser σ) (frame : Frame) (ch : Byte) :
    Parser σ × Status :=
  let field := frame.pending? env
  if ch = 0x22 then
    match field.filter fieldIsArrayStream with
    | some field => p.setError .typeMismatch "field '%s' is not an array" field.jsonKey
    | none =>
      let p := p.startStringChar false
      match frame.pendingField, field.filter fieldIsStreamed with
      | some ref, some field => p.onCore (streamValueBegin env p.core field (frame.slot ref))
      | _, _ => prepareToken env p
  else if ch = 0x7b then beginObjectValue env p
  else if ch = 0x5b then beginArrayValue env p
  else if ch = 0x74 then beginTrueMember env p
  else (beginScalar env p ch).getD (p.setError .invalidJson "expected JSON value")

/-- The value of an array item, or its end. -/
def consumeItemValue (env : Env σ) (p : Parser σ) (frame : Frame) (ch : Byte) :
    Parser σ × Status :=
  if ch = 0x5d then
    if frame.afterComma then p.setError .invalidJson "trailing comma in array"
    else finalizeArray env p
  else
    let p := p.modifyTop fun f => { f with afterComma := false }
    if ch = 0x22 then
      beginStringValueLex env p frame.field
        ((frame.field.map frame.slot).getD { obj := [], idx := 0 })
    else if ch = 0x7b then beginObjectValue env p
    else if ch = 0x5b then beginArrayValue env p
    else (beginScalar env p ch).getD (p.setError .invalidJson "expected array value")

/-- `lonejson__parser_consume_char` inside a container. -/
def consumeFrameChar (env : Env σ) (p : Parser σ) (frame : Frame) (ch : Byte) :
    Parser σ × Status :=
  match frame.kind, frame.state with
  | .object, .objectKeyOrEnd =>
    if ch = 0x7d then
      if frame.afterComma then p.setError .invalidJson "trailing comma in object"
      else finalizeObject env p
    else if ch ≠ 0x22 then p.setError .invalidJson "expected object key"
    else
      prepareToken env
        ((p.modifyTop fun f => { f with afterComma := false }).startStringChar true)
  | .object, .objectColon =>
    if ch ≠ 0x3a then p.setError .invalidJson "expected ':' after object key"
    else (p.modifyTop fun f => { f with state := .objectValue }, .ok)
  | .object, .objectValue => consumeMemberValue env p frame ch
  | .object, .objectCommaOrEnd =>
    if ch = 0x2c then consumeComma env p .objectKeyOrEnd
    else if ch = 0x7d then finalizeObject env p
    else p.setError .invalidJson "expected ',' or '\x7d' in object"
  | .object, _ => p.setError .internalError "invalid object state"
  | .array, .arrayValueOrEnd => consumeItemValue env p frame ch
  | .array, .arrayCommaOrEnd =>
    if ch = 0x2c then consumeComma env p .arrayValueOrEnd
    else if ch = 0x5d then finalizeArray env p
    else p.setError .invalidJson "expected ',' or ']' in array"
  | .array, _ => p.setError .internalError "invalid array state"

/-- `lonejson__parser_consume_char` outside tokens. -/
def consumeStructuralChar (env : Env σ) (p : Parser σ) (ch : Byte) : Parser σ × Status :=
  let p := { p with pos := p.pos.step ch }
  if isJsonSpace ch then (p, .ok)
  else if !p.rootStarted then consumeRootChar env p ch
  else
    match p.frames with
    | [] => p.setError .invalidJson "unexpected trailing data"
    | frame :: _ => consumeFrameChar env p frame ch

/-- `lonejson__parser_consume_char` inside a number; the character that ends it is
consumed by a second call, which finds no token. -/
def consumeNumberChar (env : Env σ) (p : Parser σ) (ch : Byte) : Parser σ × Status :=
  if isNumberByte ch then p.orFull (p.scratchAppend ch) "failed to append number"
  else
    let r := deliverToken env { p with lexMode := .none } .number
    if r.2 ≠ .ok then (r.1, r.1.core.error.code)
    else consumeStructuralChar env r.1 ch

/-- `lonejson__parser_consume_char`. -/
def consumeChar (env : Env σ) (p : Parser σ) (ch : Byte) : Parser σ × Status :=
  let moved := { p with pos := p.pos.step ch }
  match p.lexMode with
  | .string => consumeStringChar env moved ch
  | .number => consumeNumberChar env moved ch
  | .true => consumeLiteralChar env moved trueText ch
  | .false => consumeLiteralChar env moved falseText ch
  | .null => consumeLiteralChar env moved nullText ch
  | .none => consumeStructuralChar env p ch

/-! ## The dispatch loop -/

/-- How one turn of the loop of `lonejson__parser_feed_bytes` ends: it goes on behind
the bytes used, or the function returns a status with `*consumed`. -/
inductive Turn where
  | next (used : ℕ)
  | stop (status : Status) (consumed : ℕ)
  deriving DecidableEq, Repr

/-- A turn that uses `n` bytes and stops the loop on a hard error. -/
def turnSoft (r : Parser σ × Status) (n : ℕ) : Parser σ × Turn :=
  if r.2.soft then (r.1, .next n) else (r.1, .stop r.2 n)

/-- A turn that also stops on truncation. -/
def turnOk (r : Parser σ × Status) (n : ℕ) : Parser σ × Turn :=
  if r.2 = .ok then (r.1, .next n) else (r.1, .stop r.2 n)

/-- The turn of one character. -/
def charTurn (env : Env σ) (p : Parser σ) (ch : Byte) : Parser σ × Turn :=
  turnSoft (consumeChar env p ch) 1

/-- The turn inside a string. -/
def stringTurn (env : Env σ) (p : Parser σ) (ch : Byte) (rest : Bytes) : Parser σ × Turn :=
  let r := consumeStringFast env p (ch :: rest)
  if !r.1.2.soft then (r.1.1, .stop r.1.2 r.2)
  else if r.1.1.lexMode = .none ∨ r.2 ≠ 0 then (r.1.1, .next r.2)
  else charTurn env r.1.1 ch

/-- The turn inside a number: the number is delivered when it ends inside the chunk. -/
def numberTurn (env : Env σ) (p : Parser σ) (ch : Byte) (rest : Bytes) : Parser σ × Turn :=
  let run := (ch :: rest).takeWhile isNumberByte
  if run = [] then charTurn env p ch
  else
    match p.scratchAppendBytes run with
    | none =>
      ((p.setError .allocationFailed "failed to append number").1, .stop .allocationFailed 0)
    | some p =>
      let p := p.advance run.length
      if run.length = (ch :: rest).length then (p, .next run.length)
      else turnSoft (deliverToken env { p with lexMode := .none } .number) run.length

/-- The turn between tokens, inside a container: the frequent characters are handled
here and the others by `lonejson__parser_consume_char`. -/
def frameTurn (env : Env σ) (p : Parser σ) (active : Frame) (ch : Byte) : Parser σ × Turn :=
  let moved := p.advance 1
  match active.kind, active.state with
  | .object, .objectKeyOrEnd =>
    if ch = 0x22 then turnSoft (beginStringLex env moved true) 1 else charTurn env p ch
  | .object, .objectColon =>
    if ch = 0x3a then (moved.modifyTop fun f => { f with state := .objectValue }, .next 1)
    else charTurn env p ch
  | .object, .objectValue =>
    if ch = 0x22 then
      match (active.pending? env).filter fieldIsArrayStream with
      | some field =>
        ((moved.setError .typeMismatch "field '%s' is not an array" field.jsonKey).1,
          .stop .typeMismatch 1)
      | none =>
        turnSoft (beginStringValueLex env moved active.pendingField
          ((active.pendingField.map active.slot).getD { obj := [], idx := 0 })) 1
    else
      match beginScalar env moved ch with
      | some r => turnSoft r 1
      | none => charTurn env p ch
  | .object, .objectCommaOrEnd =>
    if ch = 0x2c then turnOk (consumeComma env moved .objectKeyOrEnd) 1
    else if ch = 0x7d then turnSoft (finalizeObject env moved) 1
    else charTurn env p ch
  | .array, .arrayValueOrEnd =>
    if ch = 0x22 then
      turnSoft (beginStringValueLex env moved active.field
        ((active.field.map active.slot).getD { obj := [], idx := 0 })) 1
    else
      match beginScalar env moved ch with
      | some r => turnSoft r 1
      | none => charTurn env p ch
  | .array, .arrayCommaOrEnd =>
    if ch = 0x2c then turnOk (consumeComma env moved .arrayValueOrEnd) 1
    else if ch = 0x5d then turnSoft (finalizeArray env moved) 1
    else charTurn env p ch
  | _, _ => charTurn env p ch

/-- One turn of the loop of `lonejson__parser_feed_bytes`. -/
def feedTurn (env : Env σ) (p : Parser σ) (ch : Byte) (rest : Bytes) : Parser σ × Turn :=
  if p.lexMode = .string ∧ p.unicodeDigitsNeeded = 0 ∧ p.lexEscape = false then
    stringTurn env p ch rest
  else if p.lexMode = .number then numberTurn env p ch rest
  else
    match p.lexMode, p.frames with
    | .none, active :: _ => frameTurn env p active ch
    | _, _ => charTurn env p ch

/-- `lonejson__parser_root_complete`. -/
def rootComplete (p : Parser σ) : Bool :=
  p.rootFinished && p.frames.isEmpty && p.lexMode == .none

/-- What `feed_bytes` and `finish` return when all went well. -/
def Parser.softStatus (p : Parser σ) : Status :=
  if p.core.error.truncated then .truncated else .ok

/-- The loop of `lonejson__parser_feed_bytes`; `i` counts the bytes consumed. -/
def feedLoop (env : Env σ) (stopAtRoot : Bool) :
    ℕ → Parser σ → Bytes → ℕ → (Parser σ × Status) × ℕ
  | _, p, [], i => ((p, p.softStatus), i)
  | 0, p, _, i => ((p, p.softStatus), i)
  | fuel + 1, p, ch :: rest, i =>
    if stopAtRoot && rootComplete p then ((p, p.softStatus), i)
    else
      match feedTurn env p ch rest with
      | (p, .next used) => feedLoop env stopAtRoot fuel p ((ch :: rest).drop used) (i + used)
      | (p, .stop status consumed) => ((p.fail, status), i + consumed)

/-- `lonejson__parser_feed_bytes`. -/
def feedBytes (env : Env σ) (stopAtRoot : Bool) (p : Parser σ) (bytes : Bytes) :
    (Parser σ × Status) × ℕ :=
  if p.core.failed then ((p, p.core.error.code), 0)
  else feedLoop env stopAtRoot bytes.length p bytes 0

/-- `lonejson_parser_feed`. -/
def parserFeed (env : Env σ) (p : Parser σ) (bytes : Bytes) : Parser σ × Status :=
  (feedBytes env false p bytes).1

/-- The number that the end of the input completes. -/
def finishNumber (env : Env σ) (p : Parser σ) : Parser σ × Status :=
  if p.lexMode = .number then deliverToken env { p with lexMode := .none } .number else (p, .ok)

/-- `lonejson_parser_finish`. -/
def parserFinish (env : Env σ) (p : Parser σ) : Parser σ × Status :=
  if p.core.failed then (p, p.core.error.code)
  else
    let r := finishNumber env p
    if r.2 ≠ .ok then (r.1, r.1.core.error.code)
    else if r.1.lexMode ≠ .none then
      r.1.setError .invalidJson "incomplete JSON token at end of input"
    else if !r.1.rootStarted || !r.1.rootFinished || !r.1.frames.isEmpty then
      r.1.setError .invalidJson "incomplete JSON document"
    else (r.1, r.1.softStatus)

/-! ## Whole parses -/

/-- `lonejson__parser_init_state`, before the destination is adopted. -/
def initState (env : Env σ) (dst : Record) (world : σ) : Parser σ :=
  { core := { dst, world }
    workspaceTop := env.workspaceSize
    token := { data := some 0, cap := env.workspaceSize - 1 } }

/-- `lonejson__parser_init_state`. -/
def parserInit (env : Env σ) (dst : Record) (world : σ) : Parser σ :=
  let p := initState env dst world
  { p with core := adoptExisting env p.core }

/-- Feed the chunks one after another, and finish unless one of them fails. -/
def feedChunks (env : Env σ) (p : Parser σ) : List Bytes → Parser σ × Status
  | [] => parserFinish env p
  | chunk :: rest =>
    let r := parserFeed env p chunk
    if r.2.soft then feedChunks env r.1 rest else r

/-- `lonejson_validate_buffer`. -/
def validateBuffer (env : Env σ) (world : σ) (data : Bytes) : Status :=
  let env := { env with validateOnly := true, rootMap := none }
  (feedChunks env (parserInit env [] world) [data]).2

/-- `lonejson__parse_buffer_with_options`: the destination after the call and the
status. -/
def parseBuffer (env : Env σ) (dst : Record) (world : σ) (data : Bytes) :
    Parser σ × Status :=
  let p := parserInit env dst world
  let p := if env.options.clearDestination then { p with core := initMapParse env p.core } else p
  if p.core.failed ∧ env.options.clearDestination then (p, p.core.error.code)
  else
    let r := feedChunks env p [data]
    let p := if r.2.soft then r.1 else unwindActiveMappedArrayStreams env r.1
    let core := cleanupJsonStreamPath env (directStringClear env p.core)
    ({ p with core }, r.2)

end Lonejson
