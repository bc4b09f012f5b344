import Lonejson.Transcoder

/-!
# The visitor of JSON values

The recursive parser that turns a JSON text into the callbacks of a value visitor, with
the limits on depth, strings, keys, numbers and the whole text. The cursor is the text that
is left; its length says how many bytes have been counted, and how many of them lie in the
read buffer, which decides how a string is cut into chunks.
-/

namespace Lonejson

open Json (Text)

/-- `lonejson_value_visitor`. A callback that is `NULL` does nothing and returns `ok`. -/
abbrev Visitor (υ : Type) := υ → VisitEvent → ErrorInfo → υ × ErrorInfo × Status

/-- What a visit is given: the limits, the length of the whole text, and how many bytes
are left in the read buffer when some number of bytes of the text is left. -/
structure VisitEnv where
  limits : ValueLimits
  length : ℕ
  window : ℕ → ℕ

/-- The defaults for limits that are not set, in `lonejson__json_visit_cursor`. -/
def ValueLimits.orDefault (limits : ValueLimits) : ValueLimits :=
  { maxDepth := if limits.maxDepth = 0 then defaultValueLimits.maxDepth else limits.maxDepth
    maxStringBytes :=
      if limits.maxStringBytes = 0 then defaultValueLimits.maxStringBytes
      else limits.maxStringBytes
    maxNumberBytes :=
      if limits.maxNumberBytes = 0 then defaultValueLimits.maxNumberBytes
      else limits.maxNumberBytes
    maxKeyBytes :=
      if limits.maxKeyBytes = 0 then defaultValueLimits.maxKeyBytes else limits.maxKeyBytes
    maxTotalBytes := limits.maxTotalBytes }

/-- `total_bytes > max_total_bytes` when `left` bytes are left. -/
def VisitEnv.tooLong (env : VisitEnv) (left : ℕ) : Bool :=
  env.limits.maxTotalBytes ≠ 0 && env.length - left > env.limits.maxTotalBytes

variable {υ : Type}

/-- A callback, and a return unless the status is one to go on with. -/
def JsonIo.visit (v : Visitor υ) (io : JsonIo υ) (event : VisitEvent) :
    Except (JsonIo υ) (JsonIo υ) :=
  let r := v io.out event io.error
  let io : JsonIo υ := { out := r.1, error := r.2.1, status := r.2.2 }
  if io.status.soft then .ok io else .error io

/-- The error of `lonejson__json_enforce_total_limit`. -/
def JsonIo.overTotal (io : JsonIo υ) : JsonIo υ :=
  io.fail .overflow "JSON value exceeds maximum total byte limit"

/-- `lonejson__json_peek_nonspace`: the text from the byte on that was peeked. -/
def visitPeek (env : VisitEnv) (io : JsonIo υ) : Text → Except (JsonIo υ) Text
  | [] => .ok []
  | b :: i =>
    if env.tooLong i.length then .error io.overTotal
    else if isJsonSpace b then visitPeek env io i
    else .ok (b :: i)

/-! ## Strings -/

/-- The three callbacks of keys and of strings. -/
def textBegin (isKey : Bool) : VisitEvent := if isKey then .keyBegin else .stringBegin

def textChunk (isKey : Bool) (data : Bytes) : VisitEvent :=
  if isKey then .keyChunk data else .stringChunk data

def textEnd (isKey : Bool) : VisitEvent := if isKey then .keyEnd else .stringEnd

/-- `max_key_bytes` or `max_string_bytes`. -/
def VisitEnv.textLimit (env : VisitEnv) (isKey : Bool) : ℕ :=
  if isKey then env.limits.maxKeyBytes else env.limits.maxStringBytes

/-- The check of `decoded_bytes`. -/
def VisitEnv.overText (env : VisitEnv) (isKey : Bool) (decoded : ℕ) : Bool :=
  env.textLimit isKey ≠ 0 && decoded > env.textLimit isKey

def overTextMessage (isKey : Bool) : String :=
  if isKey then "JSON object key exceeds maximum decoded byte limit"
  else "JSON string exceeds maximum decoded byte limit"

/-- Deliver `plain` unless it is empty. -/
def flushPlain (v : Visitor υ) (isKey : Bool) (plain : Bytes) (io : JsonIo υ) :
    Except (JsonIo υ) (JsonIo υ) :=
  if plain = [] then .ok io else io.visit v (textChunk isKey plain)

/-- The copying loop of `lonejson__json_visit_plain_chunk_no_path`, with a buffer of 256 bytes. -/
def fillPlain (v : Visitor υ) (isKey : Bool) :
    ℕ → Bytes → Bytes → JsonIo υ → Except (JsonIo υ) (Bytes × JsonIo υ)
  | 0, _, _, io => .error io
  | n + 1, plain, data, io =>
    if data = [] then .ok (plain, io)
    else
      let plain' := plain ++ data.take (256 - plain.length)
      let data := data.drop (256 - plain.length)
      if plain'.length = 256 then
        (io.visit v (textChunk isKey plain')).bind (fillPlain v isKey n [] data)
      else fillPlain v isKey n plain' data io

/-- `lonejson__json_visit_plain_chunk_no_path`; `left` bytes are left behind the span. -/
def visitPlainChunk (env : VisitEnv) (v : Visitor υ) (isKey : Bool) (left : ℕ) (span plain : Bytes)
    (decoded : ℕ) (io : JsonIo υ) : Except (JsonIo υ) (Bytes × JsonIo υ) :=
  if span = [] then .ok (plain, io)
  else if env.tooLong left then .error io.overTotal
  else if env.overText isKey (decoded + span.length) then
    .error (io.fail .overflow (overTextMessage isKey))
  else if plain = [] then (io.visit v (textChunk isKey span)).map ([], ·)
  else fillPlain v isKey (span.length + 1) plain span io

/-- The digits of a code unit. -/
def visitQuad (env : VisitEnv) (message : String) :
    ℕ → ℕ → Text → JsonIo υ → Except (JsonIo υ) (ℕ × Text)
  | 0, cp, i, _ => .ok (cp, i)
  | _ + 1, _, [], io => .error (io.fail .invalidJson message)
  | n + 1, cp, hx :: i, io =>
    if env.tooLong i.length then .error io.overTotal
    else
      match hexValue hx with
      | none => .error (io.fail .invalidJson message)
      | some hv => visitQuad env message n (pushHex cp hv) i io

/-- `getc() == b`, and the text behind the byte. -/
def VisitEnv.reads (env : VisitEnv) (b : Byte) : Text → Option Text
  | [] => none
  | c :: i => if !env.tooLong i.length && c = b then some i else none

/-- The second half of a surrogate pair. -/
def visitLow (env : VisitEnv) (high : ℕ) (i : Text) (io : JsonIo υ) :
    Except (JsonIo υ) (ℕ × Text) :=
  match (env.reads 0x5c i).bind (env.reads 0x75) with
  | none => .error (io.fail .invalidJson "invalid unicode surrogate pair")
  | some i =>
    (visitQuad env "invalid unicode surrogate pair" 4 0 i io).bind fun x =>
      if isLowSurrogate x.1 then .ok (combineSurrogates high x.1, x.2)
      else .error (io.fail .invalidJson "invalid unicode surrogate pair")

/-- The code point of a `\\u` escape behind the letter. -/
def visitUnicode (env : VisitEnv) (i : Text) (io : JsonIo υ) : Except (JsonIo υ) (ℕ × Text) :=
  (visitQuad env "invalid unicode escape" 4 0 i io).bind fun x =>
    if isHighSurrogate x.1 then visitLow env x.1 x.2 io
    else if isLowSurrogate x.1 then .error (io.fail .invalidJson "unexpected low surrogate")
    else .ok x

/-- Deliver what an escape stands for. -/
def deliverEscape (env : VisitEnv) (v : Visitor υ) (isKey : Bool) (data : Bytes) (decoded : ℕ)
    (i : Text) (io : JsonIo υ) : Except (JsonIo υ) (Text × ℕ × JsonIo υ) :=
  if env.overText isKey (decoded + data.length) then
    .error (io.fail .overflow "decoded JSON text exceeds limit")
  else (io.visit v (textChunk isKey data)).map (i, decoded + data.length, ·)

/-- An escape behind its backslash. -/
def visitEscape (env : VisitEnv) (v : Visitor υ) (isKey : Bool) (decoded : ℕ) (i : Text)
    (io : JsonIo υ) : Except (JsonIo υ) (Text × ℕ × JsonIo υ) :=
  match i with
  | [] => .error (io.fail .invalidJson "unterminated escape sequence")
  | ch :: i =>
    if env.tooLong i.length then .error io.overTotal
    else
      match simpleEscape ch with
      | some out => deliverEscape env v isKey [out] decoded i io
      | none =>
        if ch = 0x75 then
          (visitUnicode env i io).bind fun x =>
            match utf8Encode x.1 with
            | none => .error (io.fail .internalError "failed to encode unicode escape")
            | some data => deliverEscape env v isKey data decoded x.2 io
        else .error (io.fail .invalidJson "invalid string escape")

/-- The byte behind the plain span, in the loop of `lonejson__json_visit_string_value_no_path`;
`loop` goes on with the text, the plain bytes and the number of decoded bytes. -/
def visitTextByte (env : VisitEnv) (v : Visitor υ) (isKey : Bool)
    (loop : Text → Bytes → ℕ → JsonIo υ → Except (JsonIo υ) (Text × JsonIo υ)) (decoded : ℕ)
    (i : Text) (plain : Bytes) (io : JsonIo υ) : Except (JsonIo υ) (Text × JsonIo υ) :=
  match i with
  | [] => .error (io.fail .invalidJson "unterminated JSON string")
  | ch :: i =>
    if env.tooLong i.length then .error io.overTotal
    else if ch = 0x22 then
      (flushPlain v isKey plain io).bind fun io => (io.visit v (textEnd isKey)).map (i, ·)
    else if ch < 0x20 then .error (io.fail .invalidJson "control character in string")
    else if ch ≠ 0x5c then
      let plain := plain ++ [ch]
      if env.overText isKey (decoded + 1) then
        .error (io.fail .overflow (overTextMessage isKey))
      else if plain.length = 256 then
        (io.visit v (textChunk isKey plain)).bind (loop i [] (decoded + 1))
      else loop i plain (decoded + 1) io
    else
      (flushPlain v isKey plain io).bind fun io =>
        (visitEscape env v isKey decoded i io).bind fun x => loop x.1 [] x.2.1 x.2.2

/-- The loop of `lonejson__json_visit_string_value_no_path`. -/
def visitText (env : VisitEnv) (v : Visitor υ) (isKey : Bool) :
    ℕ → Text → Bytes → ℕ → JsonIo υ → Except (JsonIo υ) (Text × JsonIo υ)
  | 0, _, _, _, io => .error io
  | n + 1, i, plain, decoded, io =>
    let span := (i.take (env.window i.length)).takeWhile isPlain
    (visitPlainChunk env v isKey (i.length - span.length) span plain decoded io).bind fun x =>
      visitTextByte env v isKey (visitText env v isKey n) (decoded + span.length)
        (i.drop span.length) x.1 x.2

/-- `lonejson__json_visit_string_value_no_path`, behind the quote. -/
def visitString (env : VisitEnv) (v : Visitor υ) (isKey : Bool) (i : Text) (io : JsonIo υ) :
    Except (JsonIo υ) (Text × JsonIo υ) :=
  (io.visit v (textBegin isKey)).bind (visitText env v isKey (i.length + 1) i [] 0)

/-! ## Numbers and literals -/

/-- The loop of `lonejson__json_visit_number_no_path`. -/
def visitDigits (env : VisitEnv) (io : JsonIo υ) :
    Bytes → Text → Except (JsonIo υ) (Bytes × Text)
  | buffer, [] => .ok (buffer, [])
  | buffer, ch :: i =>
    if isNumberByte ch then
      if env.tooLong i.length then .error io.overTotal
      else if buffer.length ≥ env.limits.maxNumberBytes then
        .error (io.fail .overflow "JSON number exceeds maximum byte limit")
      else visitDigits env io (buffer ++ [ch]) i
    else .ok (buffer, ch :: i)

/-- `lonejson__json_visit_number_no_path`. -/
def visitNumber (env : VisitEnv) (v : Visitor υ) (first : Byte) (i : Text) (io : JsonIo υ) :
    Except (JsonIo υ) (Text × JsonIo υ) :=
  (io.visit v .numberBegin).bind fun io =>
    if 0 ≥ env.limits.maxNumberBytes then
      .error (io.fail .overflow "JSON number exceeds maximum byte limit")
    else
      (visitDigits env io [first] i).bind fun x =>
        if isValidJsonNumber x.1 then
          (io.visit v (.numberChunk x.1)).bind fun io => (io.visit v .numberEnd).map (x.2, ·)
        else .error (io.fail .invalidJson "invalid JSON number")

/-- `lonejson__json_visit_literal_no_path`, with the callback at its end. -/
def visitLiteral (env : VisitEnv) (v : Visitor υ) (event : VisitEvent) :
    Text → Text → JsonIo υ → Except (JsonIo υ) (Text × JsonIo υ)
  | [], i, io => (io.visit v event).map (i, ·)
  | _ :: _, [], io => .error (io.fail .invalidJson "invalid JSON literal")
  | c :: rest, ch :: i, io =>
    if env.tooLong i.length then .error io.overTotal
    else if ch = c then visitLiteral env v event rest i io
    else .error (io.fail .invalidJson "invalid JSON literal")

/-! ## Values -/

/-- The colon behind a key. -/
def visitColon (env : VisitEnv) (i : Text) (io : JsonIo υ) : Except (JsonIo υ) (Text × JsonIo υ) :=
  match visitPeek env io i with
  | .ok (0x3a :: i) => .ok (i, io)
  | _ => .error (io.fail .invalidJson "expected ':' after object key")

/-- The key of a member and its colon. -/
def visitKey (env : VisitEnv) (v : Visitor υ) (i : Text) (io : JsonIo υ) :
    Except (JsonIo υ) (Text × JsonIo υ) :=
  match visitPeek env io i with
  | .ok (0x22 :: i) =>
    (visitString env v true i io).bind fun x => visitColon env x.1 x.2
  | _ => .error (io.fail .invalidJson "expected object key")

mutual

/-- `lonejson__json_visit_value_no_path`. -/
def visitValue (env : VisitEnv) (v : Visitor υ) :
    ℕ → ℕ → Text → JsonIo υ → Except (JsonIo υ) (Text × JsonIo υ)
  | 0, _, _, io => .error io
  | n + 1, depth, i, io =>
    (visitPeek env io i).bind fun i =>
      match i with
      | [] => .error (io.fail .invalidJson "expected JSON value")
      | ch :: i =>
        if ch = 0x22 then visitString env v false i io
        else if ch = 0x7b then
          if depth ≥ env.limits.maxDepth then
            .error (io.fail .overflow "JSON value nesting exceeds maximum depth")
          else (io.visit v .objectBegin).bind (visitMembers env v n depth true i)
        else if ch = 0x5b then
          if depth ≥ env.limits.maxDepth then
            .error (io.fail .overflow "JSON value nesting exceeds maximum depth")
          else (io.visit v .arrayBegin).bind (visitItems env v n depth true i)
        else if ch = 0x74 then visitLiteral env v (.bool true) [0x72, 0x75, 0x65] i io
        else if ch = 0x66 then visitLiteral env v (.bool false) [0x61, 0x6c, 0x73, 0x65] i io
        else if ch = 0x6e then visitLiteral env v .null [0x75, 0x6c, 0x6c] i io
        else if isNumberStart ch then visitNumber env v ch i io
        else .error (io.fail .invalidJson "expected JSON value")

/-- The loop of `lonejson__json_visit_object_no_path`. -/
def visitMembers (env : VisitEnv) (v : Visitor υ) :
    ℕ → ℕ → Bool → Text → JsonIo υ → Except (JsonIo υ) (Text × JsonIo υ)
  | 0, _, _, _, io => .error io
  | n + 1, depth, first, i, io =>
    (visitPeek env io i).bind fun i =>
      match i with
      | [] => .error (io.fail .invalidJson "unterminated JSON object")
      | ch :: j =>
        if ch = 0x7d then (io.visit v .objectEnd).map (j, ·)
        else if !first && ch != 0x2c then
          .error (io.fail .invalidJson "expected ',' in object")
        else
          (visitKey env v (if first then i else j) io).bind fun x =>
            (visitValue env v n (depth + 1) x.1 x.2).bind fun y =>
              visitMembers env v n depth false y.1 y.2

/-- The loop of `lonejson__json_visit_array_no_path`. -/
def visitItems (env : VisitEnv) (v : Visitor υ) :
    ℕ → ℕ → Bool → Text → JsonIo υ → Except (JsonIo υ) (Text × JsonIo υ)
  | 0, _, _, _, io => .error io
  | n + 1, depth, first, i, io =>
    (visitPeek env io i).bind fun i =>
      match i with
      | [] => .error (io.fail .invalidJson "unterminated JSON array")
      | ch :: j =>
        if ch = 0x5d then (io.visit v .arrayEnd).map (j, ·)
        else if !first && ch != 0x2c then
          .error (io.fail .invalidJson "expected ',' in array")
        else
          (visitValue env v n (depth + 1) (if first then i else j) io).bind fun x =>
            visitItems env v n depth false x.1 x.2

end

/-- `lonejson__json_visit_cursor` without a path visitor. -/
def jsonVisit (env : VisitEnv) (v : Visitor υ) (text : Text) (io : JsonIo υ) : JsonIo υ :=
  match visitValue env v (2 * text.length + 2) 0 text io with
  | .error io => io
  | .ok (rest, io) =>
    match visitPeek env io rest with
    | .ok [] => io
    | _ => io.fail .invalidJson "visited JSON must contain exactly one value"

end Lonejson
