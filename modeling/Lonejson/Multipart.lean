import Lonejson.Framing

/-!
# The multipart reader

The incremental parser of MIME multipart bodies. It reads boundary and header lines byte by
byte, a body with a `Content-Length` by counting, and any other body by looking for a
boundary line in the bytes it holds back.
-/

namespace Lonejson

/-- `lonejson_multipart_options`, its defaults filled in. -/
structure MultipartOptions where
  maxBoundaryBytes : ℕ := 200
  maxHeaderLineBytes : ℕ := 64 * 1024
  maxHeaderCount : ℕ := 64
  maxPartBufferedBytes : ℕ := 1024 * 1024
  deriving DecidableEq, Repr

/-- What `lonejson_multipart_open` fixes. A boundary comes from a C string. -/
structure MultipartConfig where
  options : MultipartOptions
  boundary : Bytes
  boundary_ne : boundary ≠ []
  boundary_nul : 0 ∉ boundary

def MultipartConfig.boundaryLine (cfg : MultipartConfig) : Bytes := [0x2d, 0x2d] ++ cfg.boundary

def MultipartConfig.closingBoundaryLine (cfg : MultipartConfig) : Bytes :=
  cfg.boundaryLine ++ [0x2d, 0x2d]

/-- `lonejson__multipart_phase`. -/
inductive MultipartPhase where
  | expectBoundary
  | headers
  | bodyLength
  | bodyScan
  | done
  deriving DecidableEq, Repr

/-- `lonejson_multipart_part`; no `contentLength` is the source's `-1`. -/
structure MultipartPart where
  name : Option Bytes := none
  contentType : Option Bytes := none
  contentLength : Option ℕ := none
  headers : List (Bytes × Bytes) := []
  deriving DecidableEq, Repr

/-- The members of `lonejson_multipart` that a push writes. -/
structure Multipart where
  line : Bytes := []
  body : Bytes := []
  part : MultipartPart := {}
  remaining : ℕ := 0
  sawCr : Bool := false
  inPart : Bool := false
  closed : Bool := false
  phase : MultipartPhase := .expectBoundary
  deriving DecidableEq, Repr

/-- The calls of a `lonejson_multipart_handler`. -/
inductive PartEvent where
  | beginPart (part : MultipartPart)
  | partData (bytes : Bytes)
  | endPart (part : MultipartPart)
  deriving DecidableEq, Repr

/-- A `lonejson_multipart_handler` over the state of its user. A callback that the caller left
`NULL` is one that does nothing and returns `ok`. -/
abbrev MultipartHandler (σ : Type) := σ → PartEvent → ErrorInfo → σ × ErrorInfo × Status

/-- The parser, the state of the user and the error record. -/
structure MultipartRun (σ : Type) where
  mp : Multipart := {}
  user : σ
  error : ErrorInfo := {}

/-! ## Opening -/

abbrev MultipartError := Status × String

/-- The parameters of a Content-Type, up to the one named `boundary`. -/
def boundaryParameter (options : MultipartOptions) : ℕ → Bytes → Except MultipartError Bytes
  | 0, _ => .error (.invalidArgument, "multipart Content-Type missing boundary")
  | _, [] => .error (.invalidArgument, "multipart Content-Type missing boundary")
  | fuel + 1, p =>
    let p := p.dropWhile fun ch => ch == 0x3b || isBlank ch
    let name := p.takeWhile fun ch => ch != 0x3d && ch != 0x3b
    let isBoundary := asciiIeq (trimEnd name) (ascii "boundary")
    let found (value rest : Bytes) : Except MultipartError Bytes :=
      if isBoundary then
        if value.length = 0 then .error (.invalidArgument, "multipart boundary is invalid")
        else if value.length > options.maxBoundaryBytes then
          .error (.overflow, "multipart boundary length limit exceeded")
        else (byteAppend [] value options.maxBoundaryBytes).mapError (Status.overflow, ·)
      else boundaryParameter options fuel rest
    match p.drop name.length with
    | 0x3d :: p =>
      match p.dropWhile isBlank with
      | 0x22 :: p =>
        let value := p.takeWhile (· != 0x22)
        match p.drop value.length with
        | [] => .error (.invalidArgument, "multipart boundary quote is unterminated")
        | _ :: rest => found value rest
      | p =>
        let value := p.takeWhile fun ch => ch != 0x3b && !isBlank ch
        found value (p.drop value.length)
    | p => boundaryParameter options fuel (p.dropWhile (· != 0x3b))

/-- `lonejson__multipart_parse_boundary`. -/
def multipartParseBoundary (options : MultipartOptions) (contentType : Bytes) :
    Except MultipartError Bytes :=
  boundaryParameter options (contentType.length + 1) (cstr contentType)

/-- A boundary is a part of the Content-Type, and not empty. -/
theorem boundaryParameter_ok {options : MultipartOptions} {fuel : ℕ} {p value : Bytes}
    (hp : 0 ∉ p) (h : boundaryParameter options fuel p = .ok value) : value ≠ [] ∧ 0 ∉ value := by
  have hfree {l : Bytes} (hl : l <:+: p) : 0 ∉ l := fun hmem => hp (hl.subset hmem)
  induction fuel generalizing p with
  | zero => cases p <;> simp [boundaryParameter] at h
  | succ fuel ih =>
      cases p with
      | nil => simp [boundaryParameter] at h
      | cons ch p =>
          -- a value that is found and one that is passed over
          have hfound {isBoundary : Bool} {v rest : Bytes} (hv : v <:+: ch :: p)
              (hrest : rest <:+: ch :: p)
              (h : (if isBoundary then
                  if v.length = 0 then .error (.invalidArgument, "multipart boundary is invalid")
                  else if v.length > options.maxBoundaryBytes then
                    .error (.overflow, "multipart boundary length limit exceeded")
                  else (byteAppend [] v options.maxBoundaryBytes).mapError (Status.overflow, ·)
                else boundaryParameter options fuel rest) = Except.ok value) :
              value ≠ [] ∧ 0 ∉ value := by
            split_ifs at h with hname hempty hlong
            · cases happend : byteAppend [] v options.maxBoundaryBytes with
              | error message => simp [happend, Except.mapError] at h
              | ok out =>
                  obtain rfl : out = value := by simpa [happend, Except.mapError] using h
                  rw [byteAppend_eq_ok happend, List.nil_append]
                  exact ⟨fun hnil => hempty (by simp [hnil]), hfree hv⟩
            · exact ih (hfree hrest) h fun hl => hfree (hl.trans hrest)
          rw [boundaryParameter] at h
          · dsimp only at h
            generalize hq : (ch :: p).dropWhile _ = q at h
            have hsuffix : q <:+ ch :: p := hq ▸ List.dropWhile_suffix _
            split at h
            · next l hl =>
              have hl : l <:+ ch :: p :=
                ((List.suffix_cons _ _).trans (hl ▸ List.drop_suffix _ _)).trans hsuffix
              split at h
              · next r hr =>
                have hr : r <:+ ch :: p :=
                  ((List.suffix_cons _ _).trans (hr ▸ List.dropWhile_suffix _)).trans hl
                split at h
                · cases h
                · next b rest hrest =>
                  have hrest : rest <:+ r :=
                    (List.suffix_cons _ _).trans (hrest ▸ List.drop_suffix _ _)
                  exact hfound ((List.takeWhile_prefix _).isInfix.trans hr.isInfix)
                    (hrest.trans hr).isInfix h
              · have hr : l.dropWhile isBlank <:+ ch :: p := (List.dropWhile_suffix _).trans hl
                exact hfound ((List.takeWhile_prefix _).isInfix.trans hr.isInfix)
                  ((List.drop_suffix _ _).trans hr).isInfix h
            · generalize hr : List.drop _ q = r at h
              have hr : r <:+ ch :: p := (hr ▸ List.drop_suffix _ _).trans hsuffix
              have hrest : r.dropWhile (· != 0x3b) <:+ ch :: p := (List.dropWhile_suffix _).trans hr
              exact ih (hfree hrest.isInfix) h fun hl => hfree (hl.trans hrest.isInfix)
          · simp

theorem multipartParseBoundary_ok {options : MultipartOptions} {contentType value : Bytes}
    (h : multipartParseBoundary options contentType = .ok value) : value ≠ [] ∧ 0 ∉ value := by
  refine boundaryParameter_ok (fun hmem => ?_) h
  simpa using List.mem_takeWhile_imp hmem

/-- `lonejson_multipart_open`. The two lines are built from the boundary when they are used; here
they have to fit. -/
def multipartOpen (options : MultipartOptions) (contentType : Bytes) :
    Except MultipartError MultipartConfig :=
  match h : multipartParseBoundary options contentType with
  | .error e => .error e
  | .ok boundary =>
    let cfg : MultipartConfig :=
      ⟨options, boundary, (multipartParseBoundary_ok h).1, (multipartParseBoundary_ok h).2⟩
    let limit (extra : ℕ) : ℕ := (options.maxBoundaryBytes + extra) % (sizeMax + 1)
    match
      (byteAppend [] [0x2d, 0x2d] (limit 4)).bind fun line =>
      (byteAppend line boundary (limit 4)).bind fun line =>
      (byteAppend [] line (limit 6)).bind fun line =>
      byteAppend line [0x2d, 0x2d] (limit 6)
    with
    | .error message => .error (.overflow, message)
    | .ok _ => .ok cfg

/-! ## Headers -/

/-- A quoted parameter value behind its quote, and what is left behind the closing one. -/
def unquote (limit : ℕ) : Bytes → Bytes → Except MultipartError (Bytes × Bytes)
  | _, [] => .error (.invalidJson, "multipart Content-Disposition name invalid")
  | out, 0x22 :: rest => .ok (out, rest)
  | out, 0x5c :: ch :: rest =>
    match byteAppendChar out ch limit with
    | .error message => .error (.overflow, message)
    | .ok out => unquote limit out rest
  | out, ch :: rest =>
    match byteAppendChar out ch limit with
    | .error message => .error (.overflow, message)
    | .ok out => unquote limit out rest

/-- The parameters of a Content-Disposition, up to the one named `name`. The text starts at a
semicolon, or there is none. -/
def dispositionName (limit : ℕ) : ℕ → Bytes → Except MultipartError (Option Bytes)
  | fuel + 1, 0x3b :: p =>
    let p := p.dropWhile isBlank
    let name := p.takeWhile fun ch => ch != 0x3d && ch != 0x3b
    let found (value rest : Bytes) : Except MultipartError (Option Bytes) :=
      if asciiIeq (trimEnd name) (ascii "name") then .ok (some value)
      else dispositionName limit fuel (rest.dropWhile (· != 0x3b))
    match p.drop name.length with
    | 0x3d :: p =>
      match p.dropWhile isBlank with
      | 0x22 :: p =>
        match unquote limit [] p with
        | .error e => .error e
        | .ok (value, rest) => found value rest
      | p =>
        let value := p.takeWhile fun ch => ch != 0x3b && !isBlank ch
        found value (p.drop value.length)
    | p => dispositionName limit fuel (p.dropWhile (· != 0x3b))
  | _, _ => .ok none

/-- `lonejson__multipart_parse_content_disposition`. -/
def multipartParseContentDisposition (options : MultipartOptions) (part : MultipartPart)
    (value : Bytes) : Except MultipartError MultipartPart :=
  match dispositionName options.maxHeaderLineBytes (value.length + 1)
      (value.dropWhile (· != 0x3b)) with
  | .error e => .error e
  | .ok none => .ok part
  | .ok (some name) => .ok { part with name }

/-- The digits of a Content-Length. -/
def contentLengthDigits : ℕ → Bytes → Except MultipartError ℕ
  | acc, [] => .ok acc
  | acc, ch :: rest =>
    if isDigit ch then
      let digit := ch.toNat - 0x30
      if acc > (2 ^ 63 - 1 - digit) / 10 then
        .error (.overflow, "multipart Content-Length exceeds supported range")
      else contentLengthDigits (acc * 10 + digit) rest
    else .error (.invalidJson, "multipart Content-Length is invalid")

/-- `lonejson__multipart_add_header`. -/
def multipartAddHeader (options : MultipartOptions) (part : MultipartPart) (name value : Bytes) :
    Except MultipartError MultipartPart :=
  if part.headers.length ≥ options.maxHeaderCount then
    .error (.overflow, "multipart header count limit exceeded")
  else .ok { part with headers := part.headers ++ [(name, value)] }

/-- `lonejson__multipart_process_header_line`, on the line as a C string. -/
def multipartProcessHeaderLine (options : MultipartOptions) (part : MultipartPart)
    (line : Bytes) : Except MultipartError MultipartPart :=
  let name := line.takeWhile (· != 0x3a)
  match line.drop name.length with
  | [] => .error (.invalidJson, "invalid multipart header line")
  | _ :: rest =>
    let text := rest.dropWhile isBlank
    let value := trimEnd text
    (multipartAddHeader options part name value).bind fun part =>
      if asciiIeq name (ascii "Content-Disposition") then
        multipartParseContentDisposition options part text
      else if asciiIeq name (ascii "Content-Type") then
        .ok { part with contentType := some value }
      else if asciiIeq name (ascii "Content-Length") then
        if value.length = 0 then .error (.invalidJson, "multipart Content-Length is invalid")
        else (contentLengthDigits 0 value).map fun n => { part with contentLength := some n }
      else .ok part

/-! ## Boundary lines -/

/-- `lonejson__multipart_boundary_line_complete` on the bytes from a position on: how many of
them the line and its end are. -/
def boundaryLineComplete (text line : Bytes) : Option ℕ :=
  if line.isPrefixOf text then
    match text.drop line.length with
    | [] => none
    | ch :: rest =>
      if ch = LF then some (line.length + 1)
      else if ch = CR then
        match rest with
        | [] => none
        | next :: _ => if next = LF then some (line.length + 2) else none
      else none
  else none

/-- `lonejson__multipart_boundary_line_prefix` on the bytes from a position on. -/
def boundaryLinePrefix (text line : Bytes) : Bool :=
  if text.length = 0 then false
  else if line.length ≤ text.length then
    if line.isPrefixOf text then
      match text.drop line.length with
      | [] => true
      | ch :: _ => ch == CR || ch == LF
    else false
  else text.isPrefixOf line

/-- `lonejson__multipart_emit_len_before_boundary` on the bytes before the position. -/
def emitLenBeforeBoundary (before : Bytes) : ℕ :=
  if before.getLast? = some LF then
    if before.dropLast.getLast? = some CR then before.length - 2 else before.length - 1
  else before.length

/-- What `lonejson__multipart_process_body_buffer` finds in the buffer. -/
inductive BodyScan where
  /-- A boundary line: the bytes of the body before it, and the bytes up to its end. -/
  | boundary (closing : Bool) (emitLen consumeLen : ℕ)
  /-- What may become one: the bytes of the body before it. -/
  | hold (keepFrom : ℕ)
  deriving DecidableEq, Repr

/-- The bytes to let go when there is no boundary line in sight. -/
def keepFromTail (body : Bytes) : ℕ :=
  if body.getLast? = some LF then
    if body.dropLast.getLast? = some CR then body.length - 2 else body.length - 1
  else if body.getLast? = some CR then body.length - 1
  else body.length

/-- The loop over the positions, with the bytes before and from the position on. -/
def scanBody (cfg : MultipartConfig) : Bytes → Bytes → BodyScan
  | before, [] => .hold (keepFromTail before)
  | before, ch :: rest =>
    if before = [] ∨ before.getLast? = some LF then
      match boundaryLineComplete (ch :: rest) cfg.closingBoundaryLine with
      | some n => .boundary true (emitLenBeforeBoundary before) (before.length + n)
      | none =>
        match boundaryLineComplete (ch :: rest) cfg.boundaryLine with
        | some n => .boundary false (emitLenBeforeBoundary before) (before.length + n)
        | none =>
          if boundaryLinePrefix (ch :: rest) cfg.closingBoundaryLine ||
              boundaryLinePrefix (ch :: rest) cfg.boundaryLine then
            .hold (emitLenBeforeBoundary before)
          else scanBody cfg (before ++ [ch]) rest
    else scanBody cfg (before ++ [ch]) rest

/-! ## Pushing -/

variable {σ : Type}

/-- `lonejson__set_error` and return. -/
def MultipartRun.fail (r : MultipartRun σ) (code : Status) (message : String) :
    MultipartRun σ × Status :=
  ({ r with error := r.error.set code message }, code)

/-- Call the handler; a failure without an error of its own gets the message. -/
def MultipartRun.call (h : MultipartHandler σ) (r : MultipartRun σ) (event : PartEvent)
    (message : String) : MultipartRun σ × Status :=
  let x := h r.user event r.error
  let r := { r with user := x.1, error := x.2.1 }
  if x.2.2 = .ok then (r, .ok)
  else if r.error.code ≠ .ok then (r, r.error.code)
  else r.fail .callbackFailed message

/-- `lonejson__multipart_reset_part`. -/
def Multipart.resetPart (mp : Multipart) : Multipart :=
  { mp with part := {}, remaining := 0, body := [], inPart := false }

/-- `lonejson__multipart_call_begin`. -/
def multipartCallBegin (h : MultipartHandler σ) (r : MultipartRun σ) : MultipartRun σ × Status :=
  r.call h (.beginPart r.mp.part) "multipart begin_part callback failed"

/-- `lonejson__multipart_call_data`. -/
def multipartCallData (h : MultipartHandler σ) (r : MultipartRun σ) (bytes : Bytes) :
    MultipartRun σ × Status :=
  if bytes.length = 0 then (r, .ok)
  else r.call h (.partData bytes) "multipart part_data callback failed"

/-- `lonejson__multipart_call_end`. -/
def multipartCallEnd (h : MultipartHandler σ) (r : MultipartRun σ) : MultipartRun σ × Status :=
  r.call h (.endPart r.mp.part) "multipart end_part callback failed"

def MultipartRun.setMp (r : MultipartRun σ) (mp : Multipart) : MultipartRun σ := { r with mp }

@[simp] theorem MultipartRun.setMp_mp (r : MultipartRun σ) (mp : Multipart) :
    (r.setMp mp).mp = mp := rfl

@[simp] theorem MultipartRun.setMp_user (r : MultipartRun σ) (mp : Multipart) :
    (r.setMp mp).user = r.user := rfl

/-- `lonejson__multipart_process_line`. -/
def multipartProcessLine (cfg : MultipartConfig) (h : MultipartHandler σ) (r : MultipartRun σ) :
    MultipartRun σ × Status :=
  let line := cstr r.mp.line
  match r.mp.phase with
  | .expectBoundary =>
    if r.mp.line.length = 0 then (r, .ok)
    else if line = cfg.boundaryLine then
      (r.setMp { r.mp.resetPart with phase := .headers }, .ok)
    else if line = cfg.closingBoundaryLine then
      (r.setMp { r.mp with phase := .done, closed := true }, .ok)
    else r.fail .invalidJson "unexpected multipart boundary line"
  | .headers =>
    if r.mp.line.length = 0 then
      andThenOk (multipartCallBegin h r) fun r =>
        let mp := { r.mp with inPart := true }
        match mp.part.contentLength with
        | some n =>
          if n = 0 then
            let x := multipartCallEnd h (r.setMp { mp with remaining := n })
            (x.1.setMp { x.1.mp.resetPart with phase := .expectBoundary }, x.2)
          else (r.setMp { mp with remaining := n, phase := .bodyLength }, .ok)
        | none => (r.setMp { mp with phase := .bodyScan }, .ok)
    else
      match multipartProcessHeaderLine cfg.options r.mp.part line with
      | .error e => r.fail e.1 e.2
      | .ok part => (r.setMp { r.mp with part }, .ok)
  | _ => (r, .ok)

/-- `lonejson__byte_reset` of the line. -/
def MultipartRun.clearLine (x : MultipartRun σ × Status) : MultipartRun σ × Status :=
  (x.1.setMp { x.1.mp with line := [] }, x.2)

/-- `lonejson__multipart_feed_line_char` when no CR is pending. -/
def multipartTakeLineChar (cfg : MultipartConfig) (h : MultipartHandler σ) (ch : Byte)
    (r : MultipartRun σ) : MultipartRun σ × Status :=
  if ch = CR then (r.setMp { r.mp with sawCr := true }, .ok)
  else if ch = LF then MultipartRun.clearLine (multipartProcessLine cfg h r)
  else
    match byteAppendChar r.mp.line ch cfg.options.maxHeaderLineBytes with
    | .error message => r.fail .overflow message
    | .ok line => (r.setMp { r.mp with line }, .ok)

/-- `lonejson__multipart_feed_line_char`. -/
def multipartFeedLineChar (cfg : MultipartConfig) (h : MultipartHandler σ) (r : MultipartRun σ)
    (ch : Byte) : MultipartRun σ × Status :=
  if r.mp.sawCr then
    andThenOk (MultipartRun.clearLine
        (multipartProcessLine cfg h (r.setMp { r.mp with sawCr := false }))) fun r =>
      if ch = LF then (r, .ok) else multipartTakeLineChar cfg h ch r
  else multipartTakeLineChar cfg h ch r

/-- `lonejson__multipart_finish_boundary`. -/
def multipartFinishBoundary (h : MultipartHandler σ) (r : MultipartRun σ) (closing : Bool) :
    MultipartRun σ × Status :=
  andThenOk (multipartCallEnd h r) fun r =>
    let mp := r.mp.resetPart
    if closing then (r.setMp { mp with phase := .done, closed := true }, .ok)
    else (r.setMp { mp with phase := .headers }, .ok)

/-- `lonejson__multipart_process_body_buffer`. -/
def multipartProcessBodyBuffer (cfg : MultipartConfig) (h : MultipartHandler σ)
    (r : MultipartRun σ) : MultipartRun σ × Status :=
  match scanBody cfg [] r.mp.body with
  | .boundary closing emitLen consumeLen =>
    andThenOk (multipartCallData h r (r.mp.body.take emitLen)) fun r =>
      multipartFinishBoundary h (r.setMp { r.mp with body := r.mp.body.drop consumeLen }) closing
  | .hold keepFrom =>
    if keepFrom > 0 then
      andThenOk (multipartCallData h r (r.mp.body.take keepFrom)) fun r =>
        (r.setMp { r.mp with body := r.mp.body.drop keepFrom }, .ok)
    else (r, .ok)

/-- `lonejson__multipart_feed_body_scan_char`. -/
def multipartFeedBodyScanChar (cfg : MultipartConfig) (h : MultipartHandler σ)
    (r : MultipartRun σ) (ch : Byte) : MultipartRun σ × Status :=
  match byteAppendChar r.mp.body ch cfg.options.maxPartBufferedBytes with
  | .error message => r.fail .overflow message
  | .ok body => multipartProcessBodyBuffer cfg h (r.setMp { r.mp with body })

/-- One byte outside a counted body. -/
def multipartFeedChar (cfg : MultipartConfig) (h : MultipartHandler σ) (r : MultipartRun σ)
    (ch : Byte) : MultipartRun σ × Status :=
  if r.mp.phase = .bodyScan then multipartFeedBodyScanChar cfg h r ch
  else multipartFeedLineChar cfg h r ch

/-- The end of a counted body, when nothing of it remains. -/
def multipartEndCounted (h : MultipartHandler σ) (r : MultipartRun σ) : MultipartRun σ × Status :=
  if r.mp.remaining = 0 then
    andThenOk (multipartCallEnd h r) fun r =>
      (r.setMp { r.mp.resetPart with phase := .expectBoundary }, .ok)
  else (r, .ok)

/-- A chunk of a counted body. -/
def multipartFeedBodyLength (h : MultipartHandler σ) (r : MultipartRun σ) (chunk : Bytes) :
    MultipartRun σ × Status :=
  andThenOk (multipartCallData h r chunk) fun r =>
    multipartEndCounted h (r.setMp { r.mp with remaining := r.mp.remaining - chunk.length })

/-- The loop of `lonejson_multipart_push`. A chunk of a counted body is empty only if nothing
of the body remains, so two rounds a byte are enough. -/
def multipartFeed (cfg : MultipartConfig) (h : MultipartHandler σ) :
    ℕ → Bytes → MultipartRun σ → MultipartRun σ × Status
  | _, [], r => (r, .ok)
  | 0, _ :: _, r => (r, .internalError)
  | fuel + 1, ch :: rest, r =>
    if r.mp.phase = .bodyLength then
      andThenOk (multipartFeedBodyLength h r ((ch :: rest).take r.mp.remaining)) fun r' =>
        multipartFeed cfg h fuel ((ch :: rest).drop r.mp.remaining) r'
    else andThenOk (multipartFeedChar cfg h r ch) (multipartFeed cfg h fuel rest)

/-- `lonejson_multipart_push`. -/
def multipartPush (cfg : MultipartConfig) (h : MultipartHandler σ) (bytes : Bytes)
    (r : MultipartRun σ) : MultipartRun σ × Status :=
  if r.mp.closed then r.fail .invalidArgument "multipart parser is already finished"
  else multipartFeed cfg h (2 * bytes.length) bytes { r with error := {} }

/-- `lonejson_multipart_finish`. -/
def multipartFinish (r : MultipartRun σ) : MultipartRun σ × Status :=
  if r.mp.closed || r.mp.phase == .done then (r.setMp { r.mp with closed := true }, .ok)
  else r.fail .invalidJson "multipart stream ended before closing boundary"

/-- Pushes one after another, up to the first that fails. -/
def multipartPushAll (cfg : MultipartConfig) (h : MultipartHandler σ) :
    List Bytes → MultipartRun σ → MultipartRun σ × Status
  | [], r => (r, .ok)
  | chunk :: chunks, r =>
    andThenOk (multipartPush cfg h chunk r) (multipartPushAll cfg h chunks)

/-- Pushes, and a finish when none of them failed. -/
def multipartRun (cfg : MultipartConfig) (h : MultipartHandler σ) (chunks : List Bytes)
    (user : σ) : MultipartRun σ × Status :=
  andThenOk (multipartPushAll cfg h chunks { user }) multipartFinish

end Lonejson
