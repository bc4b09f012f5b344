import Lonejson.Integers
import Lonejson.Jwks
import Lonejson.PathVisitor

/-!
# JSON Web Tokens

`lonejson_jwt_decode_compact` splits a compact token into its segments, decodes the first two and
visits their JSON with paths. The callbacks keep the registered members of both objects.
-/

namespace Lonejson

/-! ## The segments -/

/-- `lonejson_jwt_compact`. -/
structure JwtCompact where
  header : Bytes
  payload : Bytes
  signature : Bytes
  signingInput : Bytes
  deriving DecidableEq

/-- The bytes of a token from `start` to `stop`. -/
def jwtSlice (token : Bytes) (start stop : ℕ) : Bytes := (token.drop start).take (stop - start)

/-- `lonejson__jwt_check_segment`. -/
def jwtCheckSegment (token : Bytes) (start stop : ℕ) (allowEmpty : Bool) : Except Failure Unit :=
  if stop < start then
    .error { code := .internalError, message := "invalid JWT segment bounds", offset := start }
  else if !allowEmpty ∧ stop = start then
    .error {
      code := .invalidJson
      message := "JWT compact segment must not be empty"
      offset := start }
  else
    match base64DecodedLen (jwtSlice token start stop) .urlRaw with
    | .ok _ => .ok ()
    | .error failure =>
      .error { code := failure.status, message := failure.message, offset := failure.offset + start }

/-- The loop over the dots, with the positions of the first two. -/
def jwtFindDots : ℕ → Option ℕ → Option ℕ → Bytes → Except Failure (Option ℕ × Option ℕ)
  | _, first, second, [] => .ok (first, second)
  | i, first, second, ch :: rest =>
    if ch = 0x2e then
      if first.isNone then jwtFindDots (i + 1) (some i) second rest
      else if second.isNone then jwtFindDots (i + 1) first (some i) rest
      else
        .error {
          code := .invalidJson
          message := "JWT compact token has too many segments"
          offset := i }
    else jwtFindDots (i + 1) first second rest

/-- `lonejson_jwt_parse_compact`. -/
def jwtParseCompact (token : Option Bytes) : Except Failure JwtCompact :=
  match token with
  | none =>
    .error { code := .invalidArgument, message := "JWT compact token and output are required" }
  | some token => do
    let dots ← jwtFindDots 0 none none token
    match dots with
    | (some first, some second) => do
      jwtCheckSegment token 0 first false
      jwtCheckSegment token (first + 1) second false
      jwtCheckSegment token (second + 1) token.length true
      .ok {
        header := jwtSlice token 0 first
        payload := jwtSlice token (first + 1) second
        signature := jwtSlice token (second + 1) token.length
        signingInput := jwtSlice token 0 second }
    | _ =>
      .error {
        code := .invalidJson
        message := "JWT compact token must contain three segments"
        offset := token.length }

/-! ## Registered members -/

/-- The registered members of the header and of the claims. -/
inductive JwtMember where
  | alg | kid | typ | crit | x5t | x5tS256 | x5c
  | iss | sub | nonce | azp | scope | scp | aud | exp | nbf | iat
  deriving DecidableEq, Repr

namespace JwtMember

def text : JwtMember → String
  | alg => "alg" | kid => "kid" | typ => "typ" | crit => "crit"
  | x5t => "x5t" | x5tS256 => "x5t#S256" | x5c => "x5c"
  | iss => "iss" | sub => "sub" | nonce => "nonce" | azp => "azp" | scope => "scope"
  | scp => "scp" | aud => "aud" | exp => "exp" | nbf => "nbf" | iat => "iat"

def name (m : JwtMember) : Bytes := ascii m.text

/-- The members that a visit of the header looks for, or a visit of the claims. -/
def all (headerMode : Bool) : List JwtMember :=
  if headerMode then [alg, kid, typ, crit, x5t, x5tS256, x5c]
  else [iss, sub, nonce, azp, scope, scp, aud, exp, nbf, iat]

/-- The member may be a string. -/
def takesString : JwtMember → Bool
  | crit | x5c | exp | nbf | iat => false
  | _ => true

/-- The member may be an array of strings. -/
def takesArray : JwtMember → Bool
  | crit | x5c | scp | aud => true
  | _ => false

/-- The member is a number. -/
def takesNumber : JwtMember → Bool
  | exp | nbf | iat => true
  | _ => false

end JwtMember

/-- `lonejson__jwt_path_is`. -/
def jwtPathIs (path : List Bytes) (name : Bytes) : Bool := path == [name]

/-- `lonejson__jwt_path_is_array_item`. -/
def jwtPathIsArrayItem (path : List Bytes) (name : Bytes) : Bool :=
  match path with
  | [first, second] => first == name && second != [] && second.all isDigit
  | _ => false

/-- The registered member at a path. -/
def jwtMemberAt (headerMode : Bool) (path : List Bytes) : Option JwtMember :=
  (JwtMember.all headerMode).find? fun m => jwtPathIs path m.name

/-- The registered member that has an item at a path. -/
def jwtItemAt (headerMode : Bool) (path : List Bytes) : Option JwtMember :=
  (JwtMember.all headerMode).find? fun m => m.takesArray && jwtPathIsArrayItem path m.name

/-- `lonejson__jwt_path_is_registered_header`, and `lonejson__jwt_path_is_registered_claim`. -/
def jwtPathIsRegistered (headerMode : Bool) (path : List Bytes) : Bool :=
  (jwtMemberAt headerMode path).isSome || (jwtItemAt headerMode path).isSome

/-! ## The outputs -/

/-- `lonejson_string_array`, as the callbacks grow it. -/
structure JwtStringArray where
  items : List Bytes := []
  capacity : ℕ := 0
  ownsItems : Bool := false
  deriving DecidableEq

/-- `lonejson_jwt_header`; `none` is `NULL`. -/
structure JwtHeader where
  alg : Option Bytes := none
  kid : Option Bytes := none
  typ : Option Bytes := none
  crit : JwtStringArray := {}
  x5t : Option Bytes := none
  x5tS256 : Option Bytes := none
  x5c : JwtStringArray := {}
  deriving DecidableEq

/-- `lonejson_jwt_claims`. -/
structure JwtClaims where
  iss : Option Bytes := none
  sub : Option Bytes := none
  nonce : Option Bytes := none
  azp : Option Bytes := none
  scope : Option Bytes := none
  scp : JwtStringArray := {}
  aud : Option Bytes := none
  audArray : JwtStringArray := {}
  exp : Int64 := 0
  nbf : Int64 := 0
  iat : Int64 := 0
  hasExp : Bool := false
  hasNbf : Bool := false
  hasIat : Bool := false
  deriving DecidableEq

/-- The two outputs of a call. -/
structure JwtOutputs where
  header : JwtHeader := {}
  claims : JwtClaims := {}
  deriving DecidableEq

/-! ## The visit -/

/-- `lonejson__jwt_claim_field`: the string or number of a member, or an item of its array. -/
inductive JwtClaimField where
  | none
  | member (m : JwtMember)
  | item (m : JwtMember)
  deriving DecidableEq

/-- `lonejson__jwt_claim_visit`, with a flag `seen` for each member. -/
structure JwtClaimVisit where
  headerMode : Bool
  out : JwtOutputs := {}
  active : JwtClaimField := .none
  buffer : Option Bytes := none
  capacity : ℕ := 0
  rootObjectSeen : Bool := false
  seen : JwtMember → Bool := fun _ => false

/-- `lonejson__jwt_claim_type_error`. -/
def jwtClaimTypeError (claim : String) : Failure :=
  { code := .typeMismatch, message := "JWT claim has invalid type: " ++ claim }

/-- `lonejson__jwt_claim_duplicate_error`. -/
def jwtClaimDuplicateError (claim : String) : Failure :=
  { code := .duplicateField, message := "duplicate JWT registered claim: " ++ claim }

def jwtValueFailure : Failure :=
  { code := .allocationFailed, message := "failed to allocate JWT claim value" }

namespace JwtClaimVisit

variable (alloc : ℕ → Bool) (state : JwtClaimVisit)

def typeError : Except Failure JwtClaimVisit := .error (jwtClaimTypeError "registered")

/-- `lonejson__jwt_visit_buffer_append`. -/
def bufferAppend (data : Bytes) : Except Failure JwtClaimVisit :=
  let text := state.buffer.getD []
  if data = [] then .ok state
  else if 0 ∈ data then
    .error { code := .invalidJson, message := "JWT string claim contains NUL byte" }
  else if text.length > sizeMax - data.length - 1 then
    .error { code := .overflow, message := "JWT claim value is too large" }
  else
    let need := text.length + data.length + 1
    if need > state.capacity then
      let nextCap := growKey need 64 (if state.capacity = 0 then 32 else state.capacity)
      if alloc nextCap then .ok { state with buffer := some (text ++ data), capacity := nextCap }
      else .error jwtValueFailure
    else .ok { state with buffer := some (text ++ data) }

/-- `lonejson__jwt_visit_buffer_reset`. -/
def bufferReset : JwtClaimVisit := { state with buffer := state.buffer.map fun _ => [] }

/-- `lonejson__jwt_visit_buffer_take`. -/
def bufferTake : Except Failure (Bytes × JwtClaimVisit) :=
  match state.buffer with
  | some text => .ok (text, { state with buffer := none, capacity := 0 })
  | none =>
    if alloc 1 then .ok ([], { state with buffer := none, capacity := 0 })
    else .error jwtValueFailure

end JwtClaimVisit

/-- `lonejson__jwt_string_array_append`, for pointers of eight bytes. -/
def jwtStringArrayAppend (alloc : ℕ → Bool) (array : JwtStringArray) (value : Bytes) :
    Except Failure JwtStringArray :=
  if array.items.length = array.capacity then
    let nextCapacity := if array.capacity = 0 then 4 else array.capacity * 2 % 2 ^ 64
    if nextCapacity < array.capacity then
      .error { code := .overflow, message := "JWT audience array is too large" }
    else if alloc (nextCapacity * 8 % 2 ^ 64) then
      .ok { items := array.items ++ [value], capacity := nextCapacity, ownsItems := true }
    else
      .error { code := .allocationFailed, message := "failed to allocate JWT audience array" }
  else .ok { array with items := array.items ++ [value] }

/-- The string of a member goes to its place. -/
def JwtOutputs.setText (out : JwtOutputs) (m : JwtMember) (value : Bytes) : JwtOutputs :=
  match m with
  | .alg => { out with header := { out.header with alg := some value } }
  | .kid => { out with header := { out.header with kid := some value } }
  | .typ => { out with header := { out.header with typ := some value } }
  | .x5t => { out with header := { out.header with x5t := some value } }
  | .x5tS256 => { out with header := { out.header with x5tS256 := some value } }
  | .iss => { out with claims := { out.claims with iss := some value } }
  | .sub => { out with claims := { out.claims with sub := some value } }
  | .nonce => { out with claims := { out.claims with nonce := some value } }
  | .azp => { out with claims := { out.claims with azp := some value } }
  | .scope => { out with claims := { out.claims with scope := some value } }
  | .aud => { out with claims := { out.claims with aud := some value } }
  | _ => out

/-- The array of a member. -/
def JwtOutputs.array (out : JwtOutputs) (m : JwtMember) : JwtStringArray :=
  match m with
  | .crit => out.header.crit
  | .x5c => out.header.x5c
  | .scp => out.claims.scp
  | .aud => out.claims.audArray
  | _ => {}

def JwtOutputs.setArray (out : JwtOutputs) (m : JwtMember) (array : JwtStringArray) : JwtOutputs :=
  match m with
  | .crit => { out with header := { out.header with crit := array } }
  | .x5c => { out with header := { out.header with x5c := array } }
  | .scp => { out with claims := { out.claims with scp := array } }
  | .aud => { out with claims := { out.claims with audArray := array } }
  | _ => out

def JwtOutputs.setDate (out : JwtOutputs) (m : JwtMember) (value : Int64) : JwtOutputs :=
  match m with
  | .exp => { out with claims := { out.claims with exp := value, hasExp := true } }
  | .nbf => { out with claims := { out.claims with nbf := value, hasNbf := true } }
  | .iat => { out with claims := { out.claims with iat := value, hasIat := true } }
  | _ => out

namespace JwtClaimVisit

variable (alloc : ℕ → Bool) (state : JwtClaimVisit)

/-- `lonejson__jwt_begin_string_field`, and `lonejson__jwt_begin_number_field`. -/
def beginField (m : JwtMember) : Except Failure JwtClaimVisit :=
  if state.seen m then .error (jwtClaimDuplicateError m.text)
  else
    .ok (bufferReset { state with
      seen := fun other => if other = m then true else state.seen other
      active := .member m })

/-- `lonejson__jwt_claim_string_begin`. -/
def stringBegin (path : List Bytes) : Except Failure JwtClaimVisit :=
  match jwtMemberAt state.headerMode path with
  | some m => if m.takesString then state.beginField m else typeError
  | none =>
    match jwtItemAt state.headerMode path with
    | some m => .ok (bufferReset { state with active := .item m })
    | none => .ok state

/-- `lonejson__jwt_claim_string_chunk`. -/
def stringChunk (data : Bytes) : Except Failure JwtClaimVisit :=
  if state.active = .none then .ok state else state.bufferAppend alloc data

/-- The text of an item, or of a member that is an array with one item. -/
def keepItem (m : JwtMember) : Except Failure JwtClaimVisit := do
  let taken ← state.bufferTake alloc
  let array ← jwtStringArrayAppend alloc (taken.2.out.array m) taken.1
  .ok { taken.2 with out := taken.2.out.setArray m array }

/-- The text of a member. -/
def keepText (m : JwtMember) : Except Failure JwtClaimVisit := do
  let taken ← state.bufferTake alloc
  .ok { taken.2 with out := taken.2.out.setText m taken.1 }

/-- The end of every callback that ends a scalar. -/
def endField : JwtClaimVisit := { state with active := .none }

/-- `lonejson__jwt_claim_string_end`. -/
def stringEnd : Except Failure JwtClaimVisit :=
  match state.active with
  | .none => .ok state.endField
  | .item m => (state.keepItem alloc m).map endField
  | .member m =>
    if !m.takesString then .ok state.endField
    else if m = .scp then (state.keepItem alloc m).map endField
    else (state.keepText alloc m).map endField

/-- `lonejson__jwt_claim_number_begin`. -/
def numberBegin (path : List Bytes) : Except Failure JwtClaimVisit :=
  match jwtMemberAt state.headerMode path with
  | some m => if m.takesNumber then state.beginField m else typeError
  | none => if (jwtItemAt state.headerMode path).isSome then typeError else .ok state

/-- A number is read for a member. -/
def dateActive : Option JwtMember :=
  match state.active with
  | .member m => if m.takesNumber then some m else none
  | _ => none

/-- `lonejson__jwt_claim_number_chunk`. -/
def numberChunk (data : Bytes) : Except Failure JwtClaimVisit :=
  if state.dateActive.isNone then .ok state else state.bufferAppend alloc data

/-- `lonejson__jwt_claim_number_end`. -/
def numberEnd : Except Failure JwtClaimVisit :=
  match state.dateActive with
  | none => .ok state.endField
  | some m =>
    match state.buffer.bind parseI64Word with
    | none => .error { code := .typeMismatch, message := "JWT date claim must be an integer" }
    | some value =>
      if value < 0 then
        .error { code := .typeMismatch, message := "JWT date claim must be non-negative" }
      else
        .ok (bufferReset (endField { state with out := state.out.setDate m value }))

/-- `lonejson__jwt_claim_object_begin`. -/
def objectBegin (path : List Bytes) : Except Failure JwtClaimVisit :=
  if path = [] then
    if state.rootObjectSeen then
      .error { code := .internalError, message := "invalid JWT claim visitor state" }
    else .ok { state with rootObjectSeen := true }
  else if jwtPathIsRegistered state.headerMode path then typeError
  else .ok state

/-- `lonejson__jwt_claim_array_begin`. -/
def arrayBegin (path : List Bytes) : Except Failure JwtClaimVisit :=
  match jwtMemberAt state.headerMode path with
  | some m =>
    if m.takesArray then
      if state.seen m then .error (jwtClaimDuplicateError m.text)
      else .ok { state with seen := fun other => if other = m then true else state.seen other }
    else typeError
  | none => if (jwtItemAt state.headerMode path).isSome then typeError else .ok state

/-- `lonejson__jwt_claim_literal_type`. -/
def literalType (path : List Bytes) : Except Failure JwtClaimVisit :=
  if jwtPathIsRegistered state.headerMode path then
    .error (jwtClaimTypeError
      (if !state.headerMode && path.isEmpty then "root" else "registered"))
  else .ok state

/-- The callbacks of `lonejson__jwt_claim_visitor`; those that it leaves out do nothing. -/
def event (path : List Bytes) : VisitEvent → Except Failure JwtClaimVisit
  | .objectBegin => state.objectBegin path
  | .arrayBegin => state.arrayBegin path
  | .stringBegin => state.stringBegin path
  | .stringChunk data => state.stringChunk alloc data
  | .stringEnd => state.stringEnd alloc
  | .numberBegin => state.numberBegin path
  | .numberChunk data => state.numberChunk alloc data
  | .numberEnd => state.numberEnd
  | .bool _ => state.literalType path
  | .null => state.literalType path
  | _ => .ok state

end JwtClaimVisit

/-- `lonejson__jwt_claim_visitor`. A failed callback ends the visit, and nothing reads its state
behind that but the cleanup. -/
def jwtClaimVisitor (alloc : ℕ → Bool) : PathVisitor JwtClaimVisit := fun state path event error =>
  match state.event alloc path event with
  | .ok state => (state, error, .ok)
  | .error e => (state, error.set e.code e.message, e.code)

/-! ## The call -/

/-- What a visit takes from a runtime: the value limits and the allocator. -/
structure JwtRuntime where
  limits : ValueLimits
  grants : ℕ → Bool

/-- `lonejson__jwt_parse_decoded_json`. -/
def jwtParseDecodedJson (runtime : Option JwtRuntime) (alloc : ℕ → Bool) (json : Bytes)
    (headerMode : Bool) (out : JwtOutputs) : JwtOutputs × Except Failure Unit :=
  match runtime with
  | none => (out, .error { code := .invalidArgument, message := "lonejson runtime is required" })
  | some runtime =>
    let env := { limits := runtime.limits.orDefault, length := json.length, window := id }
    let io := jsonVisitPaths env (jwtClaimVisitor alloc) runtime.grants json
      { out := { headerMode, out } }
    if io.status ≠ .ok then
      (io.out.out, .error { code := io.status, message := io.error.message })
    else if !io.out.rootObjectSeen then
      (io.out.out, .error {
        code := .typeMismatch
        message :=
          if headerMode then "JWT header must be an object" else "JWT claims must be an object" })
    else (io.out.out, .ok ())

/-- `lonejson__jwt_header_validate`. -/
def jwtHeaderValidate (header : JwtHeader) : Except Failure Unit := do
  jwkCheckBase64url header.x5t "x5t" false
  jwkCheckBase64url header.x5tS256 "x5t#S256" false
  header.x5c.items.forM fun item => jwkCheckBase64 (some item) "x5c"

/-- `lonejson_jwt_claim_policy`, as far as the decoder uses it. -/
structure JwtLimits where
  maxTokenBytes : ℕ := 0
  maxDecodedHeaderBytes : ℕ := 0
  maxDecodedClaimsBytes : ℕ := 0

/-- `lonejson__jwt_limit_or_default`. -/
def jwtLimitOrDefault (configured fallback : ℕ) : ℕ := if configured = 0 then fallback else configured

def JwtLimits.headerLimit (limits : JwtLimits) : ℕ :=
  jwtLimitOrDefault limits.maxDecodedHeaderBytes (16 * 1024)

def JwtLimits.claimsLimit (limits : JwtLimits) : ℕ :=
  jwtLimitOrDefault limits.maxDecodedClaimsBytes (256 * 1024)

/-- `lonejson_base64_decoded_len` of a segment. -/
def jwtSegmentLen (segment : Bytes) : Except Failure ℕ :=
  (base64DecodedLen segment .urlRaw).mapError fun failure =>
    { code := failure.status, message := failure.message, offset := failure.offset }

/-- `lonejson_base64_decode` of a segment into as many bytes as it needs. -/
def jwtSegmentBytes (segment : Bytes) (len : ℕ) : Except Failure Bytes :=
  (base64Decode segment .urlRaw len).out.mapError fun failure =>
    { code := failure.status, message := failure.message, offset := failure.offset }

/-- The two decoded segments, in blocks of their own. -/
def jwtDecodeSegments (alloc : ℕ → Bool) (limits : JwtLimits) (token : Option Bytes) :
    Except Failure (Bytes × Bytes) := do
  let compact ← jwtParseCompact token
  let headerLen ← jwtSegmentLen compact.header
  let claimsLen ← jwtSegmentLen compact.payload
  if headerLen > limits.headerLimit ∨ claimsLen > limits.claimsLimit then
    .error { code := .overflow, message := "JWT decoded JSON exceeds configured limit" }
  else if !(alloc (headerLen + 1) && alloc (claimsLen + 1)) then
    .error { code := .allocationFailed, message := "failed to allocate decoded JWT JSON" }
  else do
    let headerJson ← jwtSegmentBytes compact.header headerLen
    let claimsJson ← jwtSegmentBytes compact.payload claimsLen
    .ok (headerJson, claimsJson)

/-- Both texts are parsed, and the header is checked in between. -/
def jwtParseTexts (runtime : Option JwtRuntime) (alloc : ℕ → Bool) (headerJson claimsJson : Bytes) :
    JwtOutputs × Except Failure Unit :=
  let r := jwtParseDecodedJson runtime alloc headerJson true {}
  match r.2 with
  | .error e => (r.1, .error e)
  | .ok () =>
    match jwtHeaderValidate r.1.header with
    | .error e => (r.1, .error e)
    | .ok () => jwtParseDecodedJson runtime alloc claimsJson false r.1

/-- `lonejson_jwt_decode_compact` behind the check of the outputs. -/
def jwtDecodeInto (runtime : Option JwtRuntime) (alloc : ℕ → Bool) (token : Option Bytes)
    (len : ℕ) (limits : Option JwtLimits) (out : JwtOutputs) : JwtOutputs × Except Failure Unit :=
  let policy := limits.getD {}
  if policy.maxTokenBytes ≠ 0 ∧ len > policy.maxTokenBytes then
    (out, .error {
      code := .overflow
      message := "JWT compact token exceeds configured limit"
      offset := len })
  else
    -- both outputs are cleaned up here, and again behind a failure
    match jwtDecodeSegments alloc policy token with
    | .error e => ({}, .error e)
    | .ok (headerJson, claimsJson) =>
      let r := jwtParseTexts runtime alloc headerJson claimsJson
      match r.2 with
      | .error e => ({}, .error e)
      | .ok () => r

/-- `lonejson_jwt_decode_compact`. -/
def jwtDecodeCompact (runtime : Option JwtRuntime) (alloc : ℕ → Bool) (token : Option Bytes)
    (len : ℕ) (limits : Option JwtLimits) (header : Option JwtHeader) (claims : Option JwtClaims) :
    Except Failure Unit × Option JwtHeader × Option JwtClaims :=
  match header, claims with
  | some header, some claims =>
    let r := jwtDecodeInto runtime alloc token len limits { header, claims }
    (r.2, some r.1.header, some r.1.claims)
  | header, claims =>
    (.error { code := .invalidArgument, message := "JWT header and claims outputs are required" },
      header, claims)

end Lonejson
