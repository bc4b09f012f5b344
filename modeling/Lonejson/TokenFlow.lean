import Lonejson.Engine
import Lonejson.HttpProvider

/-!
# Token flows

`lonejson_oauth2_token_flow_ensure` refreshes an access token that is about to expire. It asks the
token endpoint up to a number of times, reads the last response, and replaces the flow as a whole
or not at all.
-/

namespace Lonejson

variable {σ : Type}

/-! ## Responses of the token endpoint -/

/-- `lonejson_oauth2_token_response`; a text of `none` is `NULL`. -/
structure TokenResponse where
  accessToken : Option Bytes := none
  tokenType : Option Bytes := none
  refreshToken : Option Bytes := none
  scope : Option Bytes := none
  idToken : Option Bytes := none
  error : Option Bytes := none
  errorDescription : Option Bytes := none
  errorUri : Option Bytes := none
  expiresIn : Int64 := 0
  hasExpiresIn : Bool := false
  deriving DecidableEq

/-- `LONEJSON_FIELD_STRING_ALLOC`. -/
def stringAllocField (key : String) : Field := { jsonKey := ascii key, kind := .string }

/-- `LONEJSON_FIELD_I64_PRESENT`. -/
def i64PresentField (key : String) : Field :=
  { jsonKey := ascii key, kind := .i64, storage := .fixed, flags := { hasPresence := true } }

/-- `lonejson__oauth2_token_response_map`. -/
def tokenResponseMap : MapDef where
  fields := [stringAllocField "access_token", stringAllocField "token_type",
    stringAllocField "refresh_token", stringAllocField "scope", stringAllocField "id_token",
    stringAllocField "error", stringAllocField "error_description", stringAllocField "error_uri",
    i64PresentField "expires_in"]

/-- A record of that map with nothing in it. -/
def tokenResponseInit : Record := List.replicate 8 (.string none, false) ++ [(.i64 0, false)]

/-- The C string in a member of a record. -/
def Record.text? (r : Record) (i : ℕ) : Option Bytes :=
  match r[i]? with
  | some (.string (some owned), _) => some (cstr owned.data)
  | _ => none

/-- The integer in a member of a record, with its presence. -/
def Record.int64? (r : Record) (i : ℕ) : Int64 × Bool :=
  match r[i]? with
  | some (.i64 value, present) => (Int64.ofInt value, present)
  | _ => (0, false)

def TokenResponse.ofRecord (r : Record) : TokenResponse where
  accessToken := r.text? 0
  tokenType := r.text? 1
  refreshToken := r.text? 2
  scope := r.text? 3
  idToken := r.text? 4
  error := r.text? 5
  errorDescription := r.text? 6
  errorUri := r.text? 7
  expiresIn := (r.int64? 8).1
  hasExpiresIn := (r.int64? 8).2

/-- `lonejson_parse_buffer` with the map of token responses. -/
def parseTokenResponse (runtime : Option (Runtime σ)) (json : Bytes) :
    Except Failure TokenResponse :=
  match runtime with
  | none => .error { code := .invalidArgument, message := "lonejson runtime is required" }
  | some runtime =>
    let env := { runtime.env with
      maps := fun _ => tokenResponseMap, rootMap := some 0, structDepth := 1 }
    let r := parseBuffer env tokenResponseInit runtime.world json
    if r.2 = .ok then .ok (.ofRecord r.1.core.dst)
    else .error { code := r.2, message := r.1.core.error.message }

/-- `LONEJSON__OAUTH2_DEFAULT_MAX_TOKEN_RESPONSE_BYTES`, unless the caller gives a limit. -/
def tokenResponseLimit (maxResponseBytes : ℕ) : ℕ :=
  if maxResponseBytes = 0 then 1024 * 1024 else maxResponseBytes

/-- The checks on a response that was parsed. -/
def tokenResponseCheck (out : TokenResponse) : Except Failure TokenResponse :=
  if out.error.isSome then
    .error { code := .typeMismatch, message := "OAuth2 token endpoint returned an error" }
  else if cstr (out.accessToken.getD []) = [] ∨ cstr (out.tokenType.getD []) = [] then
    .error {
      code := .invalidJson
      message := "OAuth2 token response requires access_token and token_type" }
  else if asciiIeq (cstr (out.tokenType.getD [])) (ascii "Bearer") = false then
    .error { code := .typeMismatch, message := "OAuth2 token response token_type is not Bearer" }
  else if out.hasExpiresIn ∧ out.expiresIn < 0 then
    .error { code := .invalidJson, message := "OAuth2 token response expires_in is negative" }
  else .ok out

/-- `lonejson_oauth2_token_response_parse_json`. -/
def tokenResponseParseJson (runtime : Option (Runtime σ)) (json : Bytes) (maxResponseBytes : ℕ) :
    Except Failure TokenResponse :=
  if json.length > tokenResponseLimit maxResponseBytes then
    .error {
      code := .overflow, message := "OAuth2 token response exceeds configured limit"
      offset := json.length }
  else do
    let out ← parseTokenResponse runtime json
    tokenResponseCheck out

/-! ## Flows -/

/-- `lonejson_oauth2_token_flow`. -/
structure TokenFlow where
  accessToken : Option Bytes := none
  tokenType : Option Bytes := none
  refreshToken : Option Bytes := none
  scope : Option Bytes := none
  idToken : Option Bytes := none
  expiresAt : Int64 := 0
  hasExpiresAt : Bool := false
  deriving DecidableEq

/-- The texts of a flow. -/
inductive TokenField where
  | accessToken
  | tokenType
  | refreshToken
  | scope
  | idToken
  deriving DecidableEq, Repr

/-- `lonejson_oauth2_token_flow_policy`. -/
structure TokenFlowPolicy where
  tokenEndpoint : Option Bytes := none
  clientId : Option Bytes := none
  clientSecret : Option Bytes := none
  scope : Option Bytes := none
  now : Int64 := 0
  refreshSkewSeconds : Int64 := 0
  maxResponseBytes : ℕ := 0
  maxRetries : UInt32 := 0
  disableRefresh : Bool := false
  disableRetry : Bool := false
  deriving DecidableEq

/-- `LONEJSON__OAUTH2_DEFAULT_TOKEN_FLOW_REFRESH_SKEW_SECONDS` in the place of zero, and no skew in
the place of a negative one. -/
def effectiveSkew (skewSeconds : Int64) : Int64 :=
  let skew := if skewSeconds = 0 then 60 else skewSeconds
  if skew < 0 then 0 else skew

/-- `lonejson_oauth2_token_flow_is_expired`. -/
def tokenFlowIsExpired (flow : TokenFlow) (now skewSeconds : Int64) : Bool :=
  if cstr (flow.accessToken.getD []) = [] then true
  else if flow.hasExpiresAt = false then false
  else if now > Int64.maxValue - effectiveSkew skewSeconds then true
  else flow.expiresAt ≤ now + effectiveSkew skewSeconds

/-- `lonejson__owned_strdup` of a C string, when the allocator may refuse. -/
def tokenStrdup (served : Bool) (src : Option Bytes) : Option Bytes :=
  if cstr (src.getD []) = [] ∨ served = false then none else some (cstr (src.getD []))

/-- The flow that a response makes of a flow, before its expiry is set. -/
def tokenFlowCopy (served : TokenField → Bool) (flow : TokenFlow) (response : TokenResponse) :
    TokenFlow where
  accessToken := tokenStrdup (served .accessToken) response.accessToken
  tokenType := tokenStrdup (served .tokenType) response.tokenType
  refreshToken := tokenStrdup (served .refreshToken)
    (if response.refreshToken.isSome then response.refreshToken else flow.refreshToken)
  scope := tokenStrdup (served .scope) response.scope
  idToken := tokenStrdup (served .idToken) response.idToken

/-- A text that should have been copied is missing. -/
def tokenFlowCopyFailed (flow next : TokenFlow) (response : TokenResponse) : Bool :=
  next.accessToken.isNone || next.tokenType.isNone ||
    (response.refreshToken.isSome && next.refreshToken.isNone) ||
    (response.refreshToken.isNone && flow.refreshToken.isSome && next.refreshToken.isNone) ||
    (response.scope.isSome && next.scope.isNone) ||
    (response.idToken.isSome && next.idToken.isNone)

/-- `lonejson_oauth2_token_flow_update_response`. -/
def tokenFlowUpdateResponse (served : TokenField → Bool) (flow : TokenFlow)
    (response : TokenResponse) (now : Int64) : TokenFlow × Except Failure Unit :=
  if response.accessToken.isNone ∨ response.tokenType.isNone ∨ now < 0 then
    (flow, .error {
      code := .invalidArgument
      message := "OAuth2 token flow, successful token response, and non-negative current time " ++
        "are required" })
  else if response.hasExpiresIn ∧ response.expiresIn > Int64.maxValue - now then
    (flow, .error { code := .overflow, message := "OAuth2 token flow expiry overflows" })
  else
    let next := tokenFlowCopy served flow response
    if tokenFlowCopyFailed flow next response then
      (flow, .error {
        code := .allocationFailed, message := "failed to copy OAuth2 token flow field" })
    else if response.hasExpiresIn then
      ({ next with expiresAt := now + response.expiresIn, hasExpiresAt := true }, .ok ())
    else (next, .ok ())

/-! ## Refreshing -/

/-- `LONEJSON__OAUTH2_DEFAULT_MAX_FORM_BODY_BYTES`. -/
def defaultFormBodyBytes : ℕ := 64 * 1024

/-- `lonejson_oauth2_refresh_token_body` for the request of a refresh, which has no limit of its
own. -/
def refreshTokenBody (grant : ℕ → Bool) (refreshToken clientId clientSecret scope : Option Bytes) :
    Except Failure Bytes :=
  if cstr (refreshToken.getD []) = [] then
    .error { code := .invalidArgument, message := "OAuth2 refresh_token is required" }
  else if clientSecret.isSome ∧ cstr (clientId.getD []) = [] then
    .error {
      code := .invalidArgument, message := "OAuth2 client_id is required with client_secret" }
  else do
    let append (out : FormBody) (key : String) (value : Option Bytes) :=
      formAppendPair grant defaultFormBodyBytes out (some (ascii key)) value
    let out ← append {} "grant_type" (some (ascii "refresh_token"))
    let out ← append out "refresh_token" refreshToken
    let out ← append out "client_id" clientId
    let out ← append out "client_secret" clientSecret
    let out ← append out "scope" scope
    .ok out.data

/-- `lonejson__oauth2_token_endpoint_request` for the `n`-th try of a refresh. -/
def tokenEndpointRequest (runtime : Option (Runtime σ)) (grant : ℕ → Bool)
    (policy : TokenFlowPolicy) (refreshToken : Option Bytes) (n : ℕ) : HttpTry :=
  match requireHttpsUrl policy.tokenEndpoint "token_endpoint" true with
  | .error e => .unsent e
  | .ok () =>
    match refreshTokenBody grant refreshToken policy.clientId policy.clientSecret policy.scope with
    | .error e => .unsent e
    | .ok body => httpProviderRequest runtime n {
        method := some (ascii "POST")
        url := policy.tokenEndpoint
        contentType := some (ascii "application/x-www-form-urlencoded")
        body := some body
        maxResponseBytes := tokenResponseLimit policy.maxResponseBytes }

/-- `lonejson__oauth2_token_flow_retryable_status`. -/
def retryableStatus (status : Status) : Bool :=
  status == .callbackFailed || status == .ioError || status == .truncated

/-- `lonejson__oauth2_token_flow_retryable_http`. -/
def retryableHttp (response : HttpResponse) : Bool :=
  response.statusCode == 429 || (500 ≤ response.statusCode && response.statusCode ≤ 599)

/-- A try that may be made again. -/
def HttpTry.retryable (x : HttpTry) : Bool :=
  match x.answer with
  | .ok response => retryableHttp response
  | .error e => retryableStatus e.code

/-- `LONEJSON__OAUTH2_DEFAULT_TOKEN_FLOW_RETRIES` in the place of zero, and no retry when it is
disabled. -/
def effectiveRetries (policy : TokenFlowPolicy) : UInt32 :=
  if policy.disableRetry then 0 else if policy.maxRetries = 0 then 2 else policy.maxRetries

/-- The loop of `lonejson_oauth2_token_flow_ensure`, with the number of tries that were made and
the counter of the source; `none` when the fuel is used up. -/
def refreshLoop (tries : ℕ → HttpTry) (maxRetries : UInt32) : ℕ → ℕ → UInt32 → Option (ℕ × UInt32)
  | 0, _, _ => none
  | fuel + 1, n, attempts =>
    let attempts := attempts + 1
    if (tries n).retryable && attempts ≤ maxRetries then
      refreshLoop tries maxRetries fuel (n + 1) attempts
    else some (n + 1, attempts)

/-- What is made of the last try. -/
def refreshFinish (runtime : Option (Runtime σ)) (served : TokenField → Bool) (flow : TokenFlow)
    (policy : TokenFlowPolicy) (answer : Except Failure HttpResponse) :
    TokenFlow × Except Failure Unit :=
  match answer with
  | .error e => (flow, .error e)
  | .ok response =>
    match httpRequireSuccess response "OAuth2 token endpoint" with
    | .error e => (flow, .error e)
    | .ok () =>
      match tokenResponseParseJson runtime response.body policy.maxResponseBytes with
      | .error e => (flow, .error e)
      | .ok parsed => tokenFlowUpdateResponse served flow parsed policy.now

/-- `lonejson_oauth2_token_flow_state`. -/
inductive TokenFlowState where
  | ready
  | refreshed
  | needsInteraction
  | failed
  deriving DecidableEq, Repr

/-- The flow and the result after a call, and its status. `tries` is how often the loop ran; a
caller without a result does not see `state` and `attempts`. -/
structure EnsureOutcome where
  flow : Option TokenFlow
  status : Except Failure Unit
  state : TokenFlowState := .failed
  attempts : UInt32 := 0
  tries : ℕ := 0

/-- The parts of a call's surroundings that are not arguments of it: for each try the lengths that
its body can be made to hold, and the copies that are served. -/
structure EnsureAlloc where
  body : ℕ → ℕ → Bool := fun _ _ => true
  copy : TokenField → Bool := fun _ => true

/-- The tries of a refresh. -/
def refreshTries (runtime : Option (Runtime σ)) (alloc : EnsureAlloc) (flow : TokenFlow)
    (policy : TokenFlowPolicy) (n : ℕ) : HttpTry :=
  tokenEndpointRequest runtime (alloc.body n) policy flow.refreshToken n

/-- `lonejson_oauth2_token_flow_ensure`; `none` when the fuel of the loop is used up. -/
def tokenFlowEnsure (runtime : Option (Runtime σ)) (alloc : EnsureAlloc) (flow : Option TokenFlow)
    (policy : Option TokenFlowPolicy) (fuel : ℕ) : Option EnsureOutcome :=
  let invalid (message : String) : EnsureOutcome :=
    { flow, status := .error { code := .invalidArgument, message } }
  match flow, policy with
  | some old, some policy =>
    if policy.now < 0 then
      some (invalid "OAuth2 token flow, policy, and non-negative current time are required")
    else if tokenFlowIsExpired old policy.now policy.refreshSkewSeconds = false then
      some { flow, status := .ok (), state := .ready }
    else if policy.disableRefresh ∨ cstr (old.refreshToken.getD []) = [] then
      some { flow, status := .ok (), state := .needsInteraction }
    else if policy.tokenEndpoint.isNone ∨ policy.clientId.isNone then
      some (invalid "OAuth2 token flow refresh requires token_endpoint and client_id")
    else
      let tries := refreshTries runtime alloc old policy
      (refreshLoop tries (effectiveRetries policy) fuel 0 0).map fun (n, attempts) =>
        match refreshFinish runtime alloc.copy old policy (tries (n - 1)).answer with
        | (next, .ok ()) => {
            flow := some next, status := .ok (), state := .refreshed, attempts, tries := n }
        | (next, .error e) => { flow := some next, status := .error e, attempts, tries := n }
  | _, _ => some (invalid "OAuth2 token flow, policy, and non-negative current time are required")

end Lonejson
