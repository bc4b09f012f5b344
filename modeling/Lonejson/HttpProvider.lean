import Lonejson.FormEncoding

/-!
# The HTTP provider of a runtime

The URLs that the OAuth2 and OIDC helpers accept, and the one call through which they reach the
caller's HTTP client.
-/

namespace Lonejson

/-! ## URLs -/

/-- The bytes that end the authority of a URL. -/
def endsAuthority (ch : Byte) : Bool := ch == 0x2f || ch == 0x3f || ch == 0x23

/-- The bytes of `https://`. -/
def httpsScheme : Bytes := [0x68, 0x74, 0x74, 0x70, 0x73, 0x3a, 0x2f, 0x2f]

/-- `lonejson__oidc_find_https_authority_end`, without the position, for which no caller of this
model asks. -/
def findHttpsAuthorityEnd (url : Bytes) (allowQueryFragment : Bool) : Bool :=
  if url.length ≤ 8 ∨ url.take 8 ≠ httpsScheme then false
  else if (url.drop 8).head?.any endsAuthority then false
  else allowQueryFragment ||
    !((url.drop 8).dropWhile (!endsAuthority ·)).any fun ch => ch == 0x3f || ch == 0x23

/-- `lonejson__oidc_require_https_url`; the URL is a C string, and `none` is `NULL`. -/
def requireHttpsUrl (value : Option Bytes) (member : String) (allowQueryFragment : Bool) :
    Except Failure Unit :=
  if cstr (value.getD []) = [] ∨
      findHttpsAuthorityEnd (cstr (value.getD [])) allowQueryFragment = false then
    .error {
      code := .invalidJson
      message := "OIDC " ++ member ++ " must be an https URL with a host" }
  else .ok ()

/-- `https://a?b` is one where a query is allowed. -/
example : findHttpsAuthorityEnd (httpsScheme ++ [0x61, 0x3f, 0x62]) true = true ∧
    findHttpsAuthorityEnd (httpsScheme ++ [0x61, 0x3f, 0x62]) false = false ∧
      findHttpsAuthorityEnd (httpsScheme ++ [0x2f]) true = false := by decide

/-! ## Requests -/

/-- `lonejson_http_request`. -/
structure HttpRequest where
  method : Option Bytes := none
  url : Option Bytes := none
  contentType : Option Bytes := none
  userAgent : Option Bytes := none
  body : Option Bytes := none
  maxResponseBytes : ℕ := 0
  deriving DecidableEq, Repr

/-- `lonejson_http_response`; the status is a `long`. -/
structure HttpResponse where
  statusCode : ℤ := 0
  body : Bytes := []
  deriving DecidableEq, Repr

/-- What the caller's HTTP client answers: the status it returns, with its message, and what it
leaves in the response. -/
structure HttpAnswer where
  status : Status
  message : String := ""
  response : HttpResponse := {}
  deriving DecidableEq, Repr

/-- `lonejson_http_provider`. The answers may differ from request to request. -/
structure HttpProvider where
  userAgent : Option Bytes := none
  request : ℕ → HttpRequest → HttpAnswer

/-- The parts of a `lonejson` handle that these helpers use. -/
structure Runtime (σ : Type) where
  httpProvider : Option HttpProvider := none
  env : Env σ
  world : σ

/-- What came of an attempt: whether the provider was asked, and the response. -/
structure HttpTry where
  sent : Bool
  answer : Except Failure HttpResponse

def HttpTry.unsent (e : Failure) : HttpTry := ⟨false, .error e⟩

/-- `lonejson__http_request_validate`; a request keeps its body with its length. -/
def httpRequestValidate (request : HttpRequest) : Except Failure Unit :=
  if cstr (request.method.getD []) = [] ∨ cstr (request.url.getD []) = [] then
    .error { code := .invalidArgument, message := "HTTP method and URL are required" }
  else .ok ()

/-- The provider is asked for the `n`-th time. -/
def HttpProvider.ask (provider : HttpProvider) (n : ℕ) (request : HttpRequest) : HttpTry :=
  let answer := provider.request n { request with
    userAgent := request.userAgent.or provider.userAgent }
  ⟨true, if answer.status = .ok then .ok answer.response
    else .error { code := answer.status, message := answer.message }⟩

/-- `lonejson__http_provider_request`; a runtime of `none` is none that can be borrowed. -/
def httpProviderRequest {σ : Type} (runtime : Option (Runtime σ)) (n : ℕ) (request : HttpRequest) :
    HttpTry :=
  match httpRequestValidate request with
  | .error e => .unsent e
  | .ok () =>
    match runtime with
    | none => .unsent { code := .invalidArgument, message := "lonejson runtime is required" }
    | some runtime =>
      match runtime.httpProvider with
      | none =>
        .unsent { code := .typeMismatch, message := "runtime HTTP provider is not configured" }
      | some provider => provider.ask n request

/-- `lonejson__http_require_success`. -/
def httpRequireSuccess (response : HttpResponse) (what : String) : Except Failure Unit :=
  if response.statusCode < 200 ∨ response.statusCode ≥ 300 then
    .error {
      code := .typeMismatch
      message := what ++ " returned HTTP status " ++ toString response.statusCode }
  else .ok ()

/-! ## Seconds -/

/-- A sum of seconds that stays in range is the sum. -/
theorem seconds_add {a b : Int64} (hlow : -2 ^ 63 ≤ a.toInt + b.toInt)
    (hhigh : a.toInt + b.toInt < 2 ^ 63) : (a + b).toInt = a.toInt + b.toInt := by
  rw [Int64.toInt_add]
  exact Int.bmod_eq_of_le_mul_two (by omega) (by omega)

/-- What is left of the greatest number of seconds. -/
theorem seconds_left {a : Int64} (ha : 0 ≤ a.toInt) :
    (Int64.maxValue - a).toInt = 2 ^ 63 - 1 - a.toInt := by
  have hlt := a.toInt_lt
  rw [Int64.toInt_sub, Int64.toInt_maxValue]
  exact Int.bmod_eq_of_le_mul_two (by omega) (by omega)

end Lonejson
