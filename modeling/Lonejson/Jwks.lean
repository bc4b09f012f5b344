import Lonejson.Base64
import Lonejson.TokenFlow

/-!
# JSON Web Keys

`lonejson_jwks_parse_json` parses a set of keys and checks the members of each, and
`lonejson_jwks_select` looks for the first key that matches some filters.
-/

namespace Lonejson

variable {σ : Type}

/-! ## The maps -/

/-- `LONEJSON_FIELD_STRING_ALLOC_REQ`. -/
def stringAllocReqField (key : String) : Field :=
  { jsonKey := ascii key, kind := .string, flags := { required := true } }

/-- `LONEJSON_FIELD_STRING_ARRAY`. -/
def stringArrayField (key : String) : Field := { jsonKey := ascii key, kind := .stringArray }

/-- `lonejson__jwk_map`. -/
def jwkMap : MapDef where
  fields := [stringAllocReqField "kty", stringAllocField "kid", stringAllocField "alg",
    stringAllocField "use", stringArrayField "key_ops", stringAllocField "crv",
    stringAllocField "n", stringAllocField "e", stringAllocField "x", stringAllocField "y",
    stringAllocField "k", stringAllocField "x5t", stringAllocField "x5t#S256",
    stringArrayField "x5c"]

/-- `lonejson__jwks_map`, with `sizeof(lonejson_jwk)` for pointers of eight bytes. -/
def jwksMap : MapDef where
  fields := [{ jsonKey := ascii "keys", kind := .objectArray, elemSize := 160, submap := some 1 }]

/-- The two maps. -/
def jwksMaps (id : MapId) : MapDef := if id = 0 then jwksMap else jwkMap

/-- `lonejson_jwk`, as far as these functions use it. -/
structure Jwk where
  kty : Option Bytes := none
  kid : Option Bytes := none
  alg : Option Bytes := none
  use : Option Bytes := none
  crv : Option Bytes := none
  n : Option Bytes := none
  e : Option Bytes := none
  x : Option Bytes := none
  y : Option Bytes := none
  k : Option Bytes := none
  x5t : Option Bytes := none
  x5tS256 : Option Bytes := none
  x5c : List (Option Bytes) := []
  deriving DecidableEq

/-- The C strings of an array in a member of a record. -/
def Record.texts (r : Record) (i : ℕ) : List (Option Bytes) :=
  match r[i]? with
  | some (.stringArray items _, _) => items.map fun item => item.map fun owned => cstr owned.data
  | _ => []

def Jwk.ofRecord (r : Record) : Jwk where
  kty := r.text? 0
  kid := r.text? 1
  alg := r.text? 2
  use := r.text? 3
  crv := r.text? 5
  n := r.text? 6
  e := r.text? 7
  x := r.text? 8
  y := r.text? 9
  k := r.text? 10
  x5t := r.text? 11
  x5tS256 := r.text? 12
  x5c := r.texts 13

/-- The keys of a set. -/
def jwksOfRecord (r : Record) : List Jwk :=
  match r.head? with
  | some (.objectArray items _, _) => items.map Jwk.ofRecord
  | _ => []

/-! ## The checks of a key -/

/-- `lonejson__jwk_require_member`. -/
def jwkRequireMember (value : Option Bytes) (member : String) : Except Failure Unit :=
  if cstr (value.getD []) = [] then
    .error { code := .invalidJson, message := "JWK " ++ member ++ " member is required" }
  else .ok ()

/-- The length that a text decodes to, with a message of the caller in the place of the decoder's. -/
def jwkDecodedLen (value : Bytes) (variant : Base64Variant) (message : String) :
    Except Failure Unit :=
  match base64DecodedLen (cstr value) variant with
  | .ok _ => .ok ()
  | .error failure => .error { code := failure.status, message, offset := failure.offset }

/-- `lonejson__jwk_check_base64url_member`. -/
def jwkCheckBase64url (value : Option Bytes) (member : String) (required : Bool) :
    Except Failure Unit :=
  match value with
  | none => if required then jwkRequireMember none member else .ok ()
  | some text =>
    if required ∧ cstr text = [] then jwkRequireMember value member
    else jwkDecodedLen text .urlRaw ("invalid base64url in JWK " ++ member ++ " member")

/-- `lonejson__jwk_check_base64_member`. -/
def jwkCheckBase64 (value : Option Bytes) (member : String) : Except Failure Unit :=
  match value with
  | none => .ok ()
  | some text => jwkDecodedLen text .standard ("invalid base64 in JWK " ++ member ++ " member")

/-- What a key must have for its type. -/
def jwkCheckKind (jwk : Jwk) : Except Failure Unit :=
  if jwk.kty.map cstr = some (ascii "RSA") then do
    jwkCheckBase64url jwk.n "n" true
    jwkCheckBase64url jwk.e "e" true
  else if jwk.kty.map cstr = some (ascii "EC") then do
    jwkRequireMember jwk.crv "crv"
    jwkCheckBase64url jwk.x "x" true
    jwkCheckBase64url jwk.y "y" true
  else if jwk.kty.map cstr = some (ascii "oct") then jwkCheckBase64url jwk.k "k" true
  else if jwk.kty.map cstr = some (ascii "OKP") then do
    jwkRequireMember jwk.crv "crv"
    jwkCheckBase64url jwk.x "x" true
  else .ok ()

/-- `lonejson__jwk_validate`. -/
def jwkValidate (jwk : Jwk) : Except Failure Unit :=
  if cstr (jwk.kty.getD []) = [] then
    .error { code := .invalidJson, message := "JWK kty member is required" }
  else do
    jwkCheckKind jwk
    jwkCheckBase64url jwk.n "n" false
    jwkCheckBase64url jwk.e "e" false
    jwkCheckBase64url jwk.x "x" false
    jwkCheckBase64url jwk.y "y" false
    jwkCheckBase64url jwk.k "k" false
    jwkCheckBase64url jwk.x5t "x5t" false
    jwkCheckBase64url jwk.x5tS256 "x5t#S256" false
    jwk.x5c.forM fun item => jwkCheckBase64 item "x5c"

/-! ## Sets of keys -/

/-- `lonejson_parse_buffer` with the map of key sets. -/
def parseJwks (runtime : Option (Runtime σ)) (json : Bytes) : Except Failure (List Jwk) :=
  match runtime with
  | none => .error { code := .invalidArgument, message := "lonejson runtime is required" }
  | some runtime =>
    let env := { runtime.env with maps := jwksMaps, rootMap := some 0, structDepth := 1 }
    let r := parseBuffer env [(.objectArray [] {}, false)] runtime.world json
    if r.2 = .ok then .ok (jwksOfRecord r.1.core.dst)
    else .error { code := r.2, message := r.1.core.error.message }

/-- `lonejson_jwks_parse_json`. -/
def jwksParseJson (runtime : Option (Runtime σ)) (json : Bytes) : Except Failure (List Jwk) := do
  let keys ← parseJwks runtime json
  if keys.length = 0 then
    .error { code := .invalidJson, message := "JWKS keys array must not be empty" }
  else do
    keys.forM jwkValidate
    .ok keys

/-- `lonejson_jwk_select_options`. -/
structure JwkSelectOptions where
  kid : Option Bytes := none
  kty : Option Bytes := none
  alg : Option Bytes := none
  use : Option Bytes := none
  deriving DecidableEq

/-- `lonejson__jwk_match_filter`. -/
def jwkMatchFilter (value filter : Option Bytes) : Bool :=
  match filter with
  | none => true
  | some text => value.map cstr == some (cstr text)

/-- The filters that a key has to pass; options of `NULL` have none. -/
def jwkMatches (options : Option JwkSelectOptions) (jwk : Jwk) : Bool :=
  match options with
  | none => true
  | some options =>
    jwkMatchFilter jwk.kid options.kid && jwkMatchFilter jwk.kty options.kty &&
      jwkMatchFilter jwk.alg options.alg && jwkMatchFilter jwk.use options.use

/-- `lonejson_jwks_select`: what `*out` is set to. -/
def jwksSelect (keys : List Jwk) (options : Option JwkSelectOptions) : Option Jwk :=
  keys.find? (jwkMatches options)

end Lonejson
