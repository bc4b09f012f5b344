import Lonejson.AuthHeader
import Lonejson.JwksCache
import Lonejson.JwtDecode
import Lonejson.JwtPolicy

/-!
# Bearer tokens

`lonejson_oidc_validate_bearer_token` takes a token from a header, decodes it, looks for the key
that it names in the cache, has the provider verify the signature, and holds the claims against
the policy. Any of these may fail, and each failure leaves nothing of the token behind.
-/

namespace Lonejson

/-! ## Keys and signatures -/

/-- The cache with the `key_ops` of its keys, which `Jwk` leaves out. -/
structure BearerCache extends JwksCache where
  keyOps : ℕ → List (Option Bytes) := fun _ => []

/-- `lonejson_jws_verify_request`. -/
structure JwsVerifyRequest where
  jwt : JwtCompact
  header : JwtHeader
  jwk : Jwk
  keyOps : List (Option Bytes)

/-- A `lonejson` handle with an auth provider that can verify, or without one. -/
structure BearerRuntime extends JwtRuntime where
  verifyJws : Option (JwsVerifyRequest → Except Failure Unit) := none

/-- `lonejson__jwk_match_optional_declared`. -/
def jwkMatchOptionalDeclared (value required : Option Bytes) : Bool :=
  required.all fun required => value.all (streq · required)

/-- The key of a cache that `lonejson__oidc_jwks_cache_select_bearer_key` takes. -/
def bearerKeyMatches (kid kty alg : Option Bytes) (jwk : Jwk) : Bool :=
  jwkMatchFilter jwk.kid kid && jwkMatchFilter jwk.kty kty &&
    jwkMatchOptionalDeclared jwk.alg alg && jwkMatchOptionalDeclared jwk.use (some (ascii "sig"))

/-- `lonejson__oidc_jwks_cache_select_bearer_key`: the position of the key. -/
def oidcSelectBearerKey (cache : BearerCache) (policy : JwksCachePolicy)
    (kid kty alg : Option Bytes) : Except Failure (Option ℕ) := do
  let policy ← jwksCacheValidatePolicy (some policy)
  if jwksCacheMatchesPolicy cache.toJwksCache policy = false then
    .error { code := .typeMismatch, message := "OIDC JWKS cache is missing or stale" }
  else .ok (cache.jwks.findIdx? (bearerKeyMatches kid kty alg))

/-- `lonejson__jwt_validate_jwk_signature_use`. -/
def jwtValidateJwkSignatureUse (jwk : Jwk) (keyOps : List (Option Bytes)) :
    Except Failure Unit := do
  jwtRequire (jwk.use.all (streq · (ascii "sig")))
    .typeMismatch "JWT JWK use is not valid for signatures"
  jwtRequire (keyOps.length == 0 || keyOps.any fun item => item.any (streq · (ascii "verify")))
    .typeMismatch "JWT JWK key_ops does not allow verify"

/-- `lonejson_jwt_validate_signature_with_runtime`; the token, the header and the key are there. -/
def jwtValidateSignature (runtime : BearerRuntime) (request : JwsVerifyRequest) :
    Except Failure Unit := do
  let alg := request.header.alg
  jwtRequire (alg.any fun alg => !streq alg (ascii "none"))
    .typeMismatch "JWT signature algorithm is not accepted"
  jwtRequire (request.jwk.alg.all fun value => alg.any (streq value ·))
    .typeMismatch "JWT JWK algorithm does not match header"
  jwtRequire (request.header.kid.all fun kid => request.jwk.kid.all (streq kid ·))
    .typeMismatch "JWT JWK key id does not match header"
  jwtValidateJwkSignatureUse request.jwk request.keyOps
  match runtime.verifyJws with
  | none =>
    .error { code := .typeMismatch, message := "runtime auth provider cannot verify JWS" }
  | some verify => verify request

/-! ## The validation -/

/-- `lonejson_auth_failure`. -/
inductive AuthFailure where
  | none | missingCredentials | malformedToken | cacheUnavailable | keyNotFound | invalidSignature
  | expiredToken | notYetValid | issuerMismatch | audienceMismatch | claimsInvalid
  deriving DecidableEq, Repr

/-- `lonejson_oidc_bearer_validation`, with the position of the key in the cache. -/
structure BearerValidation where
  failure : AuthFailure := .none
  header : JwtHeader := {}
  claims : JwtClaims := {}
  jwk : Option ℕ := none
  deriving DecidableEq

/-- `lonejson_oidc_bearer_validation_request`. -/
structure BearerRequest where
  authorizationHeader : Option Bytes := none
  jwksCache : Option BearerCache := none
  jwksPolicy : Option JwksCachePolicy := none
  claimPolicy : Option JwtClaimPolicy := none

/-- The type of the keys of an algorithm. -/
def bearerKeyType (alg : Option Bytes) : Option Bytes :=
  if alg.any (streq · (ascii "RS256")) || alg.any (streq · (ascii "PS256")) then
    some (ascii "RSA")
  else if alg.any (streq · (ascii "ES256")) then some (ascii "EC")
  else if alg.any (streq · (ascii "EdDSA")) then some (ascii "OKP")
  else none

/-- `lonejson__oidc_bearer_classify_claim_failure`. -/
def bearerClassify (claims : JwtClaims) (policy : JwtClaimPolicy) : AuthFailure :=
  if (policy.acceptedAlgs.isNull || policy.acceptedAlgs.count == 0 ||
      policy.acceptedIssuers.isNull || policy.acceptedIssuers.count == 0 ||
      policy.acceptedAudiences.isNull || policy.acceptedAudiences.count == 0 ||
      decide (policy.allowedClockSkew < 0)) = true then .claimsInvalid
  else if jwtStringInList claims.iss policy.acceptedIssuers = false then .issuerMismatch
  else if jwtAnyAudienceAccepted claims policy = false then .audienceMismatch
  else if (claims.hasExp &&
      jwtNumericDateAtLeastDelta policy.now claims.exp policy.allowedClockSkew) = true then
    .expiredToken
  else if (claims.hasNbf && policy.ahead claims.nbf ||
      claims.hasIat && policy.ahead claims.iat) = true then .notYetValid
  else .claimsInvalid

/-- A stage of the validation: its failure has a class. -/
def bearerStage {α : Type} (failure : Failure → AuthFailure) (x : Except Failure α) :
    Except (AuthFailure × Failure) α := x.mapError fun e => (failure e, e)

/-- The token of a header, its segments and its decoded texts. -/
def bearerDecode (runtime : BearerRuntime) (alloc : ℕ → Bool) (header : Option Bytes)
    (policy : JwtClaimPolicy) : Except (AuthFailure × Failure) (JwtCompact × JwtOutputs) := do
  let token ← bearerStage (fun e =>
    if e.code = .missingRequiredField then .missingCredentials else .malformedToken)
    (oidcBearerToken header)
  let compact ← bearerStage (fun _ => .malformedToken) (jwtParseCompact (some token))
  let r := jwtDecodeInto (some runtime.toJwtRuntime) alloc (some token) token.length
    (some policy.toJwtLimits) {}
  bearerStage (fun _ => .malformedToken) r.2
  .ok (compact, r.1)

/-- The key that the header of a token names. -/
def bearerKey (cache : BearerCache) (policy : JwksCachePolicy) (header : JwtHeader) :
    Except (AuthFailure × Failure) (ℕ × Jwk) := do
  bearerStage (fun _ => .keyNotFound)
    (jwtRequire (header.kid.any fun kid => cstr kid != [])
      .typeMismatch "JWT kid is required for JWKS bearer validation")
  let selected ← bearerStage (fun _ => .cacheUnavailable)
    (oidcSelectBearerKey cache policy header.kid (bearerKeyType header.alg) header.alg)
  match selected.bind fun i => cache.jwks[i]?.map (i, ·) with
  | none => .error (.keyNotFound, {
      code := .typeMismatch, message := "no JWKS key matches bearer JWT header" })
  | some key => .ok key

/-- The stages of `lonejson_oidc_validate_bearer_token`. -/
def bearerStages (runtime : BearerRuntime) (alloc : ℕ → Bool) (header : Option Bytes)
    (cache : BearerCache) (jwksPolicy : JwksCachePolicy) (policy : JwtClaimPolicy) :
    Except (AuthFailure × Failure) (ℕ × JwtOutputs) := do
  let decoded ← bearerDecode runtime alloc header policy
  let key ← bearerKey cache jwksPolicy decoded.2.header
  bearerStage (fun _ => .invalidSignature) (jwtValidateSignature runtime {
    jwt := decoded.1, header := decoded.2.header, jwk := key.2, keyOps := cache.keyOps key.1 })
  bearerStage (fun _ => bearerClassify decoded.2.claims policy)
    (jwtValidateClaims (some decoded.2.header) (some decoded.2.claims) (some policy))
  .ok (key.1, decoded.2)

/-- `lonejson_oidc_validate_bearer_token`. -/
def oidcValidateBearerToken (runtime : Option BearerRuntime) (alloc : ℕ → Bool)
    (request : Option BearerRequest) (out : Option BearerValidation) :
    Option BearerValidation × Except Failure Unit :=
  let missing := (out, .error {
    code := .invalidArgument
    message := "runtime, bearer request, JWKS cache, JWKS policy, and claim policy are required" })
  match runtime, request, out with
  | some runtime, some request, some _ =>
    match request.jwksCache, request.jwksPolicy, request.claimPolicy with
    | some cache, some jwksPolicy, some policy =>
      match bearerStages runtime alloc request.authorizationHeader cache jwksPolicy policy with
      | .error (failure, e) => (some { failure }, .error e)
      | .ok (jwk, outputs) =>
        (some { header := outputs.header, claims := outputs.claims, jwk := some jwk }, .ok ())
    | _, _, _ => missing
  | _, _, _ => missing

/-! ## What an accepted token rests on -/

/-- A key that a token may be signed with. -/
structure BearerKey (kid alg : Bytes) (jwk : Jwk) : Prop where
  kid : jwk.kid.map cstr = some (cstr kid)
  kty : ∀ kty, bearerKeyType (some alg) = some kty → jwk.kty.map cstr = some (cstr kty)
  alg : ∀ value, jwk.alg = some value → cstr value = cstr alg
  use : ∀ value, jwk.use = some value → cstr value = ascii "sig"

/-- The header, the decoded token, the first key that fits, its signature over the two segments,
and the claims. -/
structure BearerEvidence (runtime : BearerRuntime) (alloc : ℕ → Bool) (text : Option Bytes)
    (cache : BearerCache) (jwksPolicy : JwksCachePolicy) (policy : JwtClaimPolicy) where
  token : Bytes
  jwt : JwtCompact
  outputs : JwtOutputs
  kid : Bytes
  alg : Bytes
  index : ℕ
  jwk : Jwk
  scheme : ∃ header, text = some header ∧ AuthScheme (ascii "Bearer") (cstr header) token
  segments : token = jwt.header ++ 0x2e :: (jwt.payload ++ 0x2e :: jwt.signature)
  undotted : 0x2e ∉ jwt.header ∧ 0x2e ∉ jwt.payload
  input : jwt.signingInput = jwt.header ++ 0x2e :: jwt.payload
  decoded : jwtDecodeInto (some runtime.toJwtRuntime) alloc (some token) token.length
    (some policy.toJwtLimits) {} = (outputs, .ok ())
  named : outputs.header.kid = some kid
  nonempty : cstr kid ≠ []
  algorithm : outputs.header.alg = some alg
  fresh : jwksCacheIsFresh cache.toJwksCache (some jwksPolicy) = true
  key : cache.jwks[index]? = some jwk
  fits : BearerKey kid alg jwk
  first : ∀ j < index, ∀ other, cache.jwks[j]? = some other → ¬ BearerKey kid alg other
  verifies : cache.keyOps index = [] ∨
    ∃ op, some op ∈ cache.keyOps index ∧ cstr op = ascii "verify"
  signed : ∃ verify, runtime.verifyJws = some verify ∧ verify {
    jwt, header := outputs.header, jwk, keyOps := cache.keyOps index } = .ok ()
  claims : policy.Accepts outputs.header outputs.claims

section

variable {runtime : BearerRuntime} {alloc : ℕ → Bool} {text : Option Bytes} {cache : BearerCache}
  {jwksPolicy : JwksCachePolicy} {policy : JwtClaimPolicy}

/-- A compact token is put together from its segments. -/
theorem jwtParseCompact_split {token : Bytes} {jwt : JwtCompact}
    (h : jwtParseCompact (some token) = .ok jwt) :
    token = jwt.header ++ 0x2e :: (jwt.payload ++ 0x2e :: jwt.signature) ∧
      (0x2e ∉ jwt.header ∧ 0x2e ∉ jwt.payload) ∧
        jwt.signingInput = jwt.header ++ 0x2e :: jwt.payload := by
  obtain ⟨dots, hdots, h⟩ := Json.bind_eq_ok h
  split at h
  · next first second =>
      obtain ⟨header, payload, signature, htoken, hheader, hpayload, rfl, rfl⟩ :=
        jwtFindDots_ok hdots
      obtain ⟨_, -, h⟩ := Json.bind_eq_ok h
      obtain ⟨_, -, h⟩ := Json.bind_eq_ok h
      obtain ⟨_, -, h⟩ := Json.bind_eq_ok h
      cases h
      rw [jwtSlice_header htoken, jwtSlice_payload htoken, jwtSlice_signature htoken]
      refine ⟨htoken, ⟨hheader, hpayload⟩, ?_⟩
      have hinput := jwtSlice_middle [] (header ++ 0x2e :: payload) (0x2e :: signature)
      have hlength : (header ++ 0x2e :: payload).length = header.length + 1 + payload.length := by
        simp only [List.length_append, List.length_cons]
        omega
      rw [hlength, List.length_nil, Nat.zero_add, List.nil_append, List.append_assoc,
        List.cons_append, ← htoken] at hinput
      exact hinput
  · cases h

theorem bearerStage_ok {α : Type} {failure : Failure → AuthFailure} {x : Except Failure α}
    {a : α} : bearerStage failure x = .ok a ↔ x = .ok a := by
  cases x with
  | error e => exact ⟨(fun h => by cases h), (fun h => by cases h)⟩
  | ok b => exact ⟨fun h => congrArg _ (Except.ok.inj h), fun h => congrArg _ (Except.ok.inj h)⟩

theorem bearerDecode_ok_iff {jwt : JwtCompact} {outputs : JwtOutputs} :
    bearerDecode runtime alloc text policy = .ok (jwt, outputs) ↔
      ∃ token, (∃ header, text = some header ∧
          AuthScheme (ascii "Bearer") (cstr header) token) ∧
        jwtParseCompact (some token) = .ok jwt ∧
        jwtDecodeInto (some runtime.toJwtRuntime) alloc (some token) token.length
          (some policy.toJwtLimits) {} = (outputs, .ok ()) := by
  unfold bearerDecode
  constructor
  · intro h
    obtain ⟨token, htoken, h⟩ := Json.bind_eq_ok h
    obtain ⟨jwt', hjwt, h⟩ := Json.bind_eq_ok h
    obtain ⟨_, hdecode, h⟩ := Json.bind_eq_ok h
    cases h
    exact ⟨token, oidcBearerToken_ok_iff.mp (bearerStage_ok.mp htoken), bearerStage_ok.mp hjwt,
      Prod.ext rfl (bearerStage_ok.mp hdecode)⟩
  · rintro ⟨token, htoken, hjwt, hdecode⟩
    rw [oidcBearerToken_ok_iff.mpr htoken, bearerStage_ok.mpr rfl]
    dsimp only [bind, Except.bind]
    rw [hjwt, bearerStage_ok.mpr rfl]
    dsimp only
    rw [hdecode, bearerStage_ok.mpr rfl]

theorem bearerKeyMatches_iff {kid alg : Bytes} {jwk : Jwk} :
    bearerKeyMatches (some kid) (bearerKeyType (some alg)) (some alg) jwk = true ↔
      BearerKey kid alg jwk := by
  have hsig : cstr (ascii "sig") = ascii "sig" := by decide +kernel
  have hkty : jwkMatchFilter jwk.kty (bearerKeyType (some alg)) = true ↔
      ∀ kty, bearerKeyType (some alg) = some kty → jwk.kty.map cstr = some (cstr kty) := by
    cases bearerKeyType (some alg) with
    | none => exact ⟨(fun _ _ h => by cases h), fun _ => rfl⟩
    | some kty => simp [jwkMatchFilter]
  have hdeclared (value : Option Bytes) (required : Bytes) :
      jwkMatchOptionalDeclared value (some required) = true ↔
        ∀ text, value = some text → cstr text = cstr required := by
    simp only [jwkMatchOptionalDeclared, Option.all_some, Option.all_eq_true, streq_iff]
  simp only [bearerKeyMatches, Bool.and_eq_true, hkty, hdeclared, hsig, and_assoc]
  constructor
  · rintro ⟨hkid, hkty, halg, huse⟩
    exact ⟨beq_iff_eq.mp hkid, hkty, halg, huse⟩
  · intro h
    exact ⟨beq_iff_eq.mpr h.kid, h.kty, h.alg, h.use⟩

theorem oidcSelectBearerKey_ok {kid kty alg : Option Bytes} {selected : Option ℕ} :
    oidcSelectBearerKey cache jwksPolicy kid kty alg = .ok selected ↔
      jwksCacheIsFresh cache.toJwksCache (some jwksPolicy) = true ∧
        cache.jwks.findIdx? (bearerKeyMatches kid kty alg) = selected := by
  unfold oidcSelectBearerKey jwksCacheIsFresh
  cases jwksCacheValidatePolicy (some jwksPolicy) with
  | error e => exact ⟨(fun h => by cases h), fun h => by cases h.1⟩
  | ok policy =>
      dsimp only [bind, Except.bind]
      cases hmatches : jwksCacheMatchesPolicy cache.toJwksCache policy with
      | false => exact ⟨(fun h => by cases h), fun h => by cases h.1⟩
      | true =>
          rw [if_neg Bool.noConfusion]
          exact ⟨fun h => ⟨rfl, Except.ok.inj h⟩, fun h => congrArg _ h.2⟩

theorem findIdx?_getElem? {keys : List Jwk} {p : Jwk → Bool} {i : ℕ} :
    keys.findIdx? p = some i ↔ (∃ jwk, keys[i]? = some jwk ∧ p jwk = true) ∧
      ∀ j < i, ∀ other, keys[j]? = some other → ¬ p other = true := by
  rw [List.findIdx?_eq_some_iff_getElem]
  constructor
  · rintro ⟨hi, hp, hbefore⟩
    refine ⟨⟨keys[i], List.getElem?_eq_getElem hi, hp⟩, fun j hj other hother => ?_⟩
    obtain ⟨hlength, rfl⟩ := List.getElem?_eq_some_iff.mp hother
    exact hbefore j hj
  · rintro ⟨⟨jwk, hjwk, hp⟩, hbefore⟩
    obtain ⟨hi, rfl⟩ := List.getElem?_eq_some_iff.mp hjwk
    exact ⟨hi, hp, fun j hj => hbefore j hj _ (List.getElem?_eq_getElem _)⟩

/-- The key that is taken is the first one that fits. -/
theorem bearerKey_ok_iff {header : JwtHeader} {alg : Bytes} (halg : header.alg = some alg)
    {index : ℕ} {jwk : Jwk} : bearerKey cache jwksPolicy header = .ok (index, jwk) ↔
      ∃ kid, header.kid = some kid ∧ cstr kid ≠ [] ∧
        jwksCacheIsFresh cache.toJwksCache (some jwksPolicy) = true ∧
        (cache.jwks[index]? = some jwk ∧ BearerKey kid alg jwk) ∧
        ∀ j < index, ∀ other, cache.jwks[j]? = some other → ¬ BearerKey kid alg other := by
  unfold bearerKey
  rw [halg]
  constructor
  · intro h
    obtain ⟨_, hrequire, h⟩ := Json.bind_eq_ok h
    obtain ⟨selected, hselect, h⟩ := Json.bind_eq_ok h
    obtain ⟨kid, hkid, hnonempty⟩ :=
      (Option.any_eq_true _ _).mp (jwtRequire_ok.mp (bearerStage_ok.mp hrequire))
    obtain ⟨hfresh, hfind⟩ := oidcSelectBearerKey_ok.mp (bearerStage_ok.mp hselect)
    rw [hkid] at hfind
    cases selected with
    | none => cases h
    | some i =>
        obtain ⟨⟨found, hfound, hfits⟩, hbefore⟩ := findIdx?_getElem?.mp hfind
        rw [Option.bind_some, hfound] at h
        cases h
        refine ⟨kid, hkid, bne_iff_ne.mp hnonempty, hfresh,
          ⟨hfound, bearerKeyMatches_iff.mp hfits⟩, fun j hj other hother hother' => ?_⟩
        exact hbefore j hj other hother (bearerKeyMatches_iff.mpr hother')
  · rintro ⟨kid, hkid, hnonempty, hfresh, ⟨hjwk, hfits⟩, hbefore⟩
    have hfind : cache.jwks.findIdx?
        (bearerKeyMatches (some kid) (bearerKeyType (some alg)) (some alg)) = some index :=
      findIdx?_getElem?.mpr ⟨⟨jwk, hjwk, bearerKeyMatches_iff.mpr hfits⟩,
        fun j hj other hother hother' =>
          hbefore j hj other hother (bearerKeyMatches_iff.mp hother')⟩
    have hrequire : jwtRequire (header.kid.any fun kid => cstr kid != []) .typeMismatch
        "JWT kid is required for JWKS bearer validation" = .ok () := by
      rw [jwtRequire_ok, hkid]
      exact bne_iff_ne.mpr hnonempty
    rw [hrequire, bearerStage_ok.mpr rfl, hkid]
    dsimp only [bind, Except.bind]
    rw [oidcSelectBearerKey_ok.mpr ⟨hfresh, hfind⟩, bearerStage_ok.mpr rfl]
    dsimp only [Option.bind_some]
    rw [hjwk]
    rfl

theorem jwtValidateSignature_ok_iff {request : JwsVerifyRequest} :
    jwtValidateSignature runtime request = .ok () ↔
      (∃ alg, request.header.alg = some alg ∧ cstr alg ≠ ascii "none") ∧
      (∀ value, request.jwk.alg = some value →
        ∃ alg, request.header.alg = some alg ∧ cstr value = cstr alg) ∧
      (∀ kid, request.header.kid = some kid →
        ∀ value, request.jwk.kid = some value → cstr kid = cstr value) ∧
      (∀ value, request.jwk.use = some value → cstr value = ascii "sig") ∧
      (request.keyOps = [] ∨ ∃ op, some op ∈ request.keyOps ∧ cstr op = ascii "verify") ∧
      ∃ verify, runtime.verifyJws = some verify ∧ verify request = .ok () := by
  have hnone : cstr (ascii "none") = ascii "none" := by decide +kernel
  have hsig : cstr (ascii "sig") = ascii "sig" := by decide +kernel
  have hverify : cstr (ascii "verify") = ascii "verify" := by decide +kernel
  have hops : (request.keyOps.length == 0 ||
      request.keyOps.any fun item => item.any (streq · (ascii "verify"))) = true ↔
      request.keyOps = [] ∨ ∃ op, some op ∈ request.keyOps ∧ cstr op = ascii "verify" := by
    simp only [Bool.or_eq_true, beq_iff_eq, List.length_eq_zero_iff, List.any_eq_true,
      Option.any_eq_true, streq_iff, hverify]
    refine or_congr_right ⟨?_, ?_⟩
    · rintro ⟨item, hitem, op, rfl, hop⟩
      exact ⟨op, hitem, hop⟩
    · rintro ⟨op, hmem, hop⟩
      exact ⟨some op, hmem, op, rfl, hop⟩
  simp only [jwtValidateSignature, jwtValidateJwkSignatureUse, jwtBind_ok, jwtRequire_ok, hops,
    Option.any_eq_true, Option.all_eq_true, Bool.not_eq_true', ← Bool.not_eq_true, streq_iff,
    hnone, hsig, and_assoc]
  refine and_congr_right fun _ => and_congr_right fun _ => and_congr_right fun _ =>
    and_congr_right fun _ => and_congr_right fun _ => ?_
  cases runtime.verifyJws with
  | none => exact ⟨(fun h => by cases h), fun h => by obtain ⟨_, h, -⟩ := h; cases h⟩
  | some verify => simp

/-- A token that is decoded has been taken apart. -/
theorem jwtDecodeInto_parses {token : Bytes} {limits : JwtLimits} {jwtRuntime : Option JwtRuntime}
    {outputs : JwtOutputs} (h : jwtDecodeInto jwtRuntime alloc (some token) token.length
      (some limits) {} = (outputs, .ok ())) : ∃ jwt, jwtParseCompact (some token) = .ok jwt := by
  by_cases hover : JwtOver (some limits) token.length
  · obtain ⟨e, he⟩ := @jwtDecodeInto_over alloc (some limits) (some token) _ {} hover jwtRuntime
    rw [h] at he
    cases he
  · rcases @jwtDecodeInto_within alloc (some limits) (some token) _ {} hover jwtRuntime with
      ⟨_, _, _, hsegments, -⟩ | ⟨-, e, he⟩
    · obtain ⟨jwt, hjwt, -⟩ := Json.bind_eq_ok hsegments
      exact ⟨jwt, hjwt⟩
    · rw [h] at he
      cases he

theorem dot_split_unique {before after before' after' : Bytes} (h : 0x2e ∉ before)
    (h' : 0x2e ∉ before') (heq : before ++ 0x2e :: after = before' ++ 0x2e :: after') :
    before = before' ∧ after = after' := by
  have hspan {text rest : Bytes} (h : 0x2e ∉ text) :
      (text ++ 0x2e :: rest).takeWhile (· != 0x2e) = text := by
    rw [List.takeWhile_append_of_pos fun c hc => by simpa using ne_of_mem_of_not_mem hc h,
      List.takeWhile_cons_of_neg (by decide), List.append_nil]
  have hbefore : before = before' := by rw [← hspan h, heq, hspan h']
  subst hbefore
  exact ⟨rfl, (List.cons.inj (List.append_cancel_left heq)).2⟩

/-- A token falls into its segments in one way. -/
theorem BearerEvidence.parses (e : BearerEvidence runtime alloc text cache jwksPolicy policy) :
    jwtParseCompact (some e.token) = .ok e.jwt := by
  obtain ⟨jwt, hjwt⟩ := jwtDecodeInto_parses e.decoded
  obtain ⟨hsplit, hundotted, hinput⟩ := jwtParseCompact_split hjwt
  have hsame := hsplit.symm.trans e.segments
  obtain ⟨hheader, hrest⟩ := dot_split_unique hundotted.1 e.undotted.1 hsame
  obtain ⟨hpayload, hsignature⟩ := dot_split_unique hundotted.2 e.undotted.2 hrest
  have hjwt' : jwt = e.jwt := by
    have hinput' := e.input
    cases jwt
    cases hjwt'' : e.jwt
    rw [hjwt''] at hheader hpayload hsignature hinput'
    dsimp only at hheader hpayload hsignature hinput hinput'
    subst hheader hpayload hsignature
    rw [hinput, hinput']
  rw [hjwt, hjwt']

/-- The stages of a token with evidence. -/
theorem BearerEvidence.stages (e : BearerEvidence runtime alloc text cache jwksPolicy policy) :
    bearerStages runtime alloc text cache jwksPolicy policy = .ok (e.index, e.outputs) := by
  have hdecode : bearerDecode runtime alloc text policy = .ok (e.jwt, e.outputs) :=
    bearerDecode_ok_iff.mpr ⟨e.token, e.scheme, e.parses, e.decoded⟩
  have hkey : bearerKey cache jwksPolicy e.outputs.header = .ok (e.index, e.jwk) :=
    (bearerKey_ok_iff e.algorithm).mpr
      ⟨e.kid, e.named, e.nonempty, e.fresh, ⟨e.key, e.fits⟩, e.first⟩
  obtain ⟨alg, halg, hnone, -⟩ := e.claims.alg
  have hsignature : jwtValidateSignature runtime {
      jwt := e.jwt, header := e.outputs.header, jwk := e.jwk, keyOps := cache.keyOps e.index } =
      .ok () := by
    refine jwtValidateSignature_ok_iff.mpr ⟨⟨alg, halg, hnone⟩, fun value hvalue => ?_,
      fun kid hkid value hvalue => ?_, e.fits.use, e.verifies, e.signed⟩
    · exact ⟨e.alg, e.algorithm, e.fits.alg value hvalue⟩
    · have hkid' := e.fits.kid
      rw [hvalue, Option.map_some] at hkid'
      rw [e.named] at hkid
      cases hkid
      exact (Option.some.inj hkid').symm
  unfold bearerStages
  rw [hdecode]
  dsimp only [bind, Except.bind]
  rw [hkey]
  dsimp only
  rw [hsignature, bearerStage_ok.mpr rfl]
  dsimp only
  rw [e.claims.passes, bearerStage_ok.mpr rfl]

/-- Stages that all succeed give evidence. -/
theorem bearerStages_evidence {index : ℕ} {outputs : JwtOutputs}
    (h : bearerStages runtime alloc text cache jwksPolicy policy = .ok (index, outputs)) :
    ∃ e : BearerEvidence runtime alloc text cache jwksPolicy policy,
      e.index = index ∧ e.outputs = outputs := by
  obtain ⟨⟨jwt, decoded⟩, hdecode, h⟩ := Json.bind_eq_ok h
  obtain ⟨⟨i, jwk⟩, hkey, h⟩ := Json.bind_eq_ok h
  obtain ⟨_, hsignature, h⟩ := Json.bind_eq_ok h
  obtain ⟨_, hclaims, h⟩ := Json.bind_eq_ok h
  obtain ⟨rfl, rfl⟩ := Prod.mk.inj (Except.ok.inj h)
  obtain ⟨token, hscheme, hparse, hdecode⟩ := bearerDecode_ok_iff.mp hdecode
  obtain ⟨hsplit, hundotted, hinput⟩ := jwtParseCompact_split hparse
  obtain ⟨⟨alg, halg, -⟩, -, -, -, hops, hsigned⟩ :=
    jwtValidateSignature_ok_iff.mp (bearerStage_ok.mp hsignature)
  obtain ⟨kid, hkid, hnonempty, hfresh, ⟨hjwk, hfits⟩, hbefore⟩ := (bearerKey_ok_iff halg).mp hkey
  exact ⟨{
    token, jwt, kid, alg, jwk
    outputs := decoded
    index := i
    scheme := hscheme
    segments := hsplit
    undotted := hundotted
    input := hinput
    decoded := hdecode
    named := hkid
    nonempty := hnonempty
    algorithm := halg
    fresh := hfresh
    key := hjwk
    fits := hfits
    first := hbefore
    verifies := hops
    signed := hsigned
    claims := jwtValidateClaims_accepts (bearerStage_ok.mp hclaims) }, rfl, rfl⟩

theorem bearerClassify_ne_none {claims : JwtClaims} : bearerClassify claims policy ≠ .none := by
  unfold bearerClassify
  split_ifs <;> exact AuthFailure.noConfusion

theorem bind_eq_error {ε α β : Type} {x : Except ε α} {f : α → Except ε β} {e : ε}
    (h : x.bind f = .error e) : x = .error e ∨ ∃ a, x = .ok a ∧ f a = .error e := by
  cases x with
  | error e' => exact .inl (by cases h; rfl)
  | ok a => exact .inr ⟨a, rfl, h⟩

/-- A failed stage has a class. -/
theorem bearerStages_failure {failure : AuthFailure} {e : Failure}
    (h : bearerStages runtime alloc text cache jwksPolicy policy = .error (failure, e)) :
    failure ≠ .none := by
  have hstage {α : Type} {class' : Failure → AuthFailure} {x : Except Failure α}
      (hclass : ∀ e, class' e ≠ .none) (h : bearerStage class' x = .error (failure, e)) :
      failure ≠ .none := by
    cases x with
    | error e' =>
        cases h
        exact hclass e
    | ok a => cases h
  have hdecode (h : bearerDecode runtime alloc text policy = .error (failure, e)) :
      failure ≠ .none := by
    rcases bind_eq_error h with h | ⟨token, -, h⟩
    · refine hstage (fun e => ?_) h
      split_ifs <;> exact AuthFailure.noConfusion
    rcases bind_eq_error h with h | ⟨jwt, -, h⟩
    · exact hstage (fun _ => AuthFailure.noConfusion) h
    rcases bind_eq_error h with h | ⟨_, -, h⟩
    · exact hstage (fun _ => AuthFailure.noConfusion) h
    · cases h
  have hkey {header : JwtHeader} (h : bearerKey cache jwksPolicy header = .error (failure, e)) :
      failure ≠ .none := by
    rcases bind_eq_error h with h | ⟨_, -, h⟩
    · exact hstage (fun _ => AuthFailure.noConfusion) h
    rcases bind_eq_error h with h | ⟨selected, -, h⟩
    · exact hstage (fun _ => AuthFailure.noConfusion) h
    split at h
    · cases h
      exact AuthFailure.noConfusion
    · cases h
  rcases bind_eq_error h with h | ⟨decoded, -, h⟩
  · exact hdecode h
  rcases bind_eq_error h with h | ⟨key, -, h⟩
  · exact hkey h
  rcases bind_eq_error h with h | ⟨_, -, h⟩
  · exact hstage (fun _ => AuthFailure.noConfusion) h
  rcases bind_eq_error h with h | ⟨_, -, h⟩
  · exact hstage (fun _ => bearerClassify_ne_none) h
  · cases h

/-- A token is accepted exactly when there is evidence for it, with the key that signed it. Every
refusal has a class and leaves the outputs empty. -/
theorem oidcValidateBearerToken_exact (out : BearerValidation) :
    (∃ e : BearerEvidence runtime alloc text cache jwksPolicy policy,
      oidcValidateBearerToken (some runtime) alloc (some {
        authorizationHeader := text, jwksCache := some cache, jwksPolicy := some jwksPolicy
        claimPolicy := some policy }) (some out) =
      (some { header := e.outputs.header, claims := e.outputs.claims, jwk := some e.index },
        .ok ())) ∨
    IsEmpty (BearerEvidence runtime alloc text cache jwksPolicy policy) ∧
      ∃ failure e, failure ≠ .none ∧
        oidcValidateBearerToken (some runtime) alloc (some {
          authorizationHeader := text, jwksCache := some cache, jwksPolicy := some jwksPolicy
          claimPolicy := some policy }) (some out) = (some { failure }, .error e) := by
  unfold oidcValidateBearerToken
  dsimp only
  cases hstages : bearerStages runtime alloc text cache jwksPolicy policy with
  | ok r =>
      obtain ⟨index, outputs⟩ := r
      obtain ⟨e, rfl, rfl⟩ := bearerStages_evidence hstages
      exact .inl ⟨e, rfl⟩
  | error r =>
      obtain ⟨failure, e⟩ := r
      refine .inr ⟨⟨fun evidence => ?_⟩, failure, e, bearerStages_failure hstages, rfl⟩
      rw [evidence.stages] at hstages
      cases hstages

end

end Lonejson
