import Lonejson.Jwks
import Lonejson.Related

/-!
# The cache of a key set

`lonejson_oidc_jwks_cache_update_json` and `lonejson_oidc_jwks_cache_refresh` replace a cache as a
whole or leave it, and `lonejson_oidc_jwks_cache_select` looks only at keys that were installed for
the issuer it is asked for, and that have not expired.
-/

namespace Lonejson

variable {σ : Type}

/-! ## The operations -/

/-- `lonejson_oidc_jwks_cache_policy`. -/
structure JwksCachePolicy where
  issuer : Option Bytes := none
  jwksUri : Option Bytes := none
  maxJwksBytes : ℕ := 0
  now : Int64 := 0
  ttlSeconds : Int64 := 0
  deriving DecidableEq

/-- `lonejson_oidc_jwks_cache`. -/
structure JwksCache where
  issuer : Option Bytes := none
  jwksUri : Option Bytes := none
  fetchedAt : Int64 := 0
  expiresAt : Int64 := 0
  maxJwksBytes : ℕ := 0
  hasJwks : Bool := false
  jwks : List Jwk := []
  deriving DecidableEq

/-- `lonejson__oidc_jwks_cache_validate_policy`; the policy itself may be `NULL`. -/
def jwksCacheValidatePolicy (policy : Option JwksCachePolicy) :
    Except Failure JwksCachePolicy :=
  match policy with
  | none => .error {
      code := .invalidArgument
      message := "OIDC JWKS cache policy, issuer, and jwks_uri are required" }
  | some policy =>
    if policy.issuer.isNone ∨ policy.jwksUri.isNone then
      .error {
        code := .invalidArgument
        message := "OIDC JWKS cache policy, issuer, and jwks_uri are required" }
    else if policy.ttlSeconds ≤ 0 then
      .error {
        code := .invalidArgument, message := "OIDC JWKS cache ttl_seconds must be positive" }
    else if policy.now < 0 then
      .error { code := .invalidArgument, message := "OIDC JWKS cache now must be non-negative" }
    else if policy.now > 0 ∧ policy.ttlSeconds > Int64.maxValue - policy.now then
      .error { code := .overflow, message := "OIDC JWKS cache expiry overflows" }
    else do
      requireHttpsUrl policy.issuer "issuer" false
      requireHttpsUrl policy.jwksUri "jwks_uri" true
      .ok policy

/-- `LONEJSON__OIDC_DEFAULT_MAX_JWKS_BYTES`, unless the policy gives a limit. -/
def jwksCacheLimit (policy : JwksCachePolicy) : ℕ :=
  if policy.maxJwksBytes = 0 then 1024 * 1024 else policy.maxJwksBytes

/-- The copies that the allocator serves to one update. -/
structure JwksCacheAlloc where
  issuer : Bool := true
  jwksUri : Bool := true

/-- `lonejson_oidc_jwks_cache_cleanup`. -/
def jwksCacheCleanup (_cache : JwksCache) : JwksCache := {}

/-- `lonejson_oidc_jwks_cache_update_json`. A text of `none` is `NULL` with a length that is not
zero. -/
def jwksCacheUpdateJson (runtime : Option (Runtime σ)) (alloc : JwksCacheAlloc) (cache : JwksCache)
    (policy : Option JwksCachePolicy) (json : Option Bytes) : JwksCache × Except Failure Unit :=
  match json with
  | none =>
    (cache, .error {
      code := .invalidArgument, message := "OIDC JWKS JSON input is required" })
  | some json =>
    match jwksCacheValidatePolicy policy with
    | .error e => (cache, .error e)
    | .ok policy =>
      if json.length > jwksCacheLimit policy then
        (cache, .error {
          code := .overflow, message := "OIDC JWKS response exceeds configured limit"
          offset := json.length })
      else
        match jwksParseJson runtime json with
        | .error e => (cache, .error e)
        | .ok next =>
          let issuer := tokenStrdup alloc.issuer policy.issuer
          let jwksUri := tokenStrdup alloc.jwksUri policy.jwksUri
          if issuer.isNone ∨ jwksUri.isNone then
            (cache, .error {
              code := .allocationFailed, message := "failed to allocate OIDC JWKS metadata" })
          else
            ({ jwksCacheCleanup cache with
                issuer, jwksUri, fetchedAt := policy.now
                expiresAt := policy.now + policy.ttlSeconds
                maxJwksBytes := jwksCacheLimit policy, hasJwks := true, jwks := next }, .ok ())

/-- The body of the response to the request of a refresh. -/
def jwksCacheFetch (runtime : Option (Runtime σ)) (policy : JwksCachePolicy) :
    Except Failure Bytes := do
  let response ← (httpProviderRequest runtime 0 {
    method := some (ascii "GET"), url := policy.jwksUri
    maxResponseBytes := jwksCacheLimit policy }).answer
  httpRequireSuccess response "OIDC JWKS"
  .ok response.body

/-- `lonejson_oidc_jwks_cache_refresh`. -/
def jwksCacheRefresh (runtime : Option (Runtime σ)) (alloc : JwksCacheAlloc) (cache : JwksCache)
    (policy : Option JwksCachePolicy) : JwksCache × Except Failure Unit :=
  match jwksCacheValidatePolicy policy with
  | .error e => (cache, .error e)
  | .ok valid =>
    match jwksCacheFetch runtime valid with
    | .error e => (cache, .error e)
    | .ok body => jwksCacheUpdateJson runtime alloc cache policy (some body)

/-- `lonejson__oidc_jwks_cache_matches_policy`. -/
def jwksCacheMatchesPolicy (cache : JwksCache) (policy : JwksCachePolicy) : Bool :=
  cache.hasJwks && cache.issuer.isSome && cache.jwksUri.isSome &&
    cache.issuer.map cstr == policy.issuer.map cstr &&
      cache.jwksUri.map cstr == policy.jwksUri.map cstr && policy.now < cache.expiresAt

/-- `lonejson_oidc_jwks_cache_is_fresh`. -/
def jwksCacheIsFresh (cache : JwksCache) (policy : Option JwksCachePolicy) : Bool :=
  match jwksCacheValidatePolicy policy with
  | .error _ => false
  | .ok policy => jwksCacheMatchesPolicy cache policy

/-- `lonejson_oidc_jwks_cache_select`: what `*out` is set to. -/
def jwksCacheSelect (cache : JwksCache) (policy : Option JwksCachePolicy)
    (options : Option JwkSelectOptions) : Except Failure (Option Jwk) := do
  let policy ← jwksCacheValidatePolicy policy
  if jwksCacheMatchesPolicy cache policy = false then
    .error { code := .typeMismatch, message := "OIDC JWKS cache is missing or stale" }
  else .ok (jwksSelect cache.jwks options)

/-! ## Runs -/

/-- A call on a cache, with what it finds around it. -/
inductive CacheCall (σ : Type) where
  | updateJson (runtime : Option (Runtime σ)) (alloc : JwksCacheAlloc)
      (policy : Option JwksCachePolicy) (json : Option Bytes)
  | refresh (runtime : Option (Runtime σ)) (alloc : JwksCacheAlloc)
      (policy : Option JwksCachePolicy)
  | select (policy : Option JwksCachePolicy) (options : Option JwkSelectOptions)
  | cleanup

/-- The cache behind a call, and the status of the call. -/
def CacheCall.run (cache : JwksCache) : CacheCall σ → JwksCache × Except Failure Unit
  | .updateJson runtime alloc policy json => jwksCacheUpdateJson runtime alloc cache policy json
  | .refresh runtime alloc policy => jwksCacheRefresh runtime alloc cache policy
  | .select policy options => (cache, (jwksCacheSelect cache policy options).map fun _ => ())
  | .cleanup => (jwksCacheCleanup cache, .ok ())

/-- What a successful update installs: its policy and the keys of its text. -/
structure Install where
  policy : JwksCachePolicy
  keys : List Jwk

/-- The keys and the policy of a call that updates, when it has both. -/
def CacheCall.install : CacheCall σ → Option Install
  | .updateJson runtime _ policy json => do
    let policy ← policy
    let json ← json
    let keys ← (jwksParseJson runtime json).toOption
    some { policy, keys }
  | .refresh runtime _ policy => do
    let policy ← policy
    let body ← (jwksCacheFetch runtime policy).toOption
    let keys ← (jwksParseJson runtime body).toOption
    some { policy, keys }
  | _ => none

/-- The last successful update before which no cleanup came, behind one more call. -/
def lastInstall (last : Option Install) (cache : JwksCache) (call : CacheCall σ) : Option Install :=
  match call with
  | .select _ _ => last
  | .cleanup => none
  | call => if (call.run cache).2 = .ok () then call.install else last

/-- The cache after some calls, with the last successful update. -/
def cacheRun : JwksCache → Option Install → List (CacheCall σ) → JwksCache × Option Install
  | cache, last, [] => (cache, last)
  | cache, last, call :: calls =>
    cacheRun (call.run cache).1 (lastInstall last cache call) calls

/-! ## What the cache holds -/

/-- The cache has what the last successful update installed. -/
structure JwksCache.Installed (cache : JwksCache) (install : Install) : Prop where
  issuer : cache.issuer = install.policy.issuer.map cstr
  jwksUri : cache.jwksUri = install.policy.jwksUri.map cstr
  fetchedAt : cache.fetchedAt = install.policy.now
  expiresAt : cache.expiresAt.toInt =
    install.policy.now.toInt + install.policy.ttlSeconds.toInt
  jwks : cache.jwks = install.keys

/-- A cache without a last update has no keys. -/
def JwksCache.Follows (cache : JwksCache) : Option Install → Prop
  | none => cache.hasJwks = false
  | some install => cache.Installed install

theorem cstr_cstr (text : Bytes) : cstr (cstr text) = cstr text := by
  refine cstr_of_notMem fun hzero => ?_
  have := List.mem_takeWhile_imp hzero
  cases this

theorem tokenStrdup_some {served : Bool} {src : Option Bytes}
    (h : (tokenStrdup served src).isNone = false) : tokenStrdup served src = src.map cstr := by
  cases src with
  | none => cases h
  | some text =>
      unfold tokenStrdup at h ⊢
      split_ifs at h ⊢
      · cases h
      · rfl

/-- A policy that is accepted: both its texts are there, and its expiry is in range. -/
theorem jwksCacheValidatePolicy_ok {policy : Option JwksCachePolicy} {valid : JwksCachePolicy}
    (h : jwksCacheValidatePolicy policy = .ok valid) : policy = some valid ∧
      (valid.now + valid.ttlSeconds).toInt = valid.now.toInt + valid.ttlSeconds.toInt := by
  unfold jwksCacheValidatePolicy at h
  cases policy with
  | none => cases h
  | some policy =>
      dsimp only at h
      split_ifs at h with htexts httl hnow hover
      obtain ⟨_, -, h⟩ := Json.bind_eq_ok h
      obtain ⟨_, -, h⟩ := Json.bind_eq_ok h
      cases h
      refine ⟨rfl, ?_⟩
      have hlow := valid.now.toInt_lt
      have hhigh := valid.ttlSeconds.toInt_lt
      rw [Int64.le_iff_toInt_le] at httl
      rw [Int64.lt_iff_toInt_lt] at hnow
      have hzero : (0 : Int64).toInt = 0 := rfl
      rw [hzero] at httl hnow
      refine seconds_add (by omega) ?_
      by_cases hpositive : valid.now > 0
      · have hfits : ¬ valid.ttlSeconds > Int64.maxValue - valid.now := fun h =>
          hover ⟨hpositive, h⟩
        rw [gt_iff_lt, Int64.lt_iff_toInt_lt, seconds_left (by omega)] at hfits
        omega
      · rw [gt_iff_lt, Int64.lt_iff_toInt_lt, hzero] at hpositive
        omega

section

variable {runtime : Option (Runtime σ)} {alloc : JwksCacheAlloc} {cache : JwksCache}
  {policy : Option JwksCachePolicy}

/-- An update fails and leaves the cache, or it installs the keys of its text. -/
theorem jwksCacheUpdateJson_cases (json : Option Bytes) :
    (∃ e, jwksCacheUpdateJson runtime alloc cache policy json = (cache, .error e)) ∨
      ∃ valid text keys next, policy = some valid ∧ json = some text ∧
        jwksParseJson runtime text = .ok keys ∧
          jwksCacheUpdateJson runtime alloc cache policy json = (next, .ok ()) ∧
            next.Installed { policy := valid, keys } := by
  unfold jwksCacheUpdateJson
  cases json with
  | none => exact .inl ⟨_, rfl⟩
  | some text =>
      dsimp only
      cases hvalid : jwksCacheValidatePolicy policy with
      | error e => exact .inl ⟨e, rfl⟩
      | ok valid =>
          dsimp only
          obtain ⟨rfl, hexpiry⟩ := jwksCacheValidatePolicy_ok hvalid
          split
          · exact .inl ⟨_, rfl⟩
          · cases hkeys : jwksParseJson runtime text with
            | error e => exact .inl ⟨e, rfl⟩
            | ok keys =>
                dsimp only
                split_ifs with hcopies
                · exact .inl ⟨_, rfl⟩
                · obtain ⟨hissuer, huri⟩ := not_or.mp hcopies
                  refine .inr ⟨valid, text, keys, _, rfl, rfl, hkeys, rfl, ?_⟩
                  exact ⟨tokenStrdup_some (Bool.eq_false_iff.mpr hissuer),
                    tokenStrdup_some (Bool.eq_false_iff.mpr huri), rfl, hexpiry, rfl⟩

/-- A refresh fails and leaves the cache, or it installs the keys of the response. -/
theorem jwksCacheRefresh_cases :
    (∃ e, jwksCacheRefresh runtime alloc cache policy = (cache, .error e)) ∨
      ∃ valid body keys next, policy = some valid ∧ jwksCacheFetch runtime valid = .ok body ∧
        jwksParseJson runtime body = .ok keys ∧
          jwksCacheRefresh runtime alloc cache policy = (next, .ok ()) ∧
            next.Installed { policy := valid, keys } := by
  unfold jwksCacheRefresh
  cases hvalid : jwksCacheValidatePolicy policy with
  | error e => exact .inl ⟨e, rfl⟩
  | ok valid =>
      dsimp only
      obtain ⟨rfl, -⟩ := jwksCacheValidatePolicy_ok hvalid
      cases hbody : jwksCacheFetch runtime valid with
      | error e => exact .inl ⟨e, rfl⟩
      | ok body =>
          dsimp only
          rcases jwksCacheUpdateJson_cases (some body) with
            hfailed | ⟨valid', text, keys, next, hpolicy, htext, hkeys, hnext, hinstalled⟩
          · exact .inl hfailed
          · cases hpolicy
            cases htext
            exact .inr ⟨valid, body, keys, next, rfl, hbody, hkeys, hnext, hinstalled⟩

end

/-- A call that fails leaves the cache as it was. -/
theorem CacheCall.run_failed {cache : JwksCache} {call : CacheCall σ} {e : Failure}
    (h : (call.run cache).2 = .error e) : (call.run cache).1 = cache := by
  cases call with
  | updateJson runtime alloc policy json =>
      rcases @jwksCacheUpdateJson_cases _ runtime alloc cache policy json with
        ⟨e', hfailed⟩ | ⟨_, _, _, next, -, -, -, hnext, -⟩
      · exact congrArg Prod.fst hfailed
      · have hok := congrArg Prod.snd hnext
        exact absurd (h.symm.trans hok) (fun h => by cases h)
  | refresh runtime alloc policy =>
      rcases @jwksCacheRefresh_cases _ runtime alloc cache policy with ⟨e', hfailed⟩ | ⟨_, _, _, next, -, -, -, hnext, -⟩
      · exact congrArg Prod.fst hfailed
      · have hok := congrArg Prod.snd hnext
        exact absurd (h.symm.trans hok) (fun h => by cases h)
  | select policy options => rfl
  | cleanup => cases h

/-- A call that is not a cleanup and not a selection. -/
def CacheCall.updates : CacheCall σ → Bool
  | .updateJson .. => true
  | .refresh .. => true
  | _ => false

theorem lastInstall_update {last : Option Install} {cache : JwksCache} {call : CacheCall σ}
    (h : call.updates = true) :
    lastInstall last cache call = if (call.run cache).2 = .ok () then call.install else last := by
  cases call with
  | updateJson | refresh => rfl
  | select | cleanup => cases h

/-- One call keeps that the cache follows the last successful update. -/
theorem follows_run {cache : JwksCache} {last : Option Install} (h : cache.Follows last)
    (call : CacheCall σ) : (call.run cache).1.Follows (lastInstall last cache call) := by
  have hfailed {call : CacheCall σ} (hupdates : call.updates = true) {e : Failure}
      (he : (call.run cache).2 = .error e) :
      (call.run cache).1.Follows (lastInstall last cache call) := by
    rw [lastInstall_update hupdates, he, if_neg (fun h => by cases h), CacheCall.run_failed he]
    exact h
  cases call with
  | updateJson runtime alloc policy json =>
      rcases @jwksCacheUpdateJson_cases _ runtime alloc cache policy json with
        ⟨e, he⟩ | ⟨valid, text, keys, next, rfl, rfl, hkeys, hnext, hinstalled⟩
      · exact hfailed rfl (congrArg Prod.snd he)
      · have hrun : (CacheCall.updateJson runtime alloc (some valid) (some text)).run cache =
            (next, .ok ()) := hnext
        have hinstall : (CacheCall.updateJson runtime alloc (some valid) (some text)).install =
            some { policy := valid, keys } := by
          rw [CacheCall.install]
          dsimp only [bind, Option.bind]
          rw [hkeys]
          rfl
        rw [lastInstall_update rfl, hrun, if_pos rfl, hinstall]
        exact hinstalled
  | refresh runtime alloc policy =>
      rcases @jwksCacheRefresh_cases _ runtime alloc cache policy with
        ⟨e, he⟩ | ⟨valid, body, keys, next, rfl, hbody, hkeys, hnext, hinstalled⟩
      · exact hfailed rfl (congrArg Prod.snd he)
      · have hrun : (CacheCall.refresh runtime alloc (some valid)).run cache = (next, .ok ()) :=
          hnext
        have hinstall : (CacheCall.refresh runtime alloc (some valid)).install =
            some { policy := valid, keys } := by
          rw [CacheCall.install]
          dsimp only [bind, Option.bind]
          rw [hbody]
          dsimp only [Except.toOption]
          rw [hkeys]
        rw [lastInstall_update rfl, hrun, if_pos rfl, hinstall]
        exact hinstalled
  | select policy options => exact h
  | cleanup => rfl

theorem follows_cacheRun {cache : JwksCache} {last : Option Install} (h : cache.Follows last)
    (calls : List (CacheCall σ)) :
    (cacheRun cache last calls).1.Follows (cacheRun cache last calls).2 := by
  induction calls generalizing cache last with
  | nil => exact h
  | cons call calls ih => exact ih (follows_run h call)

/-! ## Selections -/

/-- The policy is for what the update installed, and that has not expired. -/
structure Install.Serves (install : Install) (policy : JwksCachePolicy) : Prop where
  issuer : install.policy.issuer.map cstr = policy.issuer.map cstr
  jwksUri : install.policy.jwksUri.map cstr = policy.jwksUri.map cstr
  fresh : policy.now.toInt < install.policy.now.toInt + install.policy.ttlSeconds.toInt

theorem map_cstr_cstr (text : Option Bytes) : (text.map cstr).map cstr = text.map cstr := by
  cases text with
  | none => rfl
  | some text => exact congrArg some (cstr_cstr text)

theorem serves_of_matches {cache : JwksCache} {last : Option Install} (h : cache.Follows last)
    {policy : JwksCachePolicy} (hmatches : jwksCacheMatchesPolicy cache policy = true) :
    ∃ install, last = some install ∧ cache.jwks = install.keys ∧ install.Serves policy := by
  simp only [jwksCacheMatchesPolicy, Bool.and_eq_true, beq_iff_eq, decide_eq_true_eq] at hmatches
  obtain ⟨⟨⟨⟨⟨hjwks, -⟩, -⟩, hissuer⟩, huri⟩, hfresh⟩ := hmatches
  cases last with
  | none =>
      rw [show cache.hasJwks = false from h] at hjwks
      cases hjwks
  | some install =>
      have hinstalled : cache.Installed install := h
      rw [hinstalled.issuer, map_cstr_cstr] at hissuer
      rw [hinstalled.jwksUri, map_cstr_cstr] at huri
      rw [Int64.lt_iff_toInt_lt, hinstalled.expiresAt] at hfresh
      exact ⟨install, rfl, hinstalled.jwks, hissuer, huri, hfresh⟩

/-- The first key that matches, or none when no key does. -/
theorem jwksSelect_cases (keys : List Jwk) (options : Option JwkSelectOptions) :
    (∃ key ∈ keys, jwksSelect keys options = some key ∧ jwkMatches options key = true) ∨
      jwksSelect keys options = none ∧ ∀ key ∈ keys, jwkMatches options key = false := by
  rw [jwksSelect]
  cases hfind : keys.find? (jwkMatches options) with
  | some key => exact .inl ⟨key, List.mem_of_find?_eq_some hfind, rfl, List.find?_some hfind⟩
  | none =>
      refine .inr ⟨rfl, fun key hkey => Bool.eq_false_iff.mpr ?_⟩
      exact List.find?_eq_none.mp hfind key hkey

/-- After any calls a selection that returns OK gives a key that the last successful update
installed for the policy and that has not expired, or none when no key matches; and a call that
fails changes nothing. -/
theorem jwksCache_serves (calls : List (CacheCall σ)) :
    (∀ (policy : Option JwksCachePolicy) (options : Option JwkSelectOptions) (out : Option Jwk),
      jwksCacheSelect (cacheRun {} none calls).1 policy options = .ok out →
        ∃ valid install, policy = some valid ∧ (cacheRun {} none calls).2 = some install ∧
          install.Serves valid ∧
            ((∃ key ∈ install.keys, out = some key ∧ jwkMatches options key = true) ∨
              out = none ∧ ∀ key ∈ install.keys, jwkMatches options key = false)) ∧
      ∀ (call : CacheCall σ) (e : Failure), (call.run (cacheRun {} none calls).1).2 = .error e →
        (call.run (cacheRun {} none calls).1).1 = (cacheRun {} none calls).1 := by
  refine ⟨fun policy options out h => ?_, fun call e h => CacheCall.run_failed h⟩
  have hempty : JwksCache.Follows {} none := rfl
  have hfollows := follows_cacheRun hempty calls
  obtain ⟨valid, hvalid, h⟩ := Json.bind_eq_ok h
  split at h
  · cases h
  · next hmatches =>
    cases h
    obtain ⟨rfl, -⟩ := jwksCacheValidatePolicy_ok hvalid
    obtain ⟨install, hlast, hkeys, hserves⟩ :=
      serves_of_matches hfollows (Bool.eq_true_of_not_eq_false hmatches)
    refine ⟨valid, install, rfl, hlast, hserves, ?_⟩
    rw [hkeys]
    exact jwksSelect_cases install.keys options

/-! ## A selection without a key -/

/-- A runtime without an HTTP provider. -/
def plainRuntime : Runtime Unit where
  env := { maps := fun _ => { fields := [] }
           call := fun world _ error => (world, error, .ok)
           parseF64 := fun _ => none }
  world := ()

def hourPolicy : JwksCachePolicy where
  issuer := some (ascii "https://a")
  jwksUri := some (ascii "https://a/k")
  ttlSeconds := 3600

/-- The update with a set of one key, which has no identifier. -/
def anonymousKey : CacheCall Unit :=
  .updateJson (some plainRuntime) {} (some hourPolicy) (some (ascii "\x7b\"keys\":[\x7b\"kty\":\"t\"\x7d]\x7d"))

/-- A selection returns OK without a key when the key asked for is not in the set. -/
theorem jwksCacheSelect_missing :
    jwksCacheSelect (cacheRun {} none [anonymousKey]).1 (some hourPolicy)
      (some { kid := some (ascii "a") }) = .ok none := by
  decide +kernel

end Lonejson
