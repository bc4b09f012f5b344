import Lonejson.AuthHeader
import Lonejson.Bearer
import Lonejson.SetBuffer

/-!
# Credentials of machines

`lonejson_m2m_verify_authorization` looks a header up in a store of salted hashes: the first record
that is not revoked and whose hash is that of the secret, or of the key, is the one that counts.
-/

namespace Lonejson

open Json (Document compact)

variable {σ : Type}

/-! ## The store -/

/-- `LONEJSON_FIELD_BOOL`. -/
def boolField (key : String) : Field := { jsonKey := ascii key, kind := .bool, storage := .fixed }

/-- The member `claim` of both kinds of records. -/
def m2mClaimField : Field where
  jsonKey := ascii "claim"
  kind := .jsonValue
  storage := .fixed
  flags := { required := true, jsonValueDefaultCapture := true }

/-- `lonejson__m2m_record_map`. -/
def m2mRecordMap : MapDef where
  fields := [stringAllocField "client_id", stringAllocField "secret_salt",
    stringAllocField "secret_hash", stringAllocField "api_key_salt", stringAllocField "api_key_hash",
    boolField "revoked", m2mClaimField]

/-- `lonejson__m2m_signup_record_map`. -/
def m2mSignupRecordMap : MapDef where
  fields := [stringAllocField "signup_id", stringAllocField "secret_salt",
    stringAllocField "secret_hash", boolField "revoked", m2mClaimField]

/-- `LONEJSON_FIELD_OBJECT_ARRAY_OMIT_EMPTY`. -/
def objectArrayOmitEmptyField (key : String) (size : ℕ) (submap : MapId) : Field where
  jsonKey := ascii key
  kind := .objectArray
  flags := { omitEmpty := true }
  elemSize := size
  submap := some submap

/-- `lonejson__m2m_store_doc_map`, with the sizes of the records for pointers of eight bytes. -/
def m2mStoreDocMap : MapDef where
  fields := [objectArrayOmitEmptyField "credentials" 304 1, objectArrayOmitEmptyField "signups" 288 2]

/-- The three maps. -/
def m2mMaps (id : MapId) : MapDef :=
  if id = 0 then m2mStoreDocMap else if id = 1 then m2mRecordMap else m2mSignupRecordMap

/-- `lonejson__m2m_record`. -/
structure M2mRecord where
  clientId : Option Bytes := none
  secretSalt : Option Bytes := none
  secretHash : Option Bytes := none
  apiKeySalt : Option Bytes := none
  apiKeyHash : Option Bytes := none
  revoked : Bool := false
  claim : Bytes := []
  deriving DecidableEq

/-- The flag in a member of a record. -/
def Record.bool (r : Record) (i : ℕ) : Bool :=
  match r[i]? with
  | some (.bool value, _) => value
  | _ => false

/-- The captured text in a member of a record. -/
def Record.jsonText (r : Record) (i : ℕ) : Bytes :=
  match r[i]? with
  | some (.jsonValue value, _) => value.text
  | _ => []

def M2mRecord.ofRecord (r : Record) : M2mRecord where
  clientId := r.text? 0
  secretSalt := r.text? 1
  secretHash := r.text? 2
  apiKeySalt := r.text? 3
  apiKeyHash := r.text? 4
  revoked := r.bool 5
  claim := r.jsonText 6

/-- The records of a store. -/
def m2mCredentials (r : Record) : List M2mRecord :=
  match r.head? with
  | some (.objectArray items _, _) => items.map M2mRecord.ofRecord
  | _ => []

/-- `lonejson_m2m_store`. -/
structure M2mStore where
  json : Option Bytes := none
  maxStoreBytes : ℕ := 0

/-- The functions of an auth provider that are used here. A digest has 32 bytes. -/
structure M2mProvider where
  randomBytes : Option (ℕ → Except Failure Bytes) := none
  sha256 : Option (Bytes → Except Failure { digest : Bytes // digest.length = 32 }) := none

/-- A `lonejson` handle with its auth provider. -/
structure M2mRuntime (σ : Type) extends Runtime σ where
  authProvider : Option M2mProvider := none

/-- `lonejson__m2m_parse_store`. -/
def m2mParseStore (runtime : M2mRuntime σ) (store : Option M2mStore) :
    Except Failure (List M2mRecord) :=
  match store.bind M2mStore.json with
  | none =>
    .error { code := .invalidArgument, message := "M2M credential store JSON is required" }
  | some json =>
    let maxStoreBytes := (store.getD {}).maxStoreBytes
    if json.length > (if maxStoreBytes = 0 then 1024 * 1024 else maxStoreBytes) then
      .error { code := .overflow, message := "M2M credential store exceeds configured limit" }
    else
      let env := { runtime.env with maps := m2mMaps, rootMap := some 0, structDepth := 2 }
      let r := parseBuffer env [(.objectArray [] {}, false), (.objectArray [] {}, false)]
        runtime.world json
      if r.2 = .ok then .ok (m2mCredentials r.1.core.dst)
      else .error { code := r.2, message := r.1.core.error.message }

/-! ## Hashes -/

/-- `lonejson__m2m_hash_secret`; the salt is read into 16 bytes. -/
def m2mHashSecret (sha256 : Bytes → Except Failure { digest : Bytes // digest.length = 32 })
    (alloc : ℕ → Bool) (salt secret : Bytes) : Except Failure Bytes :=
  match (base64Decode (cstr salt) .urlRaw 16).out with
  | .error failure =>
    .error { code := failure.status, message := failure.message, offset := failure.offset }
  | .ok saltBytes =>
    if (cstr secret).length = 0 ∨ (cstr secret).length > 4096 then
      .error { code := .invalidArgument, message := "secret length is invalid" }
    else if alloc (saltBytes.length + (cstr secret).length) = false then
      .error { code := .allocationFailed, message := "failed to allocate secret hash input" }
    else do
      let digest ← sha256 (saltBytes ++ cstr secret)
      let text := base64Text .urlRaw digest.1
      if alloc (text.length + 1) then .ok text
      else .error { code := .allocationFailed, message := "failed to allocate base64url output" }

/-- `lonejson__m2m_constant_equal`. -/
def m2mConstantEqual (a b : Bytes) : Bool :=
  if (cstr a).length ≠ (cstr b).length then false
  else ((cstr a).zip (cstr b)).foldl (fun diff pair => diff ||| (pair.1 ^^^ pair.2)) 0 == 0

/-- `lonejson__m2m_verify_hash`: what `*ok` is set to. -/
def m2mVerifyHash (sha256 : Bytes → Except Failure { digest : Bytes // digest.length = 32 })
    (alloc : ℕ → Bool) (salt hash secret : Bytes) : Bool :=
  match m2mHashSecret sha256 alloc salt secret with
  | .error _ => false
  | .ok computed => m2mConstantEqual computed hash

/-! ## The lookup -/

/-- The two ways to authenticate. -/
inductive M2mAuthMode where
  | basic
  | bearer
  deriving DecidableEq, Repr

/-- The bits of `lonejson_m2m_verify_request.allowed_auth_modes`; bits without a meaning are
`other`. -/
structure M2mAuthModes where
  basic : Bool := false
  bearer : Bool := false
  other : Bool := false
  deriving DecidableEq

/-- `lonejson__m2m_modes_or_default`. -/
def M2mAuthModes.orDefault (modes : M2mAuthModes) : M2mAuthModes :=
  if modes = {} then { basic := true, bearer := true } else modes

/-- `lonejson_m2m_authentication`. -/
structure M2mAuthentication where
  failure : AuthFailure := .missingCredentials
  clientId : Option Bytes := none
  authMode : Option M2mAuthMode := none
  claim : JsonValue := jsonValueInit

/-- `lonejson_m2m_verify_request`. -/
structure M2mVerifyRequest where
  authorizationHeader : Option Bytes := none
  store : Option M2mStore := none
  allowedAuthModes : M2mAuthModes := {}

section

variable (sha256 : Bytes → Except Failure { digest : Bytes // digest.length = 32 })
  (alloc : ℕ → Bool)

/-- A record that is looked at for a name and a secret, and whose hash is right. -/
def m2mBasicFits (id secret : Bytes) (record : M2mRecord) : Bool :=
  if record.revoked then false
  else
    match record.clientId, record.secretSalt, record.secretHash with
    | some clientId, some salt, some hash =>
      streq clientId id && m2mVerifyHash sha256 alloc salt hash secret
    | _, _, _ => false

/-- A record that is looked at for a key, and whose hash is right. -/
def m2mBearerFits (apiKey : Bytes) (record : M2mRecord) : Bool :=
  if record.revoked then false
  else
    match record.clientId, record.apiKeySalt, record.apiKeyHash with
    | some _, some salt, some hash => m2mVerifyHash sha256 alloc salt hash apiKey
    | _, _, _ => false

/-- The record for a header of the basic scheme. -/
def m2mFindBasic (header : Option Bytes) (records : List M2mRecord) : Option M2mRecord :=
  match m2mBasicDecode alloc header with
  | .error _ => none
  | .ok (id, secret) => records.find? (m2mBasicFits sha256 alloc id secret)

/-- The record for a header of the bearer scheme. -/
def m2mFindBearer (header : Option Bytes) (records : List M2mRecord) : Option M2mRecord :=
  match m2mExtractBearer alloc header with
  | .error _ => none
  | .ok apiKey => records.find? (m2mBearerFits sha256 alloc apiKey)

/-- The record that the allowed ways lead to. -/
def m2mFind (modes : M2mAuthModes) (header : Option Bytes) (records : List M2mRecord) :
    Option (M2mAuthMode × M2mRecord) :=
  let basic := if modes.basic then m2mFindBasic sha256 alloc header records else none
  let bearer := if modes.bearer then m2mFindBearer sha256 alloc header records else none
  (basic.map (.basic, ·)).or (bearer.map (.bearer, ·))

end

/-- What a record that was found is turned into. -/
def m2mAccept (alloc : ℕ → Bool) (mode : M2mAuthMode) (record : M2mRecord) :
    M2mAuthentication × Except Failure Unit :=
  let clientId := cstr (record.clientId.getD [])
  if alloc (clientId.length + 1) = false then
    ({ failure := .claimsInvalid }, .error {
      code := .allocationFailed, message := "failed to copy authenticated client id" })
  else
    let r := jsonValueSetBuffer jsonValueInit record.claim {}
    if r.2.2 = .ok then
      ({ failure := .none, clientId := some clientId, authMode := some mode, claim := r.1 }, .ok ())
    else
      ({ failure := .claimsInvalid, clientId := some clientId, authMode := some mode, claim := r.1 },
        .error { code := r.2.2, message := r.2.1.message })

/-- `lonejson__m2m_require_crypto`: the runtime and its hash. -/
def m2mRequireCrypto (runtime : Option (M2mRuntime σ)) : Except Failure (M2mRuntime σ ×
    (Bytes → Except Failure { digest : Bytes // digest.length = 32 })) :=
  match runtime with
  | none => .error { code := .invalidArgument, message := "lonejson runtime is required" }
  | some runtime =>
    match runtime.authProvider with
    | some { sha256 := some sha256, randomBytes := some _ } => .ok (runtime, sha256)
    | _ => .error {
        code := .typeMismatch
        message := "runtime auth provider must provide random_bytes and sha256" }

/-- `lonejson_m2m_verify_authorization` for an output that is there. -/
def m2mVerifyAuthorization (runtime : Option (M2mRuntime σ)) (alloc : ℕ → Bool)
    (request : M2mVerifyRequest) : M2mAuthentication × Except Failure Unit :=
  let modes := request.allowedAuthModes.orDefault
  if modes.other then
    ({ failure := .malformedToken },
      .error { code := .invalidArgument, message := "unsupported M2M auth mode" })
  else
    match m2mRequireCrypto runtime with
    | .error e => ({ failure := .cacheUnavailable }, .error e)
    | .ok (runtime, sha256) =>
      match m2mParseStore runtime request.store with
      | .error e => ({ failure := .cacheUnavailable }, .error e)
      | .ok records =>
        match m2mFind sha256 alloc modes request.authorizationHeader records with
        | some (mode, record) => m2mAccept alloc mode record
        | none =>
          ({ failure :=
              if request.authorizationHeader.isNone then .missingCredentials
              else .invalidSignature },
            .error { code := .typeMismatch, message := "M2M credentials are not accepted" })

/-! ## Hashes that fit -/

/-- A text of base64url without padding has no byte that has no value. -/
theorem Base64Reads.notMem {text out : Bytes} {ch : Byte} (h : Base64Reads .urlRaw text out)
    (hch : base64ValueForVariant ch .urlRaw = none) : ch ∉ text := by
  have hne {c : Byte} {i : ℕ} (hc : Stands .urlRaw c i) : ch ≠ c := by
    rintro rfl
    rw [Stands, hch] at hc
    cases hc
  induction h with
  | nil => exact List.not_mem_nil
  | quartet ha hb hc hd hrest ih => simp [hne ha, hne hb, hne hc, hne hd, ih]
  | paddedTwo hraw => cases hraw
  | paddedOne hraw => cases hraw
  | rawTwo hraw ha hb hc => simp [hne ha, hne hb, hne hc]
  | rawOne hraw ha hb => simp [hne ha, hne hb]

theorem cstr_base64Text (data : Bytes) :
    cstr (base64Text .urlRaw data) = base64Text .urlRaw data :=
  cstr_of_notMem ((base64Reads_text data).notMem (by decide))

theorem foldl_or_xor {pairs : List (Byte × Byte)} {diff : Byte} :
    pairs.foldl (fun diff pair => diff ||| (pair.1 ^^^ pair.2)) diff = 0 ↔
      diff = 0 ∧ ∀ pair ∈ pairs, pair.1 = pair.2 := by
  induction pairs generalizing diff with
  | nil => simp
  | cons pair pairs ih =>
      have hor {a b : Byte} : a ||| b = 0 ↔ a = 0 ∧ b = 0 := UInt8.or_eq_zero_iff
      rw [List.foldl_cons, ih, hor, UInt8.xor_eq_zero_iff, List.forall_mem_cons, and_assoc]

/-- Comparing in constant time is comparing. -/
theorem m2mConstantEqual_iff {a b : Bytes} : m2mConstantEqual a b = true ↔ cstr a = cstr b := by
  unfold m2mConstantEqual
  split_ifs with hlength
  · exact ⟨(fun h => by cases h), fun h => absurd (congrArg List.length h) hlength⟩
  · rw [not_not] at hlength
    rw [beq_iff_eq, foldl_or_xor, and_iff_right rfl]
    constructor
    · intro h
      refine List.ext_getElem hlength fun i hi hi' => ?_
      have hpair := h ((cstr a)[i], (cstr b)[i]) (by
        rw [List.mem_iff_getElem]
        exact ⟨i, by simp [hi, hi'], by simp⟩)
      exact hpair
    · intro h pair hpair
      rw [h] at hpair
      obtain ⟨i, hi, rfl⟩ := List.mem_iff_getElem.mp hpair
      rw [List.getElem_zip]

/-- The hash is that of the salt and the secret behind it. -/
def HashFits (sha256 : Bytes → Except Failure { digest : Bytes // digest.length = 32 })
    (salt hash secret : Bytes) : Prop :=
  ∃ saltBytes digest, Base64Reads .urlRaw (cstr salt) saltBytes ∧ saltBytes.length ≤ 16 ∧
    (0 < (cstr secret).length ∧ (cstr secret).length ≤ 4096) ∧
    sha256 (saltBytes ++ cstr secret) = .ok digest ∧ cstr hash = base64Text .urlRaw digest.1

section

variable {sha256 : Bytes → Except Failure { digest : Bytes // digest.length = 32 }}
  {alloc : ℕ → Bool}

theorem base64Decode_ok_iff {text out : Bytes} {capacity : ℕ} :
    (base64Decode text .urlRaw capacity).out = .ok out ↔
      Base64Reads .urlRaw text out ∧ out.length ≤ capacity := by
  constructor
  · intro h
    have hreads := base64Reads_of_decode h
    refine ⟨hreads, ?_⟩
    by_contra hroom
    rw [base64Decode, base64DecodedLen, hreads.accepted.1] at h
    dsimp only at h
    rw [if_pos (by omega)] at h
    cases h
  · rintro ⟨hreads, hroom⟩
    rw [hreads.decode_call hroom]

theorem m2mHashSecret_ok_iff (hgrants : ∀ n, alloc n = true) {salt secret hash : Bytes} :
    m2mHashSecret sha256 alloc salt secret = .ok hash ↔
      ∃ saltBytes digest, Base64Reads .urlRaw (cstr salt) saltBytes ∧ saltBytes.length ≤ 16 ∧
        (0 < (cstr secret).length ∧ (cstr secret).length ≤ 4096) ∧
        sha256 (saltBytes ++ cstr secret) = .ok digest ∧ base64Text .urlRaw digest.1 = hash := by
  unfold m2mHashSecret
  constructor
  · intro h
    cases hdecode : (base64Decode (cstr salt) .urlRaw 16).out with
    | error failure =>
        rw [hdecode] at h
        cases h
    | ok saltBytes =>
        rw [hdecode] at h
        dsimp only at h
        split_ifs at h with hlength
        obtain ⟨digest, hdigest, h⟩ := Json.bind_eq_ok h
        rw [if_pos (hgrants _)] at h
        obtain ⟨hreads, hroom⟩ := base64Decode_ok_iff.mp hdecode
        exact ⟨saltBytes, digest, hreads, hroom, by omega, hdigest, Except.ok.inj h⟩
  · rintro ⟨saltBytes, digest, hreads, hroom, hlength, hdigest, rfl⟩
    rw [base64Decode_ok_iff.mpr ⟨hreads, hroom⟩]
    dsimp only
    rw [if_neg (by omega), if_neg (by simp [hgrants]), hdigest]
    dsimp only [bind, Except.bind]
    rw [if_pos (hgrants _)]

theorem m2mVerifyHash_iff (hgrants : ∀ n, alloc n = true) {salt hash secret : Bytes} :
    m2mVerifyHash sha256 alloc salt hash secret = true ↔ HashFits sha256 salt hash secret := by
  unfold m2mVerifyHash
  constructor
  · intro h
    cases hcomputed : m2mHashSecret sha256 alloc salt secret with
    | error e =>
        rw [hcomputed] at h
        cases h
    | ok computed =>
        rw [hcomputed] at h
        obtain ⟨saltBytes, digest, hreads, hroom, hlength, hdigest, rfl⟩ :=
          (m2mHashSecret_ok_iff hgrants).mp hcomputed
        have hequal := m2mConstantEqual_iff.mp h
        rw [cstr_base64Text] at hequal
        exact ⟨saltBytes, digest, hreads, hroom, hlength, hdigest, hequal.symm⟩
  · rintro ⟨saltBytes, digest, hreads, hroom, hlength, hdigest, hequal⟩
    rw [(m2mHashSecret_ok_iff hgrants).mpr
      ⟨saltBytes, digest, hreads, hroom, hlength, hdigest, rfl⟩]
    refine m2mConstantEqual_iff.mpr ?_
    rw [cstr_base64Text, hequal]

/-! ## Records that fit -/

/-- A record for a name and a secret. -/
def BasicFits (sha256 : Bytes → Except Failure { digest : Bytes // digest.length = 32 })
    (id secret : Bytes) (record : M2mRecord) : Prop :=
  record.revoked = false ∧ record.clientId.map cstr = some (cstr id) ∧
    ∃ salt hash, record.secretSalt = some salt ∧ record.secretHash = some hash ∧
      HashFits sha256 salt hash secret

/-- A record for a key. -/
def BearerFits (sha256 : Bytes → Except Failure { digest : Bytes // digest.length = 32 })
    (apiKey : Bytes) (record : M2mRecord) : Prop :=
  record.revoked = false ∧ record.clientId.isSome = true ∧
    ∃ salt hash, record.apiKeySalt = some salt ∧ record.apiKeyHash = some hash ∧
      HashFits sha256 salt hash apiKey

theorem m2mBasicFits_iff (hgrants : ∀ n, alloc n = true) {id secret : Bytes} {record : M2mRecord} :
    m2mBasicFits sha256 alloc id secret record = true ↔ BasicFits sha256 id secret record := by
  unfold m2mBasicFits BasicFits
  cases record.revoked <;> cases record.clientId <;> cases record.secretSalt <;>
    cases record.secretHash <;> simp [m2mVerifyHash_iff hgrants]

theorem m2mBearerFits_iff (hgrants : ∀ n, alloc n = true) {apiKey : Bytes} {record : M2mRecord} :
    m2mBearerFits sha256 alloc apiKey record = true ↔ BearerFits sha256 apiKey record := by
  unfold m2mBearerFits BearerFits
  cases record.revoked <;> cases record.clientId <;> cases record.apiKeySalt <;>
    cases record.apiKeyHash <;> simp [m2mVerifyHash_iff hgrants]

/-- The first record of some kind. -/
def FirstRecord (P : M2mRecord → Prop) (records : List M2mRecord) (record : M2mRecord) : Prop :=
  P record ∧ ∃ before after, records = before ++ record :: after ∧ ∀ other ∈ before, ¬ P other

theorem find?_first {p : M2mRecord → Bool} {P : M2mRecord → Prop}
    (hp : ∀ record, p record = true ↔ P record) {records : List M2mRecord} {record : M2mRecord} :
    records.find? p = some record ↔ FirstRecord P records record := by
  rw [List.find?_eq_some_iff_append, FirstRecord, hp]
  simp only [Bool.not_eq_true', ← Bool.not_eq_true, hp]

/-! ## The record that counts -/

/-- A record that a header authenticates as. -/
inductive M2mMatch (sha256 : Bytes → Except Failure { digest : Bytes // digest.length = 32 })
    (modes : M2mAuthModes) (header : Bytes) (records : List M2mRecord) :
    M2mAuthMode → M2mRecord → Prop where
  | basic {id secret : Bytes} {record : M2mRecord} (hmode : modes.basic = true)
      (hheader : BasicHeader header id secret)
      (hfirst : FirstRecord (BasicFits sha256 id secret) records record) :
      M2mMatch sha256 modes header records .basic record
  | bearer {apiKey : Bytes} {record : M2mRecord} (hmode : modes.bearer = true)
      (hheader : AuthScheme (ascii "Bearer") header apiKey)
      (hfirst : FirstRecord (BearerFits sha256 apiKey) records record) :
      M2mMatch sha256 modes header records .bearer record

/-- A header has one scheme. -/
theorem schemes_differ {header encoded apiKey : Bytes}
    (hbasic : AuthScheme (ascii "Basic") header encoded)
    (hbearer : AuthScheme (ascii "Bearer") header apiKey) : False := by
  have hfive := ((@authScheme_iff (ascii "Basic") header encoded 0x42 (ascii "asic") rfl rfl).mp
    hbasic).1
  have hsix := ((@authScheme_iff (ascii "Bearer") header apiKey 0x42 (ascii "earer") rfl rfl).mp
    hbearer).1
  rw [schemePrefix, asciiIeq, beq_iff_eq] at hfive hsix
  have hfive' := congrArg (List.take 2) hfive
  have hsix' := congrArg (List.take 2) hsix
  rw [← List.map_take, List.take_take] at hfive' hsix'
  have hcontra := hfive'.symm.trans hsix'
  revert hcontra
  decide +kernel

section

variable {modes : M2mAuthModes} {text : Bytes} {records : List M2mRecord} {mode : M2mAuthMode}
  {record : M2mRecord}

theorem m2mFindBasic_iff (hgrants : ∀ n, alloc n = true) (hsize : text.length ≤ sizeMax) :
    m2mFindBasic sha256 alloc (some text) records = some record ↔
      ∃ id secret, BasicHeader (cstr text) id secret ∧
        FirstRecord (BasicFits sha256 id secret) records record := by
  have hbasic (id secret : Bytes) := @m2mBasicDecode_ok_iff (some text) alloc hgrants
    (fun _ h => by cases h; exact hsize) id secret
  simp only [Option.some.injEq, exists_eq_left'] at hbasic
  unfold m2mFindBasic
  cases hdecode : m2mBasicDecode alloc (some text) with
  | error e =>
      refine ⟨(fun h => by cases h), fun h => ?_⟩
      obtain ⟨id, secret, hheader, -⟩ := h
      rw [(hbasic id secret).mpr hheader] at hdecode
      cases hdecode
  | ok r =>
      obtain ⟨id, secret⟩ := r
      dsimp only
      rw [find?_first fun record => m2mBasicFits_iff hgrants]
      constructor
      · intro hfirst
        exact ⟨id, secret, (hbasic id secret).mp hdecode, hfirst⟩
      · rintro ⟨id', secret', hheader, hfirst⟩
        rw [(hbasic id' secret').mpr hheader] at hdecode
        cases hdecode
        exact hfirst

theorem m2mFindBearer_iff (hgrants : ∀ n, alloc n = true) :
    m2mFindBearer sha256 alloc (some text) records = some record ↔
      ∃ apiKey, AuthScheme (ascii "Bearer") (cstr text) apiKey ∧
        FirstRecord (BearerFits sha256 apiKey) records record := by
  have hbearer (apiKey : Bytes) := @m2mExtractBearer_ok_iff apiKey (some text) alloc hgrants
  simp only [Option.some.injEq, exists_eq_left'] at hbearer
  unfold m2mFindBearer
  cases hextract : m2mExtractBearer alloc (some text) with
  | error e =>
      refine ⟨(fun h => by cases h), fun h => ?_⟩
      obtain ⟨apiKey, hheader, -⟩ := h
      rw [(hbearer apiKey).mpr hheader] at hextract
      cases hextract
  | ok apiKey =>
      dsimp only
      rw [find?_first fun record => m2mBearerFits_iff hgrants]
      constructor
      · intro hfirst
        exact ⟨apiKey, (hbearer apiKey).mp hextract, hfirst⟩
      · rintro ⟨apiKey', hheader, hfirst⟩
        rw [(hbearer apiKey').mpr hheader] at hextract
        cases hextract
        exact hfirst

/-- The lookup finds the record that the header authenticates as. -/
theorem m2mFind_iff (hgrants : ∀ n, alloc n = true) (hsize : text.length ≤ sizeMax) :
    m2mFind sha256 alloc modes (some text) records = some (mode, record) ↔
      M2mMatch sha256 modes (cstr text) records mode record := by
  have hbasic (record : M2mRecord) := @m2mFindBasic_iff sha256 alloc text records record hgrants hsize
  have hbearer (record : M2mRecord) := @m2mFindBearer_iff sha256 alloc text records record hgrants
  unfold m2mFind
  dsimp only
  rw [Option.or_eq_some_iff]
  constructor
  · rintro (h | ⟨-, h⟩)
    · obtain ⟨found, hfound, heq⟩ := Option.map_eq_some_iff.mp h
      cases heq
      split_ifs at hfound with hmode
      obtain ⟨id, secret, hheader, hfirst⟩ := (hbasic record).mp hfound
      exact .basic hmode hheader hfirst
    · obtain ⟨found, hfound, heq⟩ := Option.map_eq_some_iff.mp h
      cases heq
      split_ifs at hfound with hmode
      obtain ⟨apiKey, hheader, hfirst⟩ := (hbearer record).mp hfound
      exact .bearer hmode hheader hfirst
  · rintro (⟨hmode, hheader, hfirst⟩ | ⟨hmode, hheader, hfirst⟩)
    · left
      rw [if_pos hmode, (hbasic record).mpr ⟨_, _, hheader, hfirst⟩]
      rfl
    · right
      constructor
      · rw [Option.map_eq_none_iff]
        split_ifs with hmode'
        · cases hfound : m2mFindBasic sha256 alloc (some text) records with
          | none => rfl
          | some other =>
              obtain ⟨id, secret, hbasicHeader, -⟩ := (hbasic other).mp hfound
              obtain ⟨encoded, _, hscheme, -⟩ := hbasicHeader.decodes
              exact (schemes_differ hscheme hheader).elim
        · rfl
      · rw [if_pos hmode, (hbearer record).mpr ⟨_, hheader, hfirst⟩]
        rfl

end

end

/-! ## The whole call -/

/-- A request authenticates as a record of its store. -/
structure M2mAuthenticates (runtime : Option (M2mRuntime σ)) (request : M2mVerifyRequest)
    (mode : M2mAuthMode) (record : M2mRecord) : Prop where
  modes : request.allowedAuthModes.other = false
  matched : ∃ handle sha256 records text, m2mRequireCrypto runtime = .ok (handle, sha256) ∧
    m2mParseStore handle request.store = .ok records ∧
    request.authorizationHeader = some text ∧
    M2mMatch sha256 request.allowedAuthModes.orDefault (cstr text) records mode record
  claim : Document (copyRules .none) record.claim

theorem M2mMatch.clientId {sha256 : Bytes → Except Failure { digest : Bytes // digest.length = 32 }}
    {modes : M2mAuthModes} {header : Bytes} {records : List M2mRecord} {mode : M2mAuthMode}
    {record : M2mRecord} (h : M2mMatch sha256 modes header records mode record) :
    ∃ clientId, record.clientId = some clientId := by
  cases h with
  | basic _ _ hfirst =>
      obtain ⟨clientId, hclientId, -⟩ := Option.map_eq_some_iff.mp hfirst.1.2.1
      exact ⟨clientId, hclientId⟩
  | bearer _ _ hfirst => exact Option.isSome_iff_exists.mp hfirst.1.2.1

theorem orDefault_other {modes : M2mAuthModes} : modes.orDefault.other = modes.other := by
  unfold M2mAuthModes.orDefault
  split_ifs with h
  · rw [h]
  · rfl

/-- What `m2mAccept` makes of a record. -/
theorem m2mAccept_cases {alloc : ℕ → Bool} (hgrants : ∀ n, alloc n = true) {mode : M2mAuthMode}
    {record : M2mRecord} {clientId : Bytes} (hclientId : record.clientId = some clientId) :
    (Document (copyRules .none) record.claim ∧ ∃ claim, (∀ source, claim.written source =
        compact record.claim) ∧
      m2mAccept alloc mode record = ({
        failure := .none, clientId := some (cstr clientId), authMode := some mode, claim }, .ok ())) ∨
    ¬ Document (copyRules .none) record.claim ∧ ∃ e, m2mAccept alloc mode record = ({
      failure := .claimsInvalid, clientId := some (cstr clientId), authMode := some mode
      claim := jsonValueInit }, .error e) := by
  have hok := setBuffer_ok_iff jsonValueInit record.claim {}
  unfold m2mAccept
  dsimp only
  rw [if_neg (by simp [hgrants]), hclientId, Option.getD_some]
  split_ifs with hset
  · exact .inl ⟨hok.mp hset, _, fun source => setBuffer_written _ _ source (hok.mp hset), rfl⟩
  · have hkept : (jsonValueSetBuffer jsonValueInit record.claim {}).1 = jsonValueInit := by
      unfold jsonValueSetBuffer at hset ⊢
      dsimp only at hset ⊢
      split_ifs at hset ⊢
      · exact absurd rfl hset
      · rfl
    rw [hkept]
    exact .inr ⟨fun h => hset (hok.mpr h), _, rfl⟩

theorem m2mFind_none {sha256 : Bytes → Except Failure { digest : Bytes // digest.length = 32 }}
    {alloc : ℕ → Bool} {modes : M2mAuthModes} {records : List M2mRecord} :
    m2mFind sha256 alloc modes none records = none := by
  have hbasic : m2mFindBasic sha256 alloc none records = none := rfl
  have hbearer : m2mFindBearer sha256 alloc none records = none := rfl
  unfold m2mFind
  rw [hbasic, hbearer, ite_self, ite_self]
  rfl

/-- A request is accepted exactly when it authenticates as a record, and for that record. Every
other request has a class of failure and no claim, and no name either, unless the claim of the
record was no document. -/
theorem m2mVerifyAuthorization_exact {alloc : ℕ → Bool} (hgrants : ∀ n, alloc n = true)
    (runtime : Option (M2mRuntime σ)) (request : M2mVerifyRequest)
    (hsize : ∀ text, request.authorizationHeader = some text → text.length ≤ sizeMax) :
    (∃ mode record clientId claim, M2mAuthenticates runtime request mode record ∧
      record.clientId = some clientId ∧ (∀ source, claim.written source = compact record.claim) ∧
      m2mVerifyAuthorization runtime alloc request = ({
        failure := .none, clientId := some (cstr clientId), authMode := some mode, claim },
        .ok ())) ∨
    (∀ mode record, ¬ M2mAuthenticates runtime request mode record) ∧
      ∃ out e, m2mVerifyAuthorization runtime alloc request = (out, .error e) ∧
        out.failure ≠ .none ∧ out.claim = jsonValueInit ∧
        (out.clientId = none ∨ out.failure = .claimsInvalid) := by
  unfold m2mVerifyAuthorization
  dsimp only
  rw [orDefault_other]
  by_cases hother : request.allowedAuthModes.other = true
  · rw [if_pos hother]
    refine .inr ⟨fun mode record h => ?_, _, _, rfl, AuthFailure.noConfusion, rfl, .inl rfl⟩
    have hmodes := h.modes
    rw [hother] at hmodes
    cases hmodes
  rw [if_neg hother]
  cases hcrypto : m2mRequireCrypto runtime with
  | error e =>
      refine .inr ⟨fun mode record h => ?_, _, _, rfl, AuthFailure.noConfusion, rfl, .inl rfl⟩
      obtain ⟨_, _, _, _, hok, -⟩ := h.matched
      rw [hcrypto] at hok
      cases hok
  | ok r =>
  obtain ⟨handle, sha256⟩ := r
  dsimp only
  cases hstore : m2mParseStore handle request.store with
  | error e =>
      refine .inr ⟨fun mode record h => ?_, _, _, rfl, AuthFailure.noConfusion, rfl, .inl rfl⟩
      obtain ⟨_, _, _, _, hok, hparsed, -⟩ := h.matched
      rw [hcrypto] at hok
      cases hok
      rw [hstore] at hparsed
      cases hparsed
  | ok records =>
  dsimp only
  cases hheader : request.authorizationHeader with
  | none =>
      rw [m2mFind_none]
      refine .inr ⟨fun mode record h => ?_, _, _, rfl, AuthFailure.noConfusion, rfl, .inl rfl⟩
      obtain ⟨_, _, _, _, -, -, hsome, -⟩ := h.matched
      rw [hheader] at hsome
      cases hsome
  | some text =>
  have hfind (mode : M2mAuthMode) (record : M2mRecord) := @m2mFind_iff sha256 alloc
    request.allowedAuthModes.orDefault text records mode record hgrants (hsize text hheader)
  have hauth {mode : M2mAuthMode} {record : M2mRecord}
      (h : M2mAuthenticates runtime request mode record) :
      M2mMatch sha256 request.allowedAuthModes.orDefault (cstr text) records mode record := by
    obtain ⟨_, _, _, _, hok, hparsed, hsome, hmatch⟩ := h.matched
    rw [hcrypto] at hok
    cases hok
    rw [hstore] at hparsed
    cases hparsed
    rw [hheader] at hsome
    cases hsome
    exact hmatch
  cases hfound : m2mFind sha256 alloc request.allowedAuthModes.orDefault (some text) records with
  | none =>
      refine .inr ⟨fun mode record h => ?_, _, _, rfl, AuthFailure.noConfusion, rfl, .inl rfl⟩
      rw [(hfind mode record).mpr (hauth h)] at hfound
      cases hfound
  | some found =>
      obtain ⟨mode, record⟩ := found
      have hmatch := (hfind mode record).mp hfound
      obtain ⟨clientId, hclientId⟩ := hmatch.clientId
      dsimp only
      rcases @m2mAccept_cases alloc hgrants mode record clientId hclientId with
        ⟨hclaim, claim, hwritten, haccept⟩ | ⟨hclaim, e, haccept⟩
      · refine .inl ⟨mode, record, clientId, claim, ⟨Bool.eq_false_of_not_eq_true hother, ?_, hclaim⟩,
          hclientId, hwritten, haccept⟩
        exact ⟨handle, sha256, records, text, hcrypto, hstore, hheader, hmatch⟩
      · refine .inr ⟨fun mode' record' h => ?_, _, e, haccept, AuthFailure.noConfusion, rfl,
          .inr rfl⟩
        have hsame := (hfind mode' record').mpr (hauth h)
        rw [hfound] at hsame
        cases hsame
        exact hclaim h.claim

/-! ## A store with one record -/

/-- The digest of the one-letter text `s`. -/
def letterDigest : Bytes :=
  [4, 58, 113, 135, 116, 197, 114, 189, 138, 37, 173, 190, 177, 191, 205, 92, 2, 86, 174, 17,
    206, 207, 159, 156, 63, 146, 93, 14, 82, 190, 175, 137]

/-- A runtime whose provider hashes one text. -/
def letterRuntime : M2mRuntime Unit where
  env := {
    maps := fun _ => { fields := [] }
    call := fun world _ error => (world, error, .ok)
    parseF64 := fun _ => none }
  world := ()
  authProvider := some {
    sha256 := some fun input =>
      if input = ascii "s" then .ok ⟨letterDigest, rfl⟩
      else .error { code := .internalError, message := "failed to compute SHA-256 digest" }
    randomBytes := some fun _ =>
      .error { code := .internalError, message := "failed to generate random bytes" } }

/-- The credentials `a:s` for a record without a salt. -/
def letterRequest : M2mVerifyRequest where
  authorizationHeader := some (ascii "Basic YTpz")
  store := some { json := some (ascii "\x7b\"credentials\":[\x7b\"client_id\":\"a\",\"secret_salt\":\"\",\"secret_hash\":\"BDpxh3TFcr2KJa2-sb_NXAJWrhHOz5-cP5JdDlK-r4k\",\"claim\":null\x7d]\x7d") }

theorem m2mVerifyAuthorization_one :
    ∃ mode record, M2mAuthenticates (some letterRuntime) letterRequest mode record := by
  rcases @m2mVerifyAuthorization_exact _ (fun _ => true) (fun _ => rfl) (some letterRuntime)
      letterRequest (fun _ h => by cases h; decide) with
    ⟨mode, record, _, _, hauth, -⟩ | ⟨-, out, e, hcall, -⟩
  · exact ⟨mode, record, hauth⟩
  · have hok : (m2mVerifyAuthorization (some letterRuntime) (fun _ => true) letterRequest).2 =
        .ok () := by decide +kernel
    rw [hcall] at hok
    cases hok

end Lonejson
