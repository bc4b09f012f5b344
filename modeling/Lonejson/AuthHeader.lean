import Lonejson.JwtSegments

/-!
# Authorization headers

A scheme in letters of any case, one token behind it, and blanks around both: what
`lonejson_oidc_authorization_bearer_token`, `lonejson__m2m_extract_bearer` and
`lonejson__m2m_basic_decode` read.
-/

namespace Lonejson

/-! ## The readers -/

/-- `lonejson__oidc_ascii_prefix_case_equal`, and `lonejson__m2m_ascii_scheme_prefix`. -/
def schemePrefix (value scheme : Bytes) : Bool := asciiIeq (value.take scheme.length) scheme

/-- The token at the front of a text, and what stands behind the blanks that follow it. -/
def authToken (text : Bytes) : Bytes × Bytes :=
  (text.takeWhile (!isBlank ·), (text.dropWhile (!isBlank ·)).dropWhile isBlank)

/-- `lonejson_oidc_authorization_bearer_token`. -/
def oidcBearerToken (header : Option Bytes) : Except Failure Bytes :=
  match header with
  | none => .error {
      code := .missingRequiredField, message := "Authorization bearer credential is required" }
  | some header =>
    let cursor := (cstr header).dropWhile isBlank
    if cursor = [] then
      .error {
        code := .missingRequiredField, message := "Authorization bearer credential is required" }
    else if cursor.length < 7 ∨ schemePrefix cursor (ascii "Bearer") = false ∨
        isBlank (cursor.getD 6 0) = false then
      .error { code := .invalidJson, message := "Authorization header is not a Bearer token" }
    else
      let r := authToken ((cursor.drop 7).dropWhile isBlank)
      if r.1 = [] then
        .error {
          code := .missingRequiredField, message := "Authorization bearer token is required" }
      else if r.2 ≠ [] then
        .error {
          code := .invalidJson, message := "Authorization bearer token has trailing data" }
      else .ok r.1

/-- The messages of one reader of a scheme. -/
structure SchemeMessages where
  scheme : String
  separator : String
  malformed : String

/-- The part that `lonejson__m2m_extract_bearer` and `lonejson__m2m_basic_decode` share. -/
def m2mSchemeToken (scheme : Bytes) (messages : SchemeMessages) (header : Option Bytes) :
    Except Failure Bytes :=
  match header with
  | none =>
    .error { code := .missingRequiredField, message := "Authorization header is required" }
  | some header =>
    let p := (cstr header).dropWhile isBlank
    if schemePrefix p scheme = false then
      .error { code := .typeMismatch, message := messages.scheme }
    else if isBlank ((p.drop scheme.length).headD 0) = false then
      .error { code := .invalidJson, message := messages.separator }
    else
      let r := authToken ((p.drop scheme.length).dropWhile isBlank)
      if r.1 = [] ∨ r.2 ≠ [] then .error { code := .invalidJson, message := messages.malformed }
      else .ok r.1

/-- `lonejson__m2m_extract_bearer`. -/
def m2mExtractBearer (alloc : ℕ → Bool) (header : Option Bytes) : Except Failure Bytes := do
  let token ← m2mSchemeToken (ascii "Bearer") {
    scheme := "Authorization scheme is not Bearer"
    separator := "Bearer token separator is required"
    malformed := "Bearer token is malformed" } header
  if alloc (token.length + 1) = false then
    .error { code := .allocationFailed, message := "failed to copy Bearer token" }
  else .ok token

/-- The two copies of `lonejson__m2m_basic_decode`, from the text that the token decodes to. -/
def m2mSplitBasic (alloc : ℕ → Bool) (decoded : Bytes) : Except Failure (Bytes × Bytes) :=
  let id := (cstr decoded).takeWhile (· != 0x3a)
  let secret := ((cstr decoded).dropWhile (· != 0x3a)).drop 1
  if id = [] ∨ secret = [] then
    .error { code := .invalidJson, message := "Basic credentials require client_id:secret" }
  else if alloc (id.length + 1) && alloc (secret.length + 1) then .ok (id, secret)
  else .error { code := .allocationFailed, message := "failed to copy Basic credentials" }

/-- `lonejson__m2m_basic_decode`. -/
def m2mBasicDecode (alloc : ℕ → Bool) (header : Option Bytes) : Except Failure (Bytes × Bytes) := do
  let malformed : Failure := { code := .invalidJson, message := "Basic credentials are malformed" }
  let encoded ← m2mSchemeToken (ascii "Basic") {
    scheme := "Authorization scheme is not Basic"
    separator := "Basic credential separator is required"
    malformed := "Basic credentials are malformed" } header
  match base64DecodedLen encoded .standard with
  | .error _ => .error malformed
  | .ok cap =>
    if cap = sizeMax then
      .error { code := .overflow, message := "Basic credential length overflows" }
    else if alloc (cap + 1) = false then
      .error { code := .allocationFailed, message := "failed to allocate Basic credentials" }
    else
      match (base64Decode encoded .standard cap).out with
      | .error _ => .error malformed
      | .ok decoded => m2mSplitBasic alloc decoded

/-! ## The grammar -/

/-- A scheme with a token, and nothing else but blanks. -/
structure AuthScheme (scheme header token : Bytes) : Prop where
  nonempty : token ≠ []
  solid : ∀ ch ∈ token, isBlank ch = false
  spelled : ∃ lead name gap trail, header = lead ++ (name ++ (gap ++ (token ++ trail))) ∧
    asciiIeq name scheme = true ∧ gap ≠ [] ∧ ∀ ch ∈ lead ++ (gap ++ trail), isBlank ch = true

theorem isBlank_asciiLower (ch : Byte) : isBlank (asciiLower ch) = isBlank ch := by
  rw [asciiLower]
  split_ifs with h
  · have hlow : 0x41 ≤ ch.toNat ∧ ch.toNat ≤ 0x5a := h
    have hsum : (ch + 0x20).toNat = ch.toNat + 0x20 := by
      rw [UInt8.toNat_add]
      exact Nat.mod_eq_of_lt (by have : (0x20 : UInt8).toNat = 0x20 := rfl; omega)
    have hne {b c : UInt8} (hbc : b.toNat ≠ c.toNat) : (b == c) = false :=
      beq_false_of_ne fun heq => hbc (congrArg UInt8.toNat heq)
    rw [isBlank, isBlank, hne (by rw [hsum]; change _ ≠ 0x20; omega),
      hne (by rw [hsum]; change _ ≠ 0x09; omega), hne (by change _ ≠ 0x20; omega),
      hne (by change _ ≠ 0x09; omega)]
  · rfl

theorem asciiIeq_length {a b : Bytes} (h : asciiIeq a b = true) : a.length = b.length := by
  have hmap := congrArg List.length (beq_iff_eq.mp h)
  simpa using hmap

theorem asciiIeq_head {a b : Bytes} (h : asciiIeq a b = true) {ch : Byte} {rest : Bytes}
    (hb : b = ch :: rest) : ∃ ch' rest', a = ch' :: rest' ∧ isBlank ch' = isBlank ch := by
  subst hb
  cases a with
  | nil => cases beq_iff_eq.mp h
  | cons ch' rest' =>
      have hmap := beq_iff_eq.mp h
      rw [List.map_cons, List.map_cons] at hmap
      refine ⟨ch', rest', rfl, ?_⟩
      rw [← isBlank_asciiLower ch', ← isBlank_asciiLower ch, (List.cons.inj hmap).1]

section

variable {scheme header token : Bytes}

/-- What the readers find in a header. -/
theorem authScheme_iff {ch : Byte} {rest : Bytes} (hscheme : scheme = ch :: rest)
    (hch : isBlank ch = false) : AuthScheme scheme header token ↔
      schemePrefix (header.dropWhile isBlank) scheme = true ∧
      isBlank (((header.dropWhile isBlank).drop scheme.length).headD 0) = true ∧
      authToken (((header.dropWhile isBlank).drop scheme.length).dropWhile isBlank) =
        (token, []) ∧ token ≠ [] := by
  constructor
  · rintro ⟨hne, hsolid, lead, name, gap, trail, rfl, hname, hgap, hblank⟩
    obtain ⟨ch', rest', hhead, hch'⟩ := asciiIeq_head hname hscheme
    have hlead : ∀ c ∈ lead, isBlank c = true := fun c hc => hblank c (by simp [hc])
    have hgaps : ∀ c ∈ gap, isBlank c = true := fun c hc => hblank c (by simp [hc])
    have htrail : ∀ c ∈ trail, isBlank c = true := fun c hc => hblank c (by simp [hc])
    have hstart : (lead ++ (name ++ (gap ++ (token ++ trail)))).dropWhile isBlank =
        name ++ (gap ++ (token ++ trail)) := by
      rw [List.dropWhile_append_of_pos hlead, hhead, List.cons_append,
        List.dropWhile_cons_of_neg (by simp [hch', hch])]
    have hdrop : (name ++ (gap ++ (token ++ trail))).drop scheme.length =
        gap ++ (token ++ trail) := by
      rw [← asciiIeq_length hname, List.drop_left]
    obtain ⟨first, more, rfl⟩ := List.exists_cons_of_ne_nil hne
    have hfirst : isBlank first = false := hsolid first (by simp)
    have hsolid' : ∀ c ∈ first :: more, (!isBlank c) = true := fun c hc => by simp [hsolid c hc]
    have htoken : (gap ++ (first :: more ++ trail)).dropWhile isBlank = first :: more ++ trail := by
      rw [List.dropWhile_append_of_pos hgaps, List.cons_append,
        List.dropWhile_cons_of_neg (by simp [hfirst])]
    rw [hstart, hdrop, htoken]
    refine ⟨?_, ?_, ?_, hne⟩
    · rw [schemePrefix, ← asciiIeq_length hname, List.take_left, hname]
    · obtain ⟨g, gs, rfl⟩ := List.exists_cons_of_ne_nil hgap
      exact hgaps g (by simp)
    · have hends : trail.takeWhile (!isBlank ·) = [] := by
        cases trail with
        | nil => rfl
        | cons c cs => rw [List.takeWhile_cons_of_neg (by simp [htrail c (by simp)])]
      have hkeeps : trail.dropWhile (!isBlank ·) = trail := by
        cases trail with
        | nil => rfl
        | cons c cs => rw [List.dropWhile_cons_of_neg (by simp [htrail c (by simp)])]
      rw [authToken, List.takeWhile_append_of_pos hsolid', List.dropWhile_append_of_pos hsolid',
        hends, hkeeps, List.append_nil, List.dropWhile_eq_nil_iff.mpr htrail]
  · rintro ⟨hscheme, hsep, htoken, hne⟩
    obtain ⟨hspan, hend⟩ := Prod.mk.inj htoken
    refine ⟨hne, fun c hc => ?_, header.takeWhile isBlank,
      (header.dropWhile isBlank).take scheme.length,
      ((header.dropWhile isBlank).drop scheme.length).takeWhile isBlank,
      (((header.dropWhile isBlank).drop scheme.length).dropWhile isBlank).dropWhile (!isBlank ·),
      ?_, hscheme, ?_, ?_⟩
    · rw [← hspan] at hc
      simpa using List.mem_takeWhile_imp hc
    · rw [← hspan, List.takeWhile_append_dropWhile, List.takeWhile_append_dropWhile,
        List.take_append_drop, List.takeWhile_append_dropWhile]
    · intro hnil
      cases hrest : (header.dropWhile isBlank).drop scheme.length with
      | nil =>
          rw [hrest] at hsep
          cases hsep
      | cons g gs =>
          rw [hrest] at hsep hnil
          rw [List.headD_cons] at hsep
          rw [List.takeWhile_cons_of_pos hsep] at hnil
          cases hnil
    · intro c hc
      simp only [List.mem_append] at hc
      rcases hc with hc | hc | hc
      · exact List.mem_takeWhile_imp hc
      · exact List.mem_takeWhile_imp hc
      · exact List.dropWhile_eq_nil_iff.mp hend c hc

end

/-! ## What the readers accept -/

variable {token : Bytes} {header : Option Bytes}

theorem AuthScheme.length_lt {scheme text : Bytes} (h : AuthScheme scheme text token) :
    token.length < text.length := by
  obtain ⟨lead, name, gap, trail, rfl, -, hgap, -⟩ := h.spelled
  have hpos := List.length_pos_iff.mpr hgap
  simp only [List.length_append]
  omega

/-- The bearer token of a header. -/
theorem oidcBearerToken_ok_iff : oidcBearerToken header = .ok token ↔
    ∃ text, header = some text ∧ AuthScheme (ascii "Bearer") (cstr text) token := by
  cases header with
  | none => exact ⟨(fun h => by cases h), fun h => by obtain ⟨_, h, -⟩ := h; cases h⟩
  | some text =>
      have hiff := @authScheme_iff (ascii "Bearer") (cstr text) token 0x42 (ascii "earer") rfl rfl
      have hexists : (∃ text', some text = some text' ∧
          AuthScheme (ascii "Bearer") (cstr text') token) ↔
          AuthScheme (ascii "Bearer") (cstr text) token := by simp
      rw [hexists, hiff, oidcBearerToken]
      dsimp only
      generalize (cstr text).dropWhile isBlank = p
      have hsix : (ascii "Bearer").length = 6 := rfl
      rw [hsix]
      have hhead : p.getD 6 0 = (p.drop 6).headD 0 := by
        rw [List.getD_eq_getElem?_getD, List.headD_eq_head?_getD, List.head?_drop]
      have hskip (hblank : isBlank ((p.drop 6).headD 0) = true) :
          (p.drop 7).dropWhile isBlank = (p.drop 6).dropWhile isBlank := by
        cases hrest : p.drop 6 with
        | nil =>
            rw [hrest] at hblank
            cases hblank
        | cons c cs =>
            rw [hrest, List.headD_cons] at hblank
            rw [List.dropWhile_cons_of_pos hblank, ← List.drop_drop (i := 1) (j := 6), hrest]
            rfl
      constructor
      · intro h
        split_ifs at h with hempty hshort hnone htrail
        simp only [not_or, Bool.not_eq_false] at hshort
        rw [hhead] at hshort
        cases h
        rw [hskip hshort.2.2] at hnone htrail ⊢
        exact ⟨hshort.2.1, hshort.2.2, Prod.ext rfl (not_not.mp htrail), hnone⟩
      · rintro ⟨hscheme, hblank, htoken, hne⟩
        have hlong : 7 ≤ p.length := by
          by_contra hshort
          rw [List.drop_eq_nil_of_le (by omega)] at hblank
          cases hblank
        rw [if_neg (by rintro rfl; cases hlong), hhead, hscheme, hblank, hskip hblank, htoken,
          if_neg (by simp [hlong]), if_neg hne, if_neg (not_not.mpr rfl)]

/-- The token behind a scheme. -/
theorem m2mSchemeToken_ok_iff {scheme : Bytes} {messages : SchemeMessages} {ch : Byte}
    {rest : Bytes} (hscheme : scheme = ch :: rest) (hch : isBlank ch = false) :
    m2mSchemeToken scheme messages header = .ok token ↔
      ∃ text, header = some text ∧ AuthScheme scheme (cstr text) token := by
  cases header with
  | none => exact ⟨(fun h => by cases h), fun h => by obtain ⟨_, h, -⟩ := h; cases h⟩
  | some text =>
      have hexists : (∃ text', some text = some text' ∧ AuthScheme scheme (cstr text') token) ↔
          AuthScheme scheme (cstr text) token := by simp
      rw [hexists, authScheme_iff hscheme hch, m2mSchemeToken]
      dsimp only
      constructor
      · intro h
        split_ifs at h with hscheme hblank hspan
        cases h
        rw [not_or, not_not] at hspan
        exact ⟨Bool.eq_true_of_not_eq_false hscheme, Bool.eq_true_of_not_eq_false hblank,
          Prod.ext rfl hspan.2, hspan.1⟩
      · rintro ⟨hscheme, hblank, htoken, hne⟩
        rw [hscheme, hblank, htoken, if_neg Bool.noConfusion, if_neg Bool.noConfusion,
          if_neg (by simp [hne])]

/-- The bearer reader of the credentials of machines takes the same tokens as the other one. -/
theorem m2mExtractBearer_ok_iff {alloc : ℕ → Bool} (hgrants : ∀ n, alloc n = true) :
    m2mExtractBearer alloc header = .ok token ↔
      ∃ text, header = some text ∧ AuthScheme (ascii "Bearer") (cstr text) token := by
  rw [← @m2mSchemeToken_ok_iff token header (ascii "Bearer") {
    scheme := "Authorization scheme is not Bearer"
    separator := "Bearer token separator is required"
    malformed := "Bearer token is malformed" } 0x42 (ascii "earer") rfl rfl]
  unfold m2mExtractBearer
  cases m2mSchemeToken (ascii "Bearer") _ header with
  | error e => exact Iff.rfl
  | ok token' =>
      change (if alloc (token'.length + 1) = false then _ else Except.ok token') = _ ↔ _
      rw [hgrants, if_neg Bool.noConfusion]

/-- The scheme of basic credentials, with a name and a secret. -/
structure BasicHeader (header id secret : Bytes) : Prop where
  id_nonempty : id ≠ []
  secret_nonempty : secret ≠ []
  colon : 0x3a ∉ id
  decodes : ∃ encoded decoded, AuthScheme (ascii "Basic") header encoded ∧
    Base64Reads .standard encoded decoded ∧ cstr decoded = id ++ 0x3a :: secret

theorem m2mSplitBasic_ok_iff {alloc : ℕ → Bool} (hgrants : ∀ n, alloc n = true)
    {decoded id secret : Bytes} : m2mSplitBasic alloc decoded = .ok (id, secret) ↔
      id ≠ [] ∧ secret ≠ [] ∧ 0x3a ∉ id ∧ cstr decoded = id ++ 0x3a :: secret := by
  unfold m2mSplitBasic
  dsimp only
  rw [hgrants, hgrants]
  generalize cstr decoded = text
  constructor
  · intro h
    split_ifs at h with hempty
    rw [not_or] at hempty
    cases h
    refine ⟨hempty.1, hempty.2, fun hmem => ?_, ?_⟩
    · have := List.mem_takeWhile_imp hmem
      cases this
    · have hsplit := List.takeWhile_append_dropWhile (p := (· != 0x3a)) (l := text)
      cases hrest : text.dropWhile (· != 0x3a) with
      | nil =>
          rw [hrest] at hempty
          exact absurd rfl hempty.2
      | cons c cs =>
          have hcolon : c = 0x3a := by
            have := List.head?_dropWhile_not (· != 0x3a) text
            rw [hrest] at this
            simpa using this
          rw [hrest, hcolon] at hsplit
          rw [List.drop_one, List.tail_cons]
          exact hsplit.symm
  · rintro ⟨hid, hsecret, hcolon, rfl⟩
    have hbefore : ∀ c ∈ id, (c != 0x3a) = true := fun c hc => by
      simpa using ne_of_mem_of_not_mem hc hcolon
    rw [List.takeWhile_append_of_pos hbefore, List.dropWhile_append_of_pos hbefore,
      List.takeWhile_cons_of_neg (by decide), List.dropWhile_cons_of_neg (by decide),
      List.append_nil, List.drop_one, List.tail_cons, if_neg (by simp [hid, hsecret])]
    rfl

/-- The name and the secret of a header. -/
theorem m2mBasicDecode_ok_iff {alloc : ℕ → Bool} (hgrants : ∀ n, alloc n = true)
    (hsize : ∀ text, header = some text → text.length ≤ sizeMax) {id secret : Bytes} :
    m2mBasicDecode alloc header = .ok (id, secret) ↔
      ∃ text, header = some text ∧ BasicHeader (cstr text) id secret := by
  have htoken (encoded : Bytes) := @m2mSchemeToken_ok_iff encoded header (ascii "Basic") {
    scheme := "Authorization scheme is not Basic"
    separator := "Basic credential separator is required"
    malformed := "Basic credentials are malformed" } 0x42 (ascii "asic") rfl rfl
  unfold m2mBasicDecode
  constructor
  · intro h
    obtain ⟨encoded, hencoded, h⟩ := Json.bind_eq_ok h
    obtain ⟨text, htext, hscheme⟩ := (htoken encoded).mp hencoded
    cases hlen : base64DecodedLen encoded .standard with
    | error failure =>
        rw [hlen] at h
        cases h
    | ok cap =>
        rw [hlen] at h
        dsimp only at h
        split_ifs at h
        cases hdecode : (base64Decode encoded .standard cap).out with
        | error failure =>
            rw [hdecode] at h
            cases h
        | ok decoded =>
            rw [hdecode] at h
            obtain ⟨hid, hsecret, hcolon, hsplit⟩ := (m2mSplitBasic_ok_iff hgrants).mp h
            exact ⟨text, htext, hid, hsecret, hcolon, encoded, decoded, hscheme,
              base64Reads_of_decode hdecode, hsplit⟩
  · rintro ⟨text, htext, hid, hsecret, hcolon, encoded, decoded, hscheme, hreads, hsplit⟩
    have hshort : decoded.length ≠ sizeMax := by
      have hlt := hscheme.length_lt
      have hcstr : (cstr text).length ≤ text.length := (List.takeWhile_sublist _).length_le
      have hle := hreads.length_le
      have hmax := hsize text htext
      omega
    rw [(htoken encoded).mpr ⟨text, htext, hscheme⟩]
    dsimp only [bind, Except.bind]
    rw [base64DecodedLen, hreads.accepted.1]
    dsimp only
    rw [if_neg hshort, hgrants, if_neg Bool.noConfusion, hreads.decode_call le_rfl]
    exact (m2mSplitBasic_ok_iff hgrants).mpr ⟨hid, hsecret, hcolon, hsplit⟩

end Lonejson
