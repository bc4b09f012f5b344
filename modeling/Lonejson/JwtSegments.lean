import Lonejson.Jwt
import Lonejson.Related

/-!
# The segments of a compact token

`lonejson_jwt_parse_compact` accepts what falls into three texts of base64url at its dots, the
first two of them not empty; both are then decoded.
-/

namespace Lonejson

open Json (bind_eq_ok map_eq_ok)

variable {alloc : ℕ → Bool} {limits : JwtLimits} {token header payload signature : Bytes}

/-- A text of base64url has no dot. -/
theorem Base64Reads.no_dot {text out : Bytes} (h : Base64Reads .urlRaw text out) :
    (0x2e : Byte) ∉ text := by
  have hdot {i : ℕ} (h : Stands .urlRaw 0x2e i) : False := by
    revert h
    rw [Stands]
    have hnone : base64ValueForVariant 0x2e .urlRaw = none := by decide
    rw [hnone]
    exact fun h => by cases h
  induction h with
  | nil => simp
  | quartet ha hb hc hd hrest ih =>
      simp only [List.mem_cons, not_or]
      exact ⟨fun h => hdot (h ▸ ha), fun h => hdot (h ▸ hb), fun h => hdot (h ▸ hc),
        fun h => hdot (h ▸ hd), ih⟩
  | paddedTwo hraw => cases hraw
  | paddedOne hraw => cases hraw
  | rawTwo hraw ha hb hc =>
      simp only [List.mem_cons, not_or]
      exact ⟨fun h => hdot (h ▸ ha), fun h => hdot (h ▸ hb), fun h => hdot (h ▸ hc), by simp⟩
  | rawOne hraw ha hb =>
      simp only [List.mem_cons, not_or]
      exact ⟨fun h => hdot (h ▸ ha), fun h => hdot (h ▸ hb), by simp⟩

theorem Base64Reads.length_le {variant : Base64Variant} {text out : Bytes}
    (h : Base64Reads variant text out) : out.length ≤ text.length := by
  induction h with
  | nil => exact le_rfl
  | quartet ha hb hc hd hrest ih =>
      simp only [List.length_append, List.length_cons, groupBytes, List.length_nil]
      omega
  | paddedTwo | paddedOne | rawTwo | rawOne => simp [groupBytes]

/-- The check of a text accepts what is read as some bytes. -/
theorem base64DecodedLen_iff {variant : Base64Variant} {text : Bytes} :
    (∃ n, base64DecodedLen text variant = .ok n) ↔ ∃ out, Base64Reads variant text out := by
  constructor
  · rintro ⟨n, h⟩
    rw [base64DecodedLen, base64Check] at h
    cases hloop : base64CheckLoop variant 0 {} text with
    | error failure =>
        rw [hloop] at h
        cases h
    | ok s =>
        rw [hloop] at h
        exact base64Reads_of_check hloop h
  · rintro ⟨out, h⟩
    exact ⟨out.length, h.accepted.1⟩

/-! ## Dots -/

theorem jwtFindDots_none {i : ℕ} {first second : Option ℕ} (h : 0x2e ∉ token) :
    jwtFindDots i first second token = .ok (first, second) := by
  induction token generalizing i with
  | nil => rfl
  | cons ch rest ih =>
      simp only [List.mem_cons, not_or] at h
      rw [jwtFindDots, if_neg (fun heq => h.1 heq.symm)]
      exact ih h.2

theorem jwtFindDots_append {i : ℕ} {first second : Option ℕ} {rest : Bytes} (h : 0x2e ∉ token) :
    jwtFindDots i first second (token ++ rest) =
      jwtFindDots (i + token.length) first second rest := by
  induction token generalizing i with
  | nil => rfl
  | cons ch token ih =>
      simp only [List.mem_cons, not_or] at h
      rw [List.cons_append, jwtFindDots, if_neg (fun heq => h.1 heq.symm), ih h.2,
        List.length_cons]
      congr 1
      omega

/-- A text has no dot, or a first one. -/
theorem dot_cases (token : Bytes) :
    0x2e ∉ token ∨ ∃ before after, token = before ++ 0x2e :: after ∧ 0x2e ∉ before := by
  by_cases h : 0x2e ∈ token
  · obtain ⟨before, after, heq, hnot⟩ := List.eq_append_cons_of_mem h
    exact .inr ⟨before, after, heq, hnot⟩
  · exact .inl h

theorem jwtFindDots_two (hheader : 0x2e ∉ header) (hpayload : 0x2e ∉ payload)
    (hsignature : 0x2e ∉ signature) :
    jwtFindDots 0 none none (header ++ 0x2e :: (payload ++ 0x2e :: signature)) =
      .ok (some header.length, some (header.length + 1 + payload.length)) := by
  rw [jwtFindDots_append hheader, jwtFindDots, if_pos rfl,
    if_pos Option.isNone_none, jwtFindDots_append hpayload, jwtFindDots, if_pos rfl,
    if_neg (by simp), if_pos Option.isNone_none, jwtFindDots_none hsignature]
  simp

/-- What is found with two dots falls into three segments. -/
theorem jwtFindDots_ok {first second : ℕ}
    (h : jwtFindDots 0 none none token = .ok (some first, some second)) :
    ∃ header payload signature, token = header ++ 0x2e :: (payload ++ 0x2e :: signature) ∧
      0x2e ∉ header ∧ 0x2e ∉ payload ∧ first = header.length ∧
        second = header.length + 1 + payload.length := by
  rcases dot_cases token with hnone | ⟨header, rest, rfl, hheader⟩
  · rw [jwtFindDots_none hnone] at h
    cases h
  rw [jwtFindDots_append hheader, jwtFindDots, if_pos rfl, if_pos Option.isNone_none] at h
  rcases dot_cases rest with hnone | ⟨payload, signature, rfl, hpayload⟩
  · rw [jwtFindDots_none hnone] at h
    cases h
  rw [jwtFindDots_append hpayload, jwtFindDots, if_pos rfl, if_neg (by simp),
    if_pos Option.isNone_none] at h
  refine ⟨header, payload, signature, rfl, hheader, hpayload, ?_⟩
  rcases dot_cases signature with hnone | ⟨before, after, rfl, hbefore⟩
  · rw [jwtFindDots_none hnone] at h
    cases h
    simp
  · rw [jwtFindDots_append hbefore, jwtFindDots, if_pos rfl, if_neg (by simp),
      if_neg (by simp)] at h
    cases h

/-! ## Segments -/

/-- A token has three segments of base64url, and the bytes that the first two stand for. -/
def JwtSegments (token headerJson claimsJson : Bytes) : Prop :=
  ∃ header payload signature, token = header ++ 0x2e :: (payload ++ 0x2e :: signature) ∧
    Base64Reads .urlRaw header headerJson ∧ Base64Reads .urlRaw payload claimsJson ∧
    ∃ out, Base64Reads .urlRaw signature out

theorem jwtSlice_middle (before middle after : Bytes) :
    jwtSlice (before ++ middle ++ after) before.length (before.length + middle.length) =
      middle := by
  simp [jwtSlice]

section

variable (htoken : token = header ++ 0x2e :: (payload ++ 0x2e :: signature))
include htoken

theorem jwtSlice_header : jwtSlice token 0 header.length = header := by
  simp [jwtSlice, htoken]

theorem jwtSlice_payload :
    jwtSlice token (header.length + 1) (header.length + 1 + payload.length) = payload := by
  have h := jwtSlice_middle (header ++ [0x2e]) payload (0x2e :: signature)
  rw [List.length_append, List.length_singleton] at h
  have hsplit : token = (header ++ [0x2e]) ++ payload ++ (0x2e :: signature) := by simp [htoken]
  rw [hsplit]
  exact h

theorem jwtSlice_signature :
    jwtSlice token (header.length + 1 + payload.length + 1) token.length = signature := by
  have h := jwtSlice_middle (header ++ 0x2e :: (payload ++ [0x2e])) signature []
  have hlength : (header ++ 0x2e :: (payload ++ [0x2e])).length =
      header.length + 1 + payload.length + 1 := by
    simp only [List.length_append, List.length_cons, List.length_nil]
    omega
  have htotal : token.length = header.length + 1 + payload.length + 1 + signature.length := by
    rw [htoken]
    simp only [List.length_append, List.length_cons]
    omega
  have hsplit : token = (header ++ 0x2e :: (payload ++ [0x2e])) ++ signature ++ [] := by
    simp [htoken]
  rw [hlength] at h
  rw [htotal, hsplit]
  exact h

end

theorem jwtCheckSegment_ok {start stop : ℕ} {allowEmpty : Bool} (hle : start ≤ stop)
    (hempty : allowEmpty = true ∨ start < stop)
    (h : ∃ out, Base64Reads .urlRaw (jwtSlice token start stop) out) :
    jwtCheckSegment token start stop allowEmpty = .ok () := by
  obtain ⟨n, hn⟩ := base64DecodedLen_iff.mpr h
  rw [jwtCheckSegment, if_neg (by omega), if_neg, hn]
  rintro ⟨hnot, heq⟩
  rcases hempty with rfl | hlt
  · cases hnot
  · omega

theorem jwtCheckSegment_reads {start stop : ℕ} {allowEmpty : Bool}
    (h : jwtCheckSegment token start stop allowEmpty = .ok ()) :
    ∃ out, Base64Reads .urlRaw (jwtSlice token start stop) out := by
  rw [jwtCheckSegment] at h
  split at h
  · cases h
  split at h
  · cases h
  split at h
  · next n hn => exact base64DecodedLen_iff.mp ⟨n, hn⟩
  · cases h

theorem jwtParseCompact_ok {compact : JwtCompact} (h : jwtParseCompact (some token) = .ok compact) :
    ∃ signature, token = compact.header ++ 0x2e :: (compact.payload ++ 0x2e :: signature) ∧
      ∃ out, Base64Reads .urlRaw signature out := by
  obtain ⟨dots, hdots, h⟩ := bind_eq_ok h
  split at h
  · next first second =>
      obtain ⟨header, payload, signature, htoken, -, -, rfl, rfl⟩ := jwtFindDots_ok hdots
      obtain ⟨_, -, h⟩ := bind_eq_ok h
      obtain ⟨_, -, h⟩ := bind_eq_ok h
      obtain ⟨_, hlast, h⟩ := bind_eq_ok h
      cases h
      have hreads := jwtCheckSegment_reads hlast
      rw [jwtSlice_signature htoken] at hreads
      rw [jwtSlice_header htoken, jwtSlice_payload htoken]
      exact ⟨signature, htoken, hreads⟩
  · cases h

theorem jwtParseCompact_segments (htoken : token = header ++ 0x2e :: (payload ++ 0x2e :: signature))
    (hheader : ∃ out, Base64Reads .urlRaw header out)
    (hpayload : ∃ out, Base64Reads .urlRaw payload out)
    (hsignature : ∃ out, Base64Reads .urlRaw signature out) (hfirst : header ≠ [])
    (hsecond : payload ≠ []) :
    ∃ compact, jwtParseCompact (some token) = .ok compact ∧ compact.header = header ∧
      compact.payload = payload := by
  obtain ⟨_, hheader'⟩ := hheader
  obtain ⟨_, hpayload'⟩ := hpayload
  obtain ⟨_, hsignature'⟩ := hsignature
  have hdots : jwtFindDots 0 none none token =
      .ok (some header.length, some (header.length + 1 + payload.length)) := by
    rw [htoken]
    exact jwtFindDots_two hheader'.no_dot hpayload'.no_dot hsignature'.no_dot
  have hlength : header.length + 1 + payload.length + 1 ≤ token.length := by
    rw [htoken]
    simp only [List.length_append, List.length_cons]
    omega
  have hpos := List.length_pos_iff.mpr hfirst
  have hpos' := List.length_pos_iff.mpr hsecond
  have hone := @jwtCheckSegment_ok _ _ _ false (Nat.zero_le _)
    (.inr hpos) ⟨_, (jwtSlice_header htoken).symm ▸ hheader'⟩
  have htwo := @jwtCheckSegment_ok _ _ _ false (by omega)
    (.inr (by omega)) ⟨_, (jwtSlice_payload htoken).symm ▸ hpayload'⟩
  have hthree := jwtCheckSegment_ok
    hlength (.inl rfl) ⟨_, (jwtSlice_signature htoken).symm ▸ hsignature'⟩
  refine ⟨{
    header := jwtSlice token 0 header.length
    payload := jwtSlice token (header.length + 1) (header.length + 1 + payload.length)
    signature := jwtSlice token (header.length + 1 + payload.length + 1) token.length
    signingInput := jwtSlice token 0 (header.length + 1 + payload.length) },
    ?_, jwtSlice_header htoken, jwtSlice_payload htoken⟩
  change (jwtFindDots 0 none none token).bind _ = _
  rw [hdots]
  change (jwtCheckSegment token 0 header.length false).bind _ = _
  rw [hone]
  change (jwtCheckSegment token (header.length + 1) _ false).bind _ = _
  rw [htwo]
  change (jwtCheckSegment token (header.length + 1 + payload.length + 1) _ true).bind _ = _
  rw [hthree]
  rfl

theorem jwtSegmentLen_eq {segment out : Bytes} (h : Base64Reads .urlRaw segment out) :
    jwtSegmentLen segment = .ok out.length := by
  have hlen : base64DecodedLen segment .urlRaw = .ok out.length := h.accepted.1
  rw [jwtSegmentLen, hlen]
  rfl

theorem jwtSegmentBytes_eq {segment out : Bytes} (h : Base64Reads .urlRaw segment out) :
    jwtSegmentBytes segment out.length = .ok out := by
  rw [jwtSegmentBytes, h.decode_call le_rfl]
  rfl

theorem jwtSegmentBytes_ok {segment out : Bytes} {len : ℕ}
    (h : jwtSegmentBytes segment len = .ok out) : Base64Reads .urlRaw segment out := by
  rw [jwtSegmentBytes] at h
  cases hout : (base64Decode segment .urlRaw len).out with
  | error failure =>
      rw [hout] at h
      cases h
  | ok bytes =>
      rw [hout] at h
      obtain rfl : bytes = out := Except.ok.inj h
      exact base64Reads_of_decode hout

/-- What is decoded has three segments, and is within the limits. -/
theorem jwtDecodeSegments_ok {headerJson claimsJson : Bytes}
    (h : jwtDecodeSegments alloc limits (some token) = .ok (headerJson, claimsJson)) :
    JwtSegments token headerJson claimsJson ∧ headerJson.length ≤ limits.headerLimit ∧
      claimsJson.length ≤ limits.claimsLimit := by
  obtain ⟨compact, hcompact, h⟩ := bind_eq_ok h
  obtain ⟨headerLen, hheaderLen, h⟩ := bind_eq_ok h
  obtain ⟨claimsLen, hclaimsLen, h⟩ := bind_eq_ok h
  split at h
  · cases h
  next hlimits =>
  split at h
  · cases h
  obtain ⟨headerJson', hheader, h⟩ := bind_eq_ok h
  obtain ⟨claimsJson', hclaims, h⟩ := bind_eq_ok h
  cases h
  obtain ⟨signature, htoken, hsignature⟩ := jwtParseCompact_ok hcompact
  have hreads := jwtSegmentBytes_ok hheader
  have hreads' := jwtSegmentBytes_ok hclaims
  obtain rfl : headerJson.length = headerLen :=
    Except.ok.inj ((jwtSegmentLen_eq hreads).symm.trans hheaderLen)
  obtain rfl : claimsJson.length = claimsLen :=
    Except.ok.inj ((jwtSegmentLen_eq hreads').symm.trans hclaimsLen)
  exact ⟨⟨_, _, signature, htoken, hreads, hreads', hsignature⟩, by omega, by omega⟩

theorem jwtDecodeSegments_of (hgrants : ∀ n, alloc n = true) {headerJson claimsJson : Bytes}
    (h : JwtSegments token headerJson claimsJson) (hheader : headerJson ≠ [])
    (hclaims : claimsJson ≠ []) (hlimit : headerJson.length ≤ limits.headerLimit)
    (hlimit' : claimsJson.length ≤ limits.claimsLimit) :
    jwtDecodeSegments alloc limits (some token) = .ok (headerJson, claimsJson) := by
  obtain ⟨header, payload, signature, htoken, hreads, hreads', hsignature⟩ := h
  have hfirst : header ≠ [] := by
    rintro rfl
    cases hreads
    exact hheader rfl
  have hsecond : payload ≠ [] := by
    rintro rfl
    cases hreads'
    exact hclaims rfl
  obtain ⟨compact, hcompact, hheader', hpayload'⟩ := jwtParseCompact_segments htoken ⟨_, hreads⟩
    ⟨_, hreads'⟩ hsignature hfirst hsecond
  change (jwtParseCompact (some token)).bind _ = _
  rw [hcompact]
  change (jwtSegmentLen compact.header).bind _ = _
  rw [hheader', jwtSegmentLen_eq hreads]
  change (jwtSegmentLen compact.payload).bind _ = _
  rw [hpayload', jwtSegmentLen_eq hreads']
  change (if headerJson.length > limits.headerLimit ∨ claimsJson.length > limits.claimsLimit then _
    else if !(alloc (headerJson.length + 1) && alloc (claimsJson.length + 1)) then _ else _) = _
  rw [if_neg (by omega), hgrants, hgrants, if_neg (by simp)]
  change (jwtSegmentBytes header headerJson.length).bind _ = _
  rw [jwtSegmentBytes_eq hreads]
  change (jwtSegmentBytes payload claimsJson.length).bind _ = _
  rw [jwtSegmentBytes_eq hreads']
  rfl

/-- A token has one pair of texts. -/
theorem JwtSegments.unique {headerJson claimsJson headerJson' claimsJson' : Bytes}
    (h : JwtSegments token headerJson claimsJson) (h' : JwtSegments token headerJson' claimsJson')
    (hheader : headerJson ≠ []) (hclaims : claimsJson ≠ []) (hheader' : headerJson' ≠ [])
    (hclaims' : claimsJson' ≠ []) : headerJson = headerJson' ∧ claimsJson = claimsJson' := by
  obtain ⟨limits, hlimits⟩ : ∃ limits : JwtLimits, limits = {
      maxDecodedHeaderBytes := headerJson.length + headerJson'.length + 1
      maxDecodedClaimsBytes := claimsJson.length + claimsJson'.length + 1 } := ⟨_, rfl⟩
  have hheaderLimit : limits.headerLimit = headerJson.length + headerJson'.length + 1 := by
    rw [JwtLimits.headerLimit, jwtLimitOrDefault, hlimits, if_neg (Nat.succ_ne_zero _)]
  have hclaimsLimit : limits.claimsLimit = claimsJson.length + claimsJson'.length + 1 := by
    rw [JwtLimits.claimsLimit, jwtLimitOrDefault, hlimits, if_neg (Nat.succ_ne_zero _)]
  have hone := @jwtDecodeSegments_of _ limits _ (fun _ => rfl) _ _ h
    hheader hclaims (by omega) (by omega)
  have htwo := @jwtDecodeSegments_of _ limits _ (fun _ => rfl) _ _ h'
    hheader' hclaims' (by omega) (by omega)
  rw [hone] at htwo
  cases htwo
  exact ⟨rfl, rfl⟩

theorem JwtSegments.length_le {headerJson claimsJson : Bytes}
    (h : JwtSegments token headerJson claimsJson) :
    headerJson.length ≤ token.length ∧ claimsJson.length ≤ token.length := by
  obtain ⟨header, payload, signature, rfl, hreads, hreads', -⟩ := h
  have hheader := hreads.length_le
  have hclaims := hreads'.length_le
  simp only [List.length_append, List.length_cons]
  omega

end Lonejson
