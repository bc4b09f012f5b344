import Lonejson.Jwt
import Lonejson.Related

/-!
# The claim policy

`lonejson_jwt_validate_claims` holds the header and the claims of a token against what the caller
accepts. Strings are compared as C strings, dates as signed numbers of 64 bits.
-/

namespace Lonejson

/-! ## The checks -/

/-- An array of C strings with its count. A pointer that is `NULL` may still come with a count. -/
inductive JwtNames where
  | null (count : ℕ)
  | items (list : List (Option Bytes))

def JwtNames.count : JwtNames → ℕ
  | null count => count
  | items list => list.length

/-- The pointer is `NULL`. -/
def JwtNames.isNull : JwtNames → Bool
  | null _ => true
  | items _ => false

def JwtNames.list : JwtNames → List (Option Bytes)
  | null _ => []
  | items list => list

/-- `lonejson_jwt_claim_policy`. -/
structure JwtClaimPolicy extends JwtLimits where
  acceptedAlgs : JwtNames := .null 0
  acceptedIssuers : JwtNames := .null 0
  acceptedAudiences : JwtNames := .null 0
  expectedNonce : Option Bytes := none
  expectedAzp : Option Bytes := none
  acceptedCrit : JwtNames := .null 0
  requiredScopes : JwtNames := .null 0
  requireAzpWhenMultipleAudiences : Bool := false
  requireAllAudiencesAccepted : Bool := false
  requiredClaims : JwtNames := .null 0
  now : Int64 := 0
  allowedClockSkew : Int64 := 0

/-- `strcmp(a, b) == 0`. -/
def streq (a b : Bytes) : Bool := cstr a == cstr b

/-- `lonejson__jwt_string_in_list`. -/
def jwtStringInList (value : Option Bytes) (items : JwtNames) : Bool :=
  value.any fun value => items.list.any fun item => item.any (streq value)

/-- `lonejson__jwt_claim_has_audience`. -/
def jwtClaimHasAudience (claims : JwtClaims) (audience : Bytes) : Bool :=
  claims.aud.any (streq · audience) || claims.audArray.items.any (streq · audience)

/-- `lonejson__jwt_claim_audience_count`. -/
def jwtClaimAudienceCount (claims : JwtClaims) : ℕ :=
  if claims.audArray.items.length ≠ 0 then claims.audArray.items.length
  else if claims.aud.isNone then 0 else 1

/-- `lonejson__jwt_any_audience_accepted`. -/
def jwtAnyAudienceAccepted (claims : JwtClaims) (policy : JwtClaimPolicy) : Bool :=
  policy.acceptedAudiences.list.any fun item => item.any (jwtClaimHasAudience claims)

/-- `lonejson__jwt_all_audiences_accepted`. -/
def jwtAllAudiencesAccepted (claims : JwtClaims) (policy : JwtClaimPolicy) : Bool :=
  if claims.aud.isSome && !jwtStringInList claims.aud policy.acceptedAudiences then false
  else if claims.audArray.items.any fun item =>
      !jwtStringInList (some item) policy.acceptedAudiences then false
  else jwtClaimAudienceCount claims != 0

/-- `lonejson__jwt_numeric_date_at_least_delta`. -/
def jwtNumericDateAtLeastDelta (later earlier delta : Int64) : Bool :=
  if later < earlier ∨ delta < 0 then false
  else if earlier < 0 ∧ later > Int64.maxValue + earlier then true
  else if earlier > 0 ∧ later < Int64.minValue + earlier then false
  else later - earlier ≥ delta

/-- The loop of `lonejson__jwt_scope_list_has`. -/
def jwtScopeLoop (required : Bytes) : ℕ → Bytes → Bool
  | 0, _ => false
  | _ + 1, [] => false
  | n + 1, cursor =>
    let cursor := cursor.dropWhile (· == 0x20)
    if cursor.takeWhile (· != 0x20) = required then true
    else jwtScopeLoop required n (cursor.dropWhile (· != 0x20))

/-- `lonejson__jwt_scope_list_has`. -/
def jwtScopeListHas (scopeList : Option Bytes) (required : Bytes) : Bool :=
  match scopeList with
  | none => false
  | some scopeList =>
    cstr required != [] && jwtScopeLoop (cstr required) (cstr scopeList).length (cstr scopeList)

/-- `lonejson__jwt_claim_has_scope`. -/
def jwtClaimHasScope (claims : JwtClaims) (required : Bytes) : Bool :=
  jwtScopeListHas claims.scope required ||
    claims.scp.items.any fun item => streq item required || jwtScopeListHas (some item) required

/-- `lonejson__jwt_has_required_claim`. -/
def jwtHasRequiredClaim (claims : JwtClaims) (name : Bytes) : Bool :=
  if streq name (ascii "iss") then claims.iss.isSome
  else if streq name (ascii "sub") then claims.sub.isSome
  else if streq name (ascii "nonce") then claims.nonce.isSome
  else if streq name (ascii "azp") then claims.azp.isSome
  else if streq name (ascii "scope") then claims.scope.isSome
  else if streq name (ascii "scp") then claims.scp.items.length != 0
  else if streq name (ascii "aud") then claims.aud.isSome || claims.audArray.items.length != 0
  else if streq name (ascii "exp") then claims.hasExp
  else if streq name (ascii "nbf") then claims.hasNbf
  else if streq name (ascii "iat") then claims.hasIat
  else false

/-- One check: a failure with a message unless it passes. -/
def jwtRequire (passes : Bool) (code : Status) (message : String) : Except Failure Unit :=
  if passes then .ok () else .error { code, message }

/-- The policy says what it has to. -/
def JwtClaimPolicy.isComplete (policy : JwtClaimPolicy) : Bool :=
  !(policy.acceptedAlgs.isNull || policy.acceptedAlgs.count == 0 ||
    policy.acceptedIssuers.isNull || policy.acceptedIssuers.count == 0 ||
    policy.acceptedAudiences.isNull || policy.acceptedAudiences.count == 0 ||
    decide (policy.now < 0) || decide (policy.allowedClockSkew < 0) ||
    (policy.acceptedCrit.count != 0 && policy.acceptedCrit.isNull) ||
    (policy.requiredScopes.count != 0 && policy.requiredScopes.isNull))

/-- The date is ahead of the clock by more than the skew. -/
def JwtClaimPolicy.ahead (policy : JwtClaimPolicy) (date : Int64) : Bool :=
  decide (policy.now < date) && decide (date - policy.now > policy.allowedClockSkew)

/-- The checks of the parties: who signed, who issued, and for whom. -/
def jwtValidateParties (header : JwtHeader) (claims : JwtClaims) (policy : JwtClaimPolicy) :
    Except Failure Unit := do
  jwtRequire (header.alg.any fun alg =>
      !streq alg (ascii "none") && jwtStringInList (some alg) policy.acceptedAlgs)
    .typeMismatch "JWT algorithm is not accepted"
  jwtRequire (jwtStringInList claims.iss policy.acceptedIssuers)
    .typeMismatch "JWT issuer is not accepted"
  jwtRequire (jwtAnyAudienceAccepted claims policy) .typeMismatch "JWT audience is not accepted"
  jwtRequire (!policy.requireAllAudiencesAccepted || jwtAllAudiencesAccepted claims policy)
    .typeMismatch "JWT audience is not accepted"
  jwtRequire (policy.expectedNonce.all fun nonce => claims.nonce.any (streq · nonce))
    .typeMismatch "JWT nonce is not accepted"
  jwtRequire (policy.expectedAzp.all fun azp => claims.azp.any (streq · azp))
    .typeMismatch "JWT authorized party is not accepted"
  jwtRequire (!(policy.requireAzpWhenMultipleAudiences && decide (jwtClaimAudienceCount claims > 1))
      || claims.azp.any fun azp => cstr azp != [])
    .typeMismatch "JWT authorized party is required"

/-- The checks of what the token has to say, and of its dates. -/
def jwtValidateContents (header : JwtHeader) (claims : JwtClaims) (policy : JwtClaimPolicy) :
    Except Failure Unit := do
  jwtRequire (header.crit.items.all fun item =>
      cstr item != [] && jwtStringInList (some item) policy.acceptedCrit)
    .typeMismatch "JWT critical header parameter is unsupported"
  jwtRequire (policy.requiredScopes.list.all fun item => item.any (jwtClaimHasScope claims))
    .missingRequiredField "JWT required scope is missing"
  jwtRequire (!(policy.requiredClaims.isNull && policy.requiredClaims.count != 0) &&
      policy.requiredClaims.list.all fun item => item.any (jwtHasRequiredClaim claims))
    .missingRequiredField "JWT required claim is missing"
  jwtRequire (!(claims.hasExp &&
      jwtNumericDateAtLeastDelta policy.now claims.exp policy.allowedClockSkew))
    .typeMismatch "JWT is expired"
  jwtRequire (!(claims.hasNbf && policy.ahead claims.nbf)) .typeMismatch "JWT is not yet valid"
  jwtRequire (!(claims.hasIat && policy.ahead claims.iat))
    .typeMismatch "JWT issued-at time is in the future"

/-- `lonejson_jwt_validate_claims`. -/
def jwtValidateClaims (header : Option JwtHeader) (claims : Option JwtClaims)
    (policy : Option JwtClaimPolicy) : Except Failure Unit :=
  match header, claims, policy with
  | some header, some claims, some policy => do
    jwtRequire policy.isComplete .invalidArgument "JWT claim policy is incomplete"
    jwtValidateParties header claims policy
    jwtValidateContents header claims policy
  | _, _, _ =>
    .error {
      code := .invalidArgument, message := "JWT header, claims, and policy are required" }

/-! ## What a policy accepts -/

/-- The array has a string. -/
def JwtNames.Has (names : JwtNames) (text : Bytes) : Prop :=
  ∃ name, some name ∈ names.list ∧ cstr name = cstr text

def JwtNames.Full (names : JwtNames) : Prop := names.isNull = false ∧ names.count ≠ 0

/-- The audiences of a token. -/
def JwtClaims.audiences (claims : JwtClaims) : List Bytes :=
  claims.aud.toList ++ claims.audArray.items

/-- A word stands in a text between spaces. -/
def ScopeMember (text word : Bytes) : Prop :=
  word ≠ [] ∧ 0x20 ∉ word ∧ ∃ before after, text = before ++ (word ++ after) ∧
    (∀ ch ∈ before.getLast?, ch = 0x20) ∧ ∀ ch ∈ after.head?, ch = 0x20

/-- A scope is granted. -/
def JwtClaims.Grants (claims : JwtClaims) (scope : Bytes) : Prop :=
  (∃ text, claims.scope = some text ∧ ScopeMember (cstr text) (cstr scope)) ∨
    ∃ item ∈ claims.scp.items, cstr item = cstr scope ∨ ScopeMember (cstr item) (cstr scope)

/-- The claims that may be required, and whether they are there. -/
def JwtClaims.table (claims : JwtClaims) : List (Bytes × Bool) :=
  [(ascii "iss", claims.iss.isSome), (ascii "sub", claims.sub.isSome),
    (ascii "nonce", claims.nonce.isSome), (ascii "azp", claims.azp.isSome),
    (ascii "scope", claims.scope.isSome), (ascii "scp", claims.scp.items.length != 0),
    (ascii "aud", claims.aud.isSome || claims.audArray.items.length != 0),
    (ascii "exp", claims.hasExp), (ascii "nbf", claims.hasNbf), (ascii "iat", claims.hasIat)]

/-- The policy is complete. -/
structure JwtClaimPolicy.Complete (policy : JwtClaimPolicy) : Prop where
  algs : policy.acceptedAlgs.Full
  issuers : policy.acceptedIssuers.Full
  audiences : policy.acceptedAudiences.Full
  now : 0 ≤ policy.now.toInt
  skew : 0 ≤ policy.allowedClockSkew.toInt
  crit : policy.acceptedCrit.count ≠ 0 → policy.acceptedCrit.isNull = false
  scopes : policy.requiredScopes.count ≠ 0 → policy.requiredScopes.isNull = false

/-- The policy accepts a token. -/
structure JwtClaimPolicy.Accepts (policy : JwtClaimPolicy) (header : JwtHeader)
    (claims : JwtClaims) : Prop where
  complete : policy.Complete
  alg : ∃ alg, header.alg = some alg ∧ cstr alg ≠ ascii "none" ∧ policy.acceptedAlgs.Has alg
  issuer : ∃ iss, claims.iss = some iss ∧ policy.acceptedIssuers.Has iss
  audience : ∃ aud ∈ claims.audiences, policy.acceptedAudiences.Has aud
  audiences : policy.requireAllAudiencesAccepted = true →
    ∀ aud ∈ claims.audiences, policy.acceptedAudiences.Has aud
  nonce : ∀ expected, policy.expectedNonce = some expected →
    ∃ nonce, claims.nonce = some nonce ∧ cstr nonce = cstr expected
  azp : ∀ expected, policy.expectedAzp = some expected →
    ∃ azp, claims.azp = some azp ∧ cstr azp = cstr expected
  party : policy.requireAzpWhenMultipleAudiences = true → 1 < jwtClaimAudienceCount claims →
    ∃ azp, claims.azp = some azp ∧ cstr azp ≠ []
  crit : ∀ name ∈ header.crit.items, cstr name ≠ [] ∧ policy.acceptedCrit.Has name
  scopes : ∀ scope ∈ policy.requiredScopes.list, ∃ name, scope = some name ∧ claims.Grants name
  counted : policy.requiredClaims.isNull = true → policy.requiredClaims.count = 0
  required : ∀ item ∈ policy.requiredClaims.list,
    ∃ name, item = some name ∧ (cstr name, true) ∈ claims.table
  exp : claims.hasExp = true →
    policy.now.toInt < claims.exp.toInt + policy.allowedClockSkew.toInt
  nbf : claims.hasNbf = true →
    claims.nbf.toInt ≤ policy.now.toInt + policy.allowedClockSkew.toInt
  iat : claims.hasIat = true →
    claims.iat.toInt ≤ policy.now.toInt + policy.allowedClockSkew.toInt

/-! ## Dates -/

theorem Int64.toInt_sub_of_le {a b : Int64} (h : a.toInt - b.toInt < 2 ^ 63)
    (h' : -2 ^ 63 ≤ a.toInt - b.toInt) : (a - b).toInt = a.toInt - b.toInt := by
  rw [Int64.toInt_sub, Int.bmod_eq_of_le (by omega) (by omega)]

theorem Int64.toInt_add_of_le {a b : Int64} (h : a.toInt + b.toInt < 2 ^ 63)
    (h' : -2 ^ 63 ≤ a.toInt + b.toInt) : (a + b).toInt = a.toInt + b.toInt := by
  rw [Int64.toInt_add, Int.bmod_eq_of_le (by omega) (by omega)]

/-- The distance of two dates is compared without overflow. -/
theorem jwtNumericDateAtLeastDelta_iff {later earlier delta : Int64} :
    jwtNumericDateAtLeastDelta later earlier delta = true ↔
      earlier.toInt ≤ later.toInt ∧ 0 ≤ delta.toInt ∧
        delta.toInt ≤ later.toInt - earlier.toInt := by
  have hlater := later.toInt_lt
  have hearlier := earlier.le_toInt
  have hearlier' := earlier.toInt_lt
  have hdelta := delta.toInt_lt
  have hmax : Int64.maxValue.toInt = 2 ^ 63 - 1 := rfl
  have hmin : Int64.minValue.toInt = -2 ^ 63 := rfl
  have hzero : (0 : Int64).toInt = 0 := rfl
  have hsum (h : earlier < 0) : (Int64.maxValue + earlier).toInt = 2 ^ 63 - 1 + earlier.toInt := by
    rw [Int64.lt_iff_toInt_lt, hzero] at h
    rw [Int64.toInt_add_of_le (by omega) (by omega), hmax]
  have hsum' (h : earlier > 0) : (Int64.minValue + earlier).toInt = -2 ^ 63 + earlier.toInt := by
    rw [gt_iff_lt, Int64.lt_iff_toInt_lt, hzero] at h
    rw [Int64.toInt_add_of_le (by omega) (by omega), hmin]
  unfold jwtNumericDateAtLeastDelta
  split_ifs with hearly hfar hnear
  · rw [Int64.lt_iff_toInt_lt, Int64.lt_iff_toInt_lt, hzero] at hearly
    simp only [false_iff]
    omega
  · obtain ⟨hneg, hfar⟩ := hfar
    rw [gt_iff_lt, Int64.lt_iff_toInt_lt, hsum hneg] at hfar
    rw [Int64.lt_iff_toInt_lt, Int64.lt_iff_toInt_lt, hzero] at hearly
    simp only [true_iff]
    omega
  · obtain ⟨hpos, hnear⟩ := hnear
    rw [Int64.lt_iff_toInt_lt, hsum' hpos] at hnear
    rw [Int64.lt_iff_toInt_lt, Int64.lt_iff_toInt_lt, hzero] at hearly
    omega
  · rw [Int64.lt_iff_toInt_lt, Int64.lt_iff_toInt_lt, hzero] at hearly
    have hclose : later.toInt - earlier.toInt < 2 ^ 63 := by
      by_contra hover
      refine hfar ⟨?_, ?_⟩
      · rw [Int64.lt_iff_toInt_lt, hzero]
        omega
      · rw [gt_iff_lt, Int64.lt_iff_toInt_lt, hsum]
        · omega
        · rw [Int64.lt_iff_toInt_lt, hzero]
          omega
    rw [decide_eq_true_iff, ge_iff_le, Int64.le_iff_toInt_le,
      Int64.toInt_sub_of_le hclose (by omega)]
    omega

section

variable {policy : JwtClaimPolicy}

/-- A date that is not ahead of the clock. -/
theorem JwtClaimPolicy.ahead_eq_false (hnow : 0 ≤ policy.now.toInt) {date : Int64}
    (hskew : 0 ≤ policy.allowedClockSkew.toInt) : policy.ahead date = false ↔
      date.toInt ≤ policy.now.toInt + policy.allowedClockSkew.toInt := by
  have hdate := date.toInt_lt
  rw [ahead, Bool.and_eq_false_iff, decide_eq_false_iff_not, decide_eq_false_iff_not,
    Int64.lt_iff_toInt_lt, gt_iff_lt, Int64.lt_iff_toInt_lt]
  by_cases hlater : policy.now.toInt < date.toInt
  · rw [Int64.toInt_sub_of_le (by omega) (by omega)]
    omega
  · omega

end

/-! ## Scopes -/

theorem getLast_dropWhile {p : Byte → Bool} {text : Bytes} (h : text.dropWhile p ≠ []) :
    (text.dropWhile p).getLast? = text.getLast? := by
  conv_rhs => rw [← List.takeWhile_append_dropWhile (p := p) (l := text)]
  rw [List.getLast?_append_of_ne_nil _ h]

/-- What stands behind the first word of a text begins with a space. -/
theorem head_dropWhile {text rest : Bytes} {ch : Byte} (h : text.dropWhile (· != 0x20) = ch :: rest) :
    ch = 0x20 := by
  have hhead := List.head?_dropWhile_not (· != 0x20) text
  rw [h] at hhead
  simpa using hhead

/-- A word of a text is the first one, or it stands behind the first one. -/
theorem scopeMember_iff {text word : Bytes} (hword : word ≠ []) : ScopeMember text word ↔
    (text.dropWhile (· == 0x20)).takeWhile (· != 0x20) = word ∨
      ScopeMember ((text.dropWhile (· == 0x20)).dropWhile (· != 0x20)) word := by
  obtain ⟨first, more, rfl⟩ := List.exists_cons_of_ne_nil hword
  constructor
  · rintro ⟨-, hsolid, before, after, rfl, hbefore, hafter⟩
    have hfirst : first ≠ 0x20 := fun h => hsolid (by simp [h])
    have hkeeps : ∀ c ∈ first :: more, (c != 0x20) = true := fun c hc => by
      simpa using ne_of_mem_of_not_mem hc hsolid
    rw [List.dropWhile_append]
    split_ifs with hspaces
    · left
      have hends : after.takeWhile (· != 0x20) = [] := by
        cases after with
        | nil => rfl
        | cons c cs => rw [List.takeWhile_cons_of_neg (by simp [hafter c rfl])]
      rw [List.cons_append, List.dropWhile_cons_of_neg (by simpa using hfirst),
        ← List.cons_append, List.takeWhile_append_of_pos hkeeps, hends, List.append_nil]
    · right
      have hne : before.dropWhile (· == 0x20) ≠ [] := by simpa using hspaces
      have hlast := getLast_dropWhile hne
      have hrest : (before.dropWhile (· == 0x20)).dropWhile (· != 0x20) ≠ [] := by
        intro hnil
        obtain ⟨c, hc⟩ := List.getLast?_isSome.mpr hne |> Option.isSome_iff_exists.mp
        have hsolid' := List.dropWhile_eq_nil_iff.mp hnil c (List.mem_of_getLast? hc)
        rw [hbefore c (by rw [← hlast, hc]; rfl)] at hsolid'
        cases hsolid'
      rw [List.dropWhile_append, if_neg (by simpa using hrest)]
      refine ⟨hword, hsolid, _, after, rfl, ?_, hafter⟩
      rw [getLast_dropWhile hrest, hlast]
      exact hbefore
  · have hsplit : text.takeWhile (· == 0x20) ++ ((text.dropWhile (· == 0x20)).takeWhile (· != 0x20) ++
        (text.dropWhile (· == 0x20)).dropWhile (· != 0x20)) = text := by
      rw [List.takeWhile_append_dropWhile, List.takeWhile_append_dropWhile]
    rintro (hfirst | ⟨-, hsolid, before, after, hrest, hbefore, hafter⟩)
    · refine ⟨hword, fun hmem => ?_, text.takeWhile (· == 0x20),
        (text.dropWhile (· == 0x20)).dropWhile (· != 0x20), ?_, fun c hc => ?_, fun c hc => ?_⟩
      · rw [← hfirst] at hmem
        have := List.mem_takeWhile_imp hmem
        cases this
      · rw [← hfirst, hsplit]
      · have := List.mem_takeWhile_imp (List.mem_of_getLast? hc)
        simpa using this
      · obtain ⟨rest, hrest⟩ := List.head?_eq_some_iff.mp hc
        exact head_dropWhile hrest
    · cases before with
      | nil =>
          exact absurd (head_dropWhile hrest) fun h => hsolid (by simp [h])
      | cons b bs =>
          refine ⟨hword, hsolid, text.takeWhile (· == 0x20) ++
            ((text.dropWhile (· == 0x20)).takeWhile (· != 0x20) ++ b :: bs), after, ?_, ?_, hafter⟩
          · rw [List.append_assoc, List.append_assoc, ← hrest, hsplit]
          · rw [← List.append_assoc, List.getLast?_append_of_ne_nil _ (List.cons_ne_nil _ _)]
            exact hbefore

theorem jwtScopeLoop_iff {required : Bytes} (hrequired : required ≠ []) {n : ℕ} {cursor : Bytes}
    (hn : cursor.length ≤ n) :
    jwtScopeLoop required n cursor = true ↔ ScopeMember cursor required := by
  have hnil : ¬ ScopeMember [] required := by
    rintro ⟨-, -, before, after, h, -, -⟩
    have := congrArg List.length h
    have := List.length_pos_iff.mpr hrequired
    simp only [List.length_append, List.length_nil] at *
    omega
  induction n generalizing cursor with
  | zero =>
      rw [List.eq_nil_of_length_eq_zero (Nat.le_zero.mp hn)]
      exact ⟨(fun h => by cases h), fun h => absurd h hnil⟩
  | succ n ih =>
      cases cursor with
      | nil => exact ⟨(fun h => by cases h), fun h => absurd h hnil⟩
      | cons c cs =>
          have hlength : (((c :: cs).dropWhile (· == 0x20)).dropWhile (· != 0x20)).length ≤ n := by
            simp only [List.length_cons] at hn
            by_cases hc : c = 0x20
            · rw [List.dropWhile_cons_of_pos (by simpa using hc)]
              have := (List.dropWhile_sublist (l := cs) (· == 0x20)).length_le
              have := (List.dropWhile_sublist (l := cs.dropWhile (· == 0x20)) (· != 0x20)).length_le
              omega
            · rw [List.dropWhile_cons_of_neg (by simpa using hc),
                List.dropWhile_cons_of_pos (by simpa using hc)]
              have := (List.dropWhile_sublist (l := cs) (· != 0x20)).length_le
              omega
          have hloop : jwtScopeLoop required (n + 1) (c :: cs) =
              if ((c :: cs).dropWhile (· == 0x20)).takeWhile (· != 0x20) = required then true
              else jwtScopeLoop required n
                (((c :: cs).dropWhile (· == 0x20)).dropWhile (· != 0x20)) := rfl
          rw [hloop, scopeMember_iff hrequired]
          split_ifs with hfirst
          · exact ⟨fun _ => .inl hfirst, fun _ => rfl⟩
          · exact (ih hlength).trans (or_iff_right hfirst).symm

theorem jwtScopeListHas_iff {scopeList : Option Bytes} {required : Bytes} :
    jwtScopeListHas scopeList required = true ↔
      ∃ text, scopeList = some text ∧ ScopeMember (cstr text) (cstr required) := by
  cases scopeList with
  | none => simp [jwtScopeListHas]
  | some text =>
      simp only [jwtScopeListHas, Bool.and_eq_true, bne_iff_ne, Option.some.injEq,
        exists_eq_left']
      constructor
      · rintro ⟨hrequired, hloop⟩
        exact (jwtScopeLoop_iff hrequired le_rfl).mp hloop
      · intro hmember
        exact ⟨hmember.1, (jwtScopeLoop_iff hmember.1 le_rfl).mpr hmember⟩

/-! ## The checks of a policy -/

@[simp] theorem streq_iff {a b : Bytes} : streq a b = true ↔ cstr a = cstr b := beq_iff_eq

theorem jwtStringInList_iff {value : Bytes} {names : JwtNames} :
    jwtStringInList (some value) names = true ↔ names.Has value := by
  simp only [jwtStringInList, Option.any_some, List.any_eq_true, JwtNames.Has]
  constructor
  · rintro ⟨item, hitem, heq⟩
    obtain ⟨name, rfl, hname⟩ := (Option.any_eq_true _ _).mp heq
    exact ⟨name, hitem, (streq_iff.mp hname).symm⟩
  · rintro ⟨name, hname, heq⟩
    exact ⟨some name, hname, streq_iff.mpr heq.symm⟩

theorem jwtStringInList_exists {value : Option Bytes} {names : JwtNames} :
    jwtStringInList value names = true ↔ ∃ text, value = some text ∧ names.Has text := by
  cases value with
  | none => simp [jwtStringInList]
  | some text => simp [jwtStringInList_iff]

section

variable {claims : JwtClaims} {policy : JwtClaimPolicy} {header : JwtHeader}

theorem jwtClaimHasAudience_iff {audience : Bytes} : jwtClaimHasAudience claims audience = true ↔
    ∃ aud ∈ claims.audiences, cstr aud = cstr audience := by
  simp only [jwtClaimHasAudience, Bool.or_eq_true, List.any_eq_true, streq_iff,
    Option.any_eq_true, JwtClaims.audiences, List.mem_append, Option.mem_toList,
    or_and_right, exists_or]

theorem jwtAnyAudienceAccepted_iff : jwtAnyAudienceAccepted claims policy = true ↔
    ∃ aud ∈ claims.audiences, policy.acceptedAudiences.Has aud := by
  simp only [jwtAnyAudienceAccepted, List.any_eq_true, Option.any_eq_true,
    jwtClaimHasAudience_iff, JwtNames.Has]
  constructor
  · rintro ⟨item, hitem, name, rfl, aud, haud, heq⟩
    exact ⟨aud, haud, name, hitem, heq.symm⟩
  · rintro ⟨aud, haud, name, hname, heq⟩
    exact ⟨some name, hname, name, rfl, aud, haud, heq.symm⟩

theorem jwtAllAudiencesAccepted_iff (haud : claims.audiences ≠ []) :
    jwtAllAudiencesAccepted claims policy = true ↔
      ∀ aud ∈ claims.audiences, policy.acceptedAudiences.Has aud := by
  have hcount : (jwtClaimAudienceCount claims != 0) = true := by
    rw [bne_iff_ne, jwtClaimAudienceCount]
    split_ifs with hitems hnone
    · exact hitems
    · refine absurd ?_ haud
      rw [JwtClaims.audiences, Option.isNone_iff_eq_none.mp hnone,
        List.eq_nil_of_length_eq_zero (not_not.mp hitems)]
      rfl
    · exact Nat.one_ne_zero
  simp only [jwtAllAudiencesAccepted, hcount, JwtClaims.audiences, List.mem_append,
    Option.mem_toList, or_imp, forall_and, ← jwtStringInList_iff]
  cases claims.aud with
  | none => simp
  | some aud => simp

theorem jwtClaimHasScope_iff {scope : Bytes} :
    jwtClaimHasScope claims scope = true ↔ claims.Grants scope := by
  simp only [jwtClaimHasScope, Bool.or_eq_true, List.any_eq_true, streq_iff, jwtScopeListHas_iff,
    JwtClaims.Grants, Option.some.injEq, exists_eq_left']

theorem lookup_cons_getD {text key : Bytes} {b : Bool} {table : List (Bytes × Bool)} :
    (List.lookup text ((key, b) :: table)).getD false =
      if text = key then b else (table.lookup text).getD false := by
  rw [List.lookup_cons]
  split_ifs with h
  · rw [h, beq_self_eq_true]
    rfl
  · rw [beq_false_of_ne h]

theorem lookup_getD_iff {text : Bytes} {table : List (Bytes × Bool)}
    (hkeys : (table.map Prod.fst).Nodup) :
    (table.lookup text).getD false = true ↔ (text, true) ∈ table := by
  induction table with
  | nil => simp
  | cons entry table ih =>
      obtain ⟨key, b⟩ := entry
      rw [List.map_cons, List.nodup_cons] at hkeys
      rw [lookup_cons_getD, List.mem_cons, Prod.mk.injEq]
      split_ifs with h
      · subst h
        have hother : (text, true) ∉ table := fun hmem =>
          hkeys.1 (List.mem_map.mpr ⟨_, hmem, rfl⟩)
        simp [hother, eq_comm]
      · simp [h, ih hkeys.2]

theorem JwtClaims.table_keys : (claims.table.map Prod.fst).Nodup := by
  have hkeys : claims.table.map Prod.fst = ["iss", "sub", "nonce", "azp", "scope", "scp", "aud",
      "exp", "nbf", "iat"].map ascii := rfl
  rw [hkeys]
  decide +kernel

theorem jwtHasRequiredClaim_iff {name : Bytes} :
    jwtHasRequiredClaim claims name = true ↔ (cstr name, true) ∈ claims.table := by
  have hname : ∀ text ∈ ["iss", "sub", "nonce", "azp", "scope", "scp", "aud", "exp", "nbf", "iat"],
      cstr (ascii text) = ascii text := by decide +kernel
  simp only [List.forall_mem_cons] at hname
  obtain ⟨h₁, h₂, h₃, h₄, h₅, h₆, h₇, h₈, h₉, h₁₀, -⟩ := hname
  rw [← lookup_getD_iff JwtClaims.table_keys]
  simp only [jwtHasRequiredClaim, streq_iff, h₁, h₂, h₃, h₄, h₅, h₆, h₇, h₈, h₉, h₁₀,
    JwtClaims.table, lookup_cons_getD]
  rfl

theorem JwtNames.full_iff {names : JwtNames} :
    (names.isNull || names.count == 0) = false ↔ names.Full := by
  simp [JwtNames.Full]

theorem JwtClaimPolicy.isComplete_iff : policy.isComplete = true ↔ policy.Complete := by
  have hzero : (0 : Int64).toInt = 0 := rfl
  have halgs := @JwtNames.full_iff policy.acceptedAlgs
  have hissuers := @JwtNames.full_iff policy.acceptedIssuers
  have haudiences := @JwtNames.full_iff policy.acceptedAudiences
  simp only [Bool.or_eq_false_iff] at halgs hissuers haudiences
  simp only [isComplete, Bool.not_eq_true', Bool.or_eq_false_iff, and_assoc, Bool.and_eq_false_iff,
    decide_eq_false_iff_not, Int64.lt_iff_toInt_lt, hzero, not_lt, bne_eq_false_iff_eq]
  constructor
  · rintro ⟨h₁, h₂, h₃, h₄, h₅, h₆, hnow, hskew, hcrit, hscopes⟩
    exact ⟨halgs.mp ⟨h₁, h₂⟩, hissuers.mp ⟨h₃, h₄⟩, haudiences.mp ⟨h₅, h₆⟩, hnow, hskew,
      fun h => hcrit.resolve_left h, fun h => hscopes.resolve_left h⟩
  · intro h
    exact ⟨(halgs.mpr h.algs).1, (halgs.mpr h.algs).2, (hissuers.mpr h.issuers).1,
      (hissuers.mpr h.issuers).2, (haudiences.mpr h.audiences).1, (haudiences.mpr h.audiences).2,
      h.now, h.skew, or_iff_not_imp_left.mpr h.crit, or_iff_not_imp_left.mpr h.scopes⟩

@[simp] theorem jwtRequire_ok {passes : Bool} {code : Status} {message : String} :
    jwtRequire passes code message = .ok () ↔ passes = true := by
  cases passes <;> simp [jwtRequire]

theorem jwtBind_ok {x y : Except Failure Unit} :
    (x >>= fun _ => y) = .ok () ↔ x = .ok () ∧ y = .ok () := by
  cases x with
  | error e => exact ⟨(fun h => by cases h), fun h => by cases h.1⟩
  | ok u => exact ⟨fun h => ⟨rfl, h⟩, fun h => h.2⟩

theorem jwtValidateParties_ok_iff : jwtValidateParties header claims policy = .ok () ↔
    (∃ alg, header.alg = some alg ∧ cstr alg ≠ ascii "none" ∧ policy.acceptedAlgs.Has alg) ∧
    (∃ iss, claims.iss = some iss ∧ policy.acceptedIssuers.Has iss) ∧
    (∃ aud ∈ claims.audiences, policy.acceptedAudiences.Has aud) ∧
    (policy.requireAllAudiencesAccepted = true →
      ∀ aud ∈ claims.audiences, policy.acceptedAudiences.Has aud) ∧
    (∀ expected, policy.expectedNonce = some expected →
      ∃ nonce, claims.nonce = some nonce ∧ cstr nonce = cstr expected) ∧
    (∀ expected, policy.expectedAzp = some expected →
      ∃ azp, claims.azp = some azp ∧ cstr azp = cstr expected) ∧
    (policy.requireAzpWhenMultipleAudiences = true → 1 < jwtClaimAudienceCount claims →
      ∃ azp, claims.azp = some azp ∧ cstr azp ≠ []) := by
  have hnone : cstr (ascii "none") = ascii "none" := by decide +kernel
  have halg : (header.alg.any fun alg => !streq alg (ascii "none") &&
      jwtStringInList (some alg) policy.acceptedAlgs) = true ↔
      ∃ alg, header.alg = some alg ∧ cstr alg ≠ ascii "none" ∧ policy.acceptedAlgs.Has alg := by
    rw [Option.any_eq_true]
    simp only [Bool.and_eq_true, Bool.not_eq_true', ← Bool.not_eq_true, streq_iff, hnone,
      jwtStringInList_iff, ne_eq]
  have hmatches (given expected : Option Bytes) :
      (expected.all fun text => given.any (streq · text)) = true ↔
        ∀ text, expected = some text → ∃ value, given = some value ∧ cstr value = cstr text := by
    rw [Option.all_eq_true]
    simp only [Option.any_eq_true, streq_iff]
  have hparty : (!(policy.requireAzpWhenMultipleAudiences &&
        decide (jwtClaimAudienceCount claims > 1)) ||
        claims.azp.any fun azp => cstr azp != []) = true ↔
      (policy.requireAzpWhenMultipleAudiences = true → 1 < jwtClaimAudienceCount claims →
        ∃ azp, claims.azp = some azp ∧ cstr azp ≠ []) := by
    rw [Bool.or_eq_true, Bool.not_eq_true', ← Bool.not_eq_true, Bool.and_eq_true, decide_eq_true_iff,
      Option.any_eq_true, ← imp_iff_not_or, and_imp]
    simp only [bne_iff_ne, gt_iff_lt]
  simp only [jwtValidateParties, jwtBind_ok, jwtRequire_ok]
  rw [halg, jwtStringInList_exists, jwtAnyAudienceAccepted_iff, hmatches, hmatches, hparty]
  refine and_congr_right fun _ => and_congr_right fun _ => and_congr_right fun haud => ?_
  have hne : claims.audiences ≠ [] := by
    obtain ⟨aud, hmem, -⟩ := haud
    exact List.ne_nil_of_mem hmem
  rw [← jwtAllAudiencesAccepted_iff hne, Bool.or_eq_true, Bool.not_eq_true', ← Bool.not_eq_true,
    ← imp_iff_not_or]

theorem jwtValidateContents_ok_iff (hnow : 0 ≤ policy.now.toInt)
    (hskew : 0 ≤ policy.allowedClockSkew.toInt) :
    jwtValidateContents header claims policy = .ok () ↔
      (∀ name ∈ header.crit.items, cstr name ≠ [] ∧ policy.acceptedCrit.Has name) ∧
      (∀ scope ∈ policy.requiredScopes.list, ∃ name, scope = some name ∧ claims.Grants name) ∧
      ((policy.requiredClaims.isNull = true → policy.requiredClaims.count = 0) ∧
        ∀ item ∈ policy.requiredClaims.list,
          ∃ name, item = some name ∧ (cstr name, true) ∈ claims.table) ∧
      (claims.hasExp = true →
        policy.now.toInt < claims.exp.toInt + policy.allowedClockSkew.toInt) ∧
      (claims.hasNbf = true →
        claims.nbf.toInt ≤ policy.now.toInt + policy.allowedClockSkew.toInt) ∧
      (claims.hasIat = true →
        claims.iat.toInt ≤ policy.now.toInt + policy.allowedClockSkew.toInt) := by
  have hdate (has : Bool) (date : Int64) : (!(has && policy.ahead date)) = true ↔
      (has = true → date.toInt ≤ policy.now.toInt + policy.allowedClockSkew.toInt) := by
    rw [← JwtClaimPolicy.ahead_eq_false hnow hskew]
    cases has <;> simp
  have hexpiry : (!(claims.hasExp &&
      jwtNumericDateAtLeastDelta policy.now claims.exp policy.allowedClockSkew)) = true ↔
      (claims.hasExp = true →
        policy.now.toInt < claims.exp.toInt + policy.allowedClockSkew.toInt) := by
    rw [Bool.not_eq_true', ← Bool.not_eq_true, Bool.and_eq_true, jwtNumericDateAtLeastDelta_iff,
      not_and]
    refine imp_congr_right fun _ => ?_
    omega
  have hcrit : (header.crit.items.all fun item =>
      cstr item != [] && jwtStringInList (some item) policy.acceptedCrit) = true ↔
      ∀ name ∈ header.crit.items, cstr name ≠ [] ∧ policy.acceptedCrit.Has name := by
    simp only [List.all_eq_true, Bool.and_eq_true, bne_iff_ne, jwtStringInList_iff]
  have hnull : (!(policy.requiredClaims.isNull && policy.requiredClaims.count != 0)) = true ↔
      (policy.requiredClaims.isNull = true → policy.requiredClaims.count = 0) := by
    rw [Bool.not_eq_true', ← Bool.not_eq_true, Bool.and_eq_true, bne_iff_ne, not_and, not_not]
  simp only [jwtValidateContents, jwtBind_ok, jwtRequire_ok]
  rw [hcrit, hexpiry, hdate, hdate, Bool.and_eq_true, hnull]
  simp only [List.all_eq_true, Option.any_eq_true, jwtClaimHasScope_iff, jwtHasRequiredClaim_iff]

theorem JwtClaimPolicy.Accepts.passes (h : policy.Accepts header claims) :
    jwtValidateClaims (some header) (some claims) (some policy) = .ok () := by
  simp only [jwtValidateClaims, jwtBind_ok, jwtRequire_ok, JwtClaimPolicy.isComplete_iff]
  exact ⟨h.complete, jwtValidateParties_ok_iff.mpr
      ⟨h.alg, h.issuer, h.audience, h.audiences, h.nonce, h.azp, h.party⟩,
    (jwtValidateContents_ok_iff h.complete.now h.complete.skew).mpr
      ⟨h.crit, h.scopes, ⟨h.counted, h.required⟩, h.exp, h.nbf, h.iat⟩⟩

theorem jwtValidateClaims_accepts
    (h : jwtValidateClaims (some header) (some claims) (some policy) = .ok ()) :
    policy.Accepts header claims := by
  simp only [jwtValidateClaims, jwtBind_ok, jwtRequire_ok, JwtClaimPolicy.isComplete_iff] at h
  obtain ⟨hcomplete, hparties, hcontents⟩ := h
  obtain ⟨halg, hissuer, haudience, haudiences, hnonce, hazp, hparty⟩ :=
    jwtValidateParties_ok_iff.mp hparties
  obtain ⟨hcrit, hscopes, ⟨hcounted, hrequired⟩, hexp, hnbf, hiat⟩ :=
    (jwtValidateContents_ok_iff hcomplete.now hcomplete.skew).mp hcontents
  exact ⟨hcomplete, halg, hissuer, haudience, haudiences, hnonce, hazp, hparty, hcrit, hscopes,
    hcounted, hrequired, hexp, hnbf, hiat⟩

/-- What the policy accepts passes, and nothing else. -/
theorem jwtValidateClaims_ok_iff :
    jwtValidateClaims (some header) (some claims) (some policy) = .ok () ↔
      policy.Accepts header claims :=
  ⟨jwtValidateClaims_accepts, JwtClaimPolicy.Accepts.passes⟩

end

end Lonejson
