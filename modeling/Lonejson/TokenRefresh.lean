import Lonejson.TokenFlow

/-!
# Refreshing a token flow

A refresh makes no more tries than its policy allows, counts them, and replaces the flow exactly
when it reports so. The counter of the tries is an `unsigned`, and with the greatest number of
retries it never exceeds the limit.
-/

namespace Lonejson

variable {σ : Type}

/-! ## When a token is usable -/

/-- The access token is there, and over the integers it expires later than the skew from now. -/
def TokenFlow.Usable (flow : TokenFlow) (policy : TokenFlowPolicy) : Prop :=
  cstr (flow.accessToken.getD []) ≠ [] ∧ (flow.hasExpiresAt = true →
    policy.now.toInt + (effectiveSkew policy.refreshSkewSeconds).toInt < flow.expiresAt.toInt)

theorem effectiveSkew_nonneg (skewSeconds : Int64) : 0 ≤ (effectiveSkew skewSeconds).toInt := by
  unfold effectiveSkew
  dsimp only
  generalize (if skewSeconds = 0 then (60 : Int64) else skewSeconds) = skew
  split_ifs with hneg
  · exact le_rfl
  · rw [Int64.lt_iff_toInt_lt] at hneg
    exact not_lt.mp hneg

theorem tokenFlowIsExpired_iff (flow : TokenFlow) (policy : TokenFlowPolicy) :
    tokenFlowIsExpired flow policy.now policy.refreshSkewSeconds = true ↔ ¬ flow.Usable policy := by
  have hskew := effectiveSkew_nonneg policy.refreshSkewSeconds
  have hexpiry := flow.expiresAt.toInt_lt
  have hnow := policy.now.le_toInt
  unfold tokenFlowIsExpired TokenFlow.Usable
  split_ifs with htoken hexpires hlate
  · exact iff_of_true rfl fun h => h.1 htoken
  · refine iff_of_false (by decide) (not_not.mpr ⟨htoken, fun h => ?_⟩)
    rw [hexpires] at h
    cases h
  · refine iff_of_true rfl fun h => ?_
    have hlt := h.2 (Bool.eq_true_of_not_eq_false hexpires)
    rw [gt_iff_lt, Int64.lt_iff_toInt_lt, seconds_left hskew] at hlate
    omega
  · rw [gt_iff_lt, Int64.lt_iff_toInt_lt, seconds_left hskew] at hlate
    rw [decide_eq_true_eq, Int64.le_iff_toInt_le, seconds_add (by omega) (by omega)]
    constructor
    · intro hle h
      have hlt := h.2 (Bool.eq_true_of_not_eq_false hexpires)
      omega
    · intro h
      by_contra hlt
      exact h ⟨htoken, fun _ => by omega⟩

/-! ## The flow of a response -/

/-- The fields of a flow that a response, read at `now`, has replaced. -/
structure TokenFlow.TakenFrom (next flow : TokenFlow) (response : TokenResponse) (now : Int64) :
    Prop where
  accessToken : next.accessToken = response.accessToken.map cstr
  tokenType : next.tokenType = response.tokenType.map cstr
  refreshToken : next.refreshToken = (response.refreshToken.or flow.refreshToken).map cstr
  scope : next.scope = response.scope.map cstr
  idToken : next.idToken = response.idToken.map cstr
  hasExpiresAt : next.hasExpiresAt = response.hasExpiresIn
  expiresAt : response.hasExpiresIn = true →
    next.expiresAt.toInt = now.toInt + response.expiresIn.toInt

theorem tokenStrdup_eq {served : Bool} {src : Option Bytes}
    (h : src.isSome = true → (tokenStrdup served src).isSome = true) :
    tokenStrdup served src = src.map cstr := by
  cases src with
  | none => rfl
  | some text =>
      have hsome := h rfl
      unfold tokenStrdup at hsome ⊢
      split_ifs at hsome ⊢
      · cases hsome
      · rfl

/-- Each text was copied when none is missing. -/
theorem tokenFlowCopy_taken {served : TokenField → Bool} {flow : TokenFlow}
    {response : TokenResponse}
    (h : tokenFlowCopyFailed flow (tokenFlowCopy served flow response) response = false) :
    (tokenFlowCopy served flow response).accessToken = response.accessToken.map cstr ∧
      (tokenFlowCopy served flow response).tokenType = response.tokenType.map cstr ∧
        (tokenFlowCopy served flow response).refreshToken =
            (response.refreshToken.or flow.refreshToken).map cstr ∧
          (tokenFlowCopy served flow response).scope = response.scope.map cstr ∧
            (tokenFlowCopy served flow response).idToken = response.idToken.map cstr := by
  simp only [tokenFlowCopyFailed, Bool.or_eq_false_iff, Bool.and_eq_false_iff,
    Option.isNone_eq_false_iff, Option.isSome_eq_false_iff] at h
  obtain ⟨⟨⟨⟨⟨haccess, htype⟩, hnew⟩, hold⟩, hscope⟩, hid⟩ := h
  refine ⟨tokenStrdup_eq fun _ => haccess, tokenStrdup_eq fun _ => htype, ?_,
    tokenStrdup_eq fun hsome => ?_, tokenStrdup_eq fun hsome => ?_⟩
  · cases hresponse : response.refreshToken with
    | some token =>
        have hcopied := hnew.resolve_left (by simp [hresponse])
        simp only [tokenFlowCopy, hresponse] at hcopied ⊢
        exact tokenStrdup_eq fun _ => hcopied
    | none =>
        simp only [tokenFlowCopy, hresponse] at hold ⊢
        refine tokenStrdup_eq fun hsome => ?_
        rcases hold with (hsome' | hnone) | hcopied
        · cases hsome'
        · rw [Option.isNone_iff_eq_none.mp hnone] at hsome
          cases hsome
        · exact hcopied
  · exact hscope.resolve_left fun hnone => by
      rw [Option.isNone_iff_eq_none.mp hnone] at hsome
      cases hsome
  · exact hid.resolve_left fun hnone => by
      rw [Option.isNone_iff_eq_none.mp hnone] at hsome
      cases hsome

/-- An update fails and leaves the flow, or it takes the fields of the response. -/
theorem tokenFlowUpdateResponse_cases (served : TokenField → Bool) (flow : TokenFlow)
    (response : TokenResponse) (now : Int64) :
    (∃ e, tokenFlowUpdateResponse served flow response now = (flow, .error e)) ∨
      ∃ next, tokenFlowUpdateResponse served flow response now = (next, .ok ()) ∧
        next.TakenFrom flow response now := by
  unfold tokenFlowUpdateResponse
  dsimp only
  split_ifs with hargs hover hcopy hexpires
  · exact .inl ⟨_, rfl⟩
  · exact .inl ⟨_, rfl⟩
  · exact .inl ⟨_, rfl⟩
  · obtain ⟨haccess, htype, hrefresh, hscope, hid⟩ :=
      tokenFlowCopy_taken (Bool.eq_false_iff.mpr hcopy)
    refine .inr ⟨_, rfl, haccess, htype, hrefresh, hscope, hid, hexpires.symm, fun _ => ?_⟩
    have hnow : 0 ≤ now.toInt := by
      have hneg : ¬ now < 0 := fun hneg => hargs (.inr (.inr hneg))
      rw [Int64.lt_iff_toInt_lt] at hneg
      exact not_lt.mp hneg
    have hfits : ¬ response.expiresIn > Int64.maxValue - now := fun h => hover ⟨hexpires, h⟩
    rw [gt_iff_lt, Int64.lt_iff_toInt_lt, seconds_left hnow] at hfits
    have hlow := response.expiresIn.le_toInt
    exact seconds_add (by omega) (by omega)
  · obtain ⟨haccess, htype, hrefresh, hscope, hid⟩ :=
      tokenFlowCopy_taken (Bool.eq_false_iff.mpr hcopy)
    exact .inr ⟨_, rfl, haccess, htype, hrefresh, hscope, hid,
      (Bool.eq_false_iff.mpr hexpires).symm, fun h => absurd h hexpires⟩

/-! ## The loop -/

section

variable {tries : ℕ → HttpTry} {maxRetries : UInt32}

/-- The loop goes on behind the try `k`. -/
def Again (tries : ℕ → HttpTry) (maxRetries : UInt32) (k : ℕ) : Bool :=
  (tries k).retryable && UInt32.ofNat (k + 1) ≤ maxRetries

theorem refreshLoop_eq_some_iff {fuel n : ℕ} {r : ℕ × UInt32} :
    refreshLoop tries maxRetries fuel n (UInt32.ofNat n) = some r ↔
      ∃ last, n ≤ last ∧ last < n + fuel ∧ (∀ k, n ≤ k → k < last → Again tries maxRetries k = true) ∧
        Again tries maxRetries last = false ∧ r = (last + 1, UInt32.ofNat (last + 1)) := by
  induction fuel generalizing n with
  | zero =>
      refine iff_of_false (fun h => by cases h) ?_
      rintro ⟨last, hle, hlt, -⟩
      omega
  | succ fuel ih =>
      have hcount : UInt32.ofNat n + 1 = UInt32.ofNat (n + 1) := (UInt32.ofNat_add n 1).symm
      rw [refreshLoop, hcount]
      cases hagain : Again tries maxRetries n with
      | true =>
          rw [Again] at hagain
          rw [if_pos hagain, ih]
          constructor
          · rintro ⟨last, hle, hlt, hbefore, hlast, rfl⟩
            refine ⟨last, by omega, by omega, fun k hk hklt => ?_, hlast, rfl⟩
            rcases hk.eq_or_lt with rfl | hk
            · exact hagain
            · exact hbefore k hk hklt
          · rintro ⟨last, hle, hlt, hbefore, hlast, rfl⟩
            refine ⟨last, ?_, by omega, fun k hk hklt => hbefore k (by omega) hklt, hlast, rfl⟩
            rcases hle.eq_or_lt with rfl | hle
            · rw [Again, hagain] at hlast
              cases hlast
            · exact hle
      | false =>
          rw [Again] at hagain
          rw [if_neg (by rw [hagain]; decide)]
          constructor
          · intro h
            exact ⟨n, le_rfl, by omega, fun k hk hklt => absurd hk (by omega), hagain,
              (Option.some.inj h).symm⟩
          · rintro ⟨last, hle, hlt, hbefore, hlast, rfl⟩
            rcases hle.eq_or_lt with rfl | hle
            · rfl
            · have hn := hbefore n le_rfl hle
              rw [Again, hagain] at hn
              cases hn

theorem refreshLoop_start {fuel : ℕ} {r : ℕ × UInt32} :
    refreshLoop tries maxRetries fuel 0 0 = some r ↔
      ∃ last < fuel, (∀ k < last, Again tries maxRetries k = true) ∧
        Again tries maxRetries last = false ∧ r = (last + 1, UInt32.ofNat (last + 1)) := by
  refine (refreshLoop_eq_some_iff (n := 0)).trans ?_
  simp only [Nat.zero_le, true_and, Nat.zero_add, forall_const]

/-- The greatest number of retries is allowed, and each of the tries before the counter wraps may
be made again. -/
def CounterWraps (tries : ℕ → HttpTry) (maxRetries : UInt32) : Prop :=
  maxRetries.toNat = 2 ^ 32 - 1 ∧ ∀ k < 2 ^ 32 - 1, (tries k).retryable = true

theorem again_iff {k : ℕ} (hk : k < 2 ^ 32 - 1) :
    Again tries maxRetries k = true ↔ (tries k).retryable = true ∧ k < maxRetries.toNat := by
  rw [Again, Bool.and_eq_true, decide_eq_true_eq, UInt32.le_iff_toNat_le, UInt32.toNat_ofNat',
    Nat.mod_eq_of_lt (by omega), Nat.succ_le_iff]

/-- The loop ends within the tries that are allowed. -/
theorem loop_bounded (h : ¬ CounterWraps tries maxRetries) {last : ℕ}
    (hbefore : ∀ k < last, Again tries maxRetries k = true) :
    last ≤ maxRetries.toNat ∧ last < 2 ^ 32 - 1 := by
  have hmax := maxRetries.toNat_lt
  by_contra hlast
  rcases Nat.lt_or_ge maxRetries.toNat (2 ^ 32 - 1) with hsmall | hgreat
  · have hagain := (again_iff hsmall).mp (hbefore maxRetries.toNat (by omega))
    exact lt_irrefl _ hagain.2
  · refine h ⟨by omega, fun k hk => ?_⟩
    exact ((again_iff hk).mp (hbefore k (by omega))).1

theorem loop_ends (h : ¬ CounterWraps tries maxRetries) :
    ∃ last, (∀ k < last, Again tries maxRetries k = true) ∧ Again tries maxRetries last = false := by
  by_contra hnone
  have hall : ∀ k, Again tries maxRetries k = true := by
    intro k
    induction k using Nat.strong_induction_on with
    | _ k ih =>
        by_contra hk
        exact hnone ⟨k, ih, Bool.eq_false_iff.mpr hk⟩
  have hbound : 2 ^ 32 ≤ maxRetries.toNat ∧ 2 ^ 32 < 2 ^ 32 - 1 :=
    loop_bounded h fun k _ => hall k
  omega

end

/-! ## What a call does -/

/-- A refresh is attempted when the token is not usable, refreshing is allowed and a refresh token
is held. -/
structure RefreshDue (flow : TokenFlow) (policy : TokenFlowPolicy) : Prop where
  unusable : ¬ flow.Usable policy
  allowed : policy.disableRefresh = false
  held : cstr (flow.refreshToken.getD []) ≠ []

/-- How many of the first `n` tries reached the provider. -/
def requestsSent (tries : ℕ → HttpTry) (n : ℕ) : ℕ := (List.range n).countP fun k => (tries k).sent

/-- The flow that comes of the response in `answer`. -/
def RefreshedBy (runtime : Option (Runtime σ)) (flow : TokenFlow) (policy : TokenFlowPolicy)
    (answer : Except Failure HttpResponse) (next : TokenFlow) : Prop :=
  ∃ (response : HttpResponse) (parsed : TokenResponse), answer = .ok response ∧
    httpRequireSuccess response "OAuth2 token endpoint" = .ok () ∧
      tokenResponseParseJson runtime response.body policy.maxResponseBytes = .ok parsed ∧
        next.TakenFrom flow parsed policy.now

/-- What holds behind a call. -/
structure EnsureLaw (runtime : Option (Runtime σ)) (alloc : EnsureAlloc) (flow : TokenFlow)
    (policy : TokenFlowPolicy) (out : EnsureOutcome) : Prop where
  idle : ¬ RefreshDue flow policy → requestsSent (refreshTries runtime alloc flow policy) out.tries = 0
  bounded : requestsSent (refreshTries runtime alloc flow policy) out.tries ≤
    1 + (effectiveRetries policy).toNat
  repeats : ∀ k, k + 1 < out.tries → (refreshTries runtime alloc flow policy k).retryable = true
  counted : out.attempts.toNat = out.tries
  refreshed : out.state = .refreshed → out.status = .ok () ∧ ∃ next, out.flow = some next ∧
    RefreshedBy runtime flow policy (refreshTries runtime alloc flow policy (out.tries - 1)).answer next
  kept : out.state ≠ .refreshed → out.flow = some flow

/-- A refresh is attempted whose counter wraps: with the greatest number of retries, each of the
first `2 ^ 32 - 1` tries may be made again. -/
structure RefreshOverruns (runtime : Option (Runtime σ)) (alloc : EnsureAlloc) (flow : TokenFlow)
    (policy : TokenFlowPolicy) : Prop where
  due : RefreshDue flow policy
  now : 0 ≤ policy.now.toInt
  endpoint : policy.tokenEndpoint.isSome = true
  client : policy.clientId.isSome = true
  wraps : CounterWraps (refreshTries runtime alloc flow policy) (effectiveRetries policy)

theorem requestsSent_le (tries : ℕ → HttpTry) (n : ℕ) : requestsSent tries n ≤ n := by
  rw [requestsSent]
  exact List.countP_le_length.trans (List.length_range).le

/-- The last try leaves the flow, or the flow is that of its response. -/
theorem refreshFinish_cases (runtime : Option (Runtime σ)) (served : TokenField → Bool)
    (flow : TokenFlow) (policy : TokenFlowPolicy) (answer : Except Failure HttpResponse) :
    (∃ e, refreshFinish runtime served flow policy answer = (flow, .error e)) ∨
      ∃ next, refreshFinish runtime served flow policy answer = (next, .ok ()) ∧
        RefreshedBy runtime flow policy answer next := by
  unfold refreshFinish
  cases answer with
  | error e => exact .inl ⟨e, rfl⟩
  | ok response =>
      dsimp only
      cases hsuccess : httpRequireSuccess response "OAuth2 token endpoint" with
      | error e => exact .inl ⟨e, rfl⟩
      | ok _ =>
          dsimp only
          cases hparsed : tokenResponseParseJson runtime response.body policy.maxResponseBytes with
          | error e => exact .inl ⟨e, rfl⟩
          | ok parsed =>
              dsimp only
              rcases tokenFlowUpdateResponse_cases served flow parsed policy.now with
                hfailed | ⟨next, hnext, htaken⟩
              · exact .inl hfailed
              · exact .inr ⟨next, hnext, response, parsed, rfl, hsuccess, hparsed, htaken⟩

section

variable {runtime : Option (Runtime σ)} {alloc : EnsureAlloc} {flow : TokenFlow}
  {policy : TokenFlowPolicy}

/-- A call that makes no try keeps the law. -/
theorem law_of_no_tries {out : EnsureOutcome} (htries : out.tries = 0) (hattempts : out.attempts = 0)
    (hstate : out.state ≠ .refreshed) (hflow : out.flow = some flow) :
    EnsureLaw runtime alloc flow policy out where
  idle _ := by rw [htries]; rfl
  bounded := by rw [htries]; exact Nat.zero_le _
  repeats k hk := by omega
  counted := by rw [hattempts, htries]; rfl
  refreshed h := absurd h hstate
  kept _ := hflow

/-- What a call that refreshes makes of the tries it made. -/
def ensureRefreshed (runtime : Option (Runtime σ)) (alloc : EnsureAlloc) (flow : TokenFlow)
    (policy : TokenFlowPolicy) (r : ℕ × UInt32) : EnsureOutcome :=
  match refreshFinish runtime alloc.copy flow policy
      (refreshTries runtime alloc flow policy (r.1 - 1)).answer with
  | (next, .ok ()) => {
      flow := some next, status := .ok (), state := .refreshed, attempts := r.2, tries := r.1 }
  | (next, .error e) => { flow := some next, status := .error e, attempts := r.2, tries := r.1 }

/-- Either the call makes no try, or it is a refresh. -/
theorem tokenFlowEnsure_cases (runtime : Option (Runtime σ)) (alloc : EnsureAlloc)
    (flow : TokenFlow) (policy : TokenFlowPolicy) :
    (RefreshDue flow policy ∧ 0 ≤ policy.now.toInt ∧ policy.tokenEndpoint.isSome = true ∧
      policy.clientId.isSome = true ∧ ∀ fuel,
        tokenFlowEnsure runtime alloc (some flow) (some policy) fuel =
          (refreshLoop (refreshTries runtime alloc flow policy) (effectiveRetries policy) fuel 0 0).map
            (ensureRefreshed runtime alloc flow policy)) ∨
      ¬ (RefreshDue flow policy ∧ 0 ≤ policy.now.toInt ∧ policy.tokenEndpoint.isSome = true ∧
        policy.clientId.isSome = true) ∧
      ∃ out, (∀ fuel, tokenFlowEnsure runtime alloc (some flow) (some policy) fuel = some out) ∧
        EnsureLaw runtime alloc flow policy out := by
  have hidle (out : EnsureOutcome)
      (hrun : ∀ fuel, tokenFlowEnsure runtime alloc (some flow) (some policy) fuel = some out)
      (htries : out.tries = 0) (hattempts : out.attempts = 0) (hstate : out.state ≠ .refreshed)
      (hflow : out.flow = some flow) : ∃ out,
        (∀ fuel, tokenFlowEnsure runtime alloc (some flow) (some policy) fuel = some out) ∧
          EnsureLaw runtime alloc flow policy out :=
    ⟨out, hrun, law_of_no_tries htries hattempts hstate hflow⟩
  by_cases hnow : policy.now < 0
  · refine .inr ⟨fun h => ?_, hidle _ (fun _ => if_pos hnow) rfl rfl (fun h => by cases h) rfl⟩
    rw [Int64.lt_iff_toInt_lt] at hnow
    exact absurd h.2.1 (not_le.mpr hnow)
  have hnonneg : 0 ≤ policy.now.toInt := by
    rw [Int64.lt_iff_toInt_lt] at hnow
    exact not_lt.mp hnow
  by_cases hexpired : tokenFlowIsExpired flow policy.now policy.refreshSkewSeconds = false
  · refine .inr ⟨fun h => ?_, hidle _ (fun _ => (if_neg hnow).trans (if_pos hexpired)) rfl rfl
      (fun h => by cases h) rfl⟩
    rw [(tokenFlowIsExpired_iff flow policy).mpr h.1.unusable] at hexpired
    cases hexpired
  have hunusable : ¬ flow.Usable policy :=
    (tokenFlowIsExpired_iff flow policy).mp (Bool.eq_true_of_not_eq_false hexpired)
  by_cases hheld : policy.disableRefresh = true ∨ cstr (flow.refreshToken.getD []) = []
  · refine .inr ⟨fun h => ?_, hidle _
      (fun _ => (if_neg hnow).trans ((if_neg hexpired).trans (if_pos hheld))) rfl rfl
        (fun h => by cases h) rfl⟩
    rcases hheld with hdisabled | hnone
    · rw [h.1.allowed] at hdisabled
      cases hdisabled
    · exact h.1.held hnone
  obtain ⟨hallowed, htoken⟩ := not_or.mp hheld
  by_cases hgiven : policy.tokenEndpoint.isNone = true ∨ policy.clientId.isNone = true
  · refine .inr ⟨fun h => ?_, hidle _ (fun _ => (if_neg hnow).trans ((if_neg hexpired).trans
      ((if_neg hheld).trans (if_pos hgiven)))) rfl rfl (fun h => by cases h) rfl⟩
    rcases hgiven with hnone | hnone
    · exact absurd hnone (by rw [Option.isNone_eq_false_iff.mpr h.2.2.1]; decide)
    · exact absurd hnone (by rw [Option.isNone_eq_false_iff.mpr h.2.2.2]; decide)
  obtain ⟨hendpoint, hclient⟩ := not_or.mp hgiven
  refine .inl ⟨⟨hunusable, Bool.eq_false_iff.mpr hallowed, htoken⟩, hnonneg,
    Option.isNone_eq_false_iff.mp (Bool.eq_false_iff.mpr hendpoint),
    Option.isNone_eq_false_iff.mp (Bool.eq_false_iff.mpr hclient), fun fuel => ?_⟩
  exact (if_neg hnow).trans ((if_neg hexpired).trans ((if_neg hheld).trans (if_neg hgiven)))

theorem ensureRefreshed_counts (r : ℕ × UInt32) :
    (ensureRefreshed runtime alloc flow policy r).tries = r.1 ∧
      (ensureRefreshed runtime alloc flow policy r).attempts = r.2 := by
  unfold ensureRefreshed
  split <;> exact ⟨rfl, rfl⟩

/-- A refresh keeps the law when its counter does not wrap. -/
theorem ensureRefreshed_law (hdue : RefreshDue flow policy)
    (hwraps : ¬ CounterWraps (refreshTries runtime alloc flow policy) (effectiveRetries policy))
    {last : ℕ} (hbefore : ∀ k < last,
      Again (refreshTries runtime alloc flow policy) (effectiveRetries policy) k = true) :
    EnsureLaw runtime alloc flow policy
      (ensureRefreshed runtime alloc flow policy (last + 1, UInt32.ofNat (last + 1))) := by
  obtain ⟨hmax, hlast⟩ := loop_bounded hwraps hbefore
  have hshape (out : EnsureOutcome) (htries : out.tries = last + 1)
      (hattempts : out.attempts = UInt32.ofNat (last + 1))
      (hrefreshed : out.state = .refreshed → out.status = .ok () ∧ ∃ next, out.flow = some next ∧
        RefreshedBy runtime flow policy
          (refreshTries runtime alloc flow policy (out.tries - 1)).answer next)
      (hkept : out.state ≠ .refreshed → out.flow = some flow) :
      EnsureLaw runtime alloc flow policy out := by
    refine ⟨fun h => absurd hdue h, ?_, fun k hk => ?_, ?_, hrefreshed, hkept⟩
    · rw [htries]
      exact (requestsSent_le _ _).trans (by omega)
    · have hagain := hbefore k (by omega)
      exact (Bool.and_eq_true_iff.mp hagain).1
    · rw [hattempts, htries, UInt32.toNat_ofNat', Nat.mod_eq_of_lt (by omega)]
  unfold ensureRefreshed
  rcases refreshFinish_cases runtime alloc.copy flow policy
    (refreshTries runtime alloc flow policy (last + 1 - 1)).answer with
    ⟨e, hfinish⟩ | ⟨next, hfinish, hnext⟩
  · rw [hfinish]
    exact hshape _ rfl rfl (fun h => by cases h) (fun _ => rfl)
  · rw [hfinish]
    exact hshape _ rfl rfl (fun _ => ⟨rfl, next, rfl, hnext⟩) (fun h => absurd rfl h)

end

/-- Behind a call the law holds, and the call ends, exactly when the counter of the tries does not
wrap. -/
theorem tokenFlowEnsure_law_iff (runtime : Option (Runtime σ)) (alloc : EnsureAlloc)
    (flow : TokenFlow) (policy : TokenFlowPolicy) :
    (∃ fuel out, tokenFlowEnsure runtime alloc (some flow) (some policy) fuel = some out ∧
      EnsureLaw runtime alloc flow policy out) ↔ ¬ RefreshOverruns runtime alloc flow policy := by
  rcases tokenFlowEnsure_cases runtime alloc flow policy with
    ⟨hdue, hnow, hendpoint, hclient, hrun⟩ | ⟨hidle, out, hrun, hlaw⟩
  · have hiff : RefreshOverruns runtime alloc flow policy ↔
        CounterWraps (refreshTries runtime alloc flow policy) (effectiveRetries policy) :=
      ⟨fun h => h.wraps, fun h => ⟨hdue, hnow, hendpoint, hclient, h⟩⟩
    rw [hiff]
    constructor
    · rintro ⟨fuel, out, hout, hlaw⟩ hwraps
      rw [hrun] at hout
      obtain ⟨r, hr, rfl⟩ := Option.map_eq_some_iff.mp hout
      obtain ⟨last, -, -, hlast, rfl⟩ := refreshLoop_start.mp hr
      have hcounted := hlaw.counted
      rw [(ensureRefreshed_counts _).1, (ensureRefreshed_counts _).2, UInt32.toNat_ofNat'] at hcounted
      have hlt : last < 2 ^ 32 - 1 := by
        have hmod := Nat.mod_lt (last + 1) (show 0 < 2 ^ 32 by decide)
        dsimp only at hcounted
        omega
      have hagain := (again_iff hlt).mpr ⟨hwraps.2 last hlt, by rw [hwraps.1]; exact hlt⟩
      rw [hagain] at hlast
      cases hlast
    · intro hwraps
      obtain ⟨last, hbefore, hlast⟩ := loop_ends hwraps
      refine ⟨last + 1, _, ?_, ensureRefreshed_law hdue hwraps hbefore⟩
      rw [hrun, refreshLoop_start.mpr ⟨last, Nat.lt_succ_self last, hbefore, hlast, rfl⟩]
      rfl
  · refine iff_of_true ⟨0, out, hrun 0, hlaw⟩ fun h => ?_
    exact hidle ⟨h.due, h.now, h.endpoint, h.client⟩

/-! ## A server that is always busy -/

/-- The answer is always HTTP 503. -/
def busyRuntime : Runtime Unit where
  httpProvider := some { request := fun _ _ => { status := .ok, response := { statusCode := 503 } } }
  env := { maps := fun _ => { fields := [] }
           call := fun world _ error => (world, error, .ok)
           parseF64 := fun _ => none }
  world := ()

def staleFlow : TokenFlow := { refreshToken := some (ascii "r") }

def busyPolicy : TokenFlowPolicy where
  tokenEndpoint := some (ascii "https://a")
  clientId := some (ascii "c")
  maxRetries := 0xffffffff

/-- With the greatest number of retries the call never ends when each answer is HTTP 503. -/
theorem tokenFlowEnsure_busy :
    ¬ ∃ fuel r, tokenFlowEnsure (some busyRuntime) {} (some staleFlow) (some busyPolicy) fuel =
      some r := by
  rintro ⟨fuel, r, hr⟩
  have hsame (k : ℕ) : refreshTries (some busyRuntime) {} staleFlow busyPolicy k =
      refreshTries (some busyRuntime) {} staleFlow busyPolicy 0 := rfl
  have hbusy : (refreshTries (some busyRuntime) {} staleFlow busyPolicy 0).retryable = true := by
    decide +kernel
  have hmax : effectiveRetries busyPolicy = 0xffffffff := by decide +kernel
  have hagain (k : ℕ) : Again (refreshTries (some busyRuntime) {} staleFlow busyPolicy)
      (effectiveRetries busyPolicy) k = true := by
    have hle := (UInt32.ofNat (k + 1)).toNat_lt
    rw [Again, hsame, hbusy, hmax, Bool.true_and, decide_eq_true_eq, UInt32.le_iff_toNat_le]
    exact Nat.le_of_lt_succ hle
  rcases tokenFlowEnsure_cases (some busyRuntime) {} staleFlow busyPolicy with
    ⟨-, -, -, -, hrun⟩ | ⟨hidle, -⟩
  · rw [hrun, Option.map_eq_some_iff] at hr
    obtain ⟨attempt, hattempt, -⟩ := hr
    obtain ⟨last, -, -, hlast, -⟩ := refreshLoop_start.mp hattempt
    rw [hagain last] at hlast
    cases hlast
  · refine absurd ⟨⟨fun h => h.1 (by decide +kernel), rfl, by decide +kernel⟩, by decide +kernel,
      rfl, rfl⟩ hidle

end Lonejson
