import Lonejson.JwtSegments
import Lonejson.JwtVisit
import Lonejson.PathFlat

/-!
# What a compact token stands for

The relation between a compact token and the fields that the decoder leaves, and the decoder
against it.
-/

namespace Lonejson

open Json (Text Tree)

variable {alloc : ℕ → Bool} {mode : Bool} {runtime : JwtRuntime}

/-! ## One text -/

/-- The limits that a visit with this runtime has. -/
def JwtRuntime.valueLimits (runtime : JwtRuntime) : ValueLimits := runtime.limits.orDefault

/-- A text is an object whose registered members are in order, and the outputs hold them. -/
def JwtText (limits : ValueLimits) (mode : Bool) (json : Bytes) (out : JwtOutputs) : Prop :=
  ∃ ms, ReadsText limits (.object ms) json ∧ JwtObject mode ms out

/-- The visit of a text for a runtime. -/
def JwtRuntime.env (runtime : JwtRuntime) (json : Bytes) : VisitEnv :=
  { limits := runtime.valueLimits, length := json.length, window := id }

/-- The root before its first callback. -/
def jwtVisit (mode : Bool) (out : JwtOutputs) : JwtClaimVisit := { headerMode := mode, out }

section

variable {json : Bytes} {out : JwtOutputs} {io : JsonIo JwtClaimVisit}
  (hio : jsonVisitPaths (runtime.env json) (jwtClaimVisitor alloc) runtime.grants json
    { out := jwtVisit mode out } = io)
include hio

theorem jwtParse_ok (hstatus : io.status = .ok) (hroot : io.out.rootObjectSeen = true) :
    jwtParseDecodedJson (some runtime) alloc json mode out = (io.out.out, .ok ()) := by
  have hvisit : jsonVisitPaths
      { limits := runtime.limits.orDefault, length := json.length, window := id }
      (jwtClaimVisitor alloc) runtime.grants json
      { out := ({ headerMode := mode, out } : JwtClaimVisit) } = io := hio
  rw [jwtParseDecodedJson, hvisit, if_neg (not_not.mpr hstatus), hroot]
  rfl

theorem jwtParse_error (h : io.status ≠ .ok ∨ io.out.rootObjectSeen = false) :
    ∃ e, (jwtParseDecodedJson (some runtime) alloc json mode out).2 = .error e := by
  have hvisit : jsonVisitPaths
      { limits := runtime.limits.orDefault, length := json.length, window := id }
      (jwtClaimVisitor alloc) runtime.grants json
      { out := ({ headerMode := mode, out } : JwtClaimVisit) } = io := hio
  rw [jwtParseDecodedJson, hvisit]
  split
  · exact ⟨_, rfl⟩
  · next hstatus =>
      rw [h.resolve_left hstatus]
      exact ⟨_, rfl⟩

end

/-- The visit before its first callback. -/
def jwtStart (mode : Bool) (out : JwtOutputs) : JsonIo (JwtClaimVisit × Nest) :=
  { out := (jwtVisit mode out, []) }

/-- What a visit has come to, as the caller sees it. -/
def JwtEnds (alloc : ℕ → Bool) (runtime : JwtRuntime) (json : Bytes) (mode : Bool)
    (out : JwtOutputs) : JsonIo (JwtClaimVisit × Nest) :=
  jsonVisit (runtime.env json) (tracked (jwtClaimVisitor alloc)) json (jwtStart mode out)

theorem jwtStart_fresh {out : JwtOutputs} (hempty : ∀ m ∈ JwtMember.all mode, out.field m = {}) :
    JwtClaimVisit.Fresh mode (jwtStart mode out).out.1 :=
  ⟨rfl, rfl, rfl, rfl, hempty⟩

section

variable (hgrants : ∀ n, alloc n = true) (hstack : ∀ n, runtime.grants n = true)
  (hdepth : runtime.valueLimits.maxDepth < sizeMax) {json : Bytes} (hjson : json.length ≤ sizeMax)
  {out : JwtOutputs}
include hstack hdepth hjson

/-- The visit of the call is the one that keeps track of the containers around. -/
theorem jwtParse_visit :
    jsonVisitPaths (runtime.env json) (jwtClaimVisitor alloc) runtime.grants json
      { out := jwtVisit mode out } = (JwtEnds alloc runtime json mode out).user := by
  have hcapacity : (runtime.env json).limits.maxDepth < (runtime.env json).pathCapacity := by
    change runtime.valueLimits.maxDepth < (runtime.valueLimits.maxDepth + 1) % 2 ^ 64
    rw [sizeMax] at hdepth
    omega
  exact jsonVisitPaths_tracked hstack hcapacity hjson _

/-- The parse of a text that is an object. -/
theorem jwtParse_object (hgrants : ∀ n, alloc n = true)
    (hempty : ∀ m ∈ JwtMember.all mode, out.field m = {}) {ms : List (Text × Tree)}
    (hms : ReadsText runtime.valueLimits (.object ms) json) :
    ((jwtParseDecodedJson (some runtime) alloc json mode out).2 = .ok () ∧
      JwtObject mode ms (jwtParseDecodedJson (some runtime) alloc json mode out).1 ∧
      ∀ m ∉ JwtMember.all mode,
        (jwtParseDecodedJson (some runtime) alloc json mode out).1.field m = out.field m) ∨
    (∀ out', ¬ JwtObject mode ms out') ∧
      ∃ e, (jwtParseDecodedJson (some runtime) alloc json mode out).2 = .error e := by
  obtain ⟨es, hes, hvisit⟩ := @jsonVisit_feeds _ (runtime.env json)
    (tracked (jwtClaimVisitor alloc)) _ rfl _ hms
  have hends := hvisit (jwtStart mode out)
  have hfresh := jwtStart_fresh hempty
  rcases JwtClaimVisit.run_object hgrants hfresh hes (hms.bytes.trans hjson) with
    ⟨s', hrun, hroot, hobject, hother⟩ | ⟨hnone, e, hrun⟩
  · rcases JwtClaimVisit.feed_tracked es (jwtStart mode out) with
      ⟨x, status, hrun', hfeed, hstatus⟩ | ⟨f, io, hrun', -⟩
    · obtain rfl : (s', []) = x := Except.ok.inj (hrun.symm.trans hrun')
      have hends' : JwtEnds alloc runtime json mode out =
          { out := (s', []), error := (jwtStart mode out).error, status } := by
        rw [JwtEnds, hends, hfeed]
      have hparse := jwtParse_ok (jwtParse_visit
        hstack hdepth hjson) (by rw [hends']; exact hstatus rfl) (by rw [hends']; exact hroot)
      rw [hparse, hends']
      exact .inl ⟨rfl, hobject, hother⟩
    · have hboth := hrun'.symm.trans hrun
      cases hboth
  · refine .inr ⟨hnone, jwtParse_error (jwtParse_visit hstack hdepth hjson) (.inl ?_)⟩
    rcases JwtClaimVisit.feed_tracked es (jwtStart mode out) with
      ⟨x, status, hrun', -⟩ | ⟨f, io, -, hfeed, hsoft⟩
    · have hboth := hrun'.symm.trans hrun
      cases hboth
    · have hstatus : (JwtEnds alloc runtime json mode out).status = io.status := by
        rw [JwtEnds, hends, hfeed]
      intro hok
      rw [← hstatus, show (JwtEnds alloc runtime json mode out).status = .ok from hok] at hsoft
      cases hsoft

/-- A text that is parsed is an object. -/
theorem jwtParse_reads (hempty : ∀ m ∈ JwtMember.all mode, out.field m = {})
    (h : (jwtParseDecodedJson (some runtime) alloc json mode out).2 = .ok ()) :
    ∃ ms, ReadsText runtime.valueLimits (.object ms) json := by
  have hfresh := jwtStart_fresh hempty
  have hnot {p : Prop} (hfails : (JwtEnds alloc runtime json mode out).status ≠ .ok ∨
      (JwtEnds alloc runtime json mode out).out.1.rootObjectSeen = false) : p := by
    obtain ⟨e, he⟩ := jwtParse_error (jwtParse_visit hstack hdepth hjson) hfails
    rw [h] at he
    cases he
  by_cases hstatus : (JwtEnds alloc runtime json mode out).status = .ok
  · obtain ⟨t, ht⟩ := jsonVisit_reads rfl
      (show Status.soft (JwtEnds alloc runtime json mode out).status = true by rw [hstatus]; rfl)
    by_cases hobject : ∃ ms, t = .object ms
    · obtain ⟨ms, rfl⟩ := hobject
      exact ⟨ms, ht⟩
    · obtain ⟨es, hes, hvisit⟩ := jsonVisit_feeds
        (tracked (jwtClaimVisitor alloc)) rfl ht
      have hends := hvisit (jwtStart mode out)
      obtain ⟨nest, hrun⟩ := JwtClaimVisit.run_root hfresh.active hes
        fun ms heq => hobject ⟨ms, heq⟩
      rcases JwtClaimVisit.feed_tracked es (jwtStart mode out) with
        ⟨x, status, hrun', hfeed, -⟩ | ⟨f, io, hrun', -⟩
      · have hx : x = ((jwtStart mode out).out.1, nest) :=
          Except.ok.inj (hrun'.symm.trans hrun)
        apply hnot
        rw [JwtEnds, hends, hfeed, hx]
        exact .inr rfl
      · have hboth := hrun'.symm.trans hrun
        cases hboth
  · exact hnot (.inl hstatus)

/-- The parse of a text succeeds exactly if the text is an object in order, and then the outputs
hold its members. -/
theorem jwtParse_exact (hgrants : ∀ n, alloc n = true)
    (hempty : ∀ m ∈ JwtMember.all mode, out.field m = {}) :
    (∃ out₁, jwtParseDecodedJson (some runtime) alloc json mode out = (out₁, .ok ()) ∧
      JwtText runtime.valueLimits mode json out₁ ∧
      (∀ out', JwtText runtime.valueLimits mode json out' →
        ∀ m ∈ JwtMember.all mode, out'.field m = out₁.field m) ∧
      ∀ m ∉ JwtMember.all mode, out₁.field m = out.field m) ∨
    (∀ out', ¬ JwtText runtime.valueLimits mode json out') ∧
      ∃ e, (jwtParseDecodedJson (some runtime) alloc json mode out).2 = .error e := by
  have hobject {ms : List (Text × Tree)} (hms : ReadsText runtime.valueLimits (.object ms) json) :=
    jwtParse_object hstack hdepth hjson hgrants hempty hms
  cases hresult : (jwtParseDecodedJson (some runtime) alloc json mode out).2 with
  | ok u =>
      have hok {ms : List (Text × Tree)}
          (hms : ReadsText runtime.valueLimits (.object ms) json) :=
        (hobject hms).resolve_right fun h => by
          obtain ⟨-, e, he⟩ := h
          rw [hresult] at he
          cases he
      obtain ⟨ms, hms⟩ := jwtParse_reads hstack hdepth hjson hempty hresult
      refine .inl ⟨_, Prod.ext rfl hresult, ⟨ms, hms, (hok hms).2.1⟩, ?_, (hok hms).2.2⟩
      rintro out' ⟨ms', hms', hobject'⟩ m hm
      exact (hobject'.holds m hm).unique ((hok hms').2.1.holds m hm)
  | error e =>
      refine .inr ⟨fun out' htext => ?_, e, rfl⟩
      obtain ⟨ms, hms, hobject'⟩ := htext
      rcases hobject hms with ⟨hok, -⟩ | ⟨hnone, -⟩
      · rw [hresult] at hok
        cases hok
      · exact hnone out' hobject'

end

/-- No callback outside the object does anything. -/
theorem jwtClaimVisitor_root {out : JwtOutputs} (s : JwtClaimVisit) (event : VisitEvent)
    (error : ErrorInfo) (h : s = jwtVisit mode out) (hevent : event ≠ .objectBegin) :
    (jwtClaimVisitor alloc s [] event error).1 = jwtVisit mode out := by
  have hroot : jwtPathIsRegistered s.headerMode [] = false := by
    cases s.headerMode <;> decide
  have hactive : s.active = .none := by
    rw [h]
    rfl
  rw [jwtClaimVisitor, JwtClaimVisit.event_unregistered hactive hroot fun _ => hevent]
  exact h

section

variable (hstack : ∀ n, runtime.grants n = true)
  (hdepth : runtime.valueLimits.maxDepth = sizeMax) {json : Bytes} {out : JwtOutputs}
include hstack

/-- An object without members is parsed with any room on the stack. -/
theorem jwtParse_emptyObject (h : ReadsText runtime.valueLimits (.object []) json) :
    jwtParseDecodedJson (some runtime) alloc json mode out = (out, .ok ()) := by
  have hvisit := @jsonVisitPaths_emptyObject _ (runtime.env json) (jwtClaimVisitor alloc) _ _
    { out := jwtVisit mode out } hstack rfl h _ _ rfl rfl
  exact jwtParse_ok hvisit rfl rfl

include hdepth

/-- With no room on the stack, an object without members is all that can be parsed. -/
theorem jwtParse_flat (h : ¬ ReadsText runtime.valueLimits (.object []) json) :
    ∃ e, (jwtParseDecodedJson (some runtime) alloc json mode out).2 = .error e := by
  have hcapacity : (runtime.env json).pathCapacity = 0 := by
    change (runtime.valueLimits.maxDepth + 1) % 2 ^ 64 = 0
    rw [hdepth]
    rfl
  have hdeep : 0 < (runtime.env json).limits.maxDepth := by
    change 0 < runtime.valueLimits.maxDepth
    rw [hdepth]
    decide
  have hvisit := @jsonVisitPaths_root _ _ (jwtClaimVisitor alloc) _ (· = jwtVisit mode out) _
    { out := jwtVisit mode out } hcapacity
    (fun s event error hs hevent => jwtClaimVisitor_root s event error hs hevent) hstack rfl hdeep rfl
  apply jwtParse_error rfl
  by_cases hstatus : (jsonVisitPaths (runtime.env json) (jwtClaimVisitor alloc) runtime.grants json
      { out := jwtVisit mode out }).status = .ok
  · rcases hvisit (by rw [hstatus]; rfl) with hsame | hempty
    · rw [hsame]
      exact .inr rfl
    · exact absurd hempty h
  · exact .inl hstatus

end

/-! ## The checks of the header -/

/-- Thumbprints and certificates are texts of base64. -/
structure JwtThumbprints (header : JwtHeader) : Prop where
  x5t : ∀ value, header.x5t = some value → ∃ data, Base64Reads .urlRaw value data
  x5tS256 : ∀ value, header.x5tS256 = some value → ∃ data, Base64Reads .urlRaw value data
  x5c : ∀ value ∈ header.x5c.items, ∃ data, Base64Reads .standard value data

theorem jwkDecodedLen_iff {value : Bytes} (hnul : 0 ∉ value) (variant : Base64Variant)
    (message : String) :
    jwkDecodedLen value variant message = .ok () ↔ ∃ data, Base64Reads variant value data := by
  rw [← base64DecodedLen_iff, jwkDecodedLen, cstr_of_notMem hnul]
  cases base64DecodedLen value variant with
  | ok n => simp
  | error failure => simp

theorem jwkCheckBase64url_iff {value : Option Bytes} (hnul : ∀ text, value = some text → 0 ∉ text)
    (member : String) : jwkCheckBase64url value member false = .ok () ↔
      ∀ text, value = some text → ∃ data, Base64Reads .urlRaw text data := by
  cases value with
  | none => simp [jwkCheckBase64url]
  | some text =>
      rw [jwkCheckBase64url, if_neg (by simp), jwkDecodedLen_iff (hnul text rfl)]
      simp

/-- Two checks, one after the other. -/
theorem checks_eq_ok {ε : Type} {x y : Except ε Unit} :
    (x.bind fun _ => y) = .ok () ↔ x = .ok () ∧ y = .ok () := by
  cases x with
  | error e =>
      refine ⟨(fun h => by cases h), fun h => ?_⟩
      cases h.1
  | ok u => exact ⟨fun h => ⟨rfl, h⟩, fun h => h.2⟩

theorem forM_eq_ok {ε α : Type} {f : α → Except ε Unit} {items : List α} :
    items.forM f = .ok () ↔ ∀ item ∈ items, f item = .ok () := by
  induction items with
  | nil => exact ⟨fun _ => by simp, fun _ => rfl⟩
  | cons item items ih =>
      change ((f item).bind fun _ => items.forM f) = .ok () ↔ _
      rw [checks_eq_ok, ih, List.forall_mem_cons]

theorem jwkCheckAll_iff {items : List Bytes} (hnul : ∀ item ∈ items, 0 ∉ item) :
    (items.forM fun item => jwkCheckBase64 (some item) "x5c") = .ok () ↔
      ∀ item ∈ items, ∃ data, Base64Reads .standard item data := by
  rw [forM_eq_ok]
  refine forall₂_congr fun item hitem => ?_
  exact jwkDecodedLen_iff (hnul item hitem) _ _

/-- The texts of a field have no NUL. -/
theorem JwtMember.Holds.no_nul {m : JwtMember} {t : Option Tree} {field : JwtField}
    (h : m.Holds t field) :
    (∀ text, field.text = some text → 0 ∉ text) ∧ ∀ item ∈ field.items, 0 ∉ item := by
  cases h with
  | absent => simp
  | text _ _ hvalue => simpa using hvalue
  | scope _ hvalue => simpa using hvalue
  | items _ hvalues => simpa using hvalues
  | date => simp

theorem jwtHeaderValidate_iff {limits : ValueLimits} {json : Bytes} {out : JwtOutputs}
    (h : JwtText limits true json out) :
    jwtHeaderValidate out.header = .ok () ↔ JwtThumbprints out.header := by
  obtain ⟨ms, -, hobject⟩ := h
  have hx5t := (hobject.holds .x5t (by decide)).no_nul.1
  have hx5tS256 := (hobject.holds .x5tS256 (by decide)).no_nul.1
  have hx5c := (hobject.holds .x5c (by decide)).no_nul.2
  have hfirst := jwkCheckBase64url_iff hx5t "x5t"
  have hsecond := jwkCheckBase64url_iff hx5tS256 "x5t#S256"
  have hthird := jwkCheckAll_iff hx5c
  change ((jwkCheckBase64url out.header.x5t "x5t" false).bind fun _ =>
    (jwkCheckBase64url out.header.x5tS256 "x5t#S256" false).bind fun _ =>
      out.header.x5c.items.forM _) = _ ↔ _
  rw [checks_eq_ok, checks_eq_ok]
  constructor
  · rintro ⟨h₁, h₂, h₃⟩
    exact ⟨hfirst.mp h₁, hsecond.mp h₂, hthird.mp h₃⟩
  · intro h
    exact ⟨hfirst.mpr h.x5t, hsecond.mpr h.x5tS256, hthird.mpr h.x5c⟩

/-! ## Both texts -/

/-- The two texts of a token and what the outputs hold of them. -/
structure JwtTexts (limits : ValueLimits) (headerJson claimsJson : Bytes) (out : JwtOutputs) :
    Prop where
  header : JwtText limits true headerJson out
  thumbprints : JwtThumbprints out.header
  claims : JwtText limits false claimsJson out

theorem jwtText_congr {limits : ValueLimits} {json : Bytes} {out out' : JwtOutputs}
    (hfields : ∀ m ∈ JwtMember.all mode, out'.field m = out.field m)
    (h : JwtText limits mode json out) : JwtText limits mode json out' := by
  obtain ⟨ms, hms, hobject⟩ := h
  exact ⟨ms, hms, hobject.once, fun m hm => hfields m hm ▸ hobject.holds m hm⟩

theorem jwtThumbprints_congr {out out' : JwtOutputs}
    (hfields : ∀ m ∈ JwtMember.all true, out'.field m = out.field m)
    (h : JwtThumbprints out.header) : JwtThumbprints out'.header := by
  have hx5t : out'.header.x5t = out.header.x5t :=
    congrArg JwtField.text (hfields .x5t (by decide))
  have hx5tS256 : out'.header.x5tS256 = out.header.x5tS256 :=
    congrArg JwtField.text (hfields .x5tS256 (by decide))
  have hx5c : out'.header.x5c.items = out.header.x5c.items :=
    congrArg JwtField.items (hfields .x5c (by decide))
  exact ⟨fun value hvalue => h.x5t value (hx5t ▸ hvalue),
    fun value hvalue => h.x5tS256 value (hx5tS256 ▸ hvalue),
    fun value hvalue => h.x5c value (hx5c ▸ hvalue)⟩

/-- No member is looked for in both texts. -/
theorem not_both : ∀ mode, ∀ m ∈ JwtMember.all mode, m ∉ JwtMember.all !mode := by
  decide

theorem field_empty (m : JwtMember) : ({} : JwtOutputs).field m = {} := by
  cases m <;> rfl

/-- Both objects of a token are without members. -/
def JwtBareTexts (limits : ValueLimits) (headerJson claimsJson : Bytes) : Prop :=
  ReadsText limits (.object []) headerJson ∧ ReadsText limits (.object []) claimsJson

section

variable (hstack : ∀ n, runtime.grants n = true) {headerJson claimsJson : Bytes}
include hstack

theorem jwtParseTexts_exact (hgrants : ∀ n, alloc n = true) (hdepth : runtime.valueLimits.maxDepth < sizeMax)
    (hheader : headerJson.length ≤ sizeMax) (hclaims : claimsJson.length ≤ sizeMax) :
    (∃ out, jwtParseTexts (some runtime) alloc headerJson claimsJson = (out, .ok ()) ∧
      JwtTexts runtime.valueLimits headerJson claimsJson out) ∨
    (∀ out, ¬ JwtTexts runtime.valueLimits headerJson claimsJson out) ∧
      ∃ e, (jwtParseTexts (some runtime) alloc headerJson claimsJson).2 = .error e := by
  rcases jwtParse_exact hstack hdepth hheader hgrants fun m _ => field_empty m with
    ⟨out₁, hparse, htext, hunique, hother⟩ | ⟨hnone, e, he⟩
  · rw [jwtParseTexts, hparse]
    dsimp only
    cases hvalidate : jwtHeaderValidate out₁.header with
    | error e =>
        refine .inr ⟨fun out hout => ?_, e, rfl⟩
        have hsame (m : JwtMember) (hm : m ∈ JwtMember.all true) : out₁.field m = out.field m :=
          (hunique out hout.header m hm).symm
        rw [(jwtHeaderValidate_iff htext).mpr (jwtThumbprints_congr hsame hout.thumbprints)]
          at hvalidate
        cases hvalidate
    | ok u =>
        have hempty (m : JwtMember) (hm : m ∈ JwtMember.all false) : out₁.field m = {} :=
          (hother m (not_both false m hm)).trans (field_empty m)
        have hthumbprints := (jwtHeaderValidate_iff htext).mp hvalidate
        dsimp only
        rcases jwtParse_exact hstack hdepth hclaims hgrants hempty with
          ⟨out₂, hparse', htext', -, hother'⟩ | ⟨hnone, herror⟩
        · have hsame (m : JwtMember) (hm : m ∈ JwtMember.all true) :
              out₂.field m = out₁.field m := hother' m (not_both true m hm)
          rw [hparse']
          exact .inl ⟨out₂, rfl, jwtText_congr hsame htext,
            jwtThumbprints_congr hsame hthumbprints, htext'⟩
        · exact .inr ⟨fun out hout => hnone out hout.claims, herror⟩
  · refine .inr ⟨fun out hout => hnone out hout.header, e, ?_⟩
    rw [jwtParseTexts, he]

theorem jwtParseTexts_bare (h : JwtBareTexts runtime.valueLimits headerJson claimsJson) :
    jwtParseTexts (some runtime) alloc headerJson claimsJson = ({}, .ok ()) ∧
      JwtTexts runtime.valueLimits headerJson claimsJson {} := by
  have hobject (mode : Bool) : JwtObject mode [] {} :=
    ⟨fun m _ => by simp, fun m _ => field_empty m ▸ .absent⟩
  refine ⟨?_, ⟨⟨[], h.1, hobject true⟩, ⟨by simp, by simp, by simp⟩, ⟨[], h.2, hobject false⟩⟩⟩
  rw [jwtParseTexts, jwtParse_emptyObject hstack h.1]
  exact jwtParse_emptyObject hstack h.2

/-- With no room on the stack, the two objects have no members, or one of them is refused. -/
theorem jwtParseTexts_flat (hdepth : runtime.valueLimits.maxDepth = sizeMax)
    (h : ¬ JwtBareTexts runtime.valueLimits headerJson claimsJson) :
    ∃ e, (jwtParseTexts (some runtime) alloc headerJson claimsJson).2 = .error e := by
  by_cases hheader : ReadsText runtime.valueLimits (.object []) headerJson
  · rw [jwtParseTexts, jwtParse_emptyObject hstack hheader]
    exact jwtParse_flat hstack hdepth fun hclaims => h ⟨hheader, hclaims⟩
  · obtain ⟨e, he⟩ := jwtParse_flat hstack hdepth
      hheader
    refine ⟨e, ?_⟩
    rw [jwtParseTexts, he]

end

/-! ## The call -/

/-- What a compact token stands for, within the limits on its decoded texts. -/
def JwtToken (limits : ValueLimits) (policy : Option JwtLimits) (token : Bytes)
    (out : JwtOutputs) : Prop :=
  ∃ headerJson claimsJson, JwtSegments token headerJson claimsJson ∧
    headerJson.length ≤ (policy.getD {}).headerLimit ∧
    claimsJson.length ≤ (policy.getD {}).claimsLimit ∧
    JwtTexts limits.orDefault headerJson claimsJson out

/-- Both objects of a token are without members. -/
def JwtBare (limits : ValueLimits) (token : Bytes) : Prop :=
  ∃ headerJson claimsJson, JwtSegments token headerJson claimsJson ∧
    JwtBareTexts limits.orDefault headerJson claimsJson

/-- A token of `len` bytes is longer than the caller allows. -/
def JwtOver (policy : Option JwtLimits) (len : ℕ) : Prop :=
  (policy.getD {}).maxTokenBytes ≠ 0 ∧ len > (policy.getD {}).maxTokenBytes

/-- Decoding is exact. -/
structure JwtExact (limits : ValueLimits) (policy : Option JwtLimits) (token : Option Bytes)
    (len : ℕ) (header : JwtHeader) (claims : JwtClaims) : Prop where
  accepts : ∀ bytes alloc grants, token = some bytes → (∀ n, alloc n = true) →
    (∀ n, grants n = true) → ¬ JwtOver policy len →
    ((jwtDecodeCompact (some { limits, grants }) alloc token len policy (some header)
      (some claims)).1 = .ok () ↔ ∃ out, JwtToken limits policy bytes out)
  fields : ∀ bytes alloc grants, token = some bytes → (∀ n, alloc n = true) →
    (∀ n, grants n = true) → ∀ header' claims',
    jwtDecodeCompact (some { limits, grants }) alloc token len policy (some header)
      (some claims) = (.ok (), some header', some claims') →
    JwtToken limits policy bytes { header := header', claims := claims' }
  cleans : ∀ alloc runtime e,
    (jwtDecodeCompact runtime alloc token len policy (some header) (some claims)).1 = .error e →
    (jwtDecodeCompact runtime alloc token len policy (some header) (some claims)).2 =
      (some {}, some {})

variable {limits : ValueLimits} {policy : Option JwtLimits} {token : Option Bytes} {bytes : Bytes}
  {len : ℕ} {out : JwtOutputs} {grants : ℕ → Bool}

theorem ReadsText.ne_nil {t : Tree} {text : Bytes} (h : ReadsText limits t text) : text ≠ [] := by
  obtain ⟨⟨hi, ht, -⟩, -⟩ := h
  have hspace := hi.length
  have hvalue := ht.length strictLexis_lawful
  intro hnil
  rw [hnil, List.length_nil] at hspace
  omega

theorem JwtText.ne_nil {json : Bytes} (h : JwtText limits mode json out) : json ≠ [] := by
  obtain ⟨ms, hms, -⟩ := h
  exact hms.ne_nil

/-- Within the limit, the outputs are those of the two texts, or empty. -/
theorem jwtDecodeInto_within (h : ¬ JwtOver policy len) (runtime : Option JwtRuntime) :
    (∃ headerJson claimsJson out',
      jwtDecodeSegments alloc (policy.getD {}) token = .ok (headerJson, claimsJson) ∧
      jwtParseTexts runtime alloc headerJson claimsJson = (out', .ok ()) ∧
      jwtDecodeInto runtime alloc token len policy out = (out', .ok ())) ∨
    (∀ headerJson claimsJson,
      jwtDecodeSegments alloc (policy.getD {}) token = .ok (headerJson, claimsJson) →
      ∃ e, (jwtParseTexts runtime alloc headerJson claimsJson).2 = .error e) ∧
      ∃ e, jwtDecodeInto runtime alloc token len policy out = ({}, .error e) := by
  have hover : ¬ ((policy.getD {}).maxTokenBytes ≠ 0 ∧ len > (policy.getD {}).maxTokenBytes) := h
  rw [jwtDecodeInto]
  dsimp only
  rw [if_neg hover]
  cases hsegments : jwtDecodeSegments alloc (policy.getD {}) token with
  | error e => exact .inr ⟨(fun _ _ h => by cases h), e, rfl⟩
  | ok texts =>
      obtain ⟨headerJson, claimsJson⟩ := texts
      dsimp only
      cases hparse : jwtParseTexts runtime alloc headerJson claimsJson with
      | mk out' result =>
          cases result with
          | error e =>
              refine .inr ⟨fun _ _ h => ?_, e, rfl⟩
              cases h
              exact ⟨e, by rw [hparse]⟩
          | ok u => exact .inl ⟨headerJson, claimsJson, out', rfl, hparse, rfl⟩

/-- Above the limit, nothing is touched. -/
theorem jwtDecodeInto_over (h : JwtOver policy len) (runtime : Option JwtRuntime) :
    ∃ e, jwtDecodeInto runtime alloc token len policy out = (out, .error e) := by
  have hover : (policy.getD {}).maxTokenBytes ≠ 0 ∧ len > (policy.getD {}).maxTokenBytes := h
  rw [jwtDecodeInto]
  dsimp only
  rw [if_pos hover]
  exact ⟨_, rfl⟩

theorem jwtDecodeInto_cleans {runtime : Option JwtRuntime} {e : Failure}
    (h : ¬ JwtOver policy len) (herror : (jwtDecodeInto runtime alloc token len policy out).2 =
      .error e) : (jwtDecodeInto runtime alloc token len policy out).1 = {} := by
  rcases jwtDecodeInto_within h runtime with
    ⟨_, _, out', -, -, hcall⟩ | ⟨-, e', hcall⟩
  · rw [hcall] at herror
    cases herror
  · rw [hcall]

section

variable (hgrants : ∀ n, alloc n = true) (hstack : ∀ n, grants n = true)
  (hbytes : bytes.length ≤ sizeMax) (hover : ¬ JwtOver policy len)
include hgrants hstack hbytes hover

theorem jwtDecodeInto_exact (hdepth : limits.orDefault.maxDepth < sizeMax) :
    (∃ out', jwtDecodeInto (some { limits, grants }) alloc (some bytes) len policy out =
        (out', .ok ()) ∧ JwtToken limits policy bytes out') ∨
      (∀ out', ¬ JwtToken limits policy bytes out') ∧
        ∃ e, jwtDecodeInto (some { limits, grants }) alloc (some bytes) len policy out =
          ({}, .error e) := by
  rcases jwtDecodeInto_within hover
    (some { limits, grants }) with
    ⟨headerJson, claimsJson, out', hsegments, hparse, hcall⟩ | ⟨hnone, e, hcall⟩
  · obtain ⟨hsplit, hheader, hclaims⟩ := jwtDecodeSegments_ok hsegments
    obtain ⟨hheader', hclaims'⟩ := hsplit.length_le
    rcases @jwtParseTexts_exact _ { limits, grants } hstack _ _ hgrants hdepth
      (hheader'.trans hbytes) (hclaims'.trans hbytes) with ⟨out'', hparse', htexts⟩ | ⟨-, e, he⟩
    · obtain rfl : out'' = out' := congrArg Prod.fst (hparse'.symm.trans hparse)
      exact .inl ⟨out'', hcall, headerJson, claimsJson, hsplit, hheader, hclaims, htexts⟩
    · rw [hparse] at he
      cases he
  · refine .inr ⟨fun out' htoken => ?_, e, hcall⟩
    obtain ⟨headerJson, claimsJson, hsplit, hheader, hclaims, htexts⟩ := htoken
    obtain ⟨hheader', hclaims'⟩ := hsplit.length_le
    obtain ⟨e', he'⟩ := hnone headerJson claimsJson (jwtDecodeSegments_of hgrants hsplit
      htexts.header.ne_nil htexts.claims.ne_nil hheader hclaims)
    rcases @jwtParseTexts_exact _ { limits, grants } hstack _ _ hgrants hdepth
      (hheader'.trans hbytes) (hclaims'.trans hbytes) with ⟨out'', hparse', -⟩ | ⟨hno, -⟩
    · rw [hparse'] at he'
      cases he'
    · exact hno out' htexts

omit hbytes in
/-- With no room on the stack, only tokens with two objects without members are accepted. -/
theorem jwtDecodeInto_flat (hdepth : limits.orDefault.maxDepth = sizeMax) :
    (∃ out', jwtDecodeInto (some { limits, grants }) alloc (some bytes) len policy out =
        (out', .ok ()) ∧ JwtToken limits policy bytes out' ∧ JwtBare limits bytes) ∨
      (∀ out', JwtToken limits policy bytes out' → ¬ JwtBare limits bytes) ∧
        ∃ e, jwtDecodeInto (some { limits, grants }) alloc (some bytes) len policy out =
          ({}, .error e) := by
  rcases jwtDecodeInto_within hover
    (some { limits, grants }) with
    ⟨headerJson, claimsJson, out', hsegments, hparse, hcall⟩ | ⟨hnone, e, hcall⟩
  · obtain ⟨hsplit, hheader, hclaims⟩ := jwtDecodeSegments_ok hsegments
    by_cases hbare : JwtBareTexts limits.orDefault headerJson claimsJson
    · obtain ⟨hparse', htexts⟩ := @jwtParseTexts_bare alloc
        { limits, grants } hstack _ _ hbare
      obtain rfl : {} = out' := congrArg Prod.fst (hparse'.symm.trans hparse)
      exact .inl ⟨{}, hcall, ⟨headerJson, claimsJson, hsplit, hheader, hclaims, htexts⟩,
        headerJson, claimsJson, hsplit, hbare⟩
    · obtain ⟨e, he⟩ := @jwtParseTexts_flat alloc { limits, grants } hstack
        _ _ hdepth hbare
      rw [hparse] at he
      cases he
  · refine .inr ⟨fun out' htoken hbare => ?_, e, hcall⟩
    obtain ⟨headerJson, claimsJson, hsplit, hheader, hclaims, htexts⟩ := htoken
    obtain ⟨headerJson', claimsJson', hsplit', hbare⟩ := hbare
    obtain ⟨rfl, rfl⟩ := hsplit.unique hsplit' htexts.header.ne_nil htexts.claims.ne_nil
      hbare.1.ne_nil hbare.2.ne_nil
    obtain ⟨e', he'⟩ := hnone headerJson claimsJson (jwtDecodeSegments_of hgrants hsplit
      htexts.header.ne_nil htexts.claims.ne_nil hheader hclaims)
    obtain ⟨hparse', -⟩ := @jwtParseTexts_bare alloc { limits, grants }
      hstack _ _ hbare
    rw [hparse'] at he'
    cases he'

end

/-- The two ways in which a call within the length limit ends. -/
theorem jwtDecodeInto_ends (hgrants : ∀ n, alloc n = true) (hstack : ∀ n, grants n = true)
    (hdepth : limits.orDefault.maxDepth ≤ sizeMax) (hbytes : bytes.length ≤ sizeMax)
    (hover : ¬ JwtOver policy len)
    (hbare : limits.orDefault.maxDepth = sizeMax → ∀ out, JwtToken limits policy bytes out →
      JwtBare limits bytes) :
    (∃ out', jwtDecodeInto (some { limits, grants }) alloc (some bytes) len policy out =
        (out', .ok ()) ∧ JwtToken limits policy bytes out') ∨
      (∀ out', ¬ JwtToken limits policy bytes out') ∧
        ∃ e, jwtDecodeInto (some { limits, grants }) alloc (some bytes) len policy out =
          ({}, .error e) := by
  rcases Nat.lt_or_eq_of_le hdepth with hroom | hfull
  · exact jwtDecodeInto_exact hgrants hstack hbytes hover hroom
  · rcases jwtDecodeInto_flat hgrants hstack hover hfull with
      ⟨out', hcall, htoken, -⟩ | ⟨hnone, herror⟩
    · exact .inl ⟨out', hcall, htoken⟩
    · exact .inr ⟨fun out' htoken => hnone out' htoken (hbare hfull out' htoken), herror⟩

end Lonejson
