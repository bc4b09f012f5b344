import Lonejson.FormEncoding

/-!
# The query of an authorization callback

`lonejson_oidc_authorization_callback_parse_query` reads the pairs of a query one after the other,
decodes them and keeps five of them. A query that is the body of a form gives back the parameters
that were appended to it.
-/

namespace Lonejson

/-! ## The parser -/

/-- The parameters that a callback keeps. -/
inductive CallbackField where
  | code
  | state
  | error
  | errorDescription
  | errorUri
  deriving DecidableEq, Repr

/-- The names, in the order in which a key is compared with them. -/
def CallbackField.all : List CallbackField := [.code, .state, .error, .errorDescription, .errorUri]

def CallbackField.name : CallbackField → Bytes
  | .code => ascii "code"
  | .state => ascii "state"
  | .error => ascii "error"
  | .errorDescription => ascii "error_description"
  | .errorUri => ascii "error_uri"

/-- `lonejson_oidc_authorization_callback`; `none` is `NULL`. -/
structure AuthorizationCallback where
  code : Option Bytes := none
  state : Option Bytes := none
  error : Option Bytes := none
  errorDescription : Option Bytes := none
  errorUri : Option Bytes := none
  deriving DecidableEq, Repr

def AuthorizationCallback.get (cb : AuthorizationCallback) : CallbackField → Option Bytes
  | .code => cb.code
  | .state => cb.state
  | .error => cb.error
  | .errorDescription => cb.errorDescription
  | .errorUri => cb.errorUri

def AuthorizationCallback.set (cb : AuthorizationCallback) (field : CallbackField)
    (value : Option Bytes) : AuthorizationCallback :=
  match field with
  | .code => { cb with code := value }
  | .state => { cb with state := value }
  | .error => { cb with error := value }
  | .errorDescription => { cb with errorDescription := value }
  | .errorUri => { cb with errorUri := value }

theorem AuthorizationCallback.get_set (cb : AuthorizationCallback) (field other : CallbackField)
    (value : Option Bytes) :
    (cb.set field value).get other = if other = field then value else cb.get other := by
  cases field <;> cases other <;> rfl

theorem AuthorizationCallback.ext_get {cb cb' : AuthorizationCallback}
    (h : ∀ field, cb.get field = cb'.get field) : cb = cb' := by
  obtain ⟨code, state, error, description, uri⟩ := cb
  obtain ⟨code', state', error', description', uri'⟩ := cb'
  obtain rfl : code = code' := h .code
  obtain rfl : state = state' := h .state
  obtain rfl : error = error' := h .error
  obtain rfl : description = description' := h .errorDescription
  obtain rfl : uri = uri' := h .errorUri
  rfl

theorem CallbackField.name_injective : Function.Injective CallbackField.name := by
  intro field other h
  cases field <;> cases other <;> first | rfl | exact absurd h (by decide)

/-- The requests for memory of one call; each of them is made at most once. The pair is named by
what is left of the query in front of it. -/
inductive CallbackRequest where
  | key (left length : ℕ)
  | value (left length : ℕ)
  | parameter (left : ℕ)

/-- `lonejson__oidc_callback_reject_nul`. -/
def callbackRejectNul (value : Bytes) (kind : String) : Except Failure Unit :=
  if 0 ∈ value then .error { code := .invalidJson, message := kind ++ " contains a NUL byte" }
  else .ok ()

/-- `lonejson__oidc_callback_assign`. -/
def callbackAssign (served : Bool) (dst : Option Bytes) (value : Bytes) :
    Except Failure (Option Bytes) :=
  if dst.isSome then
    .error { code := .duplicateField, message := "duplicate callback query parameter" }
  else if served then .ok (some value)
  else .error { code := .allocationFailed, message := "failed to allocate callback parameter" }

/-- The comparisons of a key with the names. -/
def callbackKeep (served : Bool) (out : AuthorizationCallback) (key value : Bytes) :
    Except Failure AuthorizationCallback :=
  match CallbackField.all.find? fun field => cstr key == field.name with
  | some field => do
    let dst ← callbackAssign served (out.get field) value
    .ok (out.set field dst)
  | none => .ok out

/-- A pair with a key, of which `left` bytes and what follows them are left. -/
def callbackPair (alloc : CallbackRequest → Bool) (left : ℕ) (out : AuthorizationCallback)
    (rawKey rawValue : Bytes) : Except Failure AuthorizationCallback := do
  let key ← percentDecode (fun length => alloc (.key left length)) rawKey
  let value ← percentDecode (fun length => alloc (.value left length)) rawValue
  callbackRejectNul key "callback query parameter"
  callbackRejectNul value "callback query parameter value"
  callbackKeep (alloc (.parameter left)) out key value

/-- The bytes that end a key. -/
def endsKey (ch : Byte) : Bool := ch == 0x3d || ch == 0x26

/-- The value of a pair, and what is left with its ampersand, behind the key. -/
def nextValue : Bytes → Bytes × Bytes
  | [] => ([], [])
  | ch :: rest =>
    if ch = 0x3d then (rest.takeWhile (· != 0x26), rest.dropWhile (· != 0x26))
    else ([], ch :: rest)

/-- One pair of a query: its key, its value, and what is left; nothing is left when the position
passed the end. -/
def nextPair (rest : Bytes) : Bytes × Bytes × Option Bytes :=
  let (value, next) := nextValue (rest.dropWhile (!endsKey ·))
  (rest.takeWhile (!endsKey ·), value, if next = [] then none else some next.tail)

/-- The loop over the pairs. -/
def callbackLoop (alloc : CallbackRequest → Bool) :
    ℕ → AuthorizationCallback → Option Bytes → Except Failure AuthorizationCallback
  | _, out, none => .ok out
  | 0, out, some _ => .ok out
  | fuel + 1, out, some rest =>
    let (key, value, next) := nextPair rest
    if key = [] then callbackLoop alloc fuel out next
    else do
      let out ← callbackPair alloc rest.length out key value
      callbackLoop alloc fuel out next

/-- The checks behind the loop. -/
def callbackCheck (out : AuthorizationCallback) (expectedState : Bytes) : Except Failure Unit :=
  if out.error.isSome then
    .error { code := .typeMismatch, message := "authorization callback returned an error" }
  else if out.state.map cstr ≠ some (cstr expectedState) then
    .error { code := .typeMismatch, message := "authorization callback state mismatch" }
  else if cstr (out.code.getD []) = [] then
    .error { code := .invalidJson, message := "authorization callback code is required" }
  else .ok ()

/-- `LONEJSON__OIDC_DEFAULT_MAX_CALLBACK_QUERY_BYTES`, unless the caller gives a limit. -/
def callbackLimit (maxQueryBytes : ℕ) : ℕ := if maxQueryBytes = 0 then 16 * 1024 else maxQueryBytes

def callbackArguments : Failure where
  code := .invalidArgument
  message := "callback query, expected_state, and output are required"

/-- `lonejson_oidc_authorization_callback_parse_query`. A query of `none` is `NULL` with a length
that is not zero. -/
def callbackParseQuery (alloc : CallbackRequest → Bool) (query expectedState : Option Bytes)
    (maxQueryBytes : ℕ) (out : Option AuthorizationCallback) :
    Option AuthorizationCallback × Except Failure Unit :=
  match out, expectedState, query with
  | some old, some expected, some query =>
    if cstr expected = [] then (some old, .error callbackArguments)
    else if query.length > callbackLimit maxQueryBytes then
      (some old, .error {
        code := .overflow, message := "callback query exceeds configured limit"
        offset := query.length })
    else
      let rest := if query.head? = some 0x3f then query.tail else query
      match callbackLoop alloc (query.length + 1) {} (some rest) with
      | .error e => (some {}, .error e)
      | .ok cb =>
        match callbackCheck cb expected with
        | .error e => (some {}, .error e)
        | .ok () => (some cb, .ok ())
  | out, _, _ => (out, .error callbackArguments)

example : callbackParseQuery (fun _ => true) (some (ascii "?state=a%2B&&code=c+d&x"))
    (some (ascii "a+")) 0 (some {}) =
      (some { code := some (ascii "c d"), state := some (ascii "a+") }, .ok ()) := by
  decide +kernel

/-! ## The allocator -/

/-- The call failed for want of memory. -/
def OutOfMemory {α : Type} (x : Except Failure α) : Prop :=
  ∃ e : Failure, x = .error e ∧ e.code = .allocationFailed

/-- The same call with and without an allocator that may refuse. -/
def OrOutOfMemory {α : Type} (x y : Except Failure α) : Prop := x = y ∨ OutOfMemory x

theorem OrOutOfMemory.bind {α β : Type} {x y : Except Failure α} {f g : α → Except Failure β}
    (h : OrOutOfMemory x y) (hf : ∀ a, OrOutOfMemory (f a) (g a)) : OrOutOfMemory (x.bind f) (y.bind g) := by
  rcases h with rfl | ⟨e, rfl, he⟩
  · cases x with
    | error e => exact .inl rfl
    | ok a => exact hf a
  · exact .inr ⟨e, rfl, he⟩

theorem ownedBufferSink_orOutOfMemory (grant : ℕ → Bool) (out data : Bytes) :
    OrOutOfMemory (ownedBufferSink grant out data) (ownedBufferSink (fun _ => true) out data) := by
  unfold ownedBufferSink
  by_cases hnil : data = []
  · rw [if_pos hnil, if_pos hnil]
    exact .inl rfl
  rw [if_neg hnil, if_neg hnil]
  by_cases hsize : out.length + data.length + 1 > sizeMax
  · rw [if_pos hsize, if_pos hsize]
    exact .inl rfl
  rw [if_neg hsize, if_neg hsize]
  cases grant (out.length + data.length) with
  | true => exact .inl rfl
  | false => exact .inr ⟨_, rfl, rfl⟩

theorem percentDecodeFrom_orOutOfMemory (grant : ℕ → Bool) (i : ℕ) (out data : Bytes) :
    OrOutOfMemory (percentDecodeFrom grant i out data)
      (percentDecodeFrom (fun _ => true) i out data) := by
  induction hn : data.length using Nat.strong_induction_on generalizing i out data with
  | _ n ih =>
      cases data with
      | nil => exact .inl rfl
      | cons ch data =>
          rw [List.length_cons] at hn
          unfold percentDecodeFrom
          split_ifs
          · exact (ownedBufferSink_orOutOfMemory grant out _).bind fun out =>
              ih _ (by omega) _ out data rfl
          · split
            · split
              · next rest _ _ _ _ _ _ =>
                rw [List.length_cons, List.length_cons] at hn
                exact (ownedBufferSink_orOutOfMemory grant out _).bind fun out =>
                  ih _ (by omega) _ out rest rfl
              · exact .inl rfl
            · exact .inl rfl
          · exact (ownedBufferSink_orOutOfMemory grant out _).bind fun out =>
              ih _ (by omega) _ out data rfl

theorem callbackKeep_orOutOfMemory (served : Bool) (out : AuthorizationCallback) (key value : Bytes) :
    OrOutOfMemory (callbackKeep served out key value) (callbackKeep true out key value) := by
  cases served with
  | true => exact .inl rfl
  | false =>
      unfold callbackKeep
      split
      · next field _ =>
        refine OrOutOfMemory.bind ?_ fun dst => .inl rfl
        unfold callbackAssign
        split
        · exact .inl rfl
        · exact .inr ⟨_, rfl, rfl⟩
      · exact .inl rfl

section

variable (alloc : CallbackRequest → Bool)

theorem callbackPair_orOutOfMemory (left : ℕ) (out : AuthorizationCallback) (rawKey rawValue : Bytes) :
    OrOutOfMemory (callbackPair alloc left out rawKey rawValue)
      (callbackPair (fun _ => true) left out rawKey rawValue) := by
  apply (percentDecodeFrom_orOutOfMemory _ 0 [] rawKey).bind
  intro key
  apply (percentDecodeFrom_orOutOfMemory _ 0 [] rawValue).bind
  intro value
  refine OrOutOfMemory.bind (.inl rfl) fun _ => OrOutOfMemory.bind (.inl rfl) fun _ => ?_
  exact callbackKeep_orOutOfMemory _ out key value

theorem callbackLoop_orOutOfMemory (fuel : ℕ) (out : AuthorizationCallback) (rest : Option Bytes) :
    OrOutOfMemory (callbackLoop alloc fuel out rest) (callbackLoop (fun _ => true) fuel out rest) := by
  induction fuel generalizing out rest with
  | zero => cases rest <;> exact .inl rfl
  | succ fuel ih =>
      cases rest with
      | none => exact .inl rfl
      | some rest =>
          rw [callbackLoop, callbackLoop]
          dsimp only
          split
          · exact ih out _
          · exact (callbackPair_orOutOfMemory alloc _ out _ _).bind fun out => ih out _

end

/-! ## The pairs of a body -/

/-- A body in front of what follows one of its pairs: nothing, or an ampersand and more. -/
theorem nextPair_encoded {key value : Bytes} (hkey : ∀ b ∈ key, isFormByte b = true)
    (hvalue : ∀ b ∈ value, isFormByte b = true) {behind : Bytes}
    (hbehind : ∀ b ∈ behind.head?, b = 0x26) :
    nextPair (key ++ 0x3d :: (value ++ behind)) =
      (key, value, if behind = [] then none else some behind.tail) := by
  have hkeyFree : ∀ b ∈ key, (!endsKey b) = true := by
    intro b hb
    have hform := hkey b hb
    rw [Bool.not_eq_true', endsKey, Bool.or_eq_false_iff, beq_eq_false_iff_ne, beq_eq_false_iff_ne]
    constructor
    · rintro rfl
      cases hform
    · rintro rfl
      cases hform
  have hvalueFree : ∀ b ∈ value, (b != 0x26) = true := by
    intro b hb
    have hform := hvalue b hb
    rw [bne_iff_ne]
    rintro rfl
    cases hform
  have htake : behind.takeWhile (· != 0x26) = [] ∧ behind.dropWhile (· != 0x26) = behind := by
    cases behind with
    | nil => exact ⟨rfl, rfl⟩
    | cons b behind =>
        obtain rfl : b = 0x26 := hbehind b rfl
        exact ⟨rfl, rfl⟩
  rw [nextPair, List.takeWhile_append_of_pos hkeyFree, List.dropWhile_append_of_pos hkeyFree,
    List.takeWhile_cons_of_neg (by decide), List.dropWhile_cons_of_neg (by decide), nextValue,
    if_pos rfl, List.takeWhile_append_of_pos hvalueFree, List.dropWhile_append_of_pos hvalueFree,
    htake.1, htake.2, List.append_nil, List.append_nil]

/-- The pairs are kept one after the other. -/
def keepPairs (out : AuthorizationCallback) (pairs : List FormPair) :
    Except Failure AuthorizationCallback :=
  pairs.foldlM (fun out p => callbackKeep true out p.key p.value) out

theorem callbackPair_encoded {left : ℕ} {out : AuthorizationCallback} {p : FormPair}
    (hsize : p.encoded.length < sizeMax) :
    callbackPair (fun _ => true) left out (formEncode p.key) (formEncode p.value) =
      callbackKeep true out p.key p.value := by
  have hlengths := p.lengths_lt
  rw [callbackPair, percentDecode_encode (fun _ => rfl) (by omega),
    percentDecode_encode (fun _ => rfl) (by omega)]
  dsimp only [bind, Except.bind]
  rw [callbackRejectNul, if_neg p.key_text, callbackRejectNul, if_neg p.value_text]

@[simp] theorem callbackLoop_none (alloc : CallbackRequest → Bool) (fuel : ℕ)
    (out : AuthorizationCallback) : callbackLoop alloc fuel out none = .ok out := by
  cases fuel <;> rfl

theorem formText_cons (p : FormPair) (pairs : List FormPair) :
    formText (p :: pairs) = p.encoded ++ if pairs = [] then [] else 0x26 :: formText pairs := by
  cases pairs with
  | nil => simp [formText]
  | cons q pairs => simp [formText]

theorem callbackLoop_formText (pairs : List FormPair) (out : AuthorizationCallback) {fuel : ℕ}
    (hfuel : (formText pairs).length < fuel) (hsize : (formText pairs).length < sizeMax) :
    callbackLoop (fun _ => true) fuel out (some (formText pairs)) = keepPairs out pairs := by
  induction pairs generalizing out fuel with
  | nil =>
      obtain ⟨fuel, rfl⟩ := Nat.exists_eq_succ_of_ne_zero (Nat.ne_zero_of_lt hfuel)
      exact callbackLoop_none _ fuel out
  | cons p pairs ih =>
      obtain ⟨fuel, rfl⟩ := Nat.exists_eq_succ_of_ne_zero (Nat.ne_zero_of_lt hfuel)
      have hne : formEncode p.key ≠ [] := by
        intro hnil
        have hle := length_le_formEncode p.key
        rw [hnil] at hle
        exact p.key_ne (List.eq_nil_of_length_eq_zero (Nat.le_zero.mp hle))
      have hpair : p.encoded.length < sizeMax :=
        (FormPair.encoded_le List.mem_cons_self).trans_lt hsize
      have hnext : nextPair (formText (p :: pairs)) = (formEncode p.key, formEncode p.value,
          if pairs = [] then none else some (formText pairs)) := by
        rw [formText_cons, FormPair.encoded, List.append_assoc, List.cons_append,
          nextPair_encoded (formEncode_bytes p.key) (formEncode_bytes p.value)]
        · split <;> rfl
        · split <;> simp
      rw [callbackLoop, hnext]
      dsimp only
      rw [if_neg hne, callbackPair_encoded hpair, keepPairs, List.foldlM_cons]
      refine congrArg (Except.bind _) (funext fun out => ?_)
      cases pairs with
      | nil => exact callbackLoop_none _ fuel out
      | cons q pairs =>
          rw [formText_cons, List.length_append, if_neg (List.cons_ne_nil q pairs),
            List.length_cons] at hfuel hsize
          exact ih out (by omega) (by omega)

/-! ## The parameters that are kept -/

theorem find_name {key : Bytes} {field : CallbackField} (h : key = field.name) :
    CallbackField.all.find? (fun field => key == field.name) = some field := by
  subst h
  cases field <;> decide +kernel

theorem callbackKeep_named {out : AuthorizationCallback} {p : FormPair} {field : CallbackField}
    (h : p.key = field.name) :
    callbackKeep true out p.key p.value =
      if (out.get field).isSome then
        .error { code := .duplicateField, message := "duplicate callback query parameter" }
      else .ok (out.set field (some p.value)) := by
  rw [callbackKeep, cstr_of_notMem p.key_text, find_name h]
  dsimp only
  unfold callbackAssign
  split <;> rfl

theorem callbackKeep_other {out : AuthorizationCallback} {p : FormPair}
    (h : ∀ field : CallbackField, p.key ≠ field.name) :
    callbackKeep true out p.key p.value = .ok out := by
  have hnone : CallbackField.all.find? (fun field => p.key == field.name) = none := by
    rw [List.find?_eq_none]
    intro field _
    rw [beq_iff_eq]
    exact h field
  rw [callbackKeep, cstr_of_notMem p.key_text, hnone]

/-- How often a parameter occurs. -/
def formCount (pairs : List FormPair) (name : Bytes) : ℕ := pairs.countP (·.key == name)

/-- The value of the first parameter of a name. -/
def formValue (pairs : List FormPair) (name : Bytes) : Option Bytes :=
  (pairs.find? (·.key == name)).map FormPair.value

theorem formCount_cons (p : FormPair) (pairs : List FormPair) (name : Bytes) :
    formCount (p :: pairs) name = formCount pairs name + if p.key = name then 1 else 0 := by
  rw [formCount, List.countP_cons, formCount]
  simp only [beq_iff_eq]

theorem formValue_cons (p : FormPair) (pairs : List FormPair) (name : Bytes) :
    formValue (p :: pairs) name = if p.key = name then some p.value else formValue pairs name := by
  rw [formValue, List.find?_cons]
  by_cases h : p.key = name
  · rw [beq_iff_eq.mpr h, if_pos h]
    rfl
  · rw [beq_eq_false_iff_ne.mpr h, if_neg h]
    rfl

/-- None of the parameters is there twice, counting what is kept already. -/
def Single (out : AuthorizationCallback) (pairs : List FormPair) : Prop :=
  ∀ field : CallbackField, (out.get field).toList.length + formCount pairs field.name ≤ 1

theorem keepPairs_ok_iff {pairs : List FormPair} {out out' : AuthorizationCallback} :
    keepPairs out pairs = .ok out' ↔ Single out pairs ∧
      ∀ field : CallbackField, out'.get field = (out.get field).or (formValue pairs field.name) := by
  induction pairs generalizing out with
  | nil =>
      constructor
      · rintro h
        cases h
        refine ⟨fun field => ?_, fun field => ?_⟩
        · cases out'.get field <;> simp [formCount]
        · simp [formValue]
      · rintro ⟨-, h⟩
        refine congrArg Except.ok (AuthorizationCallback.ext_get fun field => ?_)
        simpa [formValue] using (h field).symm
  | cons p pairs ih =>
      rw [keepPairs, List.foldlM_cons]
      by_cases hnamed : ∃ field : CallbackField, p.key = field.name
      · obtain ⟨field, hfield⟩ := hnamed
        rw [callbackKeep_named hfield]
        split
        · next hsome =>
          refine iff_of_false (fun h => by cases h) fun h => ?_
          obtain ⟨old, hold⟩ := Option.isSome_iff_exists.mp hsome
          have hcount := h.1 field
          rw [hold, formCount_cons, if_pos hfield] at hcount
          simp at hcount
        · next hnone =>
          have hold : out.get field = none := Option.not_isSome_iff_eq_none.mp hnone
          refine (@ih (out.set field (some p.value))).trans (and_congr ?_ ?_)
          · refine forall_congr' fun other => ?_
            rw [AuthorizationCallback.get_set, formCount_cons, hfield]
            by_cases hother : other = field
            · subst hother
              rw [if_pos rfl, if_pos rfl, hold]
              simp
            · have hname : ¬ field.name = other.name := fun h =>
                hother (CallbackField.name_injective h).symm
              rw [if_neg hother, if_neg hname, Nat.add_zero]
          · refine forall_congr' fun other => ?_
            rw [AuthorizationCallback.get_set, formValue_cons, hfield]
            by_cases hother : other = field
            · subst hother
              rw [if_pos rfl, if_pos rfl, hold]
              simp
            · have hname : ¬ field.name = other.name := fun h =>
                hother (CallbackField.name_injective h).symm
              rw [if_neg hother, if_neg hname]
      · have hother : ∀ field : CallbackField, p.key ≠ field.name := fun field h =>
          hnamed ⟨field, h⟩
        rw [callbackKeep_other hother]
        refine (@ih out).trans (and_congr ?_ ?_)
        · refine forall_congr' fun field => ?_
          rw [formCount_cons, if_neg (hother field), Nat.add_zero]
        · refine forall_congr' fun field => ?_
          rw [formValue_cons, if_neg (hother field)]

/-! ## Acceptance -/

/-- The parameters of a callback that is accepted for a state. -/
structure CallbackAccepts (pairs : List FormPair) (expectedState : Bytes) : Prop where
  once : ∀ field : CallbackField, formCount pairs field.name ≤ 1
  noError : ∀ p ∈ pairs, p.key ≠ ascii "error"
  state : formValue pairs (ascii "state") = some expectedState
  code : ∃ code, code ≠ [] ∧ formValue pairs (ascii "code") = some code

/-- What is returned of some parameters. -/
def callbackOf (pairs : List FormPair) : AuthorizationCallback where
  code := formValue pairs (ascii "code")
  state := formValue pairs (ascii "state")
  error := formValue pairs (ascii "error")
  errorDescription := formValue pairs (ascii "error_description")
  errorUri := formValue pairs (ascii "error_uri")

theorem callbackOf_get (pairs : List FormPair) (field : CallbackField) :
    (callbackOf pairs).get field = formValue pairs field.name := by
  cases field <;> rfl

theorem keepPairs_start {pairs : List FormPair} {out : AuthorizationCallback} :
    keepPairs {} pairs = .ok out ↔
      (∀ field : CallbackField, formCount pairs field.name ≤ 1) ∧ out = callbackOf pairs := by
  have hempty (field : CallbackField) : ({} : AuthorizationCallback).get field = none := by
    cases field <;> rfl
  rw [keepPairs_ok_iff]
  refine and_congr (forall_congr' fun field => ?_) ⟨fun h => ?_, ?_⟩
  · rw [hempty, Option.toList_none, List.length_nil, Nat.zero_add]
  · refine AuthorizationCallback.ext_get fun field => ?_
    rw [h field, hempty, Option.none_or, callbackOf_get]
  · rintro rfl field
    rw [hempty, Option.none_or, callbackOf_get]

theorem formValue_text {pairs : List FormPair} {name value : Bytes}
    (h : formValue pairs name = some value) : 0 ∉ value := by
  obtain ⟨p, -, rfl⟩ := Option.map_eq_some_iff.mp h
  exact p.value_text

theorem formValue_eq_none {pairs : List FormPair} {name : Bytes} :
    formValue pairs name = none ↔ ∀ p ∈ pairs, p.key ≠ name := by
  rw [formValue, Option.map_eq_none_iff, List.find?_eq_none]
  simp only [beq_iff_eq, ne_eq]

theorem callbackCheck_ok_iff {pairs : List FormPair} {expectedState : Bytes}
    (hstate : 0 ∉ expectedState) :
    callbackCheck (callbackOf pairs) expectedState = .ok () ↔
      (∀ p ∈ pairs, p.key ≠ ascii "error") ∧
        formValue pairs (ascii "state") = some expectedState ∧
          ∃ code, code ≠ [] ∧ formValue pairs (ascii "code") = some code := by
  have hcode : cstr ((formValue pairs (ascii "code")).getD []) = [] ↔
      ¬ ∃ code, code ≠ [] ∧ formValue pairs (ascii "code") = some code := by
    cases hvalue : formValue pairs (ascii "code") with
    | none => simp [cstr]
    | some code =>
        rw [Option.getD_some, cstr_of_notMem (formValue_text hvalue)]
        simp
  have hmatch : (formValue pairs (ascii "state")).map cstr = some (cstr expectedState) ↔
      formValue pairs (ascii "state") = some expectedState := by
    rw [cstr_of_notMem hstate]
    cases hvalue : formValue pairs (ascii "state") with
    | none => simp
    | some state => rw [Option.map_some, cstr_of_notMem (formValue_text hvalue)]
  have herror : (formValue pairs (ascii "error")).isSome = true ↔
      ¬ ∀ p ∈ pairs, p.key ≠ ascii "error" := by
    rw [← formValue_eq_none, Option.isSome_iff_ne_none]
  unfold callbackCheck callbackOf
  dsimp only
  split_ifs with hfailed hdiffers hempty
  · exact iff_of_false (fun h => by cases h) fun h => herror.mp hfailed h.1
  · exact iff_of_false (fun h => by cases h) fun h => hdiffers (hmatch.mpr h.2.1)
  · exact iff_of_false (fun h => by cases h) fun h => hcode.mp hempty h.2.2
  · refine iff_of_true rfl ⟨?_, hmatch.mp (not_not.mp hdiffers), ?_⟩
    · exact not_not.mp fun h => hfailed (herror.mpr h)
    · exact not_not.mp fun h => hempty (hcode.mpr h)

theorem formText_head (pairs : List FormPair) : (formText pairs).head? ≠ some 0x3f := by
  cases pairs with
  | nil => simp [formText]
  | cons p pairs =>
      intro hhead
      rw [formText_cons, FormPair.encoded] at hhead
      cases hkey : formEncode p.key with
      | nil =>
          rw [hkey] at hhead
          exact absurd hhead (by simp)
      | cons b key =>
          rw [hkey] at hhead
          obtain rfl : b = 0x3f := Option.some.inj hhead
          have hfree : 0x3f ∉ formEncode p.key := formEncode_free rfl
          exact hfree (by rw [hkey]; exact List.mem_cons_self)

/-- The checks that come before the output is touched. -/
def CallbackChecked (query expectedState : Bytes) (maxQueryBytes : ℕ) : Prop :=
  cstr expectedState ≠ [] ∧ query.length ≤ callbackLimit maxQueryBytes

section

variable {alloc : CallbackRequest → Bool} {query expectedState : Bytes} {maxQueryBytes : ℕ}

theorem callbackParseQuery_failed {cb : AuthorizationCallback} {e : Failure}
    (hchecked : CallbackChecked query expectedState maxQueryBytes)
    (h : (callbackParseQuery alloc (some query) (some expectedState) maxQueryBytes (some cb)).2 =
      .error e) :
    (callbackParseQuery alloc (some query) (some expectedState) maxQueryBytes (some cb)).1 =
      some {} := by
  rw [callbackParseQuery, if_neg hchecked.1, if_neg (Nat.not_lt.mpr hchecked.2)] at h ⊢
  dsimp only at h ⊢
  split
  · rfl
  · next out hloop =>
    rw [hloop] at h
    dsimp only at h
    split
    · rfl
    · next hcheck =>
      rw [hcheck] at h
      cases h

/-- What the call makes of its loop. -/
def callbackFinish (expectedState : Bytes) (x : Except Failure AuthorizationCallback) :
    Except Failure AuthorizationCallback :=
  x.bind fun out => (callbackCheck out expectedState).bind fun _ => .ok out

/-- The output of the call: what was kept, or nothing. -/
def callbackAnswer : Except Failure AuthorizationCallback →
    Option AuthorizationCallback × Except Failure Unit
  | .ok out => (some out, .ok ())
  | .error e => (some {}, .error e)

theorem callbackParseQuery_eq {cb : AuthorizationCallback}
    (hchecked : CallbackChecked query expectedState maxQueryBytes) (hhead : query.head? ≠ some 0x3f) :
    callbackParseQuery alloc (some query) (some expectedState) maxQueryBytes (some cb) =
      callbackAnswer
        (callbackFinish expectedState (callbackLoop alloc (query.length + 1) {} (some query))) := by
  rw [callbackParseQuery, if_neg hchecked.1, if_neg (Nat.not_lt.mpr hchecked.2), if_neg hhead]
  dsimp only
  rw [callbackFinish]
  cases callbackLoop alloc (query.length + 1) {} (some query) with
  | error e => rfl
  | ok out =>
      dsimp only [Except.bind]
      cases callbackCheck out expectedState with
      | error e => rfl
      | ok _ => rfl

theorem callbackAnswer_ok {x : Except Failure AuthorizationCallback}
    (h : (callbackAnswer x).2 = .ok ()) : ∃ out, x = .ok out ∧ (callbackAnswer x).1 = some out := by
  cases x with
  | error e => cases h
  | ok out => exact ⟨out, rfl, rfl⟩

end

/-- The parameters of a form are kept and checked when memory is there. -/
theorem callbackFinish_ok_iff {pairs : List FormPair} {expectedState : Bytes}
    (hstate : 0 ∉ expectedState) {out : AuthorizationCallback} :
    callbackFinish expectedState (keepPairs {} pairs) = .ok out ↔
      CallbackAccepts pairs expectedState ∧ out = callbackOf pairs := by
  constructor
  · intro h
    obtain ⟨kept, hkept, h⟩ := Json.bind_eq_ok h
    obtain ⟨_, hcheck, h⟩ := Json.bind_eq_ok h
    cases h
    obtain ⟨hcount, rfl⟩ := keepPairs_start.mp hkept
    obtain ⟨herror, hmatch, hcode⟩ := (callbackCheck_ok_iff hstate).mp hcheck
    exact ⟨⟨hcount, herror, hmatch, hcode⟩, rfl⟩
  · rintro ⟨⟨hcount, herror, hmatch, hcode⟩, rfl⟩
    rw [callbackFinish, keepPairs_start.mpr ⟨hcount, rfl⟩]
    dsimp only [Except.bind]
    rw [(callbackCheck_ok_iff hstate).mpr ⟨herror, hmatch, hcode⟩]

/-- The pieces of a body are decoded one after the other. -/
theorem formDecode_pieces {pairs : List FormPair}
    (hsize : ∀ p ∈ pairs, p.encoded.length < sizeMax) :
    (pairs.map FormPair.encoded).mapM (formDecode fun _ => true) =
      .ok (pairs.map fun p => (p.key, p.value)) := by
  induction pairs with
  | nil => rfl
  | cons p pairs ih =>
      rw [List.map_cons, List.mapM_cons, FormPair.decoded (fun _ => rfl) (hsize p List.mem_cons_self),
        ih fun q hq => hsize q (List.mem_cons_of_mem p hq)]
      rfl

/-- The pairs of a form are what its body is read as, a callback with that query is accepted for
its state exactly when the parameters are those of a success, and a query that fails behind the
checks of the arguments leaves nothing. -/
theorem form_round_trip (grant : ℕ → Bool) (alloc : CallbackRequest → Bool) (maxBytes : ℕ)
    (pairs : List FormPair) (out : FormBody) (hout : formAppendPairs grant maxBytes pairs = .ok out) :
    (formPieces out.data).mapM (formDecode fun _ => true) =
        .ok (pairs.map fun p => (p.key, p.value)) ∧
      (∀ (expectedState : Bytes) (maxQueryBytes : ℕ) (cb : AuthorizationCallback),
        0 ∉ expectedState → CallbackChecked out.data expectedState maxQueryBytes →
          let r := callbackParseQuery alloc (some out.data) (some expectedState) maxQueryBytes (some cb)
          (r.2 = .ok () → CallbackAccepts pairs expectedState ∧ r.1 = some (callbackOf pairs)) ∧
            (CallbackAccepts pairs expectedState →
              r.2 = .ok () ∨ OutOfMemory r.2 ∧ ∃ request, alloc request = false)) ∧
      ∀ (query expectedState : Bytes) (maxQueryBytes : ℕ) (cb : AuthorizationCallback) (e : Failure),
        CallbackChecked query expectedState maxQueryBytes →
          let r := callbackParseQuery alloc (some query) (some expectedState) maxQueryBytes (some cb)
          r.2 = .error e → r.1 = some {} := by
  obtain ⟨htext, hfits⟩ := formAppendPairs_ok hout
  rw [htext] at hfits ⊢
  refine ⟨?_, ?_, fun query expectedState maxQueryBytes cb e hchecked h =>
    callbackParseQuery_failed hchecked h⟩
  · rw [formPieces_formText]
    exact formDecode_pieces fun p hp => (FormPair.encoded_le hp).trans_lt hfits.2
  · intro expectedState maxQueryBytes cb hstate hchecked r
    have hserved : callbackLoop (fun _ => true) ((formText pairs).length + 1) {}
        (some (formText pairs)) = keepPairs {} pairs :=
      callbackLoop_formText pairs {} (Nat.lt_succ_self _) hfits.2
    have hr : r = callbackAnswer (callbackFinish expectedState
        (callbackLoop alloc ((formText pairs).length + 1) {} (some (formText pairs)))) :=
      callbackParseQuery_eq hchecked (formText_head pairs)
    have hloop := (callbackLoop_orOutOfMemory alloc ((formText pairs).length + 1) {}
      (some (formText pairs))).bind (f := fun out =>
        (callbackCheck out expectedState).bind fun _ => .ok out) fun _ => .inl rfl
    rw [hserved] at hloop
    rcases hloop with hsame | ⟨e, hrefused, he⟩
    · have hanswer : r = callbackAnswer (callbackFinish expectedState (keepPairs {} pairs)) :=
        hr.trans (congrArg callbackAnswer hsame)
      rw [hanswer]
      constructor
      · intro hok
        obtain ⟨out, hout, hfirst⟩ := callbackAnswer_ok hok
        obtain ⟨haccepts, rfl⟩ := (callbackFinish_ok_iff hstate).mp hout
        exact ⟨haccepts, hfirst⟩
      · intro haccepts
        rw [(callbackFinish_ok_iff hstate).mpr ⟨haccepts, rfl⟩]
        exact .inl rfl
    · have hanswer : r = callbackAnswer (.error e) := hr.trans (congrArg callbackAnswer hrefused)
      rw [hanswer]
      refine ⟨(fun hok => by cases hok), fun haccepts => .inr ⟨⟨e, rfl, he⟩, ?_⟩⟩
      by_contra hnone
      obtain rfl : alloc = fun _ => true :=
        funext fun request => Bool.eq_true_of_not_eq_false fun h => hnone ⟨request, h⟩
      rw [hserved] at hrefused
      have hok := (callbackFinish_ok_iff hstate).mpr ⟨haccepts, rfl⟩
      rw [callbackFinish, hrefused] at hok
      cases hok

/-- The pairs `code=a b` and `state=&`. -/
def callbackPairs : List FormPair :=
  [⟨ascii "code", ascii "a b", by decide +kernel, by decide +kernel, by decide +kernel⟩,
    ⟨ascii "state", ascii "&", by decide +kernel, by decide +kernel, by decide +kernel⟩]

theorem form_round_trip_code :
    (formPieces (ascii "code=a+b&state=%26")).mapM (formDecode fun _ => true) =
        .ok (callbackPairs.map fun p => (p.key, p.value)) ∧
      CallbackAccepts callbackPairs (ascii "&") ∧
        (callbackParseQuery (fun _ => true) (some (ascii "code=a+b&state=%26")) (some (ascii "&")) 0
          (some {})).1 = some (callbackOf callbackPairs) := by
  have htrip := form_round_trip (fun _ => true) (fun _ => true) 64 callbackPairs
    ⟨ascii "code=a+b&state=%26", true⟩ (by decide +kernel)
  have hcallback := htrip.2.1 (ascii "&") 0 {} (by decide +kernel)
    ⟨by decide +kernel, by decide +kernel⟩
  exact ⟨htrip.1, hcallback.1 (by decide +kernel)⟩

end Lonejson
