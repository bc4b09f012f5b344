import Lonejson.Framing
import Lonejson.Related

/-!
# Form encoding

The pairs of an OAuth2 form body, as `lonejson__oauth2_form_append_pair` writes them one behind the
other, and the decoder of the callback query. Splitting a body at its ampersands, and each piece at
its first equals sign, gives the pairs back.
-/

namespace Lonejson

/-- A call that failed: its status and its message, with the offset of the message. -/
structure Failure where
  code : Status
  message : String
  offset : ℕ := 0
  deriving DecidableEq, Repr

/-! ## The encoder -/

/-- `lonejson_owned_buffer_sink`; the buffer can be made to hold the lengths of `grant`. -/
def ownedBufferSink (grant : ℕ → Bool) (out data : Bytes) : Except Failure Bytes :=
  if data = [] then .ok out
  else if out.length + data.length + 1 > sizeMax then
    .error { code := .overflow, message := "owned buffer sink size overflow" }
  else if grant (out.length + data.length) then .ok (out ++ data)
  else .error { code := .allocationFailed, message := "failed to grow owned buffer sink" }

/-- `lonejson__oauth2_form_is_unreserved`. -/
def formIsUnreserved (ch : Byte) : Bool :=
  (0x41 ≤ ch && ch ≤ 0x5a) || (0x61 ≤ ch && ch ≤ 0x7a) || (0x30 ≤ ch && ch ≤ 0x39) ||
    ch == 0x2d || ch == 0x2e || ch == 0x5f || ch == 0x7e

/-- The digits `0123456789ABCDEF`. -/
def upperHex (n : ℕ) : Byte := if n < 10 then (0x30 + n).toUInt8 else (0x41 + (n - 10)).toUInt8

/-- What `lonejson__oauth2_form_append_component` writes for one byte. -/
def formPiece (ch : Byte) : Bytes :=
  if formIsUnreserved ch then [ch]
  else if ch = 0x20 then [0x2b]
  else [0x25, upperHex (ch.toNat / 16), upperHex (ch.toNat % 16)]

/-- `lonejson__oauth2_form_append_raw`. -/
def formAppendRaw (grant : ℕ → Bool) (maxBytes : ℕ) (out data : Bytes) : Except Failure Bytes :=
  if out.length > maxBytes ∨ data.length > maxBytes - out.length then
    .error { code := .overflow, message := "OAuth2 form body exceeds configured limit" }
  else ownedBufferSink grant out data

/-- The loop of `lonejson__oauth2_form_append_component`. -/
def formAppendBytes (grant : ℕ → Bool) (maxBytes : ℕ) : Bytes → Bytes → Except Failure Bytes
  | out, [] => .ok out
  | out, ch :: value => do
    let out ← formAppendRaw grant maxBytes out (formPiece ch)
    formAppendBytes grant maxBytes out value

/-- `lonejson__oauth2_form_append_component`; `value` is a C string. -/
def formAppendComponent (grant : ℕ → Bool) (maxBytes : ℕ) (out value : Bytes) :
    Except Failure Bytes :=
  formAppendBytes grant maxBytes out (cstr value)

/-- A body with the flag that it has a pair. Every caller frees a body that failed. -/
structure FormBody where
  data : Bytes := []
  hasPair : Bool := false
  deriving DecidableEq, Repr

/-- The ampersand in front of a pair that is not the first. -/
def formAppendMark (grant : ℕ → Bool) (maxBytes : ℕ) (out : FormBody) : Except Failure Bytes :=
  if out.hasPair then formAppendRaw grant maxBytes out.data [0x26] else .ok out.data

/-- `lonejson__oauth2_form_append_pair`; `none` is `NULL`. -/
def formAppendPair (grant : ℕ → Bool) (maxBytes : ℕ) (out : FormBody) (key value : Option Bytes) :
    Except Failure FormBody :=
  match value with
  | none => .ok out
  | some value => do
    let data ← formAppendMark grant maxBytes out
    if cstr (key.getD []) = [] then
      .error { code := .invalidArgument, message := "OAuth2 form parameter name is required" }
    else do
      let data ← formAppendComponent grant maxBytes data (key.getD [])
      let data ← formAppendRaw grant maxBytes data [0x3d]
      let data ← formAppendComponent grant maxBytes data value
      .ok { data, hasPair := true }

/-- The encoding of a text. -/
def formEncode (value : Bytes) : Bytes := value.flatMap formPiece

example : formEncode [0x61, 0x20, 0x26, 0xc3] = [0x61, 0x2b, 0x25, 0x32, 0x36, 0x25, 0x43, 0x33] := by
  decide

/-! ## The decoder -/

/-- `lonejson__oauth2_hex_value`; `none` is the source's `-1`. -/
def oauth2HexValue (ch : Byte) : Option ℕ :=
  if 0x30 ≤ ch ∧ ch ≤ 0x39 then some (ch.toNat - 0x30)
  else if 0x41 ≤ ch ∧ ch ≤ 0x46 then some (ch.toNat - 0x41 + 10)
  else if 0x61 ≤ ch ∧ ch ≤ 0x66 then some (ch.toNat - 0x61 + 10)
  else none

def badEscape (i : ℕ) : Failure where
  code := .invalidJson
  message := "callback query has bad percent escape"
  offset := i

/-- The loop of `lonejson__oauth2_percent_decode`, at the offset `i`. -/
def percentDecodeFrom (grant : ℕ → Bool) : ℕ → Bytes → Bytes → Except Failure Bytes
  | _, out, [] => .ok out
  | i, out, ch :: data =>
    if ch = 0x2b then do
      let out ← ownedBufferSink grant out [0x20]
      percentDecodeFrom grant (i + 1) out data
    else if ch = 0x25 then
      match data with
      | hi :: lo :: data =>
        match oauth2HexValue hi, oauth2HexValue lo with
        | some hi, some lo => do
          let out ← ownedBufferSink grant out [(hi * 16 + lo).toUInt8]
          percentDecodeFrom grant (i + 3) out data
        | _, _ => .error (badEscape i)
      | _ => .error (badEscape i)
    else do
      let out ← ownedBufferSink grant out [ch]
      percentDecodeFrom grant (i + 1) out data

/-- `lonejson__oauth2_percent_decode`. -/
def percentDecode (grant : ℕ → Bool) (data : Bytes) : Except Failure Bytes :=
  percentDecodeFrom grant 0 [] data

/-! ## One byte -/

theorem hexValue_upperHex {n : ℕ} (hn : n < 16) : oauth2HexValue (upperHex n) = some n := by
  revert n
  decide

theorem upperHex_digit {n : ℕ} (hn : n < 16) : formIsUnreserved (upperHex n) = true := by
  revert n
  decide

/-- The bytes that an encoded text consists of. -/
def isFormByte (b : Byte) : Bool := formIsUnreserved b || b == 0x2b || b == 0x25

theorem formPiece_bytes (ch : Byte) : ∀ b ∈ formPiece ch, isFormByte b = true := by
  intro b hb
  unfold formPiece at hb
  split_ifs at hb with hfree hspace
  · rw [List.mem_singleton.mp hb, isFormByte, hfree]
    rfl
  · rw [List.mem_singleton.mp hb]
    rfl
  · have hlt := ch.toNat_lt
    simp only [List.mem_cons, List.not_mem_nil, or_false] at hb
    obtain rfl | rfl | rfl := hb
    · rfl
    · rw [isFormByte, upperHex_digit (by omega)]
      rfl
    · rw [isFormByte, upperHex_digit (by omega)]
      rfl

theorem formEncode_bytes (value : Bytes) : ∀ b ∈ formEncode value, isFormByte b = true := by
  intro b hb
  obtain ⟨ch, -, hch⟩ := List.mem_flatMap.mp hb
  exact formPiece_bytes ch b hch

theorem formPiece_ne_nil (ch : Byte) : formPiece ch ≠ [] := by
  unfold formPiece
  split_ifs <;> simp

section

variable {grant : ℕ → Bool}

/-- What is written for a byte is read back as that byte. -/
theorem percentDecodeFrom_piece (i : ℕ) (out : Bytes) (ch : Byte) (data : Bytes) :
    percentDecodeFrom grant i out (formPiece ch ++ data) =
      (ownedBufferSink grant out [ch]).bind fun out =>
        percentDecodeFrom grant (i + (formPiece ch).length) out data := by
  unfold formPiece
  split_ifs with hfree hspace
  · have hplus : ch ≠ 0x2b := by
      rintro rfl
      cases hfree
    have hpercent : ch ≠ 0x25 := by
      rintro rfl
      cases hfree
    rw [List.singleton_append]
    conv_lhs => unfold percentDecodeFrom
    rw [if_neg hplus, if_neg hpercent]
    rfl
  · subst hspace
    rw [List.singleton_append]
    conv_lhs => unfold percentDecodeFrom
    rw [if_pos rfl]
    rfl
  · have hlt := ch.toNat_lt
    have hbyte : (ch.toNat / 16 * 16 + ch.toNat % 16).toUInt8 = ch := by
      rw [Nat.div_add_mod']
      exact UInt8.ofNat_toNat
    rw [List.cons_append, List.cons_append, List.singleton_append]
    conv_lhs => unfold percentDecodeFrom
    rw [if_neg (by decide), if_pos rfl]
    dsimp only
    rw [hexValue_upperHex (by omega), hexValue_upperHex (by omega)]
    dsimp only
    rw [hbyte]
    rfl

variable (hgrant : ∀ n, grant n = true)

include hgrant

theorem ownedBufferSink_granted {out data : Bytes} (h : out.length + data.length + 1 ≤ sizeMax) :
    ownedBufferSink grant out data = .ok (out ++ data) := by
  unfold ownedBufferSink
  split_ifs with hnil hsize
  · rw [hnil, List.append_nil]
  · omega
  · rfl
  · exact absurd (hgrant _) ‹_›

theorem percentDecodeFrom_encode {i : ℕ} {out value : Bytes}
    (h : out.length + value.length + 1 ≤ sizeMax) :
    percentDecodeFrom grant i out (formEncode value) = .ok (out ++ value) := by
  induction value generalizing i out with
  | nil => rw [List.append_nil]; rfl
  | cons ch value ih =>
      rw [List.length_cons] at h
      rw [formEncode, List.flatMap_cons, percentDecodeFrom_piece,
        ownedBufferSink_granted hgrant (by rw [List.length_singleton]; omega)]
      have hrest := @ih (i + (formPiece ch).length) (out ++ [ch])
        (by rw [List.length_append, List.length_singleton]; omega)
      rw [List.append_assoc] at hrest
      exact hrest

/-- Decoding takes the encoding back. -/
theorem percentDecode_encode {value : Bytes} (h : value.length < sizeMax) :
    percentDecode grant (formEncode value) = .ok value :=
  percentDecodeFrom_encode hgrant (by rw [List.length_nil]; omega)

end

/-! ## Bodies -/

/-- A parameter of a form: two C strings, the first of which is not empty. -/
structure FormPair where
  key : Bytes
  value : Bytes
  key_ne : key ≠ []
  key_text : 0 ∉ key
  value_text : 0 ∉ value

def FormPair.encoded (p : FormPair) : Bytes := formEncode p.key ++ 0x3d :: formEncode p.value

/-- The pairs are appended in their order. -/
def formAppendPairs (grant : ℕ → Bool) (maxBytes : ℕ) (pairs : List FormPair) :
    Except Failure FormBody :=
  pairs.foldlM (fun out p => formAppendPair grant maxBytes out (some p.key) (some p.value)) {}

section

variable {grant : ℕ → Bool} {maxBytes : ℕ}

/-- A text is within the limit of a body and within memory. -/
def FormFits (maxBytes : ℕ) (text : Bytes) : Prop := text.length ≤ maxBytes ∧ text.length < sizeMax

theorem formFits_nil (maxBytes : ℕ) : FormFits maxBytes [] := ⟨Nat.zero_le _, by decide⟩

/-- The bytes were appended, and a text that fits still does. -/
theorem formAppendRaw_ok {out data out' : Bytes}
    (h : formAppendRaw grant maxBytes out data = .ok out') :
    out' = out ++ data ∧ (FormFits maxBytes out → FormFits maxBytes out') := by
  unfold formAppendRaw ownedBufferSink at h
  split_ifs at h with hlimit hnil hsize hserved
  · cases h
    rw [hnil, List.append_nil]
    exact ⟨rfl, id⟩
  · cases h
    rw [FormFits, FormFits, List.length_append]
    exact ⟨rfl, fun _ => by omega⟩

theorem formAppendBytes_ok {out value out' : Bytes}
    (h : formAppendBytes grant maxBytes out value = .ok out') :
    out' = out ++ formEncode value ∧ (FormFits maxBytes out → FormFits maxBytes out') := by
  induction value generalizing out with
  | nil =>
      cases h
      exact ⟨(List.append_nil _).symm, id⟩
  | cons ch value ih =>
      obtain ⟨mid, hraw, hrest⟩ := Json.bind_eq_ok h
      obtain ⟨rfl, hmid⟩ := formAppendRaw_ok hraw
      obtain ⟨rfl, hlt⟩ := ih hrest
      refine ⟨?_, fun hout => hlt (hmid hout)⟩
      rw [List.append_assoc, formEncode, formEncode, List.flatMap_cons]

/-- A pair is appended behind an ampersand, unless it is the first one. -/
theorem formAppendPair_ok {out out' : FormBody} {p : FormPair}
    (h : formAppendPair grant maxBytes out (some p.key) (some p.value) = .ok out') :
    out'.data = out.data ++ ((if out.hasPair then [0x26] else []) ++ p.encoded) ∧
      out'.hasPair = true ∧ (FormFits maxBytes out.data → FormFits maxBytes out'.data) := by
  rw [formAppendPair] at h
  obtain ⟨lead, hlead, h⟩ := Json.bind_eq_ok h
  obtain ⟨rfl, hleadLt⟩ : lead = out.data ++ (if out.hasPair then [0x26] else []) ∧
      (FormFits maxBytes out.data → FormFits maxBytes lead) := by
    unfold formAppendMark at hlead
    split_ifs at hlead ⊢
    · exact formAppendRaw_ok hlead
    · cases hlead
      exact ⟨(List.append_nil _).symm, id⟩
  rw [Option.getD_some, cstr_of_notMem p.key_text, if_neg p.key_ne] at h
  obtain ⟨key, hkey, h⟩ := Json.bind_eq_ok h
  obtain ⟨mark, hmark, h⟩ := Json.bind_eq_ok h
  obtain ⟨value, hvalue, h⟩ := Json.bind_eq_ok h
  cases h
  rw [formAppendComponent, cstr_of_notMem p.key_text] at hkey
  rw [formAppendComponent, cstr_of_notMem p.value_text] at hvalue
  obtain ⟨rfl, hkeyLt⟩ := formAppendBytes_ok hkey
  obtain ⟨rfl, hmarkLt⟩ := formAppendRaw_ok hmark
  obtain ⟨rfl, hvalueLt⟩ := formAppendBytes_ok hvalue
  refine ⟨?_, rfl, fun hout => hvalueLt (hmarkLt (hkeyLt (hleadLt hout)))⟩
  simp only [FormPair.encoded, List.append_assoc, List.singleton_append]

/-- The body of some pairs. -/
def formText (pairs : List FormPair) : Bytes := [0x26].intercalate (pairs.map FormPair.encoded)

theorem intercalate_append (sep a b : Bytes) (rest : List Bytes) :
    sep.intercalate (a :: b :: rest) = sep.intercalate ((a ++ (sep ++ b)) :: rest) := by
  cases rest with
  | nil => simp
  | cons c rest =>
      rw [List.intercalate_cons_cons, List.intercalate_cons_cons, List.intercalate_cons_cons]
      simp only [List.append_assoc]

theorem length_le_intercalate (sep : Bytes) {pieces : List Bytes} {piece : Bytes}
    (h : piece ∈ pieces) : piece.length ≤ (sep.intercalate pieces).length := by
  induction pieces with
  | nil => cases h
  | cons a rest ih =>
      cases rest with
      | nil =>
          rw [List.intercalate_singleton, List.mem_singleton.mp h]
      | cons b rest =>
          rw [List.intercalate_cons_cons, List.length_append, List.length_append]
          rcases List.mem_cons.mp h with rfl | hrest
          · omega
          · have := ih hrest
            omega

theorem formAppendPairs_behind {pairs : List FormPair} {out out' : FormBody}
    (hpair : out.hasPair = true)
    (h : pairs.foldlM (fun out p => formAppendPair grant maxBytes out (some p.key) (some p.value))
      out = .ok out') :
    out'.data = [0x26].intercalate (out.data :: pairs.map FormPair.encoded) ∧
      (FormFits maxBytes out.data → FormFits maxBytes out'.data) := by
  induction pairs generalizing out with
  | nil =>
      cases h
      exact ⟨List.intercalate_singleton.symm, id⟩
  | cons p pairs ih =>
      rw [List.foldlM_cons] at h
      obtain ⟨mid, hmid, hrest⟩ := Json.bind_eq_ok h
      obtain ⟨hdata, hmidPair, hmidLt⟩ := formAppendPair_ok hmid
      obtain ⟨hout, hlt⟩ := ih hmidPair hrest
      rw [if_pos hpair] at hdata
      refine ⟨?_, fun hlen => hlt (hmidLt hlen)⟩
      rw [hout, hdata, List.map_cons, intercalate_append]

/-- The pairs stand in the body in their order, with an ampersand between two. -/
theorem formAppendPairs_ok {pairs : List FormPair} {out : FormBody}
    (h : formAppendPairs grant maxBytes pairs = .ok out) :
    out.data = formText pairs ∧ FormFits maxBytes out.data := by
  cases pairs with
  | nil =>
      cases h
      exact ⟨rfl, formFits_nil maxBytes⟩
  | cons p pairs =>
      rw [formAppendPairs, List.foldlM_cons] at h
      obtain ⟨mid, hmid, hrest⟩ := Json.bind_eq_ok h
      obtain ⟨hdata, hmidPair, hmidLt⟩ := formAppendPair_ok hmid
      obtain ⟨hout, hlt⟩ := formAppendPairs_behind hmidPair hrest
      exact ⟨by rw [hout, hdata]; rfl, hlt (hmidLt (formFits_nil maxBytes))⟩

section

variable (hgrant : ∀ n, grant n = true)

include hgrant

theorem formAppendRaw_fits {out data : Bytes} (hmax : out.length + data.length ≤ maxBytes)
    (hsize : out.length + data.length < sizeMax) :
    formAppendRaw grant maxBytes out data = .ok (out ++ data) := by
  rw [formAppendRaw, if_neg (by omega)]
  exact ownedBufferSink_granted hgrant (by omega)

theorem formAppendBytes_fits {out value : Bytes}
    (hmax : out.length + (formEncode value).length ≤ maxBytes)
    (hsize : out.length + (formEncode value).length < sizeMax) :
    formAppendBytes grant maxBytes out value = .ok (out ++ formEncode value) := by
  induction value generalizing out with
  | nil => exact congrArg Except.ok (List.append_nil _).symm
  | cons ch value ih =>
      have hcons : formEncode (ch :: value) = formPiece ch ++ formEncode value := rfl
      rw [hcons, List.length_append] at hmax hsize
      rw [formAppendBytes, formAppendRaw_fits hgrant (by omega) (by omega), hcons,
        ← List.append_assoc]
      exact ih (by rw [List.length_append]; omega) (by rw [List.length_append]; omega)

theorem formAppendPair_fits {out : FormBody} {p : FormPair} {text : Bytes}
    (htext : text = out.data ++ ((if out.hasPair then [0x26] else []) ++ p.encoded))
    (hmax : text.length ≤ maxBytes) (hsize : text.length < sizeMax) :
    formAppendPair grant maxBytes out (some p.key) (some p.value) = .ok ⟨text, true⟩ := by
  subst htext
  simp only [FormPair.encoded, List.length_append, List.length_cons] at hmax hsize
  have hmark : formAppendMark grant maxBytes out =
      .ok (out.data ++ if out.hasPair then [0x26] else []) := by
    unfold formAppendMark
    split_ifs at hmax hsize ⊢
    · exact formAppendRaw_fits hgrant (by omega) (by omega)
    · rw [List.append_nil]
  have hkey := @formAppendBytes_fits _ maxBytes hgrant
    (out.data ++ if out.hasPair then [0x26] else []) p.key
    (by rw [List.length_append]; omega) (by rw [List.length_append]; omega)
  have hequals := @formAppendRaw_fits _ maxBytes hgrant
    ((out.data ++ if out.hasPair then [0x26] else []) ++ formEncode p.key) [0x3d]
    (by simp only [List.length_append, List.length_singleton]; omega)
    (by simp only [List.length_append, List.length_singleton]; omega)
  have hvalue := @formAppendBytes_fits _ maxBytes hgrant
    (((out.data ++ if out.hasPair then [0x26] else []) ++ formEncode p.key) ++ [0x3d]) p.value
    (by simp only [List.length_append, List.length_singleton]; omega)
    (by simp only [List.length_append, List.length_singleton]; omega)
  rw [formAppendPair, hmark]
  dsimp only [bind, Except.bind]
  rw [Option.getD_some, cstr_of_notMem p.key_text, if_neg p.key_ne, formAppendComponent,
    cstr_of_notMem p.key_text, hkey]
  dsimp only
  rw [hequals]
  dsimp only
  rw [formAppendComponent, cstr_of_notMem p.value_text, hvalue]
  simp only [FormPair.encoded, List.append_assoc, List.singleton_append]

theorem formAppendPairs_from {pairs : List FormPair} {out : FormBody} (hpair : out.hasPair = true)
    {text : Bytes} (htext : text = [0x26].intercalate (out.data :: pairs.map FormPair.encoded))
    (hmax : text.length ≤ maxBytes) (hsize : text.length < sizeMax) :
    pairs.foldlM (fun out p => formAppendPair grant maxBytes out (some p.key) (some p.value)) out =
      .ok ⟨text, true⟩ := by
  induction pairs generalizing out with
  | nil =>
      subst htext
      obtain ⟨data, pair⟩ := out
      cases hpair
      rw [List.map_nil, List.intercalate_singleton]
      rfl
  | cons p pairs ih =>
      rw [List.map_cons, intercalate_append] at htext
      have hshort : (out.data ++ ([0x26] ++ p.encoded)).length ≤ text.length := by
        rw [htext]
        exact length_le_intercalate _ List.mem_cons_self
      have hfirst := @formAppendPair_fits _ maxBytes hgrant out p
        (out.data ++ ([0x26] ++ p.encoded)) (by rw [if_pos hpair]) (by omega) (by omega)
      rw [List.foldlM_cons, hfirst]
      exact ih rfl htext

/-- The appends succeed exactly when the body is within the limit, and within memory. -/
theorem formAppendPairs_ok_iff {pairs : List FormPair} :
    (∃ out, formAppendPairs grant maxBytes pairs = .ok out) ↔ FormFits maxBytes (formText pairs) := by
  constructor
  · rintro ⟨out, hout⟩
    obtain ⟨htext, hfits⟩ := formAppendPairs_ok hout
    rwa [htext] at hfits
  · rintro ⟨hmax, hsize⟩
    cases pairs with
    | nil => exact ⟨{}, rfl⟩
    | cons p pairs =>
        have hshort : p.encoded.length ≤ (formText (p :: pairs)).length :=
          length_le_intercalate _ List.mem_cons_self
        have hfirst := @formAppendPair_fits _ maxBytes hgrant {} p _ rfl
          (show ([] ++ ([] ++ p.encoded)).length ≤ maxBytes by simp; omega) (by simp; omega)
        refine ⟨⟨formText (p :: pairs), true⟩, ?_⟩
        rw [formAppendPairs, List.foldlM_cons, hfirst]
        exact formAppendPairs_from hgrant rfl rfl hmax hsize

end

end

/-! ## Reading a body -/

/-- The pieces of a body between its ampersands; an empty body has none. -/
def formPieces (body : Bytes) : List Bytes := if body = [] then [] else body.splitOn 0x26

/-- A piece in front of its first equals sign, and behind it. -/
def formFields (piece : Bytes) : Bytes × Bytes :=
  (piece.takeWhile (· != 0x3d), (piece.dropWhile (· != 0x3d)).tail)

/-- The two parts of a piece, each of them decoded. -/
def formDecode (grant : ℕ → Bool) (piece : Bytes) : Except Failure (Bytes × Bytes) := do
  let key ← percentDecode grant (formFields piece).1
  let value ← percentDecode grant (formFields piece).2
  .ok (key, value)

theorem formEncode_free {value : Bytes} {b : Byte} (hb : isFormByte b = false) :
    b ∉ formEncode value := by
  intro hmem
  rw [formEncode_bytes value b hmem] at hb
  cases hb

theorem FormPair.encoded_free (p : FormPair) : 0x26 ∉ p.encoded := by
  intro hmem
  rw [FormPair.encoded, List.mem_append, List.mem_cons] at hmem
  rcases hmem with hkey | hmark | hvalue
  · exact formEncode_free rfl hkey
  · exact absurd hmark (by decide)
  · exact formEncode_free rfl hvalue

theorem FormPair.encoded_ne_nil (p : FormPair) : p.encoded ≠ [] := by
  rw [FormPair.encoded]
  simp

theorem formPieces_formText (pairs : List FormPair) :
    formPieces (formText pairs) = pairs.map FormPair.encoded := by
  cases pairs with
  | nil => rfl
  | cons p pairs =>
      have hne : formText (p :: pairs) ≠ [] := by
        rw [formText, List.map_cons]
        cases pairs.map FormPair.encoded with
        | nil => simpa using p.encoded_ne_nil
        | cons b rest =>
            rw [List.intercalate_cons_cons]
            simp
      rw [formPieces, if_neg hne, formText, List.splitOn_intercalate]
      · intro piece hpiece
        obtain ⟨q, -, rfl⟩ := List.mem_map.mp hpiece
        exact q.encoded_free
      · simp

theorem FormPair.fields_encoded (p : FormPair) :
    formFields p.encoded = (formEncode p.key, formEncode p.value) := by
  have hkey : ∀ b ∈ formEncode p.key, (b != 0x3d) = true := by
    intro b hb
    rw [bne_iff_ne]
    rintro rfl
    exact formEncode_free rfl hb
  rw [formFields, FormPair.encoded, List.takeWhile_append_of_pos hkey,
    List.dropWhile_append_of_pos hkey]
  simp

theorem length_le_formEncode (value : Bytes) : value.length ≤ (formEncode value).length := by
  induction value with
  | nil => exact Nat.zero_le _
  | cons ch value ih =>
      have hpos := List.length_pos_of_ne_nil (formPiece_ne_nil ch)
      rw [formEncode, List.flatMap_cons, List.length_append, List.length_cons]
      rw [formEncode] at ih
      omega

theorem FormPair.encoded_le {pairs : List FormPair} {p : FormPair} (hp : p ∈ pairs) :
    p.encoded.length ≤ (formText pairs).length :=
  length_le_intercalate _ (List.mem_map_of_mem hp)

/-- Both texts of a pair are shorter than what is written for it. -/
theorem FormPair.lengths_lt (p : FormPair) :
    p.key.length < p.encoded.length ∧ p.value.length < p.encoded.length := by
  have hkey := length_le_formEncode p.key
  have hvalue := length_le_formEncode p.value
  rw [FormPair.encoded, List.length_append, List.length_cons]
  omega

/-- What is written for a pair is read as that pair. -/
theorem FormPair.decoded {grant : ℕ → Bool} (hgrant : ∀ n, grant n = true) {p : FormPair}
    (hsize : p.encoded.length < sizeMax) : formDecode grant p.encoded = .ok (p.key, p.value) := by
  have hlengths := p.lengths_lt
  rw [formDecode, p.fields_encoded, percentDecode_encode hgrant (by omega),
    percentDecode_encode hgrant (by omega)]
  rfl

end Lonejson
