import Lonejson.Schema
import Lonejson.Bytes

/-!
# The base64 codec

The four variants of the encoder and the decoder, the lengths they announce, and what
the two are to each other: the decoder undoes the encoder, and a text it accepts is the
encoder's text up to the bits of the last character that carry no data.
-/

namespace Lonejson

/-! ## Variants and alphabets -/

/-- `lonejson_base64_variant`. -/
inductive Base64Variant where
  | standard
  | standardRaw
  | url
  | urlRaw
  deriving DecidableEq, Repr

namespace Base64Variant

/-- `lonejson__base64_is_url`. -/
def isUrl : Base64Variant → Bool
  | url | urlRaw => true
  | _ => false

/-- `lonejson__base64_is_raw`. -/
def isRaw : Base64Variant → Bool
  | standardRaw | urlRaw => true
  | _ => false

end Base64Variant

/-- `lonejson__base64_std_alphabet`. -/
def base64StdAlphabet : Bytes :=
  [0x41, 0x42, 0x43, 0x44, 0x45, 0x46, 0x47, 0x48, 0x49, 0x4a, 0x4b, 0x4c, 0x4d, 0x4e, 0x4f, 0x50,
   0x51, 0x52, 0x53, 0x54, 0x55, 0x56, 0x57, 0x58, 0x59, 0x5a, 0x61, 0x62, 0x63, 0x64, 0x65, 0x66,
   0x67, 0x68, 0x69, 0x6a, 0x6b, 0x6c, 0x6d, 0x6e, 0x6f, 0x70, 0x71, 0x72, 0x73, 0x74, 0x75, 0x76,
   0x77, 0x78, 0x79, 0x7a, 0x30, 0x31, 0x32, 0x33, 0x34, 0x35, 0x36, 0x37, 0x38, 0x39, 0x2b, 0x2f]

/-- `lonejson__base64_url_alphabet`. -/
def base64UrlAlphabet : Bytes :=
  [0x41, 0x42, 0x43, 0x44, 0x45, 0x46, 0x47, 0x48, 0x49, 0x4a, 0x4b, 0x4c, 0x4d, 0x4e, 0x4f, 0x50,
   0x51, 0x52, 0x53, 0x54, 0x55, 0x56, 0x57, 0x58, 0x59, 0x5a, 0x61, 0x62, 0x63, 0x64, 0x65, 0x66,
   0x67, 0x68, 0x69, 0x6a, 0x6b, 0x6c, 0x6d, 0x6e, 0x6f, 0x70, 0x71, 0x72, 0x73, 0x74, 0x75, 0x76,
   0x77, 0x78, 0x79, 0x7a, 0x30, 0x31, 0x32, 0x33, 0x34, 0x35, 0x36, 0x37, 0x38, 0x39, 0x2d, 0x5f]

/-- `lonejson__base64_alphabet`. -/
def base64Alphabet (variant : Base64Variant) : Bytes :=
  if variant.isUrl then base64UrlAlphabet else base64StdAlphabet

/-- A character of the alphabet by its index. -/
def base64Symbol (variant : Base64Variant) (index : ℕ) : Byte :=
  (base64Alphabet variant).getD index 0

/-- `lonejson__base64_value_for_variant`; `none` is the source's `-1`. -/
def base64ValueForVariant (ch : Byte) (variant : Base64Variant) : Option ℕ :=
  if 0x41 ≤ ch ∧ ch ≤ 0x5a then some (ch.toNat - 0x41)
  else if 0x61 ≤ ch ∧ ch ≤ 0x7a then some (ch.toNat - 0x61 + 26)
  else if 0x30 ≤ ch ∧ ch ≤ 0x39 then some (ch.toNat - 0x30 + 52)
  else if variant.isUrl then
    if ch = 0x2d then some 62 else if ch = 0x5f then some 63 else none
  else if ch = 0x2b then some 62
  else if ch = 0x2f then some 63
  else none

variable {variant : Base64Variant}

theorem base64ValueForVariant_symbol {i : ℕ} (hi : i < 64) :
    base64ValueForVariant (base64Symbol variant i) variant = some i := by
  revert i
  cases variant <;> decide

private theorem base64Symbol_ofNat (variant : Base64Variant) :
    ∀ n : Fin 256, ∀ i ∈ base64ValueForVariant (UInt8.ofNat n) variant,
      i < 64 ∧ base64Symbol variant i = UInt8.ofNat n := by
  cases variant <;> decide +kernel

theorem base64Symbol_value {ch : Byte} {i : ℕ} (h : base64ValueForVariant ch variant = some i) :
    i < 64 ∧ base64Symbol variant i = ch := by
  have hch := base64Symbol_ofNat variant ⟨ch.toNat, ch.toNat_lt⟩
  simp only [UInt8.ofNat_toNat] at hch
  exact hch i h

theorem base64ValueForVariant_pad : base64ValueForVariant 0x3d variant = none := by
  cases variant <;> decide

/-! ## Failures -/

/-- What `lonejson__set_error` is given: the status, the offset and the message. -/
structure Base64Failure where
  status : Status
  offset : ℕ := 0
  message : String
  deriving DecidableEq, Repr

/-! ## The encoder -/

/-- `lonejson_base64_encoded_len`, in `size_t` arithmetic. -/
def base64EncodedLen (len : ℕ) (variant : Base64Variant) : Except Base64Failure ℕ :=
  let groups := len / 3
  let rem := len % 3
  if groups > sizeMax / 4 then .error ⟨.overflow, 0, "base64 encoded length overflows"⟩
  else
    let encoded := groups * 4
    if rem ≠ 0 then
      if variant.isRaw then .ok (encoded + (rem + 1))
      else if encoded > sizeMax - 4 then
        .error ⟨.overflow, 0, "base64 encoded length overflows"⟩
      else .ok (encoded + 4)
    else .ok encoded

/-- `lonejson__base64_emit_quad`: the characters of one to three bytes. -/
def base64Quad (variant : Base64Variant) : Bytes → Bytes
  | [] => []
  | [a] =>
    [base64Symbol variant ((a.toNat >>> 2) &&& 0x3f),
      base64Symbol variant (((a.toNat &&& 0x03) <<< 4) ||| (0 >>> 4))] ++
      if variant.isRaw then [] else [0x3d, 0x3d]
  | [a, b] =>
    [base64Symbol variant ((a.toNat >>> 2) &&& 0x3f),
      base64Symbol variant (((a.toNat &&& 0x03) <<< 4) ||| (b.toNat >>> 4)),
      base64Symbol variant (((b.toNat &&& 0x0f) <<< 2) ||| (0 >>> 6))] ++
      if variant.isRaw then [] else [0x3d]
  | a :: b :: c :: _ =>
    [base64Symbol variant ((a.toNat >>> 2) &&& 0x3f),
      base64Symbol variant (((a.toNat &&& 0x03) <<< 4) ||| (b.toNat >>> 4)),
      base64Symbol variant (((b.toNat &&& 0x0f) <<< 2) ||| (c.toNat >>> 6)),
      base64Symbol variant (c.toNat &&& 0x3f)]

/-- The calls `lonejson_base64_encode_sink` makes of a sink that takes every one. -/
def base64Pieces (variant : Base64Variant) : Bytes → List Bytes
  | a :: b :: c :: rest => base64Quad variant [a, b, c] :: base64Pieces variant rest
  | [] => []
  | rest => [base64Quad variant rest]

/-- The characters of a byte string. -/
def base64Text (variant : Base64Variant) (data : Bytes) : Bytes :=
  (base64Pieces variant data).flatten

/-- What `lonejson_base64_encode` and `lonejson_base64_decode` leave: `*needed`, and the
bytes written unless the call failed. -/
structure Base64Result where
  needed : ℕ
  out : Except Base64Failure Bytes
  deriving DecidableEq

/-- `lonejson_base64_encode`; the caller's pointers are not NULL. -/
def base64Encode (data : Bytes) (variant : Base64Variant) (capacity : ℕ) : Base64Result :=
  match base64EncodedLen data.length variant with
  | .error failure => ⟨0, .error failure⟩
  | .ok needed =>
    if needed > capacity then
      ⟨needed, .error ⟨.truncated, 0, "base64 output buffer is too small"⟩⟩
    else ⟨needed, .ok (base64Text variant data)⟩

/-! ## The check -/

/-- The counters of `lonejson__base64_check`. -/
structure Base64Check where
  decodedLen : ℕ := 0
  quartetLen : ℕ := 0
  padding : ℕ := 0
  sawPadding : Bool := false
  deriving DecidableEq, Repr

/-- The end of a turn of the loop: the quartet has a character more. -/
def Base64Check.count (s : Base64Check) (i : ℕ) : Except Base64Failure Base64Check :=
  let s := { s with quartetLen := s.quartetLen + 1 }
  if s.quartetLen = 4 then
    .ok { s with decodedLen := s.decodedLen + (3 - s.padding), quartetLen := 0, padding := 0 }
  else if s.sawPadding ∧ s.quartetLen = 0 then
    .error ⟨.invalidJson, i, "invalid base64 padding"⟩
  else .ok s

/-- A turn of the loop of `lonejson__base64_check`. -/
def base64CheckChar (variant : Base64Variant) (i : ℕ) (s : Base64Check) (ch : Byte) :
    Except Base64Failure Base64Check :=
  if ch = 0x3d then
    if variant.isRaw then .error ⟨.invalidJson, i, "base64 raw variant rejects padding"⟩
    else
      let s := { s with sawPadding := true, padding := s.padding + 1 }
      if s.padding > 2 ∨ s.quartetLen < 2 then
        .error ⟨.invalidJson, i, "invalid base64 padding"⟩
      else s.count i
  else if s.sawPadding then
    .error ⟨.invalidJson, i, "non-padding base64 data after padding"⟩
  else if (base64ValueForVariant ch variant).isNone then
    .error ⟨.invalidJson, i, "invalid base64 character"⟩
  else s.count i

def base64CheckLoop (variant : Base64Variant) :
    ℕ → Base64Check → Bytes → Except Base64Failure Base64Check
  | _, s, [] => .ok s
  | i, s, ch :: rest =>
    match base64CheckChar variant i s ch with
    | .error failure => .error failure
    | .ok s => base64CheckLoop variant (i + 1) s rest

/-- `lonejson__base64_check` behind the loop. -/
def Base64Check.finish (s : Base64Check) (variant : Base64Variant) (len : ℕ) :
    Except Base64Failure ℕ :=
  if s.quartetLen ≠ 0 then
    if ¬ variant.isRaw then .error ⟨.invalidJson, len, "incomplete padded base64 quartet"⟩
    else if s.quartetLen = 1 then .error ⟨.invalidJson, len, "invalid raw base64 length"⟩
    else .ok (s.decodedLen + (s.quartetLen - 1))
  else if s.sawPadding ∧ s.padding ≠ 0 then
    .error ⟨.invalidJson, len, "invalid base64 padding"⟩
  else .ok s.decodedLen

/-- `lonejson__base64_check`. -/
def base64Check (data : Bytes) (variant : Base64Variant) : Except Base64Failure ℕ :=
  match base64CheckLoop variant 0 {} data with
  | .error failure => .error failure
  | .ok s => s.finish variant data.length

/-- `lonejson_base64_decoded_len`. -/
def base64DecodedLen (data : Bytes) (variant : Base64Variant) : Except Base64Failure ℕ :=
  base64Check data variant

/-! ## The decoder -/

/-- `lonejson__base64_decode_emit`: the bytes of a group whose missing values are zero. -/
def base64DecodeEmit (values : List ℕ) (outLen : ℕ) : Bytes :=
  let bits := (values.getD 0 0 <<< 18) ||| (values.getD 1 0 <<< 12) ||| (values.getD 2 0 <<< 6) |||
    values.getD 3 0
  [((bits >>> 16) &&& 0xff).toUInt8, ((bits >>> 8) &&& 0xff).toUInt8, (bits &&& 0xff).toUInt8].take
    outLen

/-- The loop of `lonejson_base64_decode_sink`. The text has passed the check, so every
character but the padding has a value. -/
def base64DecodeLoop (variant : Base64Variant) : List ℕ → ℕ → Bytes → Bytes
  | values, _, [] =>
    if values.length ≠ 0 then base64DecodeEmit values (values.length - 1) else []
  | values, padding, ch :: rest =>
    let padding := if ch = 0x3d then padding + 1 else padding
    let values :=
      values ++ [if ch = 0x3d then 0 else (base64ValueForVariant ch variant).getD 0]
    if values.length = 4 then
      base64DecodeEmit values (3 - padding) ++ base64DecodeLoop variant [] 0 rest
    else base64DecodeLoop variant values padding rest

/-- `lonejson_base64_decode_sink` into a sink that takes everything. -/
def base64DecodeSink (data : Bytes) (variant : Base64Variant) : Except Base64Failure Bytes :=
  match base64Check data variant with
  | .error failure => .error failure
  | .ok _ => .ok (base64DecodeLoop variant [] 0 data)

/-- `lonejson_base64_decode`; the caller's pointers are not NULL. -/
def base64Decode (data : Bytes) (variant : Base64Variant) (capacity : ℕ) : Base64Result :=
  match base64DecodedLen data variant with
  | .error failure => ⟨0, .error failure⟩
  | .ok needed =>
    if needed > capacity then
      ⟨needed, .error ⟨.truncated, 0, "base64 output buffer is too small"⟩⟩
    else ⟨needed, base64DecodeSink data variant⟩

/-! ## Groups as numbers -/

theorem or_shifted {a b m : ℕ} (hb : b < 2 ^ m) : (a <<< m) ||| b = a * 2 ^ m + b := by
  rw [← Nat.shiftLeft_add_eq_or_of_lt hb, Nat.shiftLeft_eq]

theorem masked_shifted {a b m n : ℕ} (hb : b < 2 ^ m) :
    ((a &&& (2 ^ n - 1)) <<< m) ||| b = a % 2 ^ n * 2 ^ m + b := by
  rw [Nat.and_two_pow_sub_one_eq_mod, or_shifted hb]

theorem sextet_first {a : ℕ} (ha : a < 256) : (a >>> 2) &&& 0x3f = a / 4 := by
  have hmask : (a >>> 2) &&& 0x3f = (a >>> 2) % 2 ^ 6 := Nat.and_two_pow_sub_one_eq_mod _ 6
  rw [hmask, Nat.shiftRight_eq_div_pow]
  omega

theorem sextet_second {a b : ℕ} (hb : b < 256) :
    ((a &&& 0x03) <<< 4) ||| (b >>> 4) = a % 4 * 16 + b / 16 := by
  have hlow : b >>> 4 = b / 16 := Nat.shiftRight_eq_div_pow b 4
  rw [hlow]
  exact masked_shifted (m := 4) (n := 2) (by omega)

theorem sextet_third {b c : ℕ} (hc : c < 256) :
    ((b &&& 0x0f) <<< 2) ||| (c >>> 6) = b % 16 * 4 + c / 64 := by
  have hlow : c >>> 6 = c / 64 := Nat.shiftRight_eq_div_pow c 6
  rw [hlow]
  exact masked_shifted (m := 2) (n := 4) (by omega)

theorem sextet_fourth (c : ℕ) : c &&& 0x3f = c % 64 := Nat.and_two_pow_sub_one_eq_mod c 6

/-- The three bytes of four sextets. -/
def groupBytes (i j k l : ℕ) : Bytes :=
  [(i * 4 + j / 16).toUInt8, (j % 16 * 16 + k / 4).toUInt8, (k % 4 * 64 + l).toUInt8]

theorem base64DecodeEmit_eq {i j k l : ℕ} (hi : i < 64) (hj : j < 64) (hk : k < 64) (hl : l < 64)
    (n : ℕ) : base64DecodeEmit [i, j, k, l] n = (groupBytes i j k l).take n := by
  have hbits : (i <<< 18) ||| (j <<< 12) ||| (k <<< 6) ||| l =
      i * 262144 + j * 4096 + k * 64 + l := by
    rw [Nat.or_assoc, Nat.or_assoc, or_shifted (m := 6) (by omega : l < 2 ^ 6),
      or_shifted (m := 12) (by omega), or_shifted (m := 18) (by omega)]
    omega
  have hbyte (n : ℕ) : n &&& 0xff = n % 256 := Nat.and_two_pow_sub_one_eq_mod n 8
  have hhigh (n : ℕ) : n >>> 16 = n / 65536 := Nat.shiftRight_eq_div_pow n 16
  have hmiddle (n : ℕ) : n >>> 8 = n / 256 := Nat.shiftRight_eq_div_pow n 8
  have hfirst : (i * 262144 + j * 4096 + k * 64 + l) / 65536 % 256 = i * 4 + j / 16 := by omega
  have hsecond : (i * 262144 + j * 4096 + k * 64 + l) / 256 % 256 = j % 16 * 16 + k / 4 := by
    omega
  have hthird : (i * 262144 + j * 4096 + k * 64 + l) % 256 = k % 4 * 64 + l := by omega
  simp only [base64DecodeEmit, groupBytes, List.getD_cons_zero, List.getD_cons_succ]
  rw [hbits, hbyte, hbyte, hbyte, hhigh, hmiddle, hfirst, hsecond, hthird]

theorem base64Quad_three (a b c : Byte) :
    base64Quad variant [a, b, c] =
      [base64Symbol variant (a.toNat / 4), base64Symbol variant (a.toNat % 4 * 16 + b.toNat / 16),
        base64Symbol variant (b.toNat % 16 * 4 + c.toNat / 64),
        base64Symbol variant (c.toNat % 64)] := by
  rw [base64Quad, sextet_first a.toNat_lt, sextet_second b.toNat_lt, sextet_third c.toNat_lt,
    sextet_fourth]

theorem base64Quad_two (a b : Byte) :
    base64Quad variant [a, b] =
      [base64Symbol variant (a.toNat / 4), base64Symbol variant (a.toNat % 4 * 16 + b.toNat / 16),
        base64Symbol variant (b.toNat % 16 * 4)] ++ if variant.isRaw then [] else [0x3d] := by
  rw [base64Quad, sextet_first a.toNat_lt, sextet_second b.toNat_lt, sextet_third (by decide)]
  rfl

theorem base64Quad_one (a : Byte) :
    base64Quad variant [a] =
      [base64Symbol variant (a.toNat / 4), base64Symbol variant (a.toNat % 4 * 16)] ++
        if variant.isRaw then [] else [0x3d, 0x3d] := by
  rw [base64Quad, sextet_first a.toNat_lt, sextet_second (by decide)]
  rfl

/-! ## What the decoder accepts -/

/-- A character stands for a sextet. -/
def Stands (variant : Base64Variant) (ch : Byte) (i : ℕ) : Prop :=
  base64ValueForVariant ch variant = some i

theorem Stands.lt {ch : Byte} {i : ℕ} (h : Stands variant ch i) : i < 64 :=
  (base64Symbol_value h).1

theorem Stands.symbol {ch : Byte} {i : ℕ} (h : Stands variant ch i) : base64Symbol variant i = ch :=
  (base64Symbol_value h).2

theorem Stands.ne_pad {ch : Byte} {i : ℕ} (h : Stands variant ch i) : ch ≠ 0x3d := by
  rintro rfl
  rw [Stands, base64ValueForVariant_pad] at h
  cases h

theorem stands_symbol {i : ℕ} (hi : i < 64) : Stands variant (base64Symbol variant i) i :=
  base64ValueForVariant_symbol hi

/-- A text is read as a byte string: quartets of the alphabet, and a last one that is
padded, or short in a raw variant. -/
inductive Base64Reads (variant : Base64Variant) : Bytes → Bytes → Prop where
  | nil : Base64Reads variant [] []
  | quartet {a b c d : Byte} {i j k l : ℕ} {rest out : Bytes} (ha : Stands variant a i)
      (hb : Stands variant b j) (hc : Stands variant c k) (hd : Stands variant d l)
      (hrest : Base64Reads variant rest out) :
      Base64Reads variant (a :: b :: c :: d :: rest) (groupBytes i j k l ++ out)
  | paddedTwo {a b c : Byte} {i j k : ℕ} (hraw : variant.isRaw = false) (ha : Stands variant a i)
      (hb : Stands variant b j) (hc : Stands variant c k) :
      Base64Reads variant [a, b, c, 0x3d] ((groupBytes i j k 0).take 2)
  | paddedOne {a b : Byte} {i j : ℕ} (hraw : variant.isRaw = false) (ha : Stands variant a i)
      (hb : Stands variant b j) :
      Base64Reads variant [a, b, 0x3d, 0x3d] ((groupBytes i j 0 0).take 1)
  | rawTwo {a b c : Byte} {i j k : ℕ} (hraw : variant.isRaw = true) (ha : Stands variant a i)
      (hb : Stands variant b j) (hc : Stands variant c k) :
      Base64Reads variant [a, b, c] ((groupBytes i j k 0).take 2)
  | rawOne {a b : Byte} {i j : ℕ} (hraw : variant.isRaw = true) (ha : Stands variant a i)
      (hb : Stands variant b j) : Base64Reads variant [a, b] ((groupBytes i j 0 0).take 1)

/-! ## The check and the decoder on accepted texts -/

theorem Base64Check.count_inside {s : Base64Check} (hlen : s.quartetLen < 3) (i : ℕ) :
    s.count i = .ok { s with quartetLen := s.quartetLen + 1 } := by
  rw [count]
  dsimp only
  rw [if_neg (by omega), if_neg]
  rintro ⟨-, hzero⟩
  omega

theorem Base64Check.count_full {s : Base64Check} (hlen : s.quartetLen = 3) (i : ℕ) :
    s.count i = .ok { s with
      decodedLen := s.decodedLen + (3 - s.padding), quartetLen := 0, padding := 0 } := by
  rw [count]
  dsimp only
  rw [if_pos (by omega)]

theorem base64CheckChar_stands {ch : Byte} {k : ℕ} (h : Stands variant ch k) {s : Base64Check}
    (hs : s.sawPadding = false) (i : ℕ) : base64CheckChar variant i s ch = s.count i := by
  rw [base64CheckChar, if_neg h.ne_pad, if_neg (by simp [hs]), if_neg]
  rw [h]
  exact Bool.false_ne_true

theorem base64CheckChar_pad (hraw : variant.isRaw = false) {s : Base64Check} (hpad : s.padding < 2)
    (hlen : 2 ≤ s.quartetLen) (i : ℕ) :
    base64CheckChar variant i s 0x3d =
      { s with sawPadding := true, padding := s.padding + 1 }.count i := by
  rw [base64CheckChar, if_pos rfl, if_neg (by simp [hraw])]
  dsimp only
  rw [if_neg (by omega)]

theorem base64CheckLoop_step {i : ℕ} {s s' : Base64Check} {ch : Byte}
    (h : base64CheckChar variant i s ch = .ok s') (rest : Bytes) :
    base64CheckLoop variant i s (ch :: rest) = base64CheckLoop variant (i + 1) s' rest := by
  rw [base64CheckLoop, h]

/-- A character that does not end its quartet. -/
theorem base64CheckLoop_inside {ch : Byte} {k : ℕ} (h : Stands variant ch k) {s : Base64Check}
    (hs : s.sawPadding = false) (hlen : s.quartetLen < 3) (i : ℕ) (rest : Bytes) :
    base64CheckLoop variant i s (ch :: rest) =
      base64CheckLoop variant (i + 1) { s with quartetLen := s.quartetLen + 1 } rest := by
  apply base64CheckLoop_step
  rw [base64CheckChar_stands h hs, Base64Check.count_inside hlen]

/-- The check accepts what is read, with the length it is read as. -/
theorem Base64Reads.check {text out : Bytes} (h : Base64Reads variant text out) :
    ∀ i n, ∃ s, base64CheckLoop variant i { decodedLen := n } text = .ok s ∧
      ∀ len, s.finish variant len = .ok (n + out.length) := by
  induction h with
  | nil =>
    intro i n
    exact ⟨_, rfl, fun len => rfl⟩
  | quartet ha hb hc hd hrest ih =>
    intro i n
    obtain ⟨s, hloop, hfinish⟩ := ih (i + 1 + 1 + 1 + 1) (n + 3)
    refine ⟨s, ?_, ?_⟩
    · rw [base64CheckLoop_inside ha rfl (by simp), base64CheckLoop_inside hb rfl (by simp),
        base64CheckLoop_inside hc rfl (by simp), base64CheckLoop_step _ _]
      · exact hloop
      · rw [base64CheckChar_stands hd rfl, Base64Check.count_full rfl]
        rfl
    · intro len
      rw [hfinish, List.length_append, ← Nat.add_assoc]
      rfl
  | paddedTwo hraw ha hb hc =>
    intro i n
    refine ⟨{ decodedLen := n + 2, sawPadding := true }, ?_, fun len => rfl⟩
    rw [base64CheckLoop_inside ha rfl (by simp), base64CheckLoop_inside hb rfl (by simp),
      base64CheckLoop_inside hc rfl (by simp), base64CheckLoop_step _ _]
    · rfl
    · rw [base64CheckChar_pad hraw (by simp) (by simp), Base64Check.count_full rfl]
      rfl
  | paddedOne hraw ha hb =>
    intro i n
    refine ⟨{ decodedLen := n + 1, sawPadding := true }, ?_, fun len => rfl⟩
    rw [base64CheckLoop_inside ha rfl (by simp), base64CheckLoop_inside hb rfl (by simp),
      @base64CheckLoop_step _ _ _ ⟨n, 3, 1, true⟩ _ _ _, base64CheckLoop_step _ _]
    · rfl
    · rw [base64CheckChar_pad hraw (by simp) (by simp), Base64Check.count_full rfl]
      rfl
    · rw [base64CheckChar_pad hraw (by simp) (by simp), Base64Check.count_inside (by simp)]
  | rawTwo hraw ha hb hc =>
    intro i n
    refine ⟨{ decodedLen := n, quartetLen := 3 }, ?_, ?_⟩
    · rw [base64CheckLoop_inside ha rfl (by simp), base64CheckLoop_inside hb rfl (by simp),
        base64CheckLoop_inside hc rfl (by simp)]
      rfl
    · intro len
      rw [Base64Check.finish, if_pos (by simp), if_neg (by simp [hraw]), if_neg (by simp)]
      rfl
  | rawOne hraw ha hb =>
    intro i n
    refine ⟨{ decodedLen := n, quartetLen := 2 }, ?_, ?_⟩
    · rw [base64CheckLoop_inside ha rfl (by simp), base64CheckLoop_inside hb rfl (by simp)]
      rfl
    · intro len
      rw [Base64Check.finish, if_pos (by simp), if_neg (by simp [hraw]), if_neg (by simp)]
      rfl

theorem base64DecodeLoop_inside {ch : Byte} {k : ℕ} (h : Stands variant ch k) {values : List ℕ}
    (hlen : values.length < 3) (padding : ℕ) (rest : Bytes) :
    base64DecodeLoop variant values padding (ch :: rest) =
      base64DecodeLoop variant (values ++ [k]) padding rest := by
  rw [base64DecodeLoop]
  simp only [if_neg h.ne_pad, show base64ValueForVariant ch variant = some k from h,
    Option.getD_some]
  rw [if_neg]
  rw [List.length_append, List.length_singleton]
  omega

theorem base64DecodeLoop_full {ch : Byte} {k : ℕ} (h : Stands variant ch k) {values : List ℕ}
    (hlen : values.length = 3) (padding : ℕ) (rest : Bytes) :
    base64DecodeLoop variant values padding (ch :: rest) =
      base64DecodeEmit (values ++ [k]) (3 - padding) ++ base64DecodeLoop variant [] 0 rest := by
  rw [base64DecodeLoop]
  simp only [if_neg h.ne_pad, show base64ValueForVariant ch variant = some k from h,
    Option.getD_some]
  rw [if_pos]
  rw [List.length_append, List.length_singleton, hlen]

/-- The decoder writes what the text is read as. -/
theorem Base64Reads.decode {text out : Bytes} (h : Base64Reads variant text out) :
    base64DecodeLoop variant [] 0 text = out := by
  have hzero : (0 : ℕ) < 64 := by decide
  induction h with
  | nil => rfl
  | quartet ha hb hc hd hrest ih =>
    rw [base64DecodeLoop_inside ha (by simp), base64DecodeLoop_inside hb (by simp),
      base64DecodeLoop_inside hc (by simp), base64DecodeLoop_full hd (by simp), ih]
    congr 1
    exact base64DecodeEmit_eq ha.lt hb.lt hc.lt hd.lt 3
  | paddedTwo hraw ha hb hc =>
    rw [base64DecodeLoop_inside ha (by simp), base64DecodeLoop_inside hb (by simp),
      base64DecodeLoop_inside hc (by simp), ← base64DecodeEmit_eq ha.lt hb.lt hc.lt hzero]
    exact List.append_nil _
  | paddedOne hraw ha hb =>
    rw [base64DecodeLoop_inside ha (by simp), base64DecodeLoop_inside hb (by simp),
      ← base64DecodeEmit_eq ha.lt hb.lt hzero hzero]
    exact List.append_nil _
  | rawTwo hraw ha hb hc =>
    rw [base64DecodeLoop_inside ha (by simp), base64DecodeLoop_inside hb (by simp),
      base64DecodeLoop_inside hc (by simp), ← base64DecodeEmit_eq ha.lt hb.lt hc.lt hzero]
    rfl
  | rawOne hraw ha hb =>
    rw [base64DecodeLoop_inside ha (by simp), base64DecodeLoop_inside hb (by simp),
      ← base64DecodeEmit_eq ha.lt hb.lt hzero hzero]
    rfl

/-- What a turn of the check accepts. -/
theorem base64CheckChar_eq_ok {i : ℕ} {s s' : Base64Check} {ch : Byte}
    (h : base64CheckChar variant i s ch = .ok s') :
    (ch = 0x3d ∧ variant.isRaw = false ∧ 2 ≤ s.quartetLen ∧
      { s with sawPadding := true, padding := s.padding + 1 }.count i = .ok s') ∨
    ((∃ k, Stands variant ch k) ∧ s.sawPadding = false ∧ s.count i = .ok s') := by
  rw [base64CheckChar] at h
  dsimp only at h
  by_cases hpad : ch = 0x3d
  · rw [if_pos hpad] at h
    split_ifs at h with hraw hplace
    push Not at hplace
    exact .inl ⟨hpad, by simpa using hraw, hplace.2, h⟩
  · rw [if_neg hpad] at h
    split_ifs at h with hsaw hvalue
    obtain ⟨k, hk⟩ := Option.ne_none_iff_exists'.mp (by simpa using hvalue)
    exact .inr ⟨⟨k, hk⟩, by simpa using hsaw, h⟩

/-- A text accepted from a state begins with a character that is. -/
theorem base64CheckLoop_eq_ok {i : ℕ} {s t : Base64Check} {ch : Byte} {rest : Bytes}
    (h : base64CheckLoop variant i s (ch :: rest) = .ok t) :
    ∃ s', base64CheckChar variant i s ch = .ok s' ∧
      base64CheckLoop variant (i + 1) s' rest = .ok t := by
  rw [base64CheckLoop] at h
  split at h
  · cases h
  · exact ⟨_, by assumption, h⟩

/-- Inside a quartet a symbol or the padding of a place that has room for it. -/
theorem base64CheckLoop_symbol {i n q : ℕ} (hq : q < 2) {t : Base64Check} {ch : Byte} {rest : Bytes}
    (h : base64CheckLoop variant i { decodedLen := n, quartetLen := q } (ch :: rest) = .ok t) :
    (∃ k, Stands variant ch k) ∧
      base64CheckLoop variant (i + 1) { decodedLen := n, quartetLen := q + 1 } rest = .ok t := by
  obtain ⟨s, hchar, hrest⟩ := base64CheckLoop_eq_ok h
  rcases base64CheckChar_eq_ok hchar with ⟨-, -, hlen, -⟩ | ⟨hstands, -, hcount⟩
  · simp only at hlen
    omega
  · rw [Base64Check.count_inside (by simp; omega), Except.ok.injEq] at hcount
    subst hcount
    exact ⟨hstands, hrest⟩

/-- Nothing is accepted behind a padded quartet. -/
theorem base64CheckLoop_padded {i n : ℕ} {t : Base64Check} {rest : Bytes}
    (h : base64CheckLoop variant i { decodedLen := n, sawPadding := true } rest = .ok t) :
    rest = [] ∧ t = { decodedLen := n, sawPadding := true } := by
  cases rest with
  | nil => exact ⟨rfl, (Except.ok.inj h).symm⟩
  | cons ch rest =>
    obtain ⟨s, hchar, -⟩ := base64CheckLoop_eq_ok h
    rcases base64CheckChar_eq_ok hchar with ⟨-, -, hlen, -⟩ | ⟨-, hsaw, -⟩
    · simp at hlen
    · simp at hsaw

/-- A character whose `n` low bits are cleared. -/
def clearLow (variant : Base64Variant) (n : ℕ) (ch : Byte) : Byte :=
  match base64ValueForVariant ch variant with
  | some i => base64Symbol variant (i / 2 ^ n * 2 ^ n)
  | none => ch

/-- A text without the bits that carry no data: the low bits of the last character in
front of the padding or of the end of a short quartet. -/
def clearUnused (variant : Base64Variant) : Bytes → Bytes
  | a :: b :: c :: d :: rest =>
    (if c = 0x3d then [a, clearLow variant 4 b, c, d]
      else if d = 0x3d then [a, b, clearLow variant 2 c, d]
      else [a, b, c, d]) ++ clearUnused variant rest
  | [a, b, c] => [a, b, clearLow variant 2 c]
  | [a, b] => [a, clearLow variant 4 b]
  | text => text

/-- What the check accepts is read as some byte string. -/
theorem base64Reads_of_check {text : Bytes} {len m : ℕ} :
    ∀ {i n : ℕ} {s : Base64Check},
      base64CheckLoop variant i { decodedLen := n } text = .ok s →
      s.finish variant len = .ok m → ∃ out, Base64Reads variant text out := by
  induction text using clearUnused.induct with
  | case1 a b c d rest ih =>
    intro i n s hloop hfinish
    obtain ⟨⟨j, ha⟩, hloop⟩ := base64CheckLoop_symbol (by decide) hloop
    obtain ⟨⟨k, hb⟩, hloop⟩ := base64CheckLoop_symbol (by decide) hloop
    obtain ⟨t, hthird, hloop⟩ := base64CheckLoop_eq_ok hloop
    obtain ⟨u, hfourth, hloop⟩ := base64CheckLoop_eq_ok hloop
    rcases base64CheckChar_eq_ok hthird with ⟨rfl, hraw, -, hcount⟩ | ⟨⟨l, hc⟩, -, hcount⟩
    · rw [Base64Check.count_inside (by simp), Except.ok.injEq] at hcount
      subst hcount
      rcases base64CheckChar_eq_ok hfourth with ⟨rfl, -, -, hcount⟩ | ⟨-, hsaw, -⟩
      · rw [Base64Check.count_full rfl, Except.ok.injEq] at hcount
        subst hcount
        obtain ⟨rfl, -⟩ := base64CheckLoop_padded hloop
        exact ⟨_, .paddedOne hraw ha hb⟩
      · simp at hsaw
    · rw [Base64Check.count_inside (by simp), Except.ok.injEq] at hcount
      subst hcount
      rcases base64CheckChar_eq_ok hfourth with ⟨rfl, hraw, -, hcount⟩ | ⟨⟨m, hd⟩, -, hcount⟩
      · rw [Base64Check.count_full rfl, Except.ok.injEq] at hcount
        subst hcount
        obtain ⟨rfl, -⟩ := base64CheckLoop_padded hloop
        exact ⟨_, .paddedTwo hraw ha hb hc⟩
      · rw [Base64Check.count_full rfl, Except.ok.injEq] at hcount
        subst hcount
        obtain ⟨out, hrest⟩ := ih hloop hfinish
        exact ⟨_, .quartet ha hb hc hd hrest⟩
  | case2 a b c =>
    intro i n s hloop hfinish
    obtain ⟨⟨j, ha⟩, hloop⟩ := base64CheckLoop_symbol (by decide) hloop
    obtain ⟨⟨k, hb⟩, hloop⟩ := base64CheckLoop_symbol (by decide) hloop
    obtain ⟨t, hthird, hloop⟩ := base64CheckLoop_eq_ok hloop
    rw [base64CheckLoop, Except.ok.injEq] at hloop
    subst hloop
    rcases base64CheckChar_eq_ok hthird with ⟨-, hraw, -, hcount⟩ | ⟨⟨l, hc⟩, -, hcount⟩
    · rw [Base64Check.count_inside (by simp), Except.ok.injEq] at hcount
      subst hcount
      simp [Base64Check.finish, hraw] at hfinish
    · rw [Base64Check.count_inside (by simp), Except.ok.injEq] at hcount
      subst hcount
      by_cases hraw : variant.isRaw = true
      · exact ⟨_, .rawTwo hraw ha hb hc⟩
      · simp [Base64Check.finish, hraw] at hfinish
  | case3 a b =>
    intro i n s hloop hfinish
    obtain ⟨⟨j, ha⟩, hloop⟩ := base64CheckLoop_symbol (by decide) hloop
    obtain ⟨⟨k, hb⟩, hloop⟩ := base64CheckLoop_symbol (by decide) hloop
    rw [base64CheckLoop, Except.ok.injEq] at hloop
    subst hloop
    by_cases hraw : variant.isRaw = true
    · exact ⟨_, .rawOne hraw ha hb⟩
    · simp [Base64Check.finish, hraw] at hfinish
  | case4 text hfour hthree htwo =>
    intro i n s hloop hfinish
    match text with
    | [] => exact ⟨_, .nil⟩
    | [a] =>
      obtain ⟨-, hloop⟩ := base64CheckLoop_symbol (by decide) hloop
      rw [base64CheckLoop, Except.ok.injEq] at hloop
      subst hloop
      -- a quartet of one character carries no byte
      cases hraw : variant.isRaw <;> simp [Base64Check.finish, hraw] at hfinish
    | [a, b] => exact (htwo a b rfl).elim
    | [a, b, c] => exact (hthree a b c rfl).elim
    | a :: b :: c :: d :: rest => exact (hfour a b c d rest rfl).elim

/-- The check and the decoder on a text that is read. -/
theorem Base64Reads.accepted {text out : Bytes} (h : Base64Reads variant text out) :
    base64Check text variant = .ok out.length ∧ base64DecodeSink text variant = .ok out := by
  obtain ⟨s, hloop, hfinish⟩ := h.check 0 0
  have hcheck : base64Check text variant = .ok out.length := by
    rw [base64Check, hloop]
    dsimp only
    rw [hfinish, Nat.zero_add]
  refine ⟨hcheck, ?_⟩
  rw [base64DecodeSink, hcheck]
  dsimp only
  rw [h.decode]

theorem base64Reads_of_decode {text out : Bytes} {capacity : ℕ}
    (h : (base64Decode text variant capacity).out = .ok out) : Base64Reads variant text out := by
  have hreads : ∃ x, Base64Reads variant text x := by
    rw [base64Decode, base64DecodedLen, base64Check] at h
    cases hloop : base64CheckLoop variant 0 {} text with
    | error failure => simp [hloop] at h
    | ok s =>
      cases hfinish : s.finish variant text.length with
      | error failure => simp [hloop, hfinish] at h
      | ok m => exact base64Reads_of_check hloop hfinish
  obtain ⟨x, hx⟩ := hreads
  obtain ⟨hcheck, hsink⟩ := hx.accepted
  rw [base64Decode, base64DecodedLen, hcheck] at h
  dsimp only at h
  split_ifs at h
  rw [hsink, Except.ok.injEq] at h
  exact h ▸ hx

theorem Base64Reads.decode_call {text out : Bytes} (h : Base64Reads variant text out)
    {capacity : ℕ} (hroom : out.length ≤ capacity) :
    base64Decode text variant capacity = ⟨out.length, .ok out⟩ := by
  obtain ⟨hcheck, hsink⟩ := h.accepted
  rw [base64Decode, base64DecodedLen, hcheck]
  dsimp only
  rw [if_neg (by omega), hsink]

/-! ## The encoder's text -/

theorem base64Text_cons (a b c : Byte) (rest : Bytes) :
    base64Text variant (a :: b :: c :: rest) =
      base64Quad variant [a, b, c] ++ base64Text variant rest := by
  rw [base64Text, base64Pieces, List.flatten_cons]
  rfl

theorem base64Text_one (a : Byte) : base64Text variant [a] = base64Quad variant [a] :=
  List.append_nil _

theorem base64Text_two (a b : Byte) : base64Text variant [a, b] = base64Quad variant [a, b] :=
  List.append_nil _

theorem groupBytes_three (a b c : Byte) :
    groupBytes (a.toNat / 4) (a.toNat % 4 * 16 + b.toNat / 16) (b.toNat % 16 * 4 + c.toNat / 64)
      (c.toNat % 64) = [a, b, c] := by
  have ha := a.toNat_lt
  have hb := b.toNat_lt
  have hc := c.toNat_lt
  have hfirst : a.toNat / 4 * 4 + (a.toNat % 4 * 16 + b.toNat / 16) / 16 = a.toNat := by omega
  have hsecond : (a.toNat % 4 * 16 + b.toNat / 16) % 16 * 16 +
      (b.toNat % 16 * 4 + c.toNat / 64) / 4 = b.toNat := by omega
  have hthird : (b.toNat % 16 * 4 + c.toNat / 64) % 4 * 64 + c.toNat % 64 = c.toNat := by omega
  rw [groupBytes, hfirst, hsecond, hthird]
  simp

/-- The encoder's text is read as the bytes that it is the text of. -/
theorem base64Reads_text (data : Bytes) : Base64Reads variant (base64Text variant data) data := by
  induction data using base64Pieces.induct with
  | case1 a b c rest ih =>
    have ha := a.toNat_lt
    have hb := b.toNat_lt
    have hc := c.toNat_lt
    rw [base64Text_cons, base64Quad_three]
    have h := Base64Reads.quartet (@stands_symbol variant _ (by omega : a.toNat / 4 < 64))
      (stands_symbol (by omega : a.toNat % 4 * 16 + b.toNat / 16 < 64))
      (stands_symbol (by omega : b.toNat % 16 * 4 + c.toNat / 64 < 64))
      (stands_symbol (by omega : c.toNat % 64 < 64)) ih
    rw [groupBytes_three] at h
    exact h
  | case2 => exact .nil
  | case3 rest hthree hnil =>
    match rest with
    | [] => exact (hnil rfl).elim
    | [a] =>
      have ha := a.toNat_lt
      have hfirst := @stands_symbol variant _ (by omega : a.toNat / 4 < 64)
      have hsecond := @stands_symbol variant _ (by omega : a.toNat % 4 * 16 < 64)
      have hout : groupBytes (a.toNat / 4) (a.toNat % 4 * 16) 0 0 = [a, 0, 0] :=
        groupBytes_three a 0 0
      rw [base64Text_one, base64Quad_one]
      cases hraw : variant.isRaw
      · have h := Base64Reads.paddedOne hraw hfirst hsecond
        rw [hout] at h
        exact h
      · have h := Base64Reads.rawOne hraw hfirst hsecond
        rw [hout] at h
        exact h
    | [a, b] =>
      have ha := a.toNat_lt
      have hb := b.toNat_lt
      have hfirst := @stands_symbol variant _ (by omega : a.toNat / 4 < 64)
      have hsecond := @stands_symbol variant _
        (by omega : a.toNat % 4 * 16 + b.toNat / 16 < 64)
      have hthird := @stands_symbol variant _ (by omega : b.toNat % 16 * 4 < 64)
      have hout : groupBytes (a.toNat / 4) (a.toNat % 4 * 16 + b.toNat / 16) (b.toNat % 16 * 4) 0 =
          [a, b, 0] := groupBytes_three a b 0
      rw [base64Text_two, base64Quad_two]
      cases hraw : variant.isRaw
      · have h := Base64Reads.paddedTwo hraw hfirst hsecond hthird
        rw [hout] at h
        exact h
      · have h := Base64Reads.rawTwo hraw hfirst hsecond hthird
        rw [hout] at h
        exact h
    | a :: b :: c :: rest => exact (hthree a b c rest rfl).elim

theorem base64Text_length (data : Bytes) :
    (base64Text variant data).length = data.length / 3 * 4 +
      if data.length % 3 = 0 then 0 else if variant.isRaw then data.length % 3 + 1 else 4 := by
  induction data using base64Pieces.induct with
  | case1 a b c rest ih =>
    rw [base64Text_cons, List.length_append, ih, base64Quad_three]
    simp only [List.length_cons, List.length_nil, Nat.add_assoc, Nat.reduceAdd]
    rw [Nat.add_mod_right, Nat.add_div_right _ (by decide)]
    omega
  | case2 => rfl
  | case3 rest hthree hnil =>
    match rest with
    | [] => exact (hnil rfl).elim
    | [a] =>
      rw [base64Text_one, base64Quad_one]
      cases variant.isRaw <;> simp
    | [a, b] =>
      rw [base64Text_two, base64Quad_two]
      cases variant.isRaw <;> simp
    | a :: b :: c :: rest => exact (hthree a b c rest rfl).elim

/-- The length the encoder announces is that of its text, where a `size_t` can hold it. -/
theorem base64EncodedLen_eq (data : Bytes) :
    base64EncodedLen data.length variant =
      if (base64Text variant data).length ≤ sizeMax then .ok (base64Text variant data).length
      else .error ⟨.overflow, 0, "base64 encoded length overflows"⟩ := by
  rw [base64Text_length, base64EncodedLen]
  dsimp only
  have hmod : data.length % 3 < 3 := Nat.mod_lt _ (by decide)
  generalize data.length % 3 = rem at hmod ⊢
  generalize data.length / 3 = groups
  have hmax : sizeMax = 18446744073709551615 := rfl
  rw [hmax]
  cases variant.isRaw
  all_goals split_ifs <;> first | rfl | omega

theorem base64Encode_call {data : Bytes} (hfits : (base64Text variant data).length ≤ sizeMax)
    {capacity : ℕ} (hroom : (base64Text variant data).length ≤ capacity) :
    base64Encode data variant capacity =
      ⟨(base64Text variant data).length, .ok (base64Text variant data)⟩ := by
  rw [base64Encode, base64EncodedLen_eq, if_pos hfits]
  dsimp only
  rw [if_neg (by omega)]

/-! ## The bits that carry no data -/

theorem toNat_toUInt8 {n : ℕ} (hn : n < 256) : n.toUInt8.toNat = n := by
  rw [Nat.toUInt8, UInt8.toNat_ofNat_of_lt']
  exact hn

theorem base64Quad_group {i j k l : ℕ} (hi : i < 64) (hj : j < 64) (hk : k < 64) (hl : l < 64) :
    base64Quad variant (groupBytes i j k l) =
      [base64Symbol variant i, base64Symbol variant j, base64Symbol variant k,
        base64Symbol variant l] := by
  have hfirst : (i * 4 + j / 16) / 4 = i := by omega
  have hsecond : (i * 4 + j / 16) % 4 * 16 + (j % 16 * 16 + k / 4) / 16 = j := by omega
  have hthird : (j % 16 * 16 + k / 4) % 16 * 4 + (k % 4 * 64 + l) / 64 = k := by omega
  have hfourth : (k % 4 * 64 + l) % 64 = l := by omega
  rw [groupBytes, base64Quad_three, toNat_toUInt8 (by omega), toNat_toUInt8 (by omega),
    toNat_toUInt8 (by omega), hfirst, hsecond, hthird, hfourth]

theorem base64Text_group {i j k l : ℕ} (hi : i < 64) (hj : j < 64) (hk : k < 64) (hl : l < 64)
    (out : Bytes) :
    base64Text variant (groupBytes i j k l ++ out) =
      [base64Symbol variant i, base64Symbol variant j, base64Symbol variant k,
        base64Symbol variant l] ++ base64Text variant out := by
  rw [← base64Quad_group hi hj hk hl]
  exact base64Text_cons _ _ _ out

theorem base64Quad_groupTwo {i j k : ℕ} (hi : i < 64) (hj : j < 64) (hk : k < 64) :
    base64Quad variant ((groupBytes i j k 0).take 2) =
      [base64Symbol variant i, base64Symbol variant j, base64Symbol variant (k / 4 * 4)] ++
        if variant.isRaw then [] else [0x3d] := by
  have hfirst : (i * 4 + j / 16) / 4 = i := by omega
  have hsecond : (i * 4 + j / 16) % 4 * 16 + (j % 16 * 16 + k / 4) / 16 = j := by omega
  have hthird : (j % 16 * 16 + k / 4) % 16 * 4 = k / 4 * 4 := by omega
  change base64Quad variant [_, _] = _
  rw [base64Quad_two, toNat_toUInt8 (by omega), toNat_toUInt8 (by omega), hfirst, hsecond, hthird]

theorem base64Quad_groupOne {i j : ℕ} (hi : i < 64) (hj : j < 64) :
    base64Quad variant ((groupBytes i j 0 0).take 1) =
      [base64Symbol variant i, base64Symbol variant (j / 16 * 16)] ++
        if variant.isRaw then [] else [0x3d, 0x3d] := by
  have hfirst : (i * 4 + j / 16) / 4 = i := by omega
  have hsecond : (i * 4 + j / 16) % 4 * 16 = j / 16 * 16 := by omega
  change base64Quad variant [_] = _
  rw [base64Quad_one, toNat_toUInt8 (by omega), hfirst, hsecond]

theorem Stands.clearLow {ch : Byte} {i : ℕ} (h : Stands variant ch i) (n : ℕ) :
    clearLow variant n ch = base64Symbol variant (i / 2 ^ n * 2 ^ n) := by
  rw [Lonejson.clearLow, show base64ValueForVariant ch variant = some i from h]

/-- The bytes of an accepted text are encoded as the text without its unused bits. -/
theorem Base64Reads.text {text out : Bytes} (h : Base64Reads variant text out) :
    base64Text variant out = clearUnused variant text := by
  induction h with
  | nil => rfl
  | quartet ha hb hc hd hrest ih =>
    rw [base64Text_group ha.lt hb.lt hc.lt hd.lt, ih, clearUnused, if_neg hc.ne_pad,
      if_neg hd.ne_pad, ha.symbol, hb.symbol, hc.symbol, hd.symbol]
  | paddedTwo hraw ha hb hc =>
    rw [clearUnused, if_neg hc.ne_pad, if_pos rfl, hc.clearLow]
    change base64Text variant [_, _] = _
    rw [base64Text_two]
    have hquad := @base64Quad_groupTwo variant _ _ _ ha.lt hb.lt hc.lt
    rw [hraw, ha.symbol, hb.symbol] at hquad
    exact hquad
  | paddedOne hraw ha hb =>
    rw [clearUnused, if_pos rfl, hb.clearLow]
    change base64Text variant [_] = _
    rw [base64Text_one]
    have hquad := @base64Quad_groupOne variant _ _ ha.lt hb.lt
    rw [hraw, ha.symbol] at hquad
    exact hquad
  | rawTwo hraw ha hb hc =>
    rw [clearUnused, hc.clearLow]
    change base64Text variant [_, _] = _
    rw [base64Text_two]
    have hquad := @base64Quad_groupTwo variant _ _ _ ha.lt hb.lt hc.lt
    rw [hraw, ha.symbol, hb.symbol] at hquad
    exact hquad
  | rawOne hraw ha hb =>
    rw [clearUnused, hb.clearLow]
    change base64Text variant [_] = _
    rw [base64Text_one]
    have hquad := @base64Quad_groupOne variant _ _ ha.lt hb.lt
    rw [hraw, ha.symbol] at hquad
    exact hquad

theorem clearUnused_length (text : Bytes) : (clearUnused variant text).length = text.length := by
  induction text using clearUnused.induct with
  | case1 a b c d rest ih =>
    rw [clearUnused, List.length_append, ih]
    split_ifs <;> simp <;> omega
  | case2 a b c => rfl
  | case3 a b => rfl
  | case4 text hfour hthree htwo =>
    exact congrArg List.length (clearUnused.eq_4 variant text hfour hthree htwo)

theorem stands_of_clearLow {ch : Byte} {n k : ℕ} (h : Stands variant (clearLow variant n ch) k) :
    ∃ m, Stands variant ch m ∧ k = m / 2 ^ n * 2 ^ n := by
  cases hvalue : base64ValueForVariant ch variant with
  | none =>
    rw [clearLow, hvalue, Stands, hvalue] at h
    cases h
  | some m =>
    have hlt := Stands.lt hvalue
    have hle : m / 2 ^ n * 2 ^ n ≤ m := Nat.div_mul_le_self m (2 ^ n)
    rw [Stands.clearLow hvalue, Stands, stands_symbol (by omega), Option.some.injEq] at h
    exact ⟨m, hvalue, h.symm⟩

theorem eq_pad_of_clearLow {ch : Byte} {n : ℕ} (h : clearLow variant n ch = 0x3d) : ch = 0x3d := by
  cases hvalue : base64ValueForVariant ch variant with
  | none =>
    rw [clearLow, hvalue] at h
    exact h
  | some m =>
    have hlt := Stands.lt hvalue
    have hle : m / 2 ^ n * 2 ^ n ≤ m := Nat.div_mul_le_self m (2 ^ n)
    have hstands := @stands_symbol variant _ (lt_of_le_of_lt hle hlt)
    rw [← Stands.clearLow hvalue] at hstands
    exact (hstands.ne_pad h).elim

theorem group_take_two (i j k : ℕ) :
    (groupBytes i j (k / 2 ^ 2 * 2 ^ 2) 0).take 2 = (groupBytes i j k 0).take 2 := by
  have hlow : k / 2 ^ 2 * 2 ^ 2 / 4 = k / 4 := by omega
  simp only [groupBytes, List.take_succ_cons, List.take_zero, hlow]

theorem group_take_one (i j : ℕ) :
    (groupBytes i (j / 2 ^ 4 * 2 ^ 4) 0 0).take 1 = (groupBytes i j 0 0).take 1 := by
  have hlow : j / 2 ^ 4 * 2 ^ 4 / 16 = j / 16 := by omega
  simp only [groupBytes, List.take_succ_cons, List.take_zero, hlow]

theorem not_stands_pad {i : ℕ} : ¬ Stands variant 0x3d i := fun h => h.ne_pad rfl

theorem Base64Reads.four {a b c d : Byte} {rest out : Bytes}
    (h : Base64Reads variant (a :: b :: c :: d :: rest) out) :
    ∃ i j, Stands variant a i ∧ Stands variant b j ∧
      ((∃ k l x, Stands variant c k ∧ Stands variant d l ∧ Base64Reads variant rest x ∧
          out = groupBytes i j k l ++ x) ∨
        (∃ k, variant.isRaw = false ∧ Stands variant c k ∧ d = 0x3d ∧ rest = [] ∧
          out = (groupBytes i j k 0).take 2) ∨
        (variant.isRaw = false ∧ c = 0x3d ∧ d = 0x3d ∧ rest = [] ∧
          out = (groupBytes i j 0 0).take 1)) := by
  cases h with
  | quartet ha hb hc hd hrest => exact ⟨_, _, ha, hb, .inl ⟨_, _, _, hc, hd, hrest, rfl⟩⟩
  | paddedTwo hraw ha hb hc => exact ⟨_, _, ha, hb, .inr (.inl ⟨_, hraw, hc, rfl, rfl, rfl⟩)⟩
  | paddedOne hraw ha hb => exact ⟨_, _, ha, hb, .inr (.inr ⟨hraw, rfl, rfl, rfl, rfl⟩)⟩

theorem Base64Reads.three {a b c : Byte} {out : Bytes} (h : Base64Reads variant [a, b, c] out) :
    ∃ i j k, variant.isRaw = true ∧ Stands variant a i ∧ Stands variant b j ∧ Stands variant c k ∧
      out = (groupBytes i j k 0).take 2 := by
  cases h with
  | rawTwo hraw ha hb hc => exact ⟨_, _, _, hraw, ha, hb, hc, rfl⟩

theorem Base64Reads.two {a b : Byte} {out : Bytes} (h : Base64Reads variant [a, b] out) :
    ∃ i j, variant.isRaw = true ∧ Stands variant a i ∧ Stands variant b j ∧
      out = (groupBytes i j 0 0).take 1 := by
  cases h with
  | rawOne hraw ha hb => exact ⟨_, _, hraw, ha, hb, rfl⟩

/-- The decoder does not look at the unused bits. -/
theorem base64Reads_of_clearUnused {text : Bytes} :
    ∀ {out : Bytes}, Base64Reads variant (clearUnused variant text) out →
      Base64Reads variant text out := by
  induction text using clearUnused.induct with
  | case1 a b c d rest ih =>
    intro out h
    have hnil (hrest : clearUnused variant rest = []) : rest = [] := by
      have hlen := @clearUnused_length variant rest
      rw [hrest] at hlen
      exact List.eq_nil_of_length_eq_zero hlen.symm
    rw [clearUnused] at h
    split_ifs at h with hc hd
    · subst hc
      obtain ⟨i, j, ha, hb, hlast⟩ := h.four
      rcases hlast with ⟨k, l, x, hc, -⟩ | ⟨k, -, hc, -⟩ | ⟨hraw, -, rfl, hrest, rfl⟩
      · exact (not_stands_pad hc).elim
      · exact (not_stands_pad hc).elim
      · obtain ⟨m, hsecond, rfl⟩ := stands_of_clearLow hb
        rw [hnil hrest, group_take_one]
        exact .paddedOne hraw ha hsecond
    · subst hd
      obtain ⟨i, j, ha, hb, hlast⟩ := h.four
      rcases hlast with ⟨k, l, x, -, hd, -⟩ | ⟨k, hraw, hlow, -, hrest, rfl⟩ | ⟨-, hpad, -⟩
      · exact (not_stands_pad hd).elim
      · obtain ⟨m, hthird, rfl⟩ := stands_of_clearLow hlow
        rw [hnil hrest, group_take_two]
        exact .paddedTwo hraw ha hb hthird
      · exact (hc (eq_pad_of_clearLow hpad)).elim
    · obtain ⟨i, j, ha, hb, hlast⟩ := h.four
      rcases hlast with ⟨k, l, x, hthird, hfourth, hrest, rfl⟩ | ⟨k, -, -, hpad, -⟩ | ⟨-, hpad, -⟩
      · exact .quartet ha hb hthird hfourth (ih hrest)
      · exact (hd hpad).elim
      · exact (hc hpad).elim
  | case2 a b c =>
    intro out h
    obtain ⟨i, j, k, hraw, ha, hb, hc, rfl⟩ := h.three
    obtain ⟨m, hthird, rfl⟩ := stands_of_clearLow hc
    rw [group_take_two]
    exact .rawTwo hraw ha hb hthird
  | case3 a b =>
    intro out h
    obtain ⟨i, j, hraw, ha, hb, rfl⟩ := h.two
    obtain ⟨m, hsecond, rfl⟩ := stands_of_clearLow hb
    rw [group_take_one]
    exact .rawOne hraw ha hsecond
  | case4 text hfour hthree htwo =>
    intro out h
    rw [clearUnused.eq_4 variant text hfour hthree htwo] at h
    exact h

/-! ## The codec -/

/-- The decoder undoes the encoder, at the lengths that both announce; what it accepts is
encoded again as the same text up to the unused bits of the last character, and it accepts
a text just when the encoder makes the text without these bits. -/
theorem base64_codec (variant : Base64Variant) :
    (∀ data : Bytes, (base64Text variant data).length ≤ sizeMax →
      ∃ text : Bytes, base64EncodedLen data.length variant = .ok text.length ∧
        base64DecodedLen text variant = .ok data.length ∧
        (∀ capacity, text.length ≤ capacity →
          base64Encode data variant capacity = ⟨text.length, .ok text⟩) ∧
        ∀ capacity, data.length ≤ capacity →
          base64Decode text variant capacity = ⟨data.length, .ok data⟩) ∧
    (∀ (text out : Bytes) (room : ℕ), text.length ≤ sizeMax →
      (base64Decode text variant room).out = .ok out →
      base64DecodedLen text variant = .ok out.length ∧
        ∀ capacity, text.length ≤ capacity →
          base64Encode out variant capacity = ⟨text.length, .ok (clearUnused variant text)⟩) ∧
    ∀ text : Bytes, (∃ room out, (base64Decode text variant room).out = .ok out) ↔
      ∃ data, base64Text variant data = clearUnused variant text := by
  refine ⟨?_, ?_, ?_⟩
  · intro data hfits
    have hreads := @base64Reads_text variant data
    refine ⟨base64Text variant data, ?_, hreads.accepted.1, ?_, ?_⟩
    · rw [base64EncodedLen_eq, if_pos hfits]
    · intro capacity hroom
      exact base64Encode_call hfits hroom
    · intro capacity hroom
      exact hreads.decode_call hroom
  · intro text out room hfits h
    have hreads := base64Reads_of_decode h
    have hlen : (base64Text variant out).length = text.length := by
      rw [hreads.text, clearUnused_length]
    refine ⟨hreads.accepted.1, ?_⟩
    intro capacity hroom
    rw [base64Encode_call (by omega) (by omega), hlen, hreads.text]
  · intro text
    constructor
    · rintro ⟨room, out, h⟩
      exact ⟨out, (base64Reads_of_decode h).text⟩
    · rintro ⟨data, hdata⟩
      have hreads := @base64Reads_text variant data
      rw [hdata] at hreads
      refine ⟨data.length, data, ?_⟩
      rw [(base64Reads_of_clearUnused hreads).decode_call le_rfl]

/-- `QR==` is accepted as the byte that is encoded as `QQ==`. -/
theorem base64_respelt :
    ¬ ∀ (variant : Base64Variant) (text out : Bytes) (room capacity : ℕ),
      (base64Decode text variant room).out = .ok out → text.length ≤ capacity →
      (base64Encode out variant capacity).out = .ok text := by
  intro h
  have hdecode : (base64Decode [0x51, 0x52, 0x3d, 0x3d] .standard 1).out = .ok [0x41] := by decide
  have hencode := h .standard [0x51, 0x52, 0x3d, 0x3d] [0x41] 1 4 hdecode (by decide)
  revert hencode
  decide

end Lonejson
