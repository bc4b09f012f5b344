import Mathlib

/-!
# Bytes, characters and number lexemes

The character classes, the hexadecimal and UTF-8 helpers and the number check
that every reader and writer of the library shares. A byte is a `UInt8` and a
buffer is a list of bytes; the widths of the integers the C code uses for code
points are never exceeded, so code points are natural numbers.
-/

namespace Lonejson

abbrev Byte := UInt8

abbrev Bytes := List UInt8

/-- `lonejson_status`. -/
inductive Status where
  | ok
  | invalidArgument
  | invalidJson
  | typeMismatch
  | missingRequiredField
  | duplicateField
  | overflow
  | truncated
  | allocationFailed
  | callbackFailed
  | ioError
  | unsupported
  | internalError
  deriving DecidableEq, Repr

/-- The two statuses a caller goes on with. -/
def Status.soft (s : Status) : Bool := s == .ok || s == .truncated

@[simp] theorem Status.soft_ok : Status.soft .ok = true := rfl

@[simp] theorem Status.soft_truncated : Status.soft .truncated = true := rfl

/-- `lonejson__is_json_space`. -/
def isJsonSpace (ch : Byte) : Bool :=
  ch == 0x20 || ch == 0x09 || ch == 0x0a || ch == 0x0d

/-- `lonejson__is_digit`. -/
def isDigit (ch : Byte) : Bool := 0x30 ≤ ch && ch ≤ 0x39

/-- The bytes that the number lexers collect: digits, signs, point, exponent. -/
def isNumberByte (ch : Byte) : Bool :=
  isDigit ch || ch == 0x2b || ch == 0x2d || ch == 0x2e || ch == 0x65 || ch == 0x45

/-- A byte the string scanners take as it is: no quote, no backslash, no control. -/
def isPlain (ch : Byte) : Bool := ch != 0x22 && ch != 0x5c && 0x20 ≤ ch

/-- `lonejson__hex_value`; `none` is the source's `-1`. -/
def hexValue (ch : Byte) : Option ℕ :=
  if 0x30 ≤ ch ∧ ch ≤ 0x39 then some (ch.toNat - 0x30)
  else if 0x61 ≤ ch ∧ ch ≤ 0x66 then some (10 + (ch.toNat - 0x61))
  else if 0x41 ≤ ch ∧ ch ≤ 0x46 then some (10 + (ch.toNat - 0x41))
  else none

theorem hexValue_solid {b : Byte} {hv : ℕ} (h : hexValue b = some hv) : b ≠ 0x22 ∧ b ≠ 0x5c := by
  constructor
  all_goals
    rintro rfl
    cases h

/-- One hexadecimal digit appended to a code point; the four low bits are free,
so the source's `(cp << 4) | hv` is a sum. -/
def pushHex (cp hv : ℕ) : ℕ := cp * 16 + hv

/-- `lonejson__decode_unicode_quad`. -/
def decodeUnicodeQuad (a b c d : Byte) : Option ℕ := do
  let ha ← hexValue a
  let hb ← hexValue b
  let hc ← hexValue c
  let hd ← hexValue d
  return pushHex (pushHex (pushHex (pushHex 0 ha) hb) hc) hd

/-- A code unit between `0xD800` and `0xDBFF`. -/
def isHighSurrogate (cp : ℕ) : Bool := 0xD800 ≤ cp && cp ≤ 0xDBFF

/-- A code unit between `0xDC00` and `0xDFFF`. -/
def isLowSurrogate (cp : ℕ) : Bool := 0xDC00 ≤ cp && cp ≤ 0xDFFF

/-- The code point of a surrogate pair. -/
def combineSurrogates (hi lo : ℕ) : ℕ :=
  0x10000 + (((hi - 0xD800) <<< 10) ||| (lo - 0xDC00))

/-- The encoder of `lonejson__utf8_append` and of its two copies; `none` is a
code point above `0x10FFFF`. -/
def utf8Encode (cp : ℕ) : Option Bytes :=
  if cp ≤ 0x7F then some [cp.toUInt8]
  else if cp ≤ 0x7FF then
    some [(0xC0 ||| (cp >>> 6)).toUInt8, (0x80 ||| (cp &&& 0x3F)).toUInt8]
  else if cp ≤ 0xFFFF then
    some [(0xE0 ||| (cp >>> 12)).toUInt8, (0x80 ||| ((cp >>> 6) &&& 0x3F)).toUInt8,
      (0x80 ||| (cp &&& 0x3F)).toUInt8]
  else if cp ≤ 0x10FFFF then
    some [(0xF0 ||| (cp >>> 18)).toUInt8, (0x80 ||| ((cp >>> 12) &&& 0x3F)).toUInt8,
      (0x80 ||| ((cp >>> 6) &&& 0x3F)).toUInt8, (0x80 ||| (cp &&& 0x3F)).toUInt8]
  else none

/-- The byte a one-letter escape stands for. -/
def simpleEscape (ch : Byte) : Option Byte :=
  if ch = 0x22 then some 0x22
  else if ch = 0x5c then some 0x5c
  else if ch = 0x2f then some 0x2f
  else if ch = 0x62 then some 0x08
  else if ch = 0x66 then some 0x0c
  else if ch = 0x6e then some 0x0a
  else if ch = 0x72 then some 0x0d
  else if ch = 0x74 then some 0x09
  else none

/-! ## Numbers -/

/-- Skip a run of digits. -/
def dropDigits : Bytes → Bytes
  | [] => []
  | ch :: rest => if isDigit ch then dropDigits rest else ch :: rest

/-- The integer part: one zero, or a digit run that does not start with zero. -/
def numberInt : Bytes → Option Bytes
  | [] => none
  | ch :: rest =>
    if ch = 0x30 then
      match rest with
      | d :: _ => if isDigit d then none else some rest
      | [] => some []
    else if isDigit ch then some (dropDigits rest)
    else none

/-- The optional fraction. -/
def numberFrac : Bytes → Option Bytes
  | 0x2e :: d :: rest => if isDigit d then some (dropDigits rest) else none
  | 0x2e :: [] => none
  | rest => some rest

/-- The optional sign of an exponent. -/
def dropSign : Bytes → Bytes
  | ch :: rest => if ch = 0x2b ∨ ch = 0x2d then rest else ch :: rest
  | [] => []

/-- The optional exponent. -/
def numberExp : Bytes → Option Bytes
  | ch :: rest =>
    if ch = 0x65 ∨ ch = 0x45 then
      match dropSign rest with
      | d :: rest' => if isDigit d then some (dropDigits rest') else none
      | [] => none
    else some (ch :: rest)
  | [] => some []

/-- `lonejson__is_valid_json_number`: the index `i` of the source is the suffix
still to be read. -/
def isValidJsonNumber (value : Bytes) : Bool :=
  match value with
  | [] => false
  | ch :: rest =>
    let body := if ch = 0x2d then rest else value
    match numberInt body with
    | none => false
    | some afterInt =>
      match numberFrac afterInt with
      | none => false
      | some afterFrac =>
        match numberExp afterFrac with
        | none => false
        | some afterExp => afterExp.isEmpty

example : isValidJsonNumber [0x2d, 0x30, 0x2e, 0x35, 0x65, 0x2b, 0x31] = true := by decide

end Lonejson
