import Lonejson.Core

/-!
# Framing buffers and C strings

The byte buffers that the SSE, multipart and array stream readers collect lines in, and the
helpers of the two line protocols. The allocator never fails here, so a buffer gives up only
at its limit.
-/

namespace Lonejson

/-- `'\r'`. -/
abbrev CR : Byte := 0x0d

/-- `'\n'`. -/
abbrev LF : Byte := 0x0a

@[simp] theorem lf_ne_cr : LF ≠ CR := by decide

@[simp] theorem cr_ne_lf : CR ≠ LF := by decide

/-- The bytes that the string functions of C see: those before the first NUL. -/
def cstr (bytes : Bytes) : Bytes := bytes.takeWhile (· != 0)

theorem cstr_of_notMem {bytes : Bytes} (h : 0 ∉ bytes) : cstr bytes = bytes := by
  rw [cstr, List.takeWhile_eq_self_iff]
  intro b hb
  simpa using ne_of_mem_of_not_mem hb h

/-- The bytes of a string literal. -/
def ascii (text : String) : Bytes := text.toList.map fun ch => ch.toNat.toUInt8

/-- A space or a tab. -/
def isBlank (ch : Byte) : Bool := ch == 0x20 || ch == 0x09

/-- A text without the blanks at its end. -/
def trimEnd (text : Bytes) : Bytes := (text.reverse.dropWhile isBlank).reverse

def asciiLower (ch : Byte) : Byte := if 0x41 ≤ ch ∧ ch ≤ 0x5a then ch + 0x20 else ch

/-- `lonejson__ascii_ieq`. -/
def asciiIeq (a b : Bytes) : Bool := a.map asciiLower == b.map asciiLower

/-- `lonejson__set_error` with the position `0, 0, 0`. -/
def ErrorInfo.set (error : ErrorInfo) (code : Status) (message : String) : ErrorInfo :=
  { error with
    code, message, messageArg := [], atZero := true
    truncated := error.truncated || code == .truncated }

/-- `lonejson__byte_append` with the checks of `lonejson__byte_reserve`. An error is the message
of an overflow. -/
def byteAppend (buffer data : Bytes) (limit : ℕ) : Except String Bytes :=
  if data.length = 0 then .ok buffer
  else if buffer.length > sizeMax - data.length then .error "framing buffer size overflow"
  else
    let needed := buffer.length + data.length
    if needed > limit ∨ needed = sizeMax then .error "framing buffer limit exceeded"
    -- the limit handed on is `limit + 1`, which wraps for the greatest `size_t`
    else if needed + 1 > (limit + 1) % (sizeMax + 1) then .error "framing buffer limit exceeded"
    else .ok (buffer ++ data)

/-- `lonejson__byte_append_char`. -/
def byteAppendChar (buffer : Bytes) (ch : Byte) (limit : ℕ) : Except String Bytes :=
  byteAppend buffer [ch] limit

/-- A buffer has room below its limit. -/
theorem byteAppend_of_room {buffer data : Bytes} {limit : ℕ}
    (hlen : buffer.length + data.length ≤ limit) (hlimit : limit < sizeMax) :
    byteAppend buffer data limit = .ok (buffer ++ data) := by
  have hmod : (limit + 1) % (sizeMax + 1) = limit + 1 := Nat.mod_eq_of_lt (by omega)
  by_cases hempty : data.length = 0
  · rw [byteAppend, if_pos hempty, List.eq_nil_of_length_eq_zero hempty, List.append_nil]
  · rw [byteAppend, if_neg hempty, if_neg (by omega)]
    dsimp only
    rw [if_neg (by omega), hmod, if_neg (by omega)]

theorem byteAppendChar_of_room {buffer : Bytes} {ch : Byte} {limit : ℕ}
    (hlen : buffer.length < limit) (hlimit : limit < sizeMax) :
    byteAppendChar buffer ch limit = .ok (buffer ++ [ch]) :=
  byteAppend_of_room (by simpa using hlen) hlimit

/-- What a buffer takes it takes as it is. -/
theorem byteAppend_eq_ok {buffer data out : Bytes} {limit : ℕ}
    (h : byteAppend buffer data limit = .ok out) : out = buffer ++ data := by
  by_cases hempty : data.length = 0
  · rw [byteAppend, if_pos hempty] at h
    rw [List.eq_nil_of_length_eq_zero hempty, List.append_nil, Except.ok.inj h]
  · rw [byteAppend, if_neg hempty] at h
    dsimp only at h
    split_ifs at h
    exact (Except.ok.inj h).symm

end Lonejson
