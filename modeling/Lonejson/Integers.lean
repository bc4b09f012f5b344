import Lonejson.Assign

/-!
# Integer tokens in machine arithmetic

The parsers of integer tokens and the formatters of integer members, in the 64-bit
arithmetic of the source, and the decimal numbers that they read and write.
-/

namespace Lonejson

/-! ## Decimal texts -/

/-- The value of digits behind others whose value is `n`. -/
def digitsFrom (n : ℕ) (ds : Bytes) : ℕ := ds.foldl (fun n ch => n * 10 + (ch.toNat - 0x30)) n

/-- The digits of a JSON integer: no leading zero. -/
structure JsonDigits (ds : Bytes) : Prop where
  nonempty : ds ≠ []
  digits : ∀ ch ∈ ds, isDigit ch = true
  no_leading_zero : ds.head? = some 0x30 → ds.tail = []

/-- A JSON number without fraction and exponent, and its value. -/
inductive JsonInteger : Bytes → ℤ → Prop where
  | natural {ds : Bytes} (h : JsonDigits ds) : JsonInteger ds (digitsFrom 0 ds)
  | negative {ds : Bytes} (h : JsonDigits ds) : JsonInteger (0x2d :: ds) (-(digitsFrom 0 ds : ℤ))

theorem le_digitsFrom (n : ℕ) (ds : Bytes) : n ≤ digitsFrom n ds := by
  induction ds generalizing n with
  | nil => exact le_rfl
  | cons ch ds ih =>
    have h := ih (n * 10 + (ch.toNat - 0x30))
    change n ≤ digitsFrom (n * 10 + (ch.toNat - 0x30)) ds
    omega

theorem digit_bounds {ch : Byte} : isDigit ch = true ↔ 0x30 ≤ ch.toNat ∧ ch.toNat ≤ 0x39 := by
  rw [isDigit, Bool.and_eq_true, decide_eq_true_iff, decide_eq_true_iff, UInt8.le_iff_toNat_le,
    UInt8.le_iff_toNat_le]
  rfl

theorem minus_not_digit : isDigit 0x2d = false := by decide

/-! ## The parsers -/

/-- `~(lonejson_uint64)0u`. -/
def maxU64 : UInt64 := ~~~0

/-- The digit loop of `lonejson__parse_i64_token` and `lonejson__parse_u64_token`. -/
def wordDigits (limit : UInt64) : UInt64 → Bytes → Option UInt64
  | acc, [] => some acc
  | acc, ch :: rest =>
    if ch < 0x30 ∨ 0x39 < ch then none
    else
      let digit := (ch - 0x30).toUInt64
      if acc > (limit - digit) / 10 then none else wordDigits limit (acc * 10 + digit) rest

/-- The accumulators and digits that the loop goes on with. -/
def wordSteps (limit : UInt64) : UInt64 → Bytes → List (UInt64 × UInt64)
  | _, [] => []
  | acc, ch :: rest =>
    if ch < 0x30 ∨ 0x39 < ch then []
    else
      let digit := (ch - 0x30).toUInt64
      if acc > (limit - digit) / 10 then []
      else (acc, digit) :: wordSteps limit (acc * 10 + digit) rest

/-- The greatest magnitude of an integer of a sign. -/
def i64Limit (negative : Bool) : UInt64 := if negative then (maxU64 >>> 1) + 1 else maxU64 >>> 1

/-- The magnitude with its sign; that of `INT64_MIN` has no positive counterpart. -/
def i64OfMagnitude (negative : Bool) (acc : UInt64) : Int64 :=
  if negative then
    if acc = (maxU64 >>> 1) + 1 then -(acc - 1).toInt64 - 1 else -acc.toInt64
  else acc.toInt64

/-- `lonejson__parse_i64_token` in the arithmetic of the source. -/
def parseI64Word (value : Bytes) : Option Int64 :=
  match cString value with
  | [] => none
  | ch :: rest =>
    let negative := ch == 0x2d
    let p := if negative then rest else ch :: rest
    if negative ∧ p = [] then none
    else if p.head? = some 0x30 ∧ p.tail ≠ [] then none
    else (wordDigits (i64Limit negative) 0 p).map (i64OfMagnitude negative)

/-- `lonejson__parse_u64_token` in the arithmetic of the source. -/
def parseU64Word (value : Bytes) : Option UInt64 :=
  match cString value with
  | [] => none
  | ch :: rest =>
    if ch = 0x2d then none
    else if ch = 0x30 ∧ rest ≠ [] then none
    else wordDigits maxU64 0 (ch :: rest)

variable {limit acc : UInt64}

theorem digitWord_toNat {ch : Byte} (h : isDigit ch = true) :
    (ch - 0x30).toUInt64.toNat = ch.toNat - 0x30 := by
  have hle : (0x30 : UInt8) ≤ ch := by
    rw [UInt8.le_iff_toNat_le]
    exact (digit_bounds.mp h).1
  rw [UInt8.toNat_toUInt64, UInt8.toNat_sub_of_le _ _ hle]
  rfl

/-- The guard of the loop is the comparison that the rearranged division stands for. -/
theorem guard_iff {digit : UInt64} (hdigit : digit.toNat ≤ limit.toNat) :
    acc > (limit - digit) / 10 ↔ limit.toNat < acc.toNat * 10 + digit.toNat := by
  have hsub : (limit - digit).toNat = limit.toNat - digit.toNat :=
    UInt64.toNat_sub_of_le _ _ (UInt64.le_iff_toNat_le.mpr hdigit)
  have hten : (10 : UInt64).toNat = 10 := rfl
  rw [gt_iff_lt, UInt64.lt_iff_toNat_lt, UInt64.toNat_div, hsub, hten]
  omega

theorem step_toNat {digit : UInt64} (h : acc.toNat * 10 + digit.toNat ≤ limit.toNat) :
    (acc * 10 + digit).toNat = acc.toNat * 10 + digit.toNat := by
  have hlimit := limit.toNat_lt
  have hten : (10 : UInt64).toNat = 10 := rfl
  have hproduct : acc.toNat * 10 < 2 ^ 64 := by omega
  rw [UInt64.toNat_add, UInt64.toNat_mul, hten, Nat.mod_eq_of_lt hproduct,
    Nat.mod_eq_of_lt (by omega)]

theorem not_digit_iff {ch : Byte} : (ch < 0x30 ∨ 0x39 < ch) ↔ ¬ isDigit ch = true := by
  rw [digit_bounds, UInt8.lt_iff_toNat_lt, UInt8.lt_iff_toNat_lt]
  change ch.toNat < 0x30 ∨ 0x39 < ch.toNat ↔ _
  omega

/-- A turn of the loop is one of the decimal number, or the end. -/
theorem wordDigits_cons (hlimit : 9 ≤ limit.toNat) (ch : Byte) (rest : Bytes) :
    wordDigits limit acc (ch :: rest) = none ∧
        ¬ (isDigit ch = true ∧ acc.toNat * 10 + (ch.toNat - 0x30) ≤ limit.toNat) ∨
      isDigit ch = true ∧ ∃ next : UInt64,
        next.toNat = acc.toNat * 10 + (ch.toNat - 0x30) ∧ next.toNat ≤ limit.toNat ∧
        wordDigits limit acc (ch :: rest) = wordDigits limit next rest := by
  rw [wordDigits]
  by_cases hdigit : isDigit ch = true
  · have hword := digitWord_toNat hdigit
    have hbounds := digit_bounds.mp hdigit
    have hguard := @guard_iff limit acc _ (by omega : (ch - 0x30).toUInt64.toNat ≤ limit.toNat)
    rw [hword] at hguard
    rw [if_neg (by rw [not_digit_iff]; simp [hdigit])]
    dsimp only
    by_cases hover : limit.toNat < acc.toNat * 10 + (ch.toNat - 0x30)
    · rw [if_pos (hguard.mpr hover)]
      exact .inl ⟨rfl, fun h => by omega⟩
    · have hnext : (acc * 10 + (ch - 0x30).toUInt64).toNat =
          acc.toNat * 10 + (ch.toNat - 0x30) := by
        rw [@step_toNat limit acc _ (by omega), hword]
      rw [if_neg (fun h => hover (hguard.mp h))]
      exact .inr ⟨hdigit, _, hnext, by omega, rfl⟩
  · rw [if_pos (not_digit_iff.mpr hdigit)]
    exact .inl ⟨rfl, fun h => hdigit h.1⟩

/-- The loop accepts the digits of a number within the limit, and computes the number. -/
theorem wordDigits_eq_some (hlimit : 9 ≤ limit.toNat) {ds : Bytes} {v : UInt64} :
    ∀ {acc : UInt64}, acc.toNat ≤ limit.toNat →
      (wordDigits limit acc ds = some v ↔ (∀ ch ∈ ds, isDigit ch = true) ∧
        digitsFrom acc.toNat ds = v.toNat ∧ v.toNat ≤ limit.toNat) := by
  induction ds with
  | nil =>
    intro acc hacc
    rw [wordDigits, Option.some.injEq, ← UInt64.toNat_inj]
    constructor
    · intro h
      exact ⟨fun ch hch => (List.not_mem_nil hch).elim, h, h ▸ hacc⟩
    · exact fun h => h.2.1
  | cons ch ds ih =>
    intro acc hacc
    have hfold : digitsFrom acc.toNat (ch :: ds) =
        digitsFrom (acc.toNat * 10 + (ch.toNat - 0x30)) ds := rfl
    rcases @wordDigits_cons limit acc hlimit ch ds with
      ⟨hnone, hbad⟩ | ⟨hdigit, next, hnext, hle, hgo⟩
    · rw [hnone, hfold]
      refine ⟨fun h => (nomatch h), ?_⟩
      rintro ⟨hdigits, hvalue, hv⟩
      have hmono := le_digitsFrom (acc.toNat * 10 + (ch.toNat - 0x30)) ds
      exact (hbad ⟨hdigits ch List.mem_cons_self, by omega⟩).elim
    · rw [hgo, hfold, ← hnext, ih hle, List.forall_mem_cons]
      constructor
      · rintro ⟨hdigits, hvalue⟩
        exact ⟨⟨hdigit, hdigits⟩, hvalue⟩
      · rintro ⟨⟨-, hdigits⟩, hvalue⟩
        exact ⟨hdigits, hvalue⟩

/-- No turn of the loop wraps around. -/
theorem wordSteps_exact (hlimit : 9 ≤ limit.toNat) (ds : Bytes) :
    ∀ {acc : UInt64}, ∀ x ∈ wordSteps limit acc ds,
      x.1.toNat * 10 + x.2.toNat ≤ limit.toNat ∧
        (x.1 * 10 + x.2).toNat = x.1.toNat * 10 + x.2.toNat ∧
        (limit - x.2).toNat = limit.toNat - x.2.toNat := by
  induction ds with
  | nil =>
    intro acc x hx
    cases hx
  | cons ch ds ih =>
    intro acc x hx
    rw [wordSteps] at hx
    dsimp only at hx
    split_ifs at hx with hchar hguard
    · cases hx
    · cases hx
    · have hdigit : isDigit ch = true := by
        by_contra h
        exact hchar (not_digit_iff.mpr h)
      have hword := digitWord_toNat hdigit
      have hbounds := digit_bounds.mp hdigit
      have hle : (ch - 0x30).toUInt64.toNat ≤ limit.toNat := by omega
      rw [guard_iff hle, not_lt] at hguard
      rcases List.mem_cons.mp hx with rfl | hx
      · have hsub := UInt64.toNat_sub_of_le _ _ (UInt64.le_iff_toNat_le.mpr hle)
        exact ⟨hguard, step_toNat hguard, hsub⟩
      · exact ih x hx

theorem i64Limit_toNat (negative : Bool) :
    (i64Limit negative).toNat = if negative then 2 ^ 63 else 2 ^ 63 - 1 := by
  cases negative <;> decide

/-- A magnitude within its limit is negated without overflow. -/
theorem i64OfMagnitude_toInt {negative : Bool} {acc : UInt64}
    (h : acc.toNat ≤ (i64Limit negative).toNat) :
    (i64OfMagnitude negative acc).toInt = if negative then -(acc.toNat : ℤ) else acc.toNat := by
  rw [i64Limit_toNat] at h
  have hpositive {n : UInt64} (hn : n.toNat < 2 ^ 63) : n.toInt64.toInt = n.toNat := by
    change n.toBitVec.toInt = _
    rw [BitVec.toInt_eq_toNat_of_lt]
    · rfl
    · change 2 * n.toNat < 2 ^ 64
      omega
  rw [i64OfMagnitude]
  cases negative with
  | false =>
    rw [if_neg Bool.false_ne_true] at h ⊢
    exact hpositive (by omega)
  | true =>
    rw [if_pos rfl] at h ⊢
    by_cases hmin : acc = (maxU64 >>> 1) + 1
    · rw [hmin, if_pos rfl, if_pos rfl]
      decide
    · have hne : acc.toNat ≠ 2 ^ 63 := by
        intro heq
        exact hmin (UInt64.toNat_inj.mp heq)
      rw [if_neg hmin, Int64.toInt_neg, hpositive (by omega), if_pos rfl, Int.bmod_eq_of_le]
      · norm_num
        omega
      · norm_num
        omega

theorem cString_eq {value : Bytes} (h : (0 : Byte) ∉ value) : cString value = value := by
  apply List.takeWhile_eq_self_iff.mpr
  intro ch hch
  rw [bne_iff_ne]
  rintro rfl
  exact h hch

/-- The part of `lonejson__parse_i64_token` behind the sign. -/
theorem i64Digits_eq_some {negative : Bool} {p : Bytes} (hp : p ≠ []) {v : Int64} :
    (if p.head? = some 0x30 ∧ p.tail ≠ [] then none
      else (wordDigits (i64Limit negative) 0 p).map (i64OfMagnitude negative)) = some v ↔
    JsonDigits p ∧ v.toInt = if negative then -(digitsFrom 0 p : ℤ) else digitsFrom 0 p := by
  have hlimit : 9 ≤ (i64Limit negative).toNat := by
    rw [i64Limit_toNat]
    cases negative <;> decide
  have hrun (acc : UInt64) := @wordDigits_eq_some _ hlimit p acc 0 (Nat.zero_le _)
  constructor
  · intro h
    split_ifs at h with hzero
    obtain ⟨acc, hacc, rfl⟩ := Option.map_eq_some_iff.mp h
    obtain ⟨hdigits, hvalue, hle⟩ := (hrun acc).mp hacc
    push Not at hzero
    refine ⟨⟨hp, hdigits, hzero⟩, ?_⟩
    rw [i64OfMagnitude_toInt hle, ← hvalue]
    rfl
  · rintro ⟨hp, hv⟩
    have hrange : digitsFrom 0 p ≤ (i64Limit negative).toNat := by
      have hlow := v.le_toInt
      have hhigh := v.toInt_lt
      rw [i64Limit_toNat]
      cases negative with
      | false =>
        rw [if_neg Bool.false_ne_true] at hv ⊢
        omega
      | true =>
        rw [if_pos rfl] at hv ⊢
        omega
    have hword : (UInt64.ofNat (digitsFrom 0 p)).toNat = digitsFrom 0 p := by
      apply UInt64.toNat_ofNat_of_lt'
      exact lt_of_le_of_lt hrange (i64Limit negative).toNat_lt
    rw [if_neg (fun h => h.2 (hp.no_leading_zero h.1)),
      (hrun (.ofNat (digitsFrom 0 p))).mpr ⟨hp.digits, hword.symm, hword.symm ▸ hrange⟩,
      Option.map_some, Option.some.injEq]
    apply Int64.toInt_inj.mp
    rw [i64OfMagnitude_toInt (hword.symm ▸ hrange), hword, hv]

/-- What `lonejson__parse_i64_token` accepts, and what it returns. -/
theorem parseI64Word_eq_some {t : Bytes} (ht : (0 : Byte) ∉ t) {v : Int64} :
    parseI64Word t = some v ↔ JsonInteger t v.toInt := by
  rw [parseI64Word, cString_eq ht]
  cases t with
  | nil =>
    constructor
    · intro h
      cases h
    · intro h
      generalize v.toInt = z at h
      cases h with
      | natural h => exact (h.nonempty rfl).elim
  | cons ch rest =>
    dsimp only
    by_cases hminus : ch = 0x2d
    · subst hminus
      have hinteger : JsonInteger (0x2d :: rest) v.toInt ↔
          JsonDigits rest ∧ v.toInt = -(digitsFrom 0 rest : ℤ) := by
        constructor
        · intro h
          generalize v.toInt = z at h
          cases h with
          | natural h =>
            have hdigit := h.digits 0x2d List.mem_cons_self
            rw [minus_not_digit] at hdigit
            cases hdigit
          | negative h => exact ⟨h, rfl⟩
        · rintro ⟨h, hv⟩
          rw [hv]
          exact .negative h
      rw [hinteger]
      by_cases hrest : rest = []
      · subst hrest
        constructor
        · intro h
          cases h
        · rintro ⟨h, -⟩
          exact (h.nonempty rfl).elim
      · rw [if_neg (fun h => hrest h.2)]
        exact @i64Digits_eq_some true _ hrest _
    · have hinteger : JsonInteger (ch :: rest) v.toInt ↔
          JsonDigits (ch :: rest) ∧ v.toInt = (digitsFrom 0 (ch :: rest) : ℤ) := by
        constructor
        · intro h
          generalize v.toInt = z at h
          cases h with
          | natural h => exact ⟨h, rfl⟩
          | negative h => exact (hminus rfl).elim
        · rintro ⟨h, hv⟩
          rw [hv]
          exact .natural h
      have hsign : (ch == 0x2d) = false := beq_eq_false_iff_ne.mpr hminus
      rw [hinteger, hsign, if_neg (fun h => Bool.false_ne_true h.1)]
      exact @i64Digits_eq_some false _ (List.cons_ne_nil _ _) _

/-- What `lonejson__parse_u64_token` accepts, and what it returns. -/
theorem parseU64Word_eq_some {t : Bytes} (ht : (0 : Byte) ∉ t) {v : UInt64} :
    parseU64Word t = some v ↔ JsonDigits t ∧ digitsFrom 0 t = v.toNat := by
  have hmax : maxU64.toNat = 2 ^ 64 - 1 := by decide
  have hlimit : 9 ≤ maxU64.toNat := by rw [hmax]; decide
  have hle : v.toNat ≤ maxU64.toNat := by
    have hv := v.toNat_lt
    omega
  rw [parseU64Word, cString_eq ht]
  cases t with
  | nil =>
    constructor
    · intro h
      cases h
    · rintro ⟨h, -⟩
      exact (h.nonempty rfl).elim
  | cons ch rest =>
    dsimp only
    have hrun := @wordDigits_eq_some _ hlimit (ch :: rest) v 0 (Nat.zero_le _)
    constructor
    · intro h
      split_ifs at h with hminus hzero
      obtain ⟨hdigits, hvalue, -⟩ := hrun.mp h
      refine ⟨⟨List.cons_ne_nil _ _, hdigits, ?_⟩, hvalue⟩
      intro hhead
      by_contra hrest
      exact hzero ⟨Option.some.inj hhead, hrest⟩
    · rintro ⟨h, hvalue⟩
      have hminus : ch ≠ 0x2d := by
        rintro rfl
        have hdigit := h.digits 0x2d List.mem_cons_self
        rw [minus_not_digit] at hdigit
        cases hdigit
      rw [if_neg hminus, if_neg]
      · exact hrun.mpr ⟨h.digits, hvalue, hle⟩
      · rintro ⟨rfl, hrest⟩
        exact hrest (h.no_leading_zero rfl)

/-- The two embeddings of `lonejson__parse_i64_token` agree. -/
theorem wordDigits_toNat (hlimit : 9 ≤ limit.toNat) (ds : Bytes) :
    ∀ {acc : UInt64}, (wordDigits limit acc ds).map UInt64.toNat =
      parseDigits limit.toNat acc.toNat ds := by
  induction ds with
  | nil =>
    intro acc
    rfl
  | cons ch ds ih =>
    intro acc
    rw [parseDigits]
    rcases @wordDigits_cons limit acc hlimit ch ds with
      ⟨hnone, hbad⟩ | ⟨hdigit, next, hnext, hle, hgo⟩
    · rw [hnone]
      by_cases hdigit : isDigit ch = true
      · have hbounds := digit_bounds.mp hdigit
        rw [if_neg (by rw [not_digit_iff]; simp [hdigit])]
        dsimp only
        have hover : ¬ acc.toNat * 10 + (ch.toNat - 0x30) ≤ limit.toNat :=
          fun h => hbad ⟨hdigit, h⟩
        rw [if_pos (by omega)]
        rfl
      · rw [if_pos (not_digit_iff.mpr hdigit)]
        rfl
    · have hbounds := digit_bounds.mp hdigit
      rw [hgo, ih, if_neg (by rw [not_digit_iff]; simp [hdigit])]
      dsimp only
      rw [if_neg (by omega), hnext]

theorem i64Digits_toInt (negative : Bool) (d : Byte) (ds : Bytes) :
    (if (d :: ds).head? = some 0x30 ∧ (d :: ds).tail ≠ [] then none
      else (wordDigits (i64Limit negative) 0 (d :: ds)).map (i64OfMagnitude negative)).map
        Int64.toInt =
    if d = 0x30 ∧ ds ≠ [] then none
    else (parseDigits (if negative then 2 ^ 63 else 2 ^ 63 - 1) 0 (d :: ds)).map fun (acc : ℕ) =>
      if negative then -(acc : ℤ) else (acc : ℤ) := by
  have hlimit : 9 ≤ (i64Limit negative).toNat := by
    rw [i64Limit_toNat]
    cases negative <;> decide
  have hwords := @wordDigits_toNat _ hlimit (d :: ds) 0
  rw [i64Limit_toNat] at hwords
  by_cases hzero : d = 0x30 ∧ ds ≠ []
  · rw [if_pos hzero, if_pos ⟨congrArg some hzero.1, hzero.2⟩]
    rfl
  · rw [if_neg hzero, if_neg (fun h => hzero ⟨Option.some.inj h.1, h.2⟩)]
    change _ = Option.map _ (parseDigits _ (0 : UInt64).toNat _)
    rw [← hwords]
    cases hrun : wordDigits (i64Limit negative) 0 (d :: ds) with
    | none => rfl
    | some acc =>
      have hle := ((wordDigits_eq_some hlimit (Nat.zero_le _)).mp hrun).2.2
      exact congrArg some (i64OfMagnitude_toInt hle)

/-- The parser of signed tokens without its machine arithmetic. -/
theorem parseI64Word_toInt (t : Bytes) : (parseI64Word t).map Int64.toInt = parseI64Token t := by
  rw [parseI64Word, parseI64Token]
  cases cString t with
  | nil => rfl
  | cons ch rest =>
    dsimp only
    cases hminus : ch == 0x2d with
    | false =>
      rw [if_neg (fun h => Bool.false_ne_true h.1)]
      exact i64Digits_toInt false ch rest
    | true =>
      cases rest with
      | nil => rfl
      | cons d ds =>
        rw [if_neg (fun h => List.cons_ne_nil _ _ h.2)]
        exact i64Digits_toInt true d ds

/-- The parser of unsigned tokens without its machine arithmetic. -/
theorem parseU64Word_toNat (t : Bytes) : (parseU64Word t).map UInt64.toNat = parseU64Token t := by
  rw [parseU64Word, parseU64Token]
  cases cString t with
  | nil => rfl
  | cons ch rest =>
    dsimp only
    split_ifs
    · rfl
    · rfl
    · have h := @wordDigits_toNat maxU64 (by decide) (ch :: rest) 0
      exact h

/-! ## The formatters -/

/-- The digit loop of the formatters, from the end of a buffer that has `idx` bytes in
front of the digits already stored; `none` is a store in front of the buffer. -/
def formatDigits : ℕ → UInt64 → Bytes → Option Bytes
  | 0, _, _ => none
  | idx + 1, value, text =>
    let digit := value % 10
    let value := value / 10
    let text := (0x30 + digit.toUInt8) :: text
    if value ≠ 0 then formatDigits idx value text else some text

/-- The magnitude of a signed value, of `INT64_MIN` too. -/
def i64Magnitude (value : Int64) : UInt64 :=
  if value < 0 then (-(value + 1)).toUInt64 + 1 else value.toUInt64

/-- What `lonejson__emit_u64_value` hands to the sink. -/
def emitU64Value (value : UInt64) : Option (List Bytes) :=
  (formatDigits 32 value []).map fun text => [text]

/-- What `lonejson__emit_i64_value` hands to the sink. -/
def emitI64Value (value : Int64) : Option (List Bytes) :=
  (emitU64Value (i64Magnitude value)).map fun pieces =>
    if value < 0 then [0x2d] :: pieces else pieces

/-- What `lonejson__buffer_emit_u64_value_exact` stores. -/
def bufferEmitU64ValueExact (value : UInt64) : Option (List Bytes) :=
  (formatDigits 32 value []).map fun text => [text]

/-- What `lonejson__buffer_emit_i64_value_exact` stores. -/
def bufferEmitI64ValueExact (value : Int64) : Option (List Bytes) :=
  (bufferEmitU64ValueExact (i64Magnitude value)).map fun pieces =>
    if value < 0 then [0x2d] :: pieces else pieces

/-- `sizeof(state->scratch)` of the generator. -/
def generatorScratch : ℕ := 128

/-- The pending bytes that `lonejson__generator_format_u64` leaves. -/
def generatorFormatU64 (value : UInt64) : Option Bytes := formatDigits generatorScratch value []

/-- The pending bytes that `lonejson__generator_format_i64` leaves. -/
def generatorFormatI64 (value : Int64) : Option Bytes :=
  (formatDigits generatorScratch (i64Magnitude value) []).bind fun text =>
    if value < 0 then
      if text.length < generatorScratch then some (0x2d :: text) else none
    else some text

/-- The digits of a number, most significant first. -/
def numeralText (n : ℕ) : Bytes :=
  if n = 0 then [0x30] else (Nat.digits 10 n).reverse.map fun d => 0x30 + d.toUInt8

theorem digitByte_toNat {d : ℕ} (hd : d < 10) : (0x30 + d.toUInt8 : Byte).toNat = 0x30 + d := by
  rw [UInt8.toNat_add, Nat.toUInt8, UInt8.toNat_ofNat_of_lt' (by omega : d < 2 ^ 8)]
  change (48 + d) % 2 ^ 8 = _
  omega

theorem digitsFrom_append (n : ℕ) (ds es : Bytes) :
    digitsFrom n (ds ++ es) = digitsFrom (digitsFrom n ds) es := List.foldl_append

/-- Digits are read back as the number they are the digits of. -/
theorem digitsFrom_reverse {ds : List ℕ} (hds : ∀ d ∈ ds, d < 10) :
    digitsFrom 0 (ds.reverse.map fun d => 0x30 + d.toUInt8) = Nat.ofDigits 10 ds := by
  induction ds with
  | nil => rfl
  | cons d ds ih =>
    rw [List.forall_mem_cons] at hds
    rw [List.reverse_cons, List.map_append, digitsFrom_append, ih hds.2, Nat.ofDigits_cons]
    change Nat.ofDigits 10 ds * 10 + ((0x30 + d.toUInt8 : Byte).toNat - 0x30) = _
    rw [digitByte_toNat hds.1]
    omega

theorem numeralText_digits (n : ℕ) :
    JsonDigits (numeralText n) ∧ digitsFrom 0 (numeralText n) = n := by
  rw [numeralText]
  split_ifs with hzero
  · subst hzero
    refine ⟨⟨List.cons_ne_nil _ _, ?_, fun _ => rfl⟩, rfl⟩
    intro ch hch
    rw [List.mem_singleton.mp hch]
    decide
  · have hds : ∀ d ∈ Nat.digits 10 n, d < 10 := fun d hd => Nat.digits_lt_base (by decide) hd
    refine ⟨⟨?_, ?_, ?_⟩, ?_⟩
    · rw [ne_eq, List.map_eq_nil_iff, List.reverse_eq_nil_iff]
      exact Nat.digits_ne_nil_iff_ne_zero.mpr hzero
    · intro ch hch
      obtain ⟨d, hd, rfl⟩ := List.mem_map.mp hch
      have hd := hds d (List.mem_reverse.mp hd)
      rw [digit_bounds, digitByte_toNat hd]
      omega
    · -- the most significant digit of a positive number is not zero
      intro hhead
      have hnil : Nat.digits 10 n ≠ [] := Nat.digits_ne_nil_iff_ne_zero.mpr hzero
      rw [List.head?_map, List.head?_reverse, List.getLast?_eq_some_getLast hnil, Option.map_some,
        Option.some.injEq] at hhead
      have hlt := hds _ (List.getLast_mem hnil)
      have hne := Nat.getLast_digit_ne_zero 10 hzero
      have hvalue := congrArg UInt8.toNat hhead
      rw [digitByte_toNat hlt] at hvalue
      change _ = 0x30 at hvalue
      omega
    · rw [digitsFrom_reverse hds, Nat.ofDigits_digits]

theorem numeralText_step (n : ℕ) :
    numeralText n =
      (if n / 10 = 0 then [] else numeralText (n / 10)) ++ [0x30 + (n % 10).toUInt8] := by
  by_cases hzero : n = 0
  · subst hzero
    rfl
  · rw [numeralText, if_neg hzero, Nat.digits_def' (by decide) (Nat.pos_of_ne_zero hzero),
      List.reverse_cons, List.map_append, numeralText]
    split_ifs with hlast
    · rw [hlast]
      rfl
    · rfl

/-- The loop stores the digits of its value, if the buffer has room for them. -/
theorem formatDigits_eq {idx : ℕ} :
    ∀ {value : UInt64} (text : Bytes), value.toNat < 10 ^ idx →
      0 < idx → formatDigits idx value text = some (numeralText value.toNat ++ text) := by
  induction idx with
  | zero =>
    intro value text hvalue hidx
    cases hidx
  | succ idx ih =>
    intro value text hvalue hidx
    have hten : (10 : UInt64).toNat = 10 := rfl
    have hquotient : (value / 10).toNat = value.toNat / 10 := by rw [UInt64.toNat_div, hten]
    have hdigit : (value % 10).toUInt8 = (value.toNat % 10).toUInt8 := by
      apply UInt8.toNat_inj.mp
      rw [UInt64.toNat_toUInt8, UInt64.toNat_mod, hten]
      rfl
    have hmore : value / 10 ≠ 0 ↔ value.toNat / 10 ≠ 0 := by
      rw [ne_eq, ← UInt64.toNat_inj, hquotient]
      rfl
    rw [formatDigits, numeralText_step, hdigit]
    by_cases hlast : value.toNat / 10 = 0
    · rw [if_neg (fun h => hmore.mp h hlast), if_pos hlast]
      rfl
    · have hidx : 0 < idx := by
        rcases Nat.eq_zero_or_pos idx with rfl | hpos
        · omega
        · exact hpos
      have hlt : (value / 10).toNat < 10 ^ idx := by
        rw [hquotient, Nat.div_lt_iff_lt_mul (by decide), ← pow_succ]
        exact hvalue
      rw [if_pos (hmore.mpr hlast), if_neg hlast, ih _ hlt hidx, hquotient, List.append_assoc]
      rfl

theorem formatDigits_word {size : ℕ} (hsize : 20 ≤ size) (value : UInt64) :
    formatDigits size value [] = some (numeralText value.toNat) := by
  have hvalue : value.toNat < 10 ^ size := by
    calc value.toNat < 2 ^ 64 := value.toNat_lt
      _ ≤ 10 ^ 20 := by norm_num
      _ ≤ 10 ^ size := Nat.pow_le_pow_right (by decide) hsize
  rw [formatDigits_eq [] hvalue (by omega), List.append_nil]

/-- The magnitude is computed without overflow. -/
theorem i64Magnitude_toNat (value : Int64) : (i64Magnitude value).toNat = value.toInt.natAbs := by
  have hlow := value.le_toInt
  have hhigh := value.toInt_lt
  have hnatural {x : Int64} (hx : 0 ≤ x.toInt) : x.toUInt64.toNat = x.toInt.toNat :=
    Int64.toNat_toUInt64_of_le (Int64.le_iff_toInt_le.mpr hx)
  rw [i64Magnitude]
  by_cases hneg : value.toInt < 0
  · have hplus : (value + 1).toInt = value.toInt + 1 := by
      rw [Int64.toInt_add]
      change (value.toInt + 1).bmod (2 ^ 64) = _
      apply Int.bmod_eq_of_le <;> norm_num <;> omega
    have hminus : (-(value + 1)).toInt = -(value.toInt + 1) := by
      rw [Int64.toInt_neg, hplus]
      apply Int.bmod_eq_of_le <;> norm_num <;> omega
    have hword : (-(value + 1)).toUInt64.toNat = (-(value.toInt + 1)).toNat := by
      rw [hnatural (by omega), hminus]
    rw [if_pos (Int64.lt_iff_toInt_lt.mpr hneg), UInt64.toNat_add, hword]
    change ((-(value.toInt + 1)).toNat + 1) % 2 ^ 64 = _
    omega
  · rw [if_neg (fun h => hneg (Int64.lt_iff_toInt_lt.mp h)), hnatural (by omega)]
    omega

theorem numeralText_length {n : ℕ} (hn : n < 2 ^ 64) : (numeralText n).length ≤ 20 := by
  rw [numeralText]
  split_ifs
  · decide
  · rw [List.length_map, List.length_reverse, Nat.digits_length_le_iff (by decide)]
    calc n < 2 ^ 64 := hn
      _ ≤ 10 ^ 20 := by norm_num

/-- The text of a signed value. -/
def integerText (value : Int64) : Bytes :=
  if value < 0 then 0x2d :: numeralText value.toInt.natAbs else numeralText value.toInt.natAbs

theorem integerText_reads (value : Int64) : JsonInteger (integerText value) value.toInt := by
  obtain ⟨hdigits, hvalue⟩ := numeralText_digits value.toInt.natAbs
  rw [integerText]
  by_cases hneg : value < 0
  · have h := JsonInteger.negative hdigits
    have hlt : value.toInt < 0 := Int64.lt_iff_toInt_lt.mp hneg
    have habs : -(value.toInt.natAbs : ℤ) = value.toInt := by omega
    rw [hvalue, habs] at h
    rw [if_pos hneg]
    exact h
  · have h := JsonInteger.natural hdigits
    have hle : ¬ value.toInt < 0 := fun h => hneg (Int64.lt_iff_toInt_lt.mpr h)
    have habs : (value.toInt.natAbs : ℤ) = value.toInt := by omega
    rw [hvalue, habs] at h
    rw [if_neg hneg]
    exact h

theorem emitU64Value_eq (value : UInt64) :
    emitU64Value value = some [numeralText value.toNat] ∧
      bufferEmitU64ValueExact value = some [numeralText value.toNat] ∧
      generatorFormatU64 value = some (numeralText value.toNat) := by
  refine ⟨?_, ?_, formatDigits_word (by decide) value⟩
  · rw [emitU64Value, formatDigits_word (by decide)]
    rfl
  · rw [bufferEmitU64ValueExact, formatDigits_word (by decide)]
    rfl

theorem emitI64Value_eq (value : Int64) :
    (emitI64Value value).map List.flatten = some (integerText value) ∧
      (bufferEmitI64ValueExact value).map List.flatten = some (integerText value) ∧
      generatorFormatI64 value = some (integerText value) := by
  have hmagnitude := i64Magnitude_toNat value
  have hlength : (numeralText value.toInt.natAbs).length < generatorScratch := by
    rw [← hmagnitude]
    exact Nat.lt_of_le_of_lt (numeralText_length (i64Magnitude value).toNat_lt) (by decide)
  obtain ⟨hemit, hbuffer, hgenerator⟩ := emitU64Value_eq (i64Magnitude value)
  rw [generatorFormatU64] at hgenerator
  rw [emitI64Value, bufferEmitI64ValueExact, generatorFormatI64, hemit, hbuffer, hgenerator,
    hmagnitude, integerText]
  split_ifs with hneg
  · exact ⟨congrArg some (by simp), congrArg some (by simp), if_pos hlength⟩
  · exact ⟨congrArg some (by simp), congrArg some (by simp), rfl⟩

theorem JsonDigits.no_nul {ds : Bytes} (h : JsonDigits ds) : (0 : Byte) ∉ ds := by
  intro hmem
  have hdigit := h.digits 0 hmem
  revert hdigit
  decide

theorem JsonInteger.no_nul {t : Bytes} {z : ℤ} (h : JsonInteger t z) : (0 : Byte) ∉ t := by
  cases h with
  | natural h => exact h.no_nul
  | negative h =>
    intro hmem
    rcases List.mem_cons.mp hmem with hminus | hmem
    · revert hminus
      decide
    · exact h.no_nul hmem

/-! ## Integers are exact -/

/-- The parsers of integer tokens accept the JSON integers of their range and return the
value, no step of their arithmetic wraps around, and they read every text that one of the
formatters makes back as the value it was made of. -/
theorem integers_exact :
    (∀ t : Bytes, (0 : Byte) ∉ t →
      ((parseI64Word t).isSome ↔ ∃ z : ℤ, JsonInteger t z ∧ -2 ^ 63 ≤ z ∧ z ≤ 2 ^ 63 - 1) ∧
      ∀ v, parseI64Word t = some v → JsonInteger t v.toInt) ∧
    (∀ t : Bytes, (0 : Byte) ∉ t →
      ((parseU64Word t).isSome ↔ JsonDigits t ∧ digitsFrom 0 t ≤ 2 ^ 64 - 1) ∧
      ∀ v, parseU64Word t = some v → digitsFrom 0 t = v.toNat) ∧
    (∀ (ds : Bytes) (limit : UInt64), limit = maxU64 ∨ (∃ negative, limit = i64Limit negative) →
      ∀ x ∈ wordSteps limit 0 ds,
        (x.1 * 10 + x.2).toNat = x.1.toNat * 10 + x.2.toNat ∧
        (limit - x.2).toNat = limit.toNat - x.2.toNat ∧ x.2.toNat ≤ limit.toNat) ∧
    (∀ v : Int64, ∃ text, (emitI64Value v).map List.flatten = some text ∧
      parseI64Word text = some v ∧ (bufferEmitI64ValueExact v).map List.flatten = some text ∧
      generatorFormatI64 v = some text) ∧
    ∀ v : UInt64, ∃ text, (emitU64Value v).map List.flatten = some text ∧
      parseU64Word text = some v ∧ (bufferEmitU64ValueExact v).map List.flatten = some text ∧
      generatorFormatU64 v = some text := by
  refine ⟨?_, ?_, ?_, ?_, ?_⟩
  · intro t ht
    refine ⟨?_, fun v hv => (parseI64Word_eq_some ht).mp hv⟩
    rw [Option.isSome_iff_exists]
    constructor
    · rintro ⟨v, hv⟩
      have hhigh := v.toInt_lt
      exact ⟨v.toInt, (parseI64Word_eq_some ht).mp hv, v.le_toInt, by omega⟩
    · rintro ⟨z, hz, hlow, hhigh⟩
      refine ⟨Int64.ofInt z, (parseI64Word_eq_some ht).mpr ?_⟩
      rw [Int64.toInt_ofInt, Int.bmod_eq_of_le]
      · exact hz
      · norm_num
        omega
      · norm_num
        omega
  · intro t ht
    refine ⟨?_, fun v hv => ((parseU64Word_eq_some ht).mp hv).2⟩
    rw [Option.isSome_iff_exists]
    constructor
    · rintro ⟨v, hv⟩
      obtain ⟨hdigits, hvalue⟩ := (parseU64Word_eq_some ht).mp hv
      have hlt := v.toNat_lt
      exact ⟨hdigits, by omega⟩
    · rintro ⟨hdigits, hle⟩
      refine ⟨UInt64.ofNat (digitsFrom 0 t), (parseU64Word_eq_some ht).mpr ⟨hdigits, ?_⟩⟩
      have hlt : digitsFrom 0 t < 2 ^ 64 := by omega
      exact (UInt64.toNat_ofNat_of_lt' hlt).symm
  · intro ds limit hlimit x hx
    have hnine : 9 ≤ limit.toNat := by
      rcases hlimit with rfl | ⟨negative, rfl⟩
      · decide
      · rw [i64Limit_toNat]
        cases negative <;> decide
    obtain ⟨hle, hstep, hsub⟩ := wordSteps_exact hnine ds x hx
    exact ⟨hstep, hsub, by omega⟩
  · intro v
    obtain ⟨hemit, hbuffer, hgenerator⟩ := emitI64Value_eq v
    have hreads := integerText_reads v
    exact ⟨_, hemit, (parseI64Word_eq_some hreads.no_nul).mpr hreads, hbuffer, hgenerator⟩
  · intro v
    obtain ⟨hemit, hbuffer, hgenerator⟩ := emitU64Value_eq v
    obtain ⟨hdigits, hvalue⟩ := numeralText_digits v.toNat
    have hparse := (parseU64Word_eq_some hdigits.no_nul).mpr ⟨hdigits, hvalue⟩
    refine ⟨numeralText v.toNat, ?_, hparse, ?_, hgenerator⟩
    · rw [hemit]
      exact congrArg some (List.append_nil _)
    · rw [hbuffer]
      exact congrArg some (List.append_nil _)

end Lonejson
