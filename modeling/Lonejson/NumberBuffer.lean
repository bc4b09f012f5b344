import Lonejson.PathAgreement

/-!
# The buffer of the number visitors

Both visitors copy a number into a buffer before they deliver it: 256 bytes on the stack, or a
heap block of `max_number_bytes + 1` bytes. Here the two functions are run with the positions
they store into. The capacity is computed in a `size_t`, so that it is zero for a limit of
`SIZE_MAX`, and the stack buffer is taken for numbers of any length.
-/

namespace Lonejson

open Json (Text)

variable {υ α β : Type}

/-! ## Runs with their stores -/

/-- The positions that a run stores into, and what it returns. -/
structure Storing (ε α : Type) where
  stores : List ℕ
  result : Except ε α

/-- Go on with the result of a run. -/
def Storing.andThen {ε : Type} (r : Storing ε α) (f : α → Except ε β) : Storing ε β :=
  { stores := r.stores, result := r.result.bind f }

/-- `capacity`, in a `size_t`. -/
def numberCapacity (limit : ℕ) : ℕ := (limit + 1) % 2 ^ 64

/-- The bytes of the buffer that is selected. -/
def numberRoom (limit : ℕ) : ℕ := if numberCapacity limit > 256 then numberCapacity limit else 256

/-- The heap block, where one is wanted, was not granted. -/
def numberRefused (grants : ℕ → Bool) (limit : ℕ) : Bool :=
  numberCapacity limit > 256 && !grants (numberCapacity limit)

/-- The loop of both number visitors. Behind the text the reader is at its end, or it fails
with a message. -/
def storeDigits {ε : Type} (env : VisitEnv) (broken : Option String)
    (fail : Status → String → ε) : Bytes → Text → Storing ε (Bytes × Text)
  | buffer, [] =>
    match broken with
    | none => ⟨[], .ok (buffer, [])⟩
    | some message => ⟨[], .error (fail .callbackFailed message)⟩
  | buffer, ch :: i =>
    if isNumberByte ch then
      if env.tooLong i.length then
        ⟨[], .error (fail .overflow "JSON value exceeds maximum total byte limit")⟩
      else if buffer.length ≥ env.limits.maxNumberBytes then
        ⟨[], .error (fail .overflow "JSON number exceeds maximum byte limit")⟩
      else
        let r := storeDigits env broken fail (buffer ++ [ch]) i
        ⟨buffer.length :: r.stores, r.result⟩
    else ⟨[], .ok (buffer, ch :: i)⟩

/-- `buffer[len++] = (char)first;` and the loop. -/
def storeNumber {ε : Type} (env : VisitEnv) (broken : Option String)
    (fail : Status → String → ε) (first : Byte) (i : Text) : Storing ε (Bytes × Text) :=
  if 0 ≥ env.limits.maxNumberBytes then
    ⟨[], .error (fail .overflow "JSON number exceeds maximum byte limit")⟩
  else
    let r := storeDigits env broken fail [first] i
    ⟨0 :: r.stores, r.result⟩

/-- `lonejson__json_visit_number_no_path`, with its stores. -/
def visitNumberStoring (env : VisitEnv) (v : Visitor υ) (grants : ℕ → Bool)
    (broken : Option String) (first : Byte) (i : Text) (io : JsonIo υ) :
    Storing (JsonIo υ) (Text × JsonIo υ) :=
  if numberRefused grants env.limits.maxNumberBytes then
    ⟨[], .error (io.fail .allocationFailed "failed to allocate JSON number buffer")⟩
  else
    match io.visit v .numberBegin with
    | .error io => ⟨[], .error io⟩
    | .ok io =>
      (storeNumber env broken io.fail first i).andThen fun x =>
        if isValidJsonNumber x.1 then
          (io.visit v (.numberChunk x.1)).bind fun io => (io.visit v .numberEnd).map (x.2, ·)
        else .error (io.fail .invalidJson "invalid JSON number")

/-- `lonejson__json_visit_number`, with its stores. -/
def Paths.visitNumberStoring (env : PathEnv υ) (broken : Option String) (first : Byte) (i : Text)
    (io : PathIo υ) : Storing (PathIo υ) (Text × PathIo υ) :=
  if numberRefused env.grants env.limits.maxNumberBytes then
    ⟨[], .error (io.fail .allocationFailed "failed to allocate JSON number buffer")⟩
  else
    match io.visitAny env .numberBegin with
    | .error io => ⟨[], .error io⟩
    | .ok io =>
      (storeNumber env.toVisitEnv broken io.fail first i).andThen fun x =>
        if isValidJsonNumber x.1 then
          (io.visitAny env (.numberChunk x.1)).bind fun io =>
            (io.visitAny env .numberEnd).map (x.2, ·)
        else .error (io.fail .invalidJson "invalid JSON number")

/-! ## The visitors, with their stores left out -/

section

variable {env : VisitEnv}

theorem storeDigits_result (io : JsonIo υ) (buffer : Bytes) (i : Text) :
    (storeDigits env none io.fail buffer i).result = visitDigits env io buffer i := by
  induction i generalizing buffer with
  | nil => rfl
  | cons ch i ih =>
      rw [storeDigits, visitDigits]
      split_ifs
      · rfl
      · rfl
      · exact ih (buffer ++ [ch])
      · rfl

theorem visitNumberStoring_result (v : Visitor υ) {grants : ℕ → Bool}
    (hgrants : ∀ n, grants n = true) (first : Byte) (i : Text) (io : JsonIo υ) :
    (visitNumberStoring env v grants none first i io).result = visitNumber env v first i io := by
  have hgranted : numberRefused grants env.limits.maxNumberBytes = false := by
    rw [numberRefused, hgrants, Bool.not_true, Bool.and_false]
  rw [visitNumberStoring, hgranted, visitNumber]
  cases io.visit v .numberBegin with
  | error io => rfl
  | ok io =>
      change ((storeNumber env none io.fail first i).result).bind _ = if _ then _ else _
      rw [storeNumber]
      split_ifs
      · rfl
      · exact congrArg (Except.bind · _) (storeDigits_result io [first] i)

theorem Paths.storeDigits_result (penv : PathEnv υ) (io : PathIo υ) (buffer : Bytes) (i : Text) :
    (storeDigits penv.toVisitEnv none io.fail buffer i).result =
      Paths.visitDigits penv io buffer i := by
  induction i generalizing buffer with
  | nil => rfl
  | cons ch i ih =>
      rw [storeDigits, Paths.visitDigits]
      split_ifs
      · rfl
      · rfl
      · exact ih (buffer ++ [ch])
      · rfl

theorem Paths.visitNumberStoring_result (penv : PathEnv υ)
    (hgrants : ∀ n, penv.grants n = true) (first : Byte) (i : Text) (io : PathIo υ) :
    (Paths.visitNumberStoring penv none first i io).result =
      Paths.visitNumber penv first i io := by
  have hgranted : numberRefused penv.grants penv.limits.maxNumberBytes = false := by
    rw [numberRefused, hgrants, Bool.not_true, Bool.and_false]
  rw [Paths.visitNumberStoring, hgranted, Paths.visitNumber]
  cases io.visitAny penv .numberBegin with
  | error io => rfl
  | ok io =>
      change ((storeNumber penv.toVisitEnv none io.fail first i).result).bind _ =
        if _ then _ else _
      rw [storeNumber]
      split_ifs
      · rfl
      · exact congrArg (Except.bind · _) (Paths.storeDigits_result penv io [first] i)

end

/-! ## Where the stores are -/

section

variable {env : VisitEnv} {ε : Type} {fail : Status → String → ε} {broken : Option String}

theorem VisitEnv.tooLong_mono {left left' : ℕ} (h : left ≤ left')
    (hlong : env.tooLong left' = true) : env.tooLong left = true := by
  rw [VisitEnv.tooLong, Bool.and_eq_true, decide_eq_true_eq, decide_eq_true_eq] at hlong ⊢
  omega

/-- The loop stores into the positions behind the buffer, as far as number bytes follow and
both limits allow. -/
theorem mem_storeDigits {i : Text} {buffer : Bytes} {pos : ℕ} :
    pos ∈ (storeDigits env broken fail buffer i).stores ↔
      buffer.length ≤ pos ∧ pos < buffer.length + (i.takeWhile isNumberByte).length ∧
        pos < env.limits.maxNumberBytes ∧
        env.tooLong (i.length - (pos + 1 - buffer.length)) = false := by
  induction i generalizing buffer with
  | nil =>
      have hnone : (storeDigits env broken fail buffer []).stores = [] := by
        cases broken <;> rfl
      rw [hnone, List.takeWhile_nil, List.length_nil]
      simp only [List.not_mem_nil, false_iff]
      omega
  | cons ch i ih =>
      rw [storeDigits]
      split_ifs with hch hlong hfull
      · simp only [List.not_mem_nil, false_iff]
        rintro ⟨hpos, -, -, hwithin⟩
        have hmore : env.tooLong ((ch :: i).length - (pos + 1 - buffer.length)) = true := by
          apply VisitEnv.tooLong_mono _ hlong
          rw [List.length_cons]
          omega
        rw [hwithin] at hmore
        cases hmore
      · simp only [List.not_mem_nil, false_iff]
        omega
      · simp only [List.mem_cons, ih]
        rw [List.takeWhile_cons, if_pos hch, List.length_cons, List.length_cons,
          List.length_append, List.length_singleton]
        constructor
        · rintro (rfl | ⟨hpos, hrun, hlimit, hwithin⟩)
          · refine ⟨le_rfl, by omega, by omega, ?_⟩
            rw [Nat.add_sub_cancel_left, Nat.add_sub_cancel]
            simpa using hlong
          · refine ⟨by omega, by omega, hlimit, ?_⟩
            rwa [show i.length + 1 - (pos + 1 - buffer.length) =
              i.length - (pos + 1 - (buffer.length + 1)) by omega]
        · rintro ⟨hpos, hrun, hlimit, hwithin⟩
          rcases Nat.eq_or_lt_of_le hpos with heq | hlt
          · exact .inl heq.symm
          · refine .inr ⟨hlt, by omega, hlimit, ?_⟩
            rwa [show i.length - (pos + 1 - (buffer.length + 1)) =
              i.length + 1 - (pos + 1 - buffer.length) by omega]
      · rw [List.takeWhile_cons, if_neg hch, List.length_nil]
        simp only [List.not_mem_nil, false_iff]
        omega

/-- At most 256 bytes of the number are stored: fewer than 256 number bytes follow the first,
or the last of them is beyond the total limit. -/
def shortNumber (env : VisitEnv) (i : Text) : Bool :=
  (i.takeWhile isNumberByte).length < 256 || env.tooLong (i.length - 256)

theorem mem_storeNumber {first : Byte} {i : Text} {pos : ℕ} :
    pos ∈ (storeNumber env broken fail first i).stores ↔
      pos < 1 + (i.takeWhile isNumberByte).length ∧ pos < env.limits.maxNumberBytes ∧
        (pos = 0 ∨ env.tooLong (i.length - pos) = false) := by
  rw [storeNumber]
  split_ifs with hzero
  · simp only [List.not_mem_nil, false_iff]
    omega
  · simp only [List.mem_cons, mem_storeDigits, List.length_singleton]
    constructor
    · rintro (rfl | ⟨hpos, hrun, hlimit, hwithin⟩)
      · exact ⟨by omega, by omega, .inl rfl⟩
      · exact ⟨hrun, hlimit, .inr hwithin⟩
    · rintro ⟨hrun, hlimit, hwithin⟩
      rcases Nat.eq_zero_or_pos pos with hpos | hpos
      · exact .inl hpos
      · exact .inr ⟨hpos, hrun, hlimit, hwithin.resolve_left (by omega)⟩

theorem numberRoom_eq {limit : ℕ} (hlimit : limit < sizeMax) : limit < numberRoom limit := by
  rw [sizeMax] at hlimit
  have hcapacity : numberCapacity limit = limit + 1 := Nat.mod_eq_of_lt (by omega)
  rw [numberRoom, hcapacity]
  split <;> omega

theorem numberRoom_unlimited : numberRoom sizeMax = 256 := by decide

theorem storeNumber_within (hlimit : env.limits.maxNumberBytes ≤ sizeMax) (first : Byte)
    (i : Text) :
    (∀ pos ∈ (storeNumber env broken fail first i).stores,
      pos < numberRoom env.limits.maxNumberBytes) ↔
      env.limits.maxNumberBytes ≠ sizeMax ∨ shortNumber env i = true := by
  rcases Nat.lt_or_eq_of_le hlimit with hbounded | hunlimited
  · refine iff_of_true (fun pos hpos => ?_) (.inl hbounded.ne)
    exact (mem_storeNumber.mp hpos).2.1.trans (numberRoom_eq hbounded)
  rw [hunlimited, numberRoom_unlimited]
  simp only [ne_eq, not_true_eq_false, false_or, shortNumber, Bool.or_eq_true, decide_eq_true_eq]
  constructor
  · intro hstores
    by_contra hlong
    push Not at hlong
    refine absurd (hstores 256 (mem_storeNumber.mpr ⟨by omega, ?_, .inr ?_⟩)) (lt_irrefl _)
    · rw [hunlimited]
      decide
    · simpa using hlong.2
  · rintro hshort pos hpos
    obtain ⟨hrun, -, hwithin⟩ := mem_storeNumber.mp hpos
    by_contra hover
    have hfits := hwithin.resolve_left (by omega)
    rcases hshort with hshort | hshort
    · omega
    · rw [VisitEnv.tooLong_mono (by omega) hshort] at hfits
      cases hfits

/-- The visitors' stores: none, or those of the number. -/
theorem visitNumberStoring_within (v : Visitor υ) (grants : ℕ → Bool)
    (hlimit : env.limits.maxNumberBytes ≤ sizeMax) (first : Byte) (i : Text) (io : JsonIo υ) :
    (∀ pos ∈ (visitNumberStoring env v grants broken first i io).stores,
      pos < numberRoom env.limits.maxNumberBytes) ↔
      env.limits.maxNumberBytes ≠ sizeMax ∨ shortNumber env i = true ∨
        (io.visit v .numberBegin).isOk = false := by
  rw [visitNumberStoring]
  split_ifs with hrefused
  · refine iff_of_true nofun (.inl ?_)
    intro hunlimited
    rw [numberRefused, hunlimited] at hrefused
    cases hrefused
  cases io.visit v .numberBegin with
  | error io => exact iff_of_true nofun (.inr (.inr rfl))
  | ok io =>
      exact (storeNumber_within hlimit first i).trans
        (or_congr_right (by simp [Except.isOk, Except.toBool]))

theorem Paths.visitNumberStoring_within (penv : PathEnv υ)
    (hlimit : penv.limits.maxNumberBytes ≤ sizeMax) (first : Byte) (i : Text) (io : PathIo υ) :
    (∀ pos ∈ (Paths.visitNumberStoring penv broken first i io).stores,
      pos < numberRoom penv.limits.maxNumberBytes) ↔
      penv.limits.maxNumberBytes ≠ sizeMax ∨ shortNumber penv.toVisitEnv i = true ∨
        (io.visitAny penv .numberBegin).isOk = false := by
  rw [Paths.visitNumberStoring]
  split_ifs with hrefused
  · refine iff_of_true nofun (.inl ?_)
    intro hunlimited
    rw [numberRefused, hunlimited] at hrefused
    cases hrefused
  cases io.visitAny penv .numberBegin with
  | error io => exact iff_of_true nofun (.inr (.inr rfl))
  | ok io =>
      exact (storeNumber_within hlimit first i).trans
        (or_congr_right (by simp [Except.isOk, Except.toBool]))

end

/-- Both number visitors store below the end of their buffer exactly when the limit is not
`SIZE_MAX`, or the number is short, or `number_begin` stops the visit. -/
theorem number_stores_within (env : PathEnv υ) (v : Visitor υ) (broken : Option String)
    (hlimit : env.limits.maxNumberBytes ≤ sizeMax) (first : Byte) (i : Text) (io : JsonIo υ)
    (pio : PathIo υ) :
    ((∀ pos ∈ (visitNumberStoring env.toVisitEnv v env.grants broken first i io).stores,
        pos < numberRoom env.limits.maxNumberBytes) ↔
      env.limits.maxNumberBytes ≠ sizeMax ∨ shortNumber env.toVisitEnv i = true ∨
        (io.visit v .numberBegin).isOk = false) ∧
    ((∀ pos ∈ (Paths.visitNumberStoring env broken first i pio).stores,
        pos < numberRoom env.limits.maxNumberBytes) ↔
      env.limits.maxNumberBytes ≠ sizeMax ∨ shortNumber env.toVisitEnv i = true ∨
        (pio.visitAny env .numberBegin).isOk = false) :=
  ⟨visitNumberStoring_within v env.grants hlimit first i io,
    Paths.visitNumberStoring_within env hlimit first i pio⟩

/-- The defaults, but with no limit on numbers. -/
def unlimitedNumbers : VisitEnv :=
  { limits := { defaultValueLimits with maxNumberBytes := sizeMax }
    length := 257
    window := id }

theorem number_stores_within_one :
    unlimitedNumbers.limits.maxNumberBytes ≤ sizeMax ∧
      (((∀ pos ∈ (visitNumberStoring (unlimitedNumbers.onPaths silent fun _ => true).toVisitEnv
          silent (fun _ => true) none 0x31 [0x32] { out := () }).stores,
            pos < numberRoom unlimitedNumbers.limits.maxNumberBytes) ↔
        unlimitedNumbers.limits.maxNumberBytes ≠ sizeMax ∨
          shortNumber unlimitedNumbers [0x32] = true ∨
            (({ out := () } : JsonIo Unit).visit silent .numberBegin).isOk = false) ∧
      ((∀ pos ∈ (Paths.visitNumberStoring (unlimitedNumbers.onPaths silent fun _ => true)
          none 0x31 [0x32] { toJsonIo := { out := () } }).stores,
            pos < numberRoom unlimitedNumbers.limits.maxNumberBytes) ↔
        unlimitedNumbers.limits.maxNumberBytes ≠ sizeMax ∨
          shortNumber unlimitedNumbers [0x32] = true ∨
            (({ toJsonIo := { out := () } } : PathIo Unit).visitAny
              (unlimitedNumbers.onPaths silent fun _ => true) .numberBegin).isOk = false)) :=
  ⟨le_rfl, number_stores_within (unlimitedNumbers.onPaths silent fun _ => true) silent none le_rfl
    0x31 [0x32] { out := () } { toJsonIo := { out := () } }⟩

/-- A number of 257 digits: the last one is stored behind the stack buffer. -/
theorem number_stores_past :
    ¬ ∀ pos ∈ (visitNumberStoring unlimitedNumbers silent (fun _ => true) none 0x31
        (List.replicate 256 0x31) { out := () }).stores,
      pos < numberRoom unlimitedNumbers.limits.maxNumberBytes := by
  rw [visitNumberStoring_within _ _ le_rfl]
  rintro (hlimit | hshort | hstops)
  · exact hlimit rfl
  · have hrun (n : ℕ) : ((List.replicate n (0x31 : Byte)).takeWhile isNumberByte).length = n := by
      rw [List.takeWhile_replicate, if_pos (by rfl), List.length_replicate]
    rw [shortNumber, hrun, List.length_replicate] at hshort
    cases hshort
  · cases hstops

end Lonejson
