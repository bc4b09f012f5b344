import Lonejson.Reset
import Lonejson.Writer

/-!
# Spooled values

The public calls on a `lonejson_spooled`: a prefix in memory, the rest in a temporary file,
and one read cursor. What the allocator and the file do in a call is given with the call.
-/

namespace Lonejson

/-- What becomes of the temporary file that is opened: its path is too long, `mkstemp` or
`tmpfile` fails, or `fdopen` fails. -/
inductive SpoolOpening where
  | opened
  | pathTooLong
  | notCreated
  | notOpened
  deriving DecidableEq, Repr

/-- What the allocator and the temporary file do in one append. -/
structure SpoolFaults where
  /-- `realloc` of the prefix in memory. -/
  reserves : Bool := true
  opening : SpoolOpening := .opened
  /-- `fseek` to the end. -/
  seeks : Bool := true
  /-- The bytes that `fwrite` gets into the file, when these are not all. -/
  written : Option ℕ := none
  /-- `fseek` back to the read cursor. -/
  restores : Bool := true
  deriving DecidableEq, Repr

/-- `memory`, as far as it is used. -/
def Spooled.memoryBytes (s : Spooled) : Bytes := (s.memory.map Owned.data).getD []

/-- The room that is left in memory. -/
def Spooled.memoryRoom (s : Spooled) : ℕ := s.memoryLimit - s.memoryBytes.length

/-- Whether an append is within `max_bytes`. -/
def Spooled.fits (s : Spooled) (data : Bytes) : Bool :=
  s.maxBytes = 0 || s.size + data.length ≤ s.maxBytes

/-- A spooled value and the error record of its calls. -/
structure SpoolState where
  value : Spooled
  error : ErrorInfo := {}

/-- `lonejson__set_error`. -/
def SpoolState.setError (x : SpoolState) (code : Status) (message : String) : SpoolState × Status :=
  ({ x with error := x.error.set code message }, code)

/-- `lonejson__spooled_reserve_memory` and the copy behind it. -/
def SpoolState.copyToMemory (x : SpoolState) (faults : SpoolFaults) (data : Bytes) :
    SpoolState × Status :=
  if data = [] then (x, .ok)
  else if !faults.reserves then
    x.setError .allocationFailed "failed to expand spooled in-memory prefix"
  else
    let bytes := x.value.memoryBytes ++ data
    ({ x with value := { x.value with
        memory := some { header := { size := bytes.length }, data := bytes } } }, .ok)

/-- The message of a temporary file that is not opened. -/
def openTempMessage (tempDir : Option Owned) (opening : SpoolOpening) : String :=
  if tempDir.isNone then "failed to create anonymous spool file"
  else
    match opening with
    | .pathTooLong => "temporary spool path is too long"
    | .notCreated => "failed to create spool file"
    | _ => "failed to open spool file"

/-- `lonejson__spooled_open_temp`. -/
def SpoolState.openTemp (x : SpoolState) (faults : SpoolFaults) : SpoolState × Status :=
  if x.value.spilled then (x, .ok)
  else if faults.opening ≠ .opened then
    x.setError .ioError (openTempMessage x.value.ownedTempDir faults.opening)
  else ({ x with value := { x.value with spilled := true } }, .ok)

/-- The bytes that `fwrite` gets into the file. -/
def SpoolFaults.takes (faults : SpoolFaults) (data : Bytes) : Bytes :=
  match faults.written with
  | none => data
  | some n => data.take n

/-- The part of `lonejson__spooled_append` that writes to the file. -/
def SpoolState.spillOver (x : SpoolState) (faults : SpoolFaults) (data : Bytes) :
    SpoolState × Status :=
  if data = [] then (x, .ok)
  else
    andThenOk (x.openTemp faults) fun x =>
      if !faults.seeks then x.setError .ioError "failed to seek spool file for append"
      else
        let x := { x with value := { x.value with spill := x.value.spill ++ faults.takes data } }
        if (faults.takes data).length ≠ data.length then
          x.setError .ioError "failed to write spool file"
        else if !faults.restores then
          x.setError .ioError "failed to restore spool file read cursor"
        else (x, .ok)

/-- `lonejson__spooled_append`. The lengths of bytes that exist add up without wrapping. -/
def SpoolState.append (x : SpoolState) (faults : SpoolFaults) (data : Bytes) : SpoolState × Status :=
  if data = [] then (x, .ok)
  else if !x.value.fits data then
    x.setError .overflow "spooled field exceeds configured max bytes"
  else
    andThenOk (x.copyToMemory faults (data.take x.value.memoryRoom)) fun y =>
      andThenOk (y.spillOver faults (data.drop x.value.memoryRoom)) fun y =>
        ({ y with value := { y.value with size := y.value.size + data.length } }, .ok)

/-- `lonejson_spooled_rewind`; `seeks` is the `fseek` on the file. -/
def SpoolState.rewind (x : SpoolState) (seeks : Bool) : SpoolState × Status :=
  let x := { x with value := { x.value with readOffset := 0 } }
  if x.value.spilled && !seeks then x.setError .ioError "failed to rewind spool file"
  else ({ x with error := {} }, .ok)

/-- `lonejson_spooled_read`; `pread` gives what the file holds at the offset. -/
def Spooled.read (s : Spooled) (capacity : ℕ) : Spooled × ReadResult :=
  if capacity = 0 then (s, { eof := true })
  else
    let bytes := (s.memoryBytes.drop s.readOffset).take capacity
    if bytes ≠ [] then
      let offset := s.readOffset + bytes.length
      ({ s with readOffset := offset }, { bytes, eof := offset = s.size })
    else if s.spilled then
      let bytes := (s.spill.drop (s.readOffset - s.memoryBytes.length)).take capacity
      let offset := s.readOffset + bytes.length
      ({ s with readOffset := offset }, { bytes, eof := s.size ≤ offset })
    else (s, { eof := true })

/-! ## Runs -/

/-- A call on a spooled value. -/
inductive SpoolCall where
  | append (data : Bytes) (faults : SpoolFaults)
  | read (capacity : ℕ)
  | rewind (seeks : Bool)

/-- A spooled value with what the caller has seen of it: the bytes of the appends that
succeeded, and the bytes read since the last rewind. -/
structure SpoolRun where
  state : SpoolState
  appended : Bytes := []
  readBack : Bytes := []

def SpoolRun.start (options : SpoolOptions) : SpoolRun := { state := { value := spooledInit options } }

def SpoolRun.call (x : SpoolRun) : SpoolCall → SpoolRun
  | .append data faults =>
    let r := x.state.append faults data
    { x with state := r.1, appended := if r.2 = .ok then x.appended ++ data else x.appended }
  | .read capacity =>
    let r := x.state.value.read capacity
    { x with
      state := { x.state with value := r.1 }
      readBack := x.readBack ++ r.2.bytes }
  | .rewind seeks => { x with state := (x.state.rewind seeks).1, readBack := [] }

/-! ## A queue -/

/-- Reads, with rewinds in between. -/
def Spooled.readAll : List (Option ℕ) → Spooled → List ReadResult
  | [], _ => []
  | none :: calls, s => Spooled.readAll calls { s with readOffset := 0 }
  | some capacity :: calls, s => (s.read capacity).2 :: Spooled.readAll calls (s.read capacity).1

/-- What a caller can expect of the bytes of a queue. -/
structure SpoolRun.Queues (options : SpoolOptions) (x : SpoolRun) : Prop where
  readBack : x.readBack <+: x.appended
  size : x.state.value.size = x.appended.length
  bound : options.maxBytes ≠ 0 → x.state.value.size ≤ options.maxBytes

/-- An append that returns an error leaves everything as it was: the size, the length of the
prefix in memory, and whatever is read later. -/
def SpoolRun.Keeps (x : SpoolRun) : SpoolCall → Prop
  | .append data faults =>
    let r := x.state.append faults data
    r.2 ≠ .ok →
      r.1.value.size = x.state.value.size ∧
      r.1.value.memoryBytes.length = x.state.value.memoryBytes.length ∧
      ∀ reads, r.1.value.readAll reads = x.state.value.readAll reads
  | _ => True

/-- A run in which the value is an append-only queue. -/
def SpoolRun.AppendOnly (options : SpoolOptions) : SpoolRun → List SpoolCall → Prop
  | x, [] => x.Queues options
  | x, c :: calls => x.Queues options ∧ x.Keeps c ∧ SpoolRun.AppendOnly options (x.call c) calls

/-- The file fails an append behind the first bytes of it that have been copied to memory or
written to the file. -/
def SpoolState.tears (x : SpoolState) (faults : SpoolFaults) (data : Bytes) : Bool :=
  let copied := data.take x.value.memoryRoom
  let spilled := data.drop x.value.memoryRoom
  let reached := (x.value.spilled || faults.opening = .opened) && faults.seeks
  x.value.fits data && spilled ≠ [] && (copied = [] || faults.reserves) &&
    (copied ≠ [] || reached && faults.takes spilled ≠ []) &&
    !(reached && (faults.takes spilled).length = spilled.length && faults.restores)

/-- A run without such an append. -/
def SpoolRun.Untorn : SpoolRun → List SpoolCall → Prop
  | _, [] => True
  | x, .append data faults :: calls =>
    x.state.tears faults data = false ∧ SpoolRun.Untorn (x.call (.append data faults)) calls
  | x, c :: calls => SpoolRun.Untorn (x.call c) calls

/-! ## One append -/

/-- What a failed call returns. -/
theorem setError_ne_ok (x : SpoolState) {code : Status} (h : code ≠ .ok) (message : String) :
    (x.setError code message).2 ≠ .ok := h

section

variable {x : SpoolState} {faults : SpoolFaults} {data : Bytes}

theorem copyToMemory_ok (h : data = [] ∨ faults.reserves = true) :
    (x.copyToMemory faults data).2 = .ok ∧
      (x.copyToMemory faults data).1.value.memoryBytes = x.value.memoryBytes ++ data ∧
      ∃ memory, (x.copyToMemory faults data).1 = { x with value := { x.value with memory } } := by
  rw [SpoolState.copyToMemory]
  by_cases hdata : data = []
  · rw [if_pos hdata, hdata, List.append_nil]
    exact ⟨rfl, rfl, x.value.memory, rfl⟩
  · have hreserves : faults.reserves = true := h.resolve_left hdata
    rw [if_neg hdata, if_neg (by simp [hreserves])]
    exact ⟨rfl, rfl, _, rfl⟩

theorem copyToMemory_error (hdata : data ≠ []) (h : faults.reserves = false) :
    (x.copyToMemory faults data).2 ≠ .ok ∧ (x.copyToMemory faults data).1.value = x.value := by
  rw [SpoolState.copyToMemory, if_neg hdata, if_pos (by simp [h])]
  exact ⟨setError_ne_ok x (by decide) _, rfl⟩

/-- The file is open and at its end. -/
def SpoolState.reaches (x : SpoolState) (faults : SpoolFaults) : Bool :=
  (x.value.spilled || faults.opening = .opened) && faults.seeks

theorem spillOver_unreached (hdata : data ≠ []) (h : x.reaches faults = false) :
    (x.spillOver faults data).2 ≠ .ok ∧
      ∃ spilled, (x.spillOver faults data).1.value = { x.value with spilled } ∧
        (x.value.spilled = true → spilled = true) := by
  rw [SpoolState.spillOver, if_neg hdata, SpoolState.openTemp]
  rw [SpoolState.reaches, Bool.and_eq_false_iff, Bool.or_eq_false_iff] at h
  by_cases hspilled : x.value.spilled = true
  · have hseeks : faults.seeks = false := by simpa [hspilled] using h
    rw [if_pos hspilled, andThenOk_ok, if_pos (by simp [hseeks])]
    exact ⟨setError_ne_ok x (by decide) _, x.value.spilled, rfl, id⟩
  · rw [if_neg hspilled]
    by_cases hopened : faults.opening = .opened
    · have hseeks : faults.seeks = false := by simpa [hopened] using h
      rw [if_neg (by simp [hopened]), andThenOk_ok, if_pos (by simp [hseeks])]
      exact ⟨setError_ne_ok _ (by decide) _, true, rfl, fun _ => rfl⟩
    · rw [if_pos hopened]
      exact ⟨setError_ne_ok x (by decide) _, x.value.spilled, rfl, id⟩

theorem spillOver_reached (hdata : data ≠ []) (h : x.reaches faults = true) :
    ((x.spillOver faults data).2 = .ok ↔
      (faults.takes data).length = data.length ∧ faults.restores = true) ∧
    (x.spillOver faults data).1.value =
      { x.value with spilled := true, spill := x.value.spill ++ faults.takes data } := by
  rw [SpoolState.reaches, Bool.and_eq_true, Bool.or_eq_true] at h
  obtain ⟨hopen, hseeks⟩ := h
  have hopened : ∃ y, x.openTemp faults = (y, .ok) ∧ y.value = { x.value with spilled := true } := by
    rw [SpoolState.openTemp]
    by_cases hspilled : x.value.spilled = true
    · rw [if_pos hspilled]
      exact ⟨x, rfl, by rw [← hspilled]⟩
    · have hopening : faults.opening = .opened := by simpa [hspilled] using hopen
      rw [if_neg hspilled, if_neg (by simp [hopening])]
      exact ⟨_, rfl, rfl⟩
  obtain ⟨y, hy, hvalue⟩ := hopened
  rw [SpoolState.spillOver, if_neg hdata, hy, andThenOk_ok, if_neg (by simp [hseeks]), hvalue]
  by_cases hall : (faults.takes data).length = data.length
  · rw [if_neg (by simp [hall])]
    by_cases hrestores : faults.restores = true
    · rw [if_neg (by simp [hrestores])]
      exact ⟨by simp [hall, hrestores], rfl⟩
    · rw [if_pos (by simp [hrestores])]
      exact ⟨by simp [hrestores, SpoolState.setError], rfl⟩
  · rw [if_pos hall]
    exact ⟨by simp [hall, SpoolState.setError], rfl⟩

/-- The bytes are appended. -/
def SpoolState.Took (x : SpoolState) (data : Bytes) (y : SpoolState) : Prop :=
  y.value.memoryBytes = x.value.memoryBytes ++ data.take x.value.memoryRoom ∧
    ∃ memory spilled, y.value = { x.value with
      memory, spilled
      spill := x.value.spill ++ data.drop x.value.memoryRoom
      size := x.value.size + data.length } ∧
    (x.value.spilled = true → spilled = true) ∧ (data.drop x.value.memoryRoom ≠ [] → spilled = true)

/-- Nothing has changed, except that the file may be open. -/
def SpoolState.Kept (x y : SpoolState) : Prop :=
  ∃ spilled, y.value = { x.value with spilled } ∧ (x.value.spilled = true → spilled = true)

theorem append_unfold (hdata : data ≠ []) (hfits : x.value.fits data = true) :
    x.append faults data =
      andThenOk (x.copyToMemory faults (data.take x.value.memoryRoom)) fun y =>
        andThenOk (y.spillOver faults (data.drop x.value.memoryRoom)) fun y =>
          ({ y with value := { y.value with size := y.value.size + data.length } }, .ok) := by
  rw [SpoolState.append, if_neg hdata, if_neg (by simp [hfits])]

theorem andThenOk_ne_ok {α : Type} {r : α × Status} {k : α → α × Status} (h : r.2 ≠ .ok) :
    andThenOk r k = r := by
  rw [andThenOk, if_neg h]

theorem copyToMemory_nil : x.copyToMemory faults [] = (x, .ok) := rfl

theorem spillOver_nil : x.spillOver faults [] = (x, .ok) := rfl

/-- An append with room for the copy, with the bytes that go to the file. -/
theorem append_spills (hdata : data ≠ []) (hfits : x.value.fits data = true)
    (hcopy : data.take x.value.memoryRoom = [] ∨ faults.reserves = true) :
    ∃ y memory, y = { x with value := { x.value with memory } } ∧
      y.value.memoryBytes = x.value.memoryBytes ++ data.take x.value.memoryRoom ∧
      (data.take x.value.memoryRoom = [] → y = x) ∧
      x.append faults data =
        andThenOk (y.spillOver faults (data.drop x.value.memoryRoom)) fun y =>
          ({ y with value := { y.value with size := y.value.size + data.length } }, .ok) := by
  obtain ⟨hok, hbytes, memory, hvalue⟩ := copyToMemory_ok (x := x) hcopy
  refine ⟨_, memory, hvalue, hbytes, fun hnil => by rw [hnil]; rfl, ?_⟩
  rw [append_unfold hdata hfits, andThenOk, if_pos hok]

theorem takes_all (h : (faults.takes data).length = data.length) : faults.takes data = data := by
  rw [SpoolFaults.takes] at *
  cases hwritten : faults.written with
  | none => rfl
  | some n =>
      rw [hwritten] at h
      exact List.take_of_length_le (by simpa using h)

theorem tears_iff : x.tears faults data = true ↔
    x.value.fits data = true ∧ data.drop x.value.memoryRoom ≠ [] ∧
      (data.take x.value.memoryRoom = [] ∨ faults.reserves = true) ∧
      (data.take x.value.memoryRoom ≠ [] ∨
        x.reaches faults = true ∧ faults.takes (data.drop x.value.memoryRoom) ≠ []) ∧
      ¬ (x.reaches faults = true ∧ (faults.takes (data.drop x.value.memoryRoom)).length =
        (data.drop x.value.memoryRoom).length ∧ faults.restores = true) := by
  rw [SpoolState.tears, ← SpoolState.reaches]
  simp only [Bool.and_eq_true, Bool.or_eq_true, decide_eq_true_eq, Bool.not_eq_true', ne_eq,
    Bool.and_eq_false_iff, decide_eq_false_iff_not, and_assoc, not_and_or, Bool.not_eq_true]
  tauto

theorem append_untorn (h : x.tears faults data = false) :
    ((x.append faults data).2 = .ok ∧ (data = [] ∨ x.value.fits data = true) ∧
      x.Took data (x.append faults data).1) ∨
    ((x.append faults data).2 ≠ .ok ∧ x.Kept (x.append faults data).1) := by
  by_cases hdata : data = []
  · subst hdata
    exact .inl ⟨rfl, .inl rfl, by rw [List.take_nil, List.append_nil]; rfl, x.value.memory,
      x.value.spilled, by rw [List.drop_nil, List.append_nil]; rfl, id, fun h => absurd List.drop_nil h⟩
  by_cases hfits : x.value.fits data = true
  swap
  · rw [SpoolState.append, if_neg hdata, if_pos (by simp [hfits])]
    exact .inr ⟨setError_ne_ok x (by decide) _, x.value.spilled, rfl, id⟩
  by_cases hcopy : data.take x.value.memoryRoom = [] ∨ faults.reserves = true
  swap
  · push Not at hcopy
    obtain ⟨herror, hvalue⟩ := copyToMemory_error (x := x) hcopy.1 (by simpa using hcopy.2)
    rw [append_unfold hdata hfits, andThenOk_ne_ok herror]
    exact .inr ⟨herror, x.value.spilled, hvalue, id⟩
  obtain ⟨y, memory, rfl, hbytes, hsame, happend⟩ := append_spills hdata hfits hcopy
  rw [happend]
  by_cases hrest : data.drop x.value.memoryRoom = []
  · rw [hrest, spillOver_nil, andThenOk_ok]
    exact .inl ⟨rfl, .inr hfits, hbytes, memory, x.value.spilled,
      by rw [hrest, List.append_nil], id, fun h => absurd hrest h⟩
  -- some bytes go to the file
  have hclean : data.take x.value.memoryRoom = [] ∧
        (x.reaches faults = true → faults.takes (data.drop x.value.memoryRoom) = []) ∨
      x.reaches faults = true ∧ faults.restores = true ∧
        (faults.takes (data.drop x.value.memoryRoom)).length =
          (data.drop x.value.memoryRoom).length := by
    have hnot : ¬ x.tears faults data = true := by simp [h]
    rw [tears_iff] at hnot
    tauto
  by_cases hreach : x.reaches faults = true
  · obtain ⟨hok, hvalue⟩ := spillOver_reached (x := { x with value := { x.value with memory } })
      hrest hreach
    rcases hclean with ⟨hnil, htakes⟩ | ⟨-, hrestores, hall⟩
    · have htakes := htakes hreach
      have herror : ¬ ((SpoolState.spillOver { x with value := { x.value with memory } } faults
          (data.drop x.value.memoryRoom)).2 = .ok) := by
        rw [hok, htakes]
        rintro ⟨hlength, -⟩
        exact hrest (List.length_eq_zero_iff.mp hlength.symm)
      rw [andThenOk_ne_ok herror]
      refine .inr ⟨herror, true, ?_, fun _ => rfl⟩
      rw [hvalue, htakes, List.append_nil, hsame hnil]
    · rw [andThenOk, if_pos (hok.mpr ⟨hall, hrestores⟩)]
      refine .inl ⟨rfl, .inr hfits, ?_, memory, true, ?_, fun _ => rfl, fun _ => rfl⟩
      · dsimp only
        rw [hvalue]
        exact hbytes
      · dsimp only
        rw [hvalue, takes_all hall]
  · have hreach : x.reaches faults = false := by simpa using hreach
    obtain ⟨herror, spilled, hvalue, hopen⟩ := spillOver_unreached
      (x := { x with value := { x.value with memory } }) hrest hreach
    rcases hclean with ⟨hnil, -⟩ | ⟨htrue, -⟩
    · rw [andThenOk_ne_ok herror]
      refine .inr ⟨herror, spilled, ?_, hopen⟩
      rw [hvalue, hsame hnil]
    · rw [hreach] at htrue
      cases htrue

/-- What a torn append leaves: an error, and more bytes in memory or in the file. -/
theorem append_torn (h : x.tears faults data = true) :
    (x.append faults data).2 ≠ .ok ∧
      ((x.append faults data).1.value.memoryBytes.length ≠ x.value.memoryBytes.length ∨
        ∃ more, more ≠ [] ∧ (x.append faults data).1.value =
          { x.value with spilled := true, spill := x.value.spill ++ more }) := by
  obtain ⟨hfits, hrest, hcopy, hplaced, hfails⟩ := tears_iff.mp h
  have hdata : data ≠ [] := by
    rintro rfl
    exact hrest List.drop_nil
  obtain ⟨y, memory, rfl, hbytes, hsame, happend⟩ := append_spills hdata hfits hcopy
  rw [happend]
  -- the bytes in memory stay, whatever becomes of the file
  have hlength (hcopied : data.take x.value.memoryRoom ≠ []) {z : Spooled}
      (hz : z.memoryBytes = x.value.memoryBytes ++ data.take x.value.memoryRoom) :
      z.memoryBytes.length ≠ x.value.memoryBytes.length := by
    have hpos := List.length_pos_iff.mpr hcopied
    rw [hz, List.length_append]
    omega
  by_cases hreach : x.reaches faults = true
  · obtain ⟨hok, hvalue⟩ := spillOver_reached (x := { x with value := { x.value with memory } })
      hrest hreach
    have herror := mt hok.mp fun hall => hfails ⟨hreach, hall⟩
    rw [andThenOk_ne_ok herror]
    refine ⟨herror, ?_⟩
    rw [hvalue]
    by_cases hcopied : data.take x.value.memoryRoom = []
    · refine .inr ⟨_, (hplaced.resolve_left fun h => h hcopied).2, ?_⟩
      rw [hsame hcopied]
    · exact .inl (hlength hcopied hbytes)
  · have hreach' : x.reaches faults = false := by simpa using hreach
    obtain ⟨herror, spilled, hvalue, -⟩ := spillOver_unreached
      (x := { x with value := { x.value with memory } }) hrest hreach'
    rw [andThenOk_ne_ok herror]
    refine ⟨herror, .inl ?_⟩
    rw [hvalue]
    exact hlength (hplaced.resolve_right fun h => hreach h.1) hbytes

end

/-! ## Reads -/

/-- The bytes of a value: the prefix in memory, and the file. -/
def Spooled.bytes (s : Spooled) : Bytes := s.memoryBytes ++ s.spill

/-- What a read returns: more of the memory, or of the file behind it. -/
theorem read_eq {s : Spooled} (hspilled : s.spill ≠ [] → s.spilled = true) (capacity : ℕ) :
    (s.read capacity).2.bytes =
      (if s.readOffset < s.memoryBytes.length then s.memoryBytes.drop s.readOffset
        else s.spill.drop (s.readOffset - s.memoryBytes.length)).take capacity ∧
    (s.read capacity).1 =
      { s with readOffset := s.readOffset + (s.read capacity).2.bytes.length } := by
  rw [Spooled.read]
  by_cases hcapacity : capacity = 0
  · rw [if_pos hcapacity, hcapacity, List.take_zero]
    exact ⟨rfl, rfl⟩
  rw [if_neg hcapacity]
  by_cases hinside : s.readOffset < s.memoryBytes.length
  · have hmore : (s.memoryBytes.drop s.readOffset).take capacity ≠ [] := by
      rw [Ne, List.take_eq_nil_iff, List.drop_eq_nil_iff]
      omega
    rw [if_pos hinside, if_pos hmore]
    exact ⟨rfl, rfl⟩
  · have hnone : (s.memoryBytes.drop s.readOffset).take capacity = [] := by
      rw [List.drop_of_length_le (by omega), List.take_nil]
    rw [if_neg hinside, if_neg (not_not.mpr hnone)]
    by_cases hopen : s.spilled = true
    · rw [if_pos hopen]
      exact ⟨rfl, rfl⟩
    · have hempty : s.spill = [] := not_not.mp (mt hspilled hopen)
      rw [if_neg hopen]
      refine ⟨?_, rfl⟩
      rw [hempty, List.drop_nil, List.take_nil]

theorem read_prefix {s : Spooled} (hspilled : s.spill ≠ [] → s.spilled = true) (capacity : ℕ) :
    (s.read capacity).2.bytes <+: s.bytes.drop s.readOffset := by
  rw [(read_eq hspilled capacity).1, Spooled.bytes, List.drop_append]
  split
  · exact (List.take_prefix _ _).trans (List.prefix_append _ _)
  · rw [List.drop_of_length_le (show s.memoryBytes.length ≤ s.readOffset by omega), List.nil_append]
    exact List.take_prefix _ _

/-- What a read returns while the file is empty. -/
theorem read_unspilled {s : Spooled} (hempty : s.spill = []) (hsize : s.size = s.memoryBytes.length)
    (capacity : ℕ) :
    (s.read capacity).2 =
      if capacity = 0 ∨ s.memoryBytes.drop s.readOffset = [] then { eof := true }
      else
        let bytes := (s.memoryBytes.drop s.readOffset).take capacity
        { bytes, eof := s.readOffset + bytes.length = s.size } := by
  rw [Spooled.read]
  by_cases hcapacity : capacity = 0
  · rw [if_pos hcapacity, if_pos (.inl hcapacity)]
  rw [if_neg hcapacity]
  by_cases hnone : s.memoryBytes.drop s.readOffset = []
  · have hbehind := List.drop_eq_nil_iff.mp hnone
    rw [if_pos (Or.inr hnone), hnone, List.take_nil, if_neg (not_not.mpr rfl), hempty]
    split
    · simp [hsize, hbehind]
    · rfl
  · have hmore : (s.memoryBytes.drop s.readOffset).take capacity ≠ [] := by
      rw [Ne, List.take_eq_nil_iff]
      exact not_or.mpr ⟨hcapacity, hnone⟩
    rw [if_neg (not_or.mpr ⟨hcapacity, hnone⟩), if_pos hmore]

/-- Whether the file is open makes no difference as long as it is empty. -/
theorem readAll_spilled {s : Spooled} (hempty : s.spill = []) (hsize : s.size = s.memoryBytes.length)
    (spilled : Bool) (reads : List (Option ℕ)) :
    Spooled.readAll reads { s with spilled } = s.readAll reads := by
  induction reads generalizing s with
  | nil => rfl
  | cons read reads ih =>
      cases read with
      | none => exact ih (s := { s with readOffset := 0 }) hempty hsize
      | some capacity =>
          have hnext := (read_eq (s := s) (fun h => absurd hempty h) capacity).2
          have hnext' := (read_eq (s := { s with spilled }) (fun h => absurd hempty h) capacity).2
          have hreply := read_unspilled hempty hsize capacity
          have hreply' := read_unspilled (s := { s with spilled }) hempty hsize capacity
          rw [Spooled.readAll, Spooled.readAll, hnext, hnext', hreply, hreply']
          congr 1
          exact ih (s := { s with readOffset := _ }) hempty hsize

/-- A large read takes the rest of the memory, or of the file. -/
theorem read_large {s : Spooled} (hspilled : s.spill ≠ [] → s.spilled = true) {capacity : ℕ}
    (hcapacity : s.bytes.length ≤ capacity) :
    (s.read capacity).2.bytes =
      if s.readOffset < s.memoryBytes.length then s.memoryBytes.drop s.readOffset
      else s.spill.drop (s.readOffset - s.memoryBytes.length) := by
  rw [(read_eq hspilled capacity).1]
  rw [Spooled.bytes, List.length_append] at hcapacity
  split
  · exact List.take_of_length_le (by rw [List.length_drop]; omega)
  · exact List.take_of_length_le (by rw [List.length_drop]; omega)

/-- Two large reads behind a rewind read everything. -/
theorem readAll_whole {s : Spooled} (hspilled : s.spill ≠ [] → s.spilled = true) {capacity : ℕ}
    (hcapacity : s.bytes.length ≤ capacity) :
    (s.readAll [none, some capacity, some capacity]).flatMap ReadResult.bytes = s.bytes := by
  have hfirst := read_large (s := { s with readOffset := 0 }) hspilled hcapacity
  have hnext := (read_eq (s := { s with readOffset := 0 }) hspilled capacity).2
  have hsecond (n : ℕ) := read_large (s := { s with readOffset := n }) hspilled hcapacity
  have hmemory (n : ℕ) : Spooled.memoryBytes { s with readOffset := n } = s.memoryBytes := rfl
  rw [hmemory] at hfirst
  simp only [hmemory] at hsecond
  simp only [Spooled.readAll, List.flatMap_cons, List.flatMap_nil, List.append_nil]
  rw [hnext, hfirst, hsecond, Spooled.bytes]
  by_cases hempty : s.memoryBytes = []
  · simp [hempty]
  · have hpos := List.length_pos_iff.mpr hempty
    simp [hpos]

/-! ## Runs -/

/-- The invariant of a run without a torn append. -/
structure SpoolRun.Inv (options : SpoolOptions) (x : SpoolRun) : Prop where
  bytes : x.state.value.bytes = x.appended
  size : x.state.value.size = x.appended.length
  full : x.state.value.spill ≠ [] → x.state.value.memoryRoom = 0
  spilled : x.state.value.spill ≠ [] → x.state.value.spilled = true
  maxBytes : x.state.value.maxBytes = options.maxBytes
  bound : options.maxBytes ≠ 0 → x.state.value.size ≤ options.maxBytes
  offset : x.state.value.readOffset ≤ x.appended.length
  readBack : x.readBack = x.appended.take x.state.value.readOffset

theorem SpoolRun.Inv.queues {options : SpoolOptions} {x : SpoolRun} (h : x.Inv options) :
    x.Queues options :=
  ⟨h.readBack ▸ List.take_prefix _ _, h.size, h.bound⟩

theorem spoolStart_inv (options : SpoolOptions) : (SpoolRun.start options).Inv options :=
  ⟨rfl, rfl, fun h => absurd rfl h, fun h => absurd rfl h, rfl, fun _ => Nat.zero_le _,
    Nat.zero_le _, rfl⟩

theorem SpoolRun.Inv.read {options : SpoolOptions} {x : SpoolRun} (h : x.Inv options)
    (capacity : ℕ) : (x.call (.read capacity)).Inv options := by
  obtain ⟨more, hmore⟩ := read_prefix h.spilled capacity
  have hvalue := (read_eq h.spilled capacity).2
  rw [h.bytes] at hmore
  rw [SpoolRun.call]
  dsimp only
  rw [hvalue]
  refine ⟨h.bytes, h.size, h.full, h.spilled, h.maxBytes, h.bound, ?_, ?_⟩
  · have hlength := congrArg List.length hmore
    rw [List.length_append, List.length_drop] at hlength
    have hoffset := h.offset
    dsimp only
    omega
  · dsimp only
    rw [List.take_add, ← hmore, List.take_left, h.readBack]

theorem SpoolRun.Inv.rewind {options : SpoolOptions} {x : SpoolRun} (h : x.Inv options)
    (seeks : Bool) : (x.call (.rewind seeks)).Inv options := by
  have hvalue : (x.state.rewind seeks).1.value = { x.state.value with readOffset := 0 } := by
    rw [SpoolState.rewind]
    dsimp only
    split <;> rfl
  rw [SpoolRun.call]
  refine ⟨?_, ?_, ?_, ?_, ?_, ?_, ?_, ?_⟩ <;> dsimp only <;> rw [hvalue]
  · exact h.bytes
  · exact h.size
  · exact h.full
  · exact h.spilled
  · exact h.maxBytes
  · exact h.bound
  · exact Nat.zero_le _
  · rfl

theorem SpoolRun.Inv.took {options : SpoolOptions} {x : SpoolRun} (h : x.Inv options)
    {data : Bytes} (hfits : data = [] ∨ x.state.value.fits data = true) {y : SpoolState}
    (htook : x.state.Took data y) :
    SpoolRun.Inv options { x with state := y, appended := x.appended ++ data } := by
  obtain ⟨hmemory, memory, spilled, hvalue, hopen, hspills⟩ := htook
  -- the file is behind a full prefix, so that nothing is copied in front of it
  have hbytes : y.value.bytes = x.appended ++ data := by
    rw [Spooled.bytes, hmemory, hvalue, ← h.bytes, Spooled.bytes]
    by_cases hempty : x.state.value.spill = []
    · rw [hempty, List.nil_append, List.append_nil, List.append_assoc, List.take_append_drop]
    · rw [h.full hempty, List.take_zero, List.drop_zero, List.append_nil, List.append_assoc]
  refine ⟨hbytes, ?_, ?_, ?_, ?_, ?_, ?_, ?_⟩ <;> dsimp only <;> rw [hvalue]
  · rw [List.length_append, h.size]
  · intro hspill
    rw [← hvalue, Spooled.memoryRoom, hmemory, hvalue, List.length_append, List.length_take]
    have hfull : x.state.value.memoryRoom = 0 ∨ x.state.value.memoryRoom < data.length := by
      by_cases hdrop : data.drop x.state.value.memoryRoom = []
      · have hold : x.state.value.spill ≠ [] := by
          rintro hempty
          exact hspill (by rw [hempty, hdrop]; rfl)
        exact .inl (h.full hold)
      · exact .inr (by simpa using hdrop)
    rw [Spooled.memoryRoom] at *
    dsimp only
    omega
  · intro hspill
    by_cases hdrop : data.drop x.state.value.memoryRoom = []
    · refine hopen (h.spilled fun hempty => hspill ?_)
      rw [hempty, hdrop]
      rfl
    · exact hspills hdrop
  · exact h.maxBytes
  · intro hmax
    have hbound := h.bound hmax
    dsimp only
    rcases hfits with rfl | hfits
    · exact hbound
    · rw [Spooled.fits, h.maxBytes] at hfits
      simpa [hmax] using hfits
  · have hoffset := h.offset
    rw [List.length_append]
    dsimp only
    omega
  · dsimp only
    rw [h.readBack, List.take_append_of_le_length h.offset]

theorem SpoolRun.Inv.kept {options : SpoolOptions} {x : SpoolRun} (h : x.Inv options)
    {y : SpoolState} (hkept : x.state.Kept y) :
    SpoolRun.Inv options { x with state := y } ∧
      ∀ reads, y.value.readAll reads = x.state.value.readAll reads := by
  obtain ⟨spilled, hvalue, hopen⟩ := hkept
  constructor
  · refine ⟨?_, ?_, ?_, ?_, ?_, ?_, ?_, ?_⟩ <;> dsimp only <;> rw [hvalue]
    · exact h.bytes
    · exact h.size
    · exact h.full
    · exact fun hspill => hopen (h.spilled hspill)
    · exact h.maxBytes
    · exact h.bound
    · exact h.offset
    · exact h.readBack
  · intro reads
    rw [hvalue]
    by_cases hempty : x.state.value.spill = []
    · have hsize : x.state.value.size = x.state.value.memoryBytes.length := by
        rw [h.size, ← h.bytes, Spooled.bytes, hempty, List.append_nil]
      exact readAll_spilled hempty hsize spilled reads
    · have hold := h.spilled hempty
      rw [hopen hold, ← hold]

theorem SpoolRun.Inv.append {options : SpoolOptions} {x : SpoolRun} (h : x.Inv options)
    {faults : SpoolFaults} {data : Bytes} (htorn : x.state.tears faults data = false) :
    (x.call (.append data faults)).Inv options ∧ x.Keeps (.append data faults) := by
  rw [SpoolRun.call, SpoolRun.Keeps]
  rcases append_untorn htorn with ⟨hok, hfits, htook⟩ | ⟨herror, hkept⟩
  · rw [if_pos hok]
    exact ⟨h.took hfits htook, fun hne => absurd hok hne⟩
  · rw [if_neg herror]
    obtain ⟨hinv, hreads⟩ := h.kept hkept
    refine ⟨hinv, fun _ => ⟨?_, ?_, hreads⟩⟩
    · rw [hinv.size, h.size]
    · obtain ⟨spilled, hvalue, -⟩ := hkept
      rw [hvalue]
      rfl

/-- A torn append can be noticed: in the length of the prefix, or by reading everything. -/
theorem SpoolRun.Inv.torn {options : SpoolOptions} {x : SpoolRun} (h : x.Inv options)
    {faults : SpoolFaults} {data : Bytes} (htorn : x.state.tears faults data = true) :
    ¬ x.Keeps (.append data faults) := by
  intro hkeeps
  obtain ⟨herror, hleft⟩ := append_torn htorn
  rw [SpoolRun.Keeps] at hkeeps
  obtain ⟨-, hlength, hreads⟩ := hkeeps herror
  rcases hleft with hmemory | ⟨more, hmore, hvalue⟩
  · exact hmemory hlength
  · set y := (x.state.append faults data).1 with hy
    have hbytes : y.value.bytes = x.state.value.bytes ++ more := by
      rw [hvalue, Spooled.bytes, Spooled.bytes, List.append_assoc]
      rfl
    have hbefore := readAll_whole (s := x.state.value) h.spilled
      (show x.state.value.bytes.length ≤ y.value.bytes.length by
        rw [hbytes, List.length_append]
        omega)
    have hafter := readAll_whole (s := y.value) (fun _ => by rw [hvalue]) le_rfl
    rw [hreads, hbefore, hbytes] at hafter
    exact hmore (List.self_eq_append_right.mp hafter)

theorem SpoolRun.Inv.appendOnly_iff {options : SpoolOptions} (calls : List SpoolCall) {x : SpoolRun}
    (hinv : x.Inv options) :
    SpoolRun.AppendOnly options x calls ↔ SpoolRun.Untorn x calls := by
  induction calls generalizing x with
  | nil => exact ⟨fun _ => trivial, fun _ => hinv.queues⟩
  | cons c calls ih =>
      rw [SpoolRun.AppendOnly]
      cases c with
      | append data faults =>
          rw [SpoolRun.Untorn]
          cases htorn : x.state.tears faults data with
          | true =>
              refine ⟨fun ⟨_, hkeeps, _⟩ => absurd hkeeps (hinv.torn htorn), fun ⟨h, _⟩ => ?_⟩
              cases h
          | false =>
              obtain ⟨hnext, hkeeps⟩ := hinv.append htorn
              rw [ih hnext]
              exact ⟨fun ⟨_, _, h⟩ => ⟨rfl, h⟩, fun ⟨_, h⟩ => ⟨hinv.queues, hkeeps, h⟩⟩
      | read capacity =>
          rw [ih (hinv.read capacity)]
          exact ⟨fun ⟨_, _, h⟩ => h, fun h => ⟨hinv.queues, trivial, h⟩⟩
      | rewind seeks =>
          rw [ih (hinv.rewind seeks)]
          exact ⟨fun ⟨_, _, h⟩ => h, fun h => ⟨hinv.queues, trivial, h⟩⟩

/-- The value is an append-only queue throughout a run exactly when no append is torn. -/
theorem spooled_queue_iff (options : SpoolOptions) (calls : List SpoolCall) :
    SpoolRun.AppendOnly options (SpoolRun.start options) calls ↔
      SpoolRun.Untorn (SpoolRun.start options) calls :=
  (spoolStart_inv options).appendOnly_iff calls

/-- With four bytes of memory, "ab" is appended, and then "cdefg" while no file can be created:
the append fails, and a read returns "abcd". -/
theorem spooled_queue_fails :
    let options : SpoolOptions := { memoryLimit := 4, maxBytes := 0 }
    let calls : List SpoolCall := [.append [97, 98] {},
      .append [99, 100, 101, 102, 103] { opening := .notCreated }, .read 10]
    let x := calls.foldl SpoolRun.call (SpoolRun.start options)
    x.appended = [97, 98] ∧ x.readBack = [97, 98, 99, 100] ∧
      ¬ SpoolRun.AppendOnly options (SpoolRun.start options) calls := by
  refine ⟨by decide, by decide, ?_⟩
  rintro ⟨-, -, -, -, -, -, hend⟩
  exact absurd hend.readBack (by decide)

end Lonejson
