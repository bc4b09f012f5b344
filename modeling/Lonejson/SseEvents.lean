import Lonejson.Lines
import Lonejson.Sse

/-!
# The events of a stream

The events of a stream, read off its text: lines, blocks of lines, and what a block says. The
reader delivers them, up to the strings that its callbacks can carry: an event name ends at its
first NUL, and an id is `NULL` until the stream has had one, and never again.
-/

namespace Lonejson

/-! ## Reading the text -/

/-- One event as a block of lines tells it. -/
structure SseText where
  name : Bytes
  id : Option Bytes
  data : Bytes
  dataLen : ℕ
  retry : Option ℕ
  deriving DecidableEq, Repr

/-- One space less at the front. -/
def dropSpace : Bytes → Bytes
  | 0x20 :: value => value
  | value => value

/-- The name and the value that a line gives; a comment gives none. -/
def sseField (line : Bytes) : Option (Bytes × Bytes) :=
  if line.head? = some 0x3a then none
  else some (line.takeWhile (· != 0x3a), dropSpace (line.dropWhile (· != 0x3a)).tail)

/-- The milliseconds of a valid `retry` value, an `unsigned long`. -/
def retryValue (value : Bytes) : Option ℕ :=
  if value ≠ [] ∧ (∀ ch ∈ value, isDigit ch = true) ∧ digitsFrom 0 value < 2 ^ 64 then
    some (digitsFrom 0 value)
  else none

/-- The values of a block, under their names. -/
structure SseFields where
  data : List Bytes := []
  names : List Bytes := []
  ids : List Bytes := []
  retries : List ℕ := []

def SseFields.add (f : SseFields) (name value : Bytes) : SseFields :=
  if name = ascii "data" then { f with data := f.data ++ [value] }
  else if name = ascii "event" then { f with names := f.names ++ [value] }
  else if name = ascii "id" then if 0 ∈ value then f else { f with ids := f.ids ++ [value] }
  else if name = ascii "retry" then { f with retries := f.retries ++ (retryValue value).toList }
  else f

def SseFields.addLine (f : SseFields) (line : Bytes) : SseFields :=
  match sseField line with
  | none => f
  | some (name, value) => f.add name value

def sseFields (block : List Bytes) : SseFields := block.foldl SseFields.addLine {}

/-- The data lines, with single newlines between them. -/
def SseFields.text (f : SseFields) : Bytes := [LF].intercalate f.data

/-- The event of a block: nothing, unless one of its lines counts. -/
def SseFields.event (f : SseFields) : Option SseText :=
  if f.data = [] ∧ f.names = [] ∧ f.ids = [] ∧ f.retries = [] then none
  else
    some { name := f.names.getLast?.getD []
           id := f.ids.getLast?
           data := f.text
           dataLen := f.text.length
           retry := f.retries.getLast? }

def sseLines (stream : Bytes) : List Bytes := Lines.cut CR LF [] stream

/-- The lines between two empty lines. -/
def sseBlocks (stream : Bytes) : List (List Bytes) := (sseLines stream).splitOnP (· = [])

def sseEvents (stream : Bytes) : List SseText :=
  (sseBlocks stream).filterMap fun block => (sseFields block).event

/-! ## What the callbacks carry -/

/-- A value for the buffer of the id. -/
def SseFields.freshId (f : SseFields) : Bool := f.ids.any (· ≠ [])

/-- An event in the strings of C, with or without a buffer for the id. -/
def SseText.carried (e : SseText) (allocated : Bool) : SseText :=
  { e with
    name := cstr e.name
    id := if allocated then some (e.id.getD []) else none }

/-- What a block makes the reader deliver. -/
def deliverBlock (allocated : Bool) (f : SseFields) : List SseText :=
  f.event.toList.map (·.carried (allocated || f.freshId))

def deliverBlocks : Bool → List (List Bytes) → List SseText
  | _, [] => []
  | allocated, block :: blocks =>
    deliverBlock allocated (sseFields block) ++
      deliverBlocks (allocated || (sseFields block).freshId) blocks

/-- What a reader has taken in: the lines of the current block, the current line, whether a
carriage return has ended it, and what has been delivered. -/
structure SseProgress where
  allocated : Bool := false
  block : List Bytes := []
  line : Bytes := []
  cr : Bool := false
  events : List SseText := []

def SseProgress.endLine (a : SseProgress) : SseProgress :=
  if a.line = [] then
    { a with
      allocated := a.allocated || (sseFields a.block).freshId
      block := []
      events := a.events ++ deliverBlock a.allocated (sseFields a.block) }
  else { a with block := a.block ++ [a.line], line := [] }

def SseProgress.take (a : SseProgress) (ch : Byte) : SseProgress :=
  if ch = CR then { a with cr := true }
  else if ch = LF then a.endLine
  else { a with line := a.line ++ [ch] }

def SseProgress.feed (a : SseProgress) (ch : Byte) : SseProgress :=
  if a.cr then
    let a := { a with cr := false }.endLine
    if ch = LF then a else a.take ch
  else a.take ch

def SseProgress.lastLine (a : SseProgress) : SseProgress :=
  if a.cr ∨ a.line ≠ [] then { a with cr := false }.endLine else a

/-- The lines that are still to come, the current one included. -/
def SseProgress.linesOf (a : SseProgress) (rest : Bytes) : List Bytes :=
  if a.cr then Lines.cutBehind CR LF a.line rest else Lines.cut CR LF a.line rest

@[simp] theorem SseProgress.linesOf_cr {a : SseProgress} (h : a.cr = true) (rest : Bytes) :
    a.linesOf rest = Lines.cutBehind CR LF a.line rest := if_pos h

@[simp] theorem SseProgress.linesOf_open {a : SseProgress} (h : a.cr = false) (rest : Bytes) :
    a.linesOf rest = Lines.cut CR LF a.line rest := if_neg (by simp [h])

/-- What is delivered for the lines `ls` in a block that has begun. -/
def deliverLines : Bool → List Bytes → List Bytes → List SseText
  | allocated, block, [] => deliverBlock allocated (sseFields block)
  | allocated, block, l :: ls =>
    if l = [] then
      deliverBlock allocated (sseFields block) ++
        deliverLines (allocated || (sseFields block).freshId) [] ls
    else deliverLines allocated (block ++ [l]) ls

theorem deliverLines_eq (ls : List Bytes) : ∀ (allocated : Bool) (block : List Bytes),
    (∀ l ∈ block, l ≠ []) →
    deliverLines allocated block ls =
      deliverBlocks allocated ((block ++ ls).splitOnP (· = [])) := by
  induction ls with
  | nil =>
      intro allocated block hblock
      have hsingle : block.splitOnP (· = []) = [block] :=
        List.splitOnP_eq_singleton (by simpa using hblock)
      rw [deliverLines, List.append_nil, hsingle, deliverBlocks, deliverBlocks, List.append_nil]
  | cons l ls ih =>
      intro allocated block hblock
      rw [deliverLines]
      split_ifs with hl
      · have hcut : (block ++ [] :: ls).splitOnP (· = []) = block :: ls.splitOnP (· = []) :=
          List.splitOnP_append_cons_of_forall_mem (by simpa using hblock) [] (by simp) ls
        rw [hl, hcut, deliverBlocks, ih _ [] (by simp), List.nil_append]
      · rw [ih allocated (block ++ [l]), List.append_assoc, List.singleton_append]
        intro l' hl'
        rcases List.mem_append.mp hl' with hmem | hmem
        · exact hblock l' hmem
        · rwa [List.mem_singleton.mp hmem]

/-! ## The progress of a reader -/

section

variable {a : SseProgress}

theorem SseProgress.endLine_line (a : SseProgress) : a.endLine.line = [] := by
  rw [endLine]
  split_ifs with h
  · exact h
  · rfl

theorem SseProgress.endLine_cr (a : SseProgress) : a.endLine.cr = a.cr := by
  rw [endLine]
  split_ifs <;> rfl

/-- A property of a progress and of the lines to come that the end of a line keeps, and that
does not look at the line that is being read. -/
structure LineInvariant (P : SseProgress → List Bytes → Prop) : Prop where
  endLine : ∀ a ls, P a (a.line :: ls) → P a.endLine ls
  line : ∀ a line cr ls, P a ls → P { a with line, cr } ls

variable {P : SseProgress → List Bytes → Prop}

theorem LineInvariant.take (hP : LineInvariant P) (hopen : a.cr = false) {ch : Byte}
    {rest : Bytes} (h : P a (a.linesOf (ch :: rest))) :
    P (a.take ch) ((a.take ch).linesOf rest) := by
  rw [SseProgress.linesOf_open hopen] at h
  rw [SseProgress.take]
  split_ifs with hcr hlf
  · rw [hcr, Lines.cut_cr] at h
    exact hP.line a a.line true _ h
  · rw [hlf, Lines.cut_lf _ _ cr_ne_lf] at h
    rw [SseProgress.linesOf_open (a.endLine_cr.trans hopen), a.endLine_line]
    exact hP.endLine a _ h
  · rw [Lines.cut_other _ _ hcr hlf] at h
    rw [SseProgress.linesOf_open (by exact hopen)]
    exact hP.line a (a.line ++ [ch]) a.cr _ h

/-- A pending carriage return ends the line. -/
theorem LineInvariant.endCr (hP : LineInvariant P) {ls : List Bytes} (h : P a (a.line :: ls)) :
    P { a with cr := false }.endLine ls :=
  hP.endLine _ _ (hP.line a a.line false _ h)

theorem LineInvariant.feed (hP : LineInvariant P) {ch : Byte} {rest : Bytes}
    (h : P a (a.linesOf (ch :: rest))) : P (a.feed ch) ((a.feed ch).linesOf rest) := by
  rw [SseProgress.feed]
  by_cases hcr : a.cr = true
  · rw [if_pos hcr]
    rw [SseProgress.linesOf_cr hcr] at h
    have hopen : ({ a with cr := false }.endLine).cr = false := SseProgress.endLine_cr _
    have hnext := hP.endCr h
    dsimp only
    split_ifs with hlf
    · rw [SseProgress.linesOf_open hopen, SseProgress.endLine_line]
      rwa [hlf, List.head?_cons, if_pos rfl, List.tail_cons] at hnext
    · apply hP.take hopen
      rw [List.head?_cons, if_neg (by simpa using hlf)] at hnext
      rwa [SseProgress.linesOf_open hopen, SseProgress.endLine_line]
  · rw [if_neg hcr]
    exact hP.take (by simpa using hcr) h

theorem LineInvariant.lastLine (hP : LineInvariant P) (h : P a (a.linesOf [])) :
    P a.lastLine [] := by
  rw [SseProgress.lastLine]
  by_cases hcr : a.cr = true
  · rw [if_pos (.inl hcr)]
    rw [SseProgress.linesOf_cr hcr] at h
    exact hP.endCr h
  rw [SseProgress.linesOf_open (by simpa using hcr), Lines.cut] at h
  by_cases hline : a.line = []
  · rw [if_pos hline] at h
    rwa [if_neg (by simp [hcr, hline])]
  · rw [if_neg hline] at h
    rw [if_pos (.inr hline)]
    exact hP.endCr h

/-- What has been delivered, and what the lines that follow deliver. -/
def SseProgress.total (a : SseProgress) (ls : List Bytes) : List SseText :=
  a.events ++ deliverLines a.allocated a.block ls

theorem total_invariant (events : List SseText) :
    LineInvariant fun a ls => a.total ls = events where
  endLine := by
    rintro a ls rfl
    rw [SseProgress.total, SseProgress.total, deliverLines, SseProgress.endLine]
    split_ifs
    · rw [List.append_assoc]
    · rfl
  line := fun a line cr ls h => h

/-- The blocks hold lines that are not empty. -/
theorem SseProgress.total_blocks (ls : List Bytes) :
    ({} : SseProgress).total ls = deliverBlocks false (ls.splitOnP (· = [])) := by
  rw [total, deliverLines_eq ls false [] (by simp), List.nil_append, List.nil_append]

end

end Lonejson
