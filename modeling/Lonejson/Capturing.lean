import Lonejson.Recording
import Lonejson.Writer

/-!
# Values that are captured or sent to a sink

The compact text of a streamed value, as it is appended to the capture or handed to the
sink. The counter of the total limit sees the structure of the text; what stands between the
quotes of its strings is checked against the limit of one string only.
-/

namespace Lonejson

open Json (tokensText quoted)

variable {σ : Type}

/-! ## What is written and what is counted -/

/-- The bytes of a token that `lonejson__json_value_emit` counts. -/
def countedToken : Json.Token → ℕ
  | .opening _ | .closing _ | .comma => 1
  | .key _ => 3
  | .string _ => 2
  | .number text | .literal text => text.length

def countedBytes (ts : List Json.Token) : ℕ := (ts.map countedToken).sum

def writtenText (ts : List Json.Token) : Bytes := tokensText escapeText ts

/-- A limit of 0 is none. -/
def UnderLimit (limit n : ℕ) : Prop := limit = 0 ∨ n ≤ limit

instance (limit n : ℕ) : Decidable (UnderLimit limit n) := by
  unfold UnderLimit
  infer_instance

/-- The limits on the decoded bytes of a key and of a string. -/
def ValueLimits.Allows (limits : ValueLimits) : Json.Token → Prop
  | .key x => UnderLimit limits.maxKeyBytes x.length
  | .string x => UnderLimit limits.maxStringBytes x.length
  | _ => True

section

variable (ts : List Json.Token) (t : Json.Token)

@[simp] theorem countedBytes_append (ts' : List Json.Token) :
    countedBytes (ts ++ ts') = countedBytes ts + countedBytes ts' := by
  rw [countedBytes, List.map_append, List.sum_append]
  rfl

@[simp] theorem countedBytes_singleton : countedBytes [t] = countedToken t := by
  simp [countedBytes]

@[simp] theorem writtenText_append (ts' : List Json.Token) :
    writtenText (ts ++ ts') = writtenText ts ++ writtenText ts' :=
  Json.tokensText_append _ _ _

@[simp] theorem writtenText_singleton : writtenText [t] = t.text escapeText := by
  simp [writtenText]

end

theorem underLimit_le {limit m n : ℕ} (h : UnderLimit limit n) (hmn : m ≤ n) : UnderLimit limit m :=
  h.imp_right (le_trans hmn)

theorem not_underLimit {limit n : ℕ} : ¬ UnderLimit limit n ↔ limit ≠ 0 ∧ n > limit := by
  rw [UnderLimit, not_or, Nat.not_le]

/-- The pieces of an escaped text, put together. -/
theorem escapedPieces_flatten (run text : Bytes) :
    (escapedPieces run text).flatten = run ++ escapeText text := by
  have hrun (run : Bytes) : (plainRun run).flatten = run := by
    rw [plainRun]
    split
    · rename_i h
      rw [h]
      rfl
    · simp
  induction text generalizing run with
  | nil =>
      rw [escapedPieces, hrun]
      simp [escapeText]
  | cons ch text ih =>
      rw [escapedPieces]
      split
      · rename_i hplain
        rw [ih]
        simp [escapeText, writtenByte, hplain]
      · rename_i hplain
        rw [List.flatten_append, List.flatten_cons, ih, hrun]
        simp [escapeText, writtenByte, hplain]

theorem escapedPieces_ne_nil {run text piece : Bytes} (h : piece ∈ escapedPieces run text) :
    piece ≠ [] := by
  have hrun {run : Bytes} (h : piece ∈ plainRun run) : piece ≠ [] := by
    rw [plainRun] at h
    split at h
    · cases h
    · rename_i hne
      rwa [List.mem_singleton.mp h]
  induction text generalizing run with
  | nil => exact hrun h
  | cons ch text ih =>
      rw [escapedPieces] at h
      split at h
      · exact ih h
      · rcases List.mem_append.mp h with h | h
        · exact hrun h
        rcases List.mem_cons.mp h with rfl | h
        · rw [escapeByte]
          split_ifs <;> simp
        · exact ih h

theorem escapeText_append (x y : Bytes) : escapeText (x ++ y) = escapeText x ++ escapeText y :=
  List.flatMap_append

/-! ## Where the text goes -/

/-- The end of a captured or sent value: `holds` says which text has arrived there, and
`takes` how many bytes it has room for. `first` is the core before the value. -/
structure TextOutput (σ : Type) where
  sink : Bool
  limits : ValueLimits
  first : Core σ
  holds : Bytes → Core σ → Prop
  takes : ℕ → Prop

def textMode (sink : Bool) : JsonParseMode := if sink then .sink else .capture

/-- One piece of the text. -/
def TextOutput.append (O : TextOutput σ) (env : Env σ) (ptr : SlotPtr) (c : Core σ) (v : JsonValue)
    (data : Bytes) : Core σ × Status :=
  if O.sink then c.call env (.sink ptr data) else captureAppend env c ptr v data

/-- An operation that writes this text and touches no register of the stream, or there is no
room for the text. -/
def TextOutput.Writes (O : TextOutput σ) (text : Bytes) (c : Core σ) (r : Core σ × Status) : Prop :=
  (r.2 = .ok ∧ O.holds text r.1 ∧ r.1.json = c.json ∧ r.1.failed = c.failed ∧ O.takes text.length) ∨
    (r.2.soft = false ∧ r.1.error.code.soft = false ∧ ¬ O.takes text.length)

structure TextOutput.Lawful (O : TextOutput σ) (env : Env σ) (ptr : SlotPtr) : Prop where
  member : ∀ {text c}, O.holds text c → ∃ v, c.value? ptr = some (.jsonValue v) ∧
    v.parseMode = textMode O.sink ∧ v.limits = O.limits
  same : ∀ {text c c'}, O.holds text c → c'.dst = c.dst → c'.world = c.world →
    c'.allocLive = c.allocLive → O.holds text c'
  first : ∃ v, O.first.value? ptr = some (.jsonValue v) ∧ v.parseMode = textMode O.sink
  idle : O.first.json.active = false ∧ O.first.failed = false ∧ O.first.json.path = none
  starts : O.holds [] (jsonValuePrepareParse env O.first ptr).1
  takes_less : ∀ {m n}, m ≤ n → O.takes n → O.takes m
  append : ∀ {text c v} data, O.holds text c → c.value? ptr = some (.jsonValue v) →
    O.Writes (text ++ data) c (O.append env ptr c v data)

section

variable {env : Env σ} {ptr : SlotPtr} {O : TextOutput σ} {text : Bytes} {c : Core σ}

/-- A core whose stream goes to this output. -/
structure TextOutput.At (O : TextOutput σ) (ptr : SlotPtr) (text : Bytes) (total : ℕ)
    (c : Core σ) : Prop where
  holds : O.holds text c
  value : c.json.value = some ptr
  active : c.json.active = true
  visits : c.json.parseVisitorActive = false
  sink : c.json.sinkActive = O.sink
  total : c.json.totalBytes = total
  path : c.json.path = none
  failed : c.failed = false

theorem TextOutput.At.streamed (hO : O.Lawful env ptr) {total : ℕ} (h : O.At ptr text total c) :
    ∃ v, c.value? ptr = some (.jsonValue v) ∧ v.parseMode = textMode O.sink ∧ v.limits = O.limits ∧
      c.streamedValue? = some (ptr, v) := by
  obtain ⟨v, hv, hmode, hlimits⟩ := hO.member h.holds
  refine ⟨v, hv, hmode, hlimits, ?_⟩
  rw [Core.streamedValue?, h.value]
  dsimp only
  rw [hv]

theorem TextOutput.At.limits (hO : O.Lawful env ptr) {total : ℕ} (h : O.At ptr text total c) :
    c.valueLimits = O.limits := by
  obtain ⟨v, -, -, hlimits, hstreamed⟩ := h.streamed hO
  rw [Core.valueLimits, hstreamed]
  exact hlimits

/-- An operation that emits the bytes `data` behind this text and counts them. -/
def TextOutput.Emits (O : TextOutput σ) (text : Bytes) (total : ℕ) (c : Core σ)
    (data : Bytes) (r : Core σ × Status) : Prop :=
  (r.2 = .ok ∧ O.holds (text ++ data) r.1 ∧
      r.1.json = { c.json with totalBytes := total + data.length } ∧ r.1.failed = c.failed ∧
      O.takes (text ++ data).length ∧ UnderLimit O.limits.maxTotalBytes (total + data.length)) ∨
    (r.2.soft = false ∧ r.1.error.code.soft = false ∧
      ¬ (O.takes (text ++ data).length ∧
        UnderLimit O.limits.maxTotalBytes (total + data.length)))

theorem jsonValueEmit_emits (hO : O.Lawful env ptr) {total : ℕ} (h : O.At ptr text total c)
    (data : Bytes) : O.Emits text total c data (jsonValueEmit env c data) := by
  obtain ⟨v, hv, hmode, hlimits, hstreamed⟩ := h.streamed hO
  rw [jsonValueEmit, hstreamed]
  dsimp only
  rw [hlimits, h.total]
  by_cases hunder : UnderLimit O.limits.maxTotalBytes (total + data.length)
  swap
  · rw [if_pos (not_underLimit.mp hunder)]
    exact .inr ⟨rfl, rfl, fun hboth => hunder hboth.2⟩
  rw [if_neg (fun hover => not_underLimit.mpr hover hunder)]
  have hholds : O.holds text { c with json := { c.json with totalBytes := total + data.length } } :=
    hO.same h.holds rfl rfl rfl
  have hwrites := hO.append data hholds (by exact hv)
  have hemits {r : Core σ × Status}
      (hr : O.Writes (text ++ data) { c with
        json := { c.json with totalBytes := total + data.length } } r) :
      O.Emits text total c data r := by
    rcases hr with ⟨hok, htext, hjson, hfailed, htakes⟩ | ⟨hhard, hcode, hfull⟩
    · exact .inl ⟨hok, htext, hjson, hfailed, htakes, hunder⟩
    · exact .inr ⟨hhard, hcode, fun hboth => hfull hboth.1⟩
  rw [TextOutput.append] at hwrites
  rw [hmode]
  cases hsink : O.sink with
  | false =>
      rw [hsink] at hwrites
      exact hemits hwrites
  | true =>
      rw [hsink] at hwrites
      exact hemits hwrites

theorem jsonTextSink_writes (hO : O.Lawful env ptr) {total : ℕ} (h : O.At ptr text total c)
    {data : Bytes} (hdata : data ≠ []) : O.Writes (text ++ data) c (jsonTextSink env c data) := by
  obtain ⟨v, hv, -, -, hstreamed⟩ := h.streamed hO
  have happend : jsonTextSink env c data = O.append env ptr c v data := by
    rw [jsonTextSink, hstreamed]
    dsimp only
    rw [h.sink, if_neg hdata]
    rfl
  rw [happend]
  exact hO.append data h.holds hv

/-- A text that is written leaves the registers. -/
theorem TextOutput.At.written {total : ℕ} (h : O.At ptr text total c) {c' : Core σ} {text' : Bytes}
    (htext : O.holds text' c') (hjson : c'.json = c.json) (hfailed : c'.failed = c.failed) :
    O.At ptr text' total c' where
  holds := htext
  value := by rw [hjson]; exact h.value
  active := by rw [hjson]; exact h.active
  visits := by rw [hjson]; exact h.visits
  sink := by rw [hjson]; exact h.sink
  total := by rw [hjson]; exact h.total
  path := by rw [hjson]; exact h.path
  failed := hfailed.trans h.failed

theorem emitPieces_writes (hO : O.Lawful env ptr) {total : ℕ} (pieces : List Bytes)
    (hpieces : ∀ piece ∈ pieces, piece ≠ []) (h : O.At ptr text total c)
    (htakes : O.takes text.length) :
    O.Writes (text ++ pieces.flatten) c (emitPieces (jsonTextSink env) c pieces) := by
  induction pieces generalizing text c with
  | nil =>
      rw [List.flatten_nil, List.append_nil]
      exact .inl ⟨rfl, h.holds, rfl, rfl, htakes⟩
  | cons piece pieces ih =>
      have hfirst := jsonTextSink_writes hO h (hpieces piece (by simp))
      rw [emitPieces, andThenSoft]
      rcases hfirst with ⟨hok, htext, hjson, hfailed, htakes'⟩ | ⟨hhard, hcode, hfull⟩
      · rw [if_pos (by rw [hok]; rfl), List.flatten_cons, ← List.append_assoc]
        have hrest := ih (fun piece hp => hpieces piece (by simp [hp]))
          (h.written htext hjson hfailed) htakes'
        rw [TextOutput.Writes, ← hjson, ← hfailed]
        exact hrest
      · rw [if_neg (by simp [hhard])]
        refine .inr ⟨hhard, hcode, fun htakes' => hfull (hO.takes_less ?_ htakes')⟩
        simp

/-- The escaped text of a string, or of a part of one. -/
theorem emitEscapedFragment_writes (hO : O.Lawful env ptr) {total : ℕ} (h : O.At ptr text total c)
    (htakes : O.takes text.length) (data : Bytes) :
    O.Writes (text ++ escapeText data) c (emitEscapedFragment (jsonTextSink env) c data) := by
  have hwrites := emitPieces_writes hO (escapedPieces [] data)
    (fun _ hpiece => escapedPieces_ne_nil hpiece) h htakes
  rw [escapedPieces_flatten, List.nil_append] at hwrites
  exact hwrites

/-! ## The recorder of a text -/

/-- Tokens that the limits and the room allow. -/
def TextOutput.Permits (O : TextOutput σ) (ts : List Json.Token) : Prop :=
  O.takes (writtenText ts).length ∧ UnderLimit O.limits.maxTotalBytes (countedBytes ts) ∧
    ∀ t ∈ ts, O.limits.Allows t

/-- Between two tokens. -/
structure TextOutput.Inside (O : TextOutput σ) (ptr : SlotPtr) (d : ℕ) (ts : List Json.Token)
    (c : Core σ) : Prop where
  stream : O.At ptr (writtenText ts) (countedBytes ts) c
  depth : c.json.depth = d
  permits : ts ≠ [] → O.Permits ts

/-- Inside a string, of which `x` has been read. -/
structure TextOutput.InText (O : TextOutput σ) (ptr : SlotPtr) (d : ℕ) (ts : List Json.Token)
    (isKey : Bool) (x : Bytes) (c : Core σ) : Prop where
  stream : O.At ptr (writtenText ts ++ 0x22 :: escapeText x) (countedBytes ts + 1) c
  depth : c.json.depth = d
  textBytes : c.json.textBytes = x.length
  textIsKey : c.json.textIsKey = isKey
  takes : O.takes (writtenText ts ++ 0x22 :: escapeText x).length
  counted : UnderLimit O.limits.maxTotalBytes (countedBytes ts + 1)
  allowed : ∀ t ∈ ts ++ [textToken isKey x], O.limits.Allows t

/-- Behind the value. -/
structure TextOutput.Ended (O : TextOutput σ) (ts : List Json.Token) (c : Core σ) : Prop where
  holds : O.holds (writtenText ts) c
  idle : c.json.active = false
  failed : c.failed = false
  permits : ts ≠ [] → O.Permits ts

def textRecorder (O : TextOutput σ) (env : Env σ) (ptr : SlotPtr) : Recorder env ptr where
  visits := false
  waits c := c = O.first
  inside := O.Inside ptr
  text := O.InText ptr
  ended := O.Ended
  kept _ := True
  deny ts := ¬ O.Permits ts

section

variable {ts : List Json.Token} {d : ℕ}

theorem permits_append (hO : O.Lawful env ptr) {ts' : List Json.Token}
    (h : O.Permits (ts ++ ts')) : O.Permits ts := by
  obtain ⟨htakes, hunder, hallows⟩ := h
  rw [writtenText_append, List.length_append] at htakes
  rw [countedBytes_append] at hunder
  refine ⟨hO.takes_less (Nat.le_add_right _ _) htakes, underLimit_le hunder (Nat.le_add_right _ _), ?_⟩
  intro t ht
  exact hallows t (List.mem_append_left _ ht)

/-- What there is no room for is no part of permitted tokens. -/
theorem not_permits (hO : O.Lawful env ptr) {t : Json.Token} {data : Bytes} {n : ℕ}
    (hdata : data.length ≤ (t.text escapeText).length) (hn : n ≤ countedToken t)
    (h : ¬ (O.takes (writtenText ts ++ data).length ∧
      UnderLimit O.limits.maxTotalBytes (countedBytes ts + n))) : ¬ O.Permits (ts ++ [t]) := by
  rintro ⟨htakes, hunder, -⟩
  rw [writtenText_append, writtenText_singleton, List.length_append] at htakes
  rw [countedBytes_append, countedBytes_singleton] at hunder
  apply h
  constructor
  · apply hO.takes_less _ htakes
    rw [List.length_append]
    exact Nat.add_le_add_left hdata _
  · exact underLimit_le hunder (Nat.add_le_add_left hn _)

theorem TextOutput.Inside.allowed (h : O.Inside ptr d ts c) : ∀ t ∈ ts, O.limits.Allows t := by
  intro t ht
  have hne : ts ≠ [] := by
    rintro rfl
    cases ht
  exact (h.permits hne).2.2 t ht

theorem TextOutput.At.emitted {total : ℕ} (h : O.At ptr text total c) {c' : Core σ}
    {text' : Bytes} {total' : ℕ} (htext : O.holds text' c')
    (hjson : c'.json = { c.json with totalBytes := total' }) (hfailed : c'.failed = c.failed) :
    O.At ptr text' total' c' where
  holds := htext
  value := by rw [hjson]; exact h.value
  active := by rw [hjson]; exact h.active
  visits := by rw [hjson]; exact h.visits
  sink := by rw [hjson]; exact h.sink
  total := by rw [hjson]
  path := by rw [hjson]; exact h.path
  failed := hfailed.trans h.failed

/-- A token whose text is emitted as a whole. -/
theorem TextOutput.Inside.emit (hO : O.Lawful env ptr) (h : O.Inside ptr d ts c) {t : Json.Token}
    {data : Bytes} (hdata : t.text escapeText = data) (hcount : countedToken t = data.length)
    (hallow : O.limits.Allows t) :
    (textRecorder O env ptr).Goes (O.Inside ptr d (ts ++ [t])) (ts ++ [t])
      (jsonValueEmit env c data) := by
  rcases jsonValueEmit_emits hO h.stream data with
    ⟨hok, htext, hjson, hfailed, htakes, hunder⟩ | ⟨hhard, hcode, hfull⟩
  · refine .inl ⟨hok, ?_, ?_, fun _ => ⟨?_, ?_, ?_⟩⟩
    · rw [writtenText_append, writtenText_singleton, hdata, countedBytes_append,
        countedBytes_singleton, hcount]
      exact h.stream.emitted htext hjson hfailed
    · rw [hjson]
      exact h.depth
    · rw [writtenText_append, writtenText_singleton, hdata]
      exact htakes
    · rw [countedBytes_append, countedBytes_singleton, hcount]
      exact hunder
    · intro t' ht'
      rcases List.mem_append.mp ht' with ht' | ht'
      · exact h.allowed t' ht'
      · rw [List.mem_singleton.mp ht']
        exact hallow
  · refine .inr ⟨hhard, hcode, trivial, ?_⟩
    exact not_permits hO (by rw [hdata]) (by rw [hcount]) hfull

/-- The opening quote. -/
theorem TextOutput.Inside.textBegins (hO : O.Lawful env ptr) (h : O.Inside ptr d ts c)
    (isKey : Bool) :
    (textRecorder O env ptr).Goes (O.InText ptr d ts isKey []) (ts ++ [textToken isKey []])
      (jsonValueStringBegin env c isKey) := by
  have hstream : O.At ptr (writtenText ts) (countedBytes ts)
      { c with json := { c.json with textBytes := 0, textIsKey := isKey } } :=
    ⟨hO.same h.stream.holds rfl rfl rfl, h.stream.value, h.stream.active, h.stream.visits,
      h.stream.sink, h.stream.total, h.stream.path, h.stream.failed⟩
  have hbegin : jsonValueStringBegin env c isKey =
      jsonValueEmit env { c with json := { c.json with textBytes := 0, textIsKey := isKey } }
        [0x22] := by
    rw [jsonValueStringBegin, if_neg (by simp [h.stream.value])]
    dsimp only
    rw [if_pos (by simp [h.stream.visits])]
  rw [hbegin]
  rcases jsonValueEmit_emits hO hstream [0x22] with
    ⟨hok, htext, hjson, hfailed, htakes, hunder⟩ | ⟨hhard, hcode, hfull⟩
  · refine .inl ⟨hok, hstream.emitted htext hjson hfailed, ?_, ?_, ?_, htakes, hunder, ?_⟩
    · rw [hjson]
      exact h.depth
    · rw [hjson]
      rfl
    · rw [hjson]
    · intro t ht
      rcases List.mem_append.mp ht with ht | ht
      · exact h.allowed t ht
      · rw [List.mem_singleton.mp ht]
        cases isKey <;> exact .inr (Nat.zero_le _)
  · refine .inr ⟨hhard, hcode, trivial, not_permits hO ?_ ?_ hfull⟩
    · cases isKey <;> simp [textToken, Json.Token.text, quoted]
    · cases isKey <;> decide

/-- The limit on one key or one string. -/
theorem allows_text {limits : ValueLimits} {isKey : Bool} {x : Bytes} :
    limits.Allows (textToken isKey x) ↔
      UnderLimit (if isKey then limits.maxKeyBytes else limits.maxStringBytes) x.length := by
  cases isKey <;> rfl

theorem textToken_length (isKey : Bool) (x : Bytes) :
    (0x22 :: escapeText x).length ≤ ((textToken isKey x).text escapeText).length := by
  cases isKey <;> simp [textToken, Json.Token.text, quoted]

theorem TextOutput.InText.chunk (hO : O.Lawful env ptr) {isKey : Bool} {x data : Bytes}
    (h : O.InText ptr d ts isKey x c) :
    (textRecorder O env ptr).Goes (O.InText ptr d ts isKey (x ++ data))
      (ts ++ [textToken isKey (x ++ data)]) (jsonValueStringChunk env c data) := by
  rw [jsonValueStringChunk]
  dsimp only
  rw [h.textIsKey, h.stream.limits hO, h.textBytes, if_pos (by simp [h.stream.visits])]
  by_cases hallow : O.limits.Allows (textToken isKey (x ++ data))
  swap
  · have hover := not_underLimit.mp (hallow ∘ allows_text.mpr)
    rw [List.length_append] at hover
    rw [if_pos hover]
    refine .inr ⟨rfl, rfl, trivial, fun hpermits => hallow ?_⟩
    exact hpermits.2.2 _ (by simp)
  have hunder := allows_text.mp hallow
  rw [List.length_append] at hunder
  rw [if_neg fun hover => not_underLimit.mpr hover hunder]
  have hstream : O.At ptr (writtenText ts ++ 0x22 :: escapeText x) (countedBytes ts + 1)
      { c with json := { c.json with
        textBytes := x.length + data.length, textIsKey := isKey } } :=
    ⟨hO.same h.stream.holds rfl rfl rfl, h.stream.value, h.stream.active, h.stream.visits,
      h.stream.sink, h.stream.total, h.stream.path, h.stream.failed⟩
  have hwrites := emitEscapedFragment_writes hO hstream h.takes data
  have htext : (writtenText ts ++ 0x22 :: escapeText x) ++ escapeText data =
      writtenText ts ++ 0x22 :: escapeText (x ++ data) := by
    rw [escapeText_append]
    simp
  rw [htext] at hwrites
  rcases hwrites with ⟨hok, htext, hjson, hfailed, htakes⟩ | ⟨hhard, hcode, hfull⟩
  · refine .inl ⟨hok, hstream.written htext hjson hfailed, ?_, ?_, ?_, htakes, h.counted, ?_⟩
    · rw [hjson]
      exact h.depth
    · rw [hjson, List.length_append]
    · rw [hjson]
    · intro t ht
      rcases List.mem_append.mp ht with ht | ht
      · exact h.allowed t (List.mem_append_left _ ht)
      · rw [List.mem_singleton.mp ht]
        exact hallow
  · refine .inr ⟨hhard, hcode, trivial, ?_⟩
    apply not_permits hO (textToken_length isKey (x ++ data)) (Nat.zero_le _)
    exact fun hboth => hfull hboth.1

/-- The closing quote. -/
theorem TextOutput.InText.stringEnd (hO : O.Lawful env ptr) {isKey : Bool} {x : Bytes}
    (h : O.InText ptr d ts isKey x c) :
    O.Emits (writtenText ts ++ 0x22 :: escapeText x) (countedBytes ts + 1)
        { c with json := { c.json with textBytes := 0, textIsKey := false } } [0x22]
        (jsonValueStringEnd env c) ∧
      O.At ptr (writtenText ts ++ 0x22 :: escapeText x) (countedBytes ts + 1)
        { c with json := { c.json with textBytes := 0, textIsKey := false } } := by
  have hstream : O.At ptr (writtenText ts ++ 0x22 :: escapeText x) (countedBytes ts + 1)
      { c with json := { c.json with textBytes := 0, textIsKey := false } } :=
    ⟨hO.same h.stream.holds rfl rfl rfl, h.stream.value, h.stream.active, h.stream.visits,
      h.stream.sink, h.stream.total, h.stream.path, h.stream.failed⟩
  refine ⟨?_, hstream⟩
  have hend : jsonValueStringEnd env c =
      jsonValueEmit env { c with json := { c.json with textBytes := 0, textIsKey := false } }
        [0x22] := by
    rw [jsonValueStringEnd]
    dsimp only
    rw [if_pos (by simp [h.stream.visits])]
  rw [hend]
  exact jsonValueEmit_emits hO hstream [0x22]

theorem TextOutput.InText.permits_string {x : Bytes} (h : O.InText ptr d ts false x c)
    (htakes : O.takes (writtenText ts ++ 0x22 :: escapeText x ++ [0x22]).length)
    (hunder : UnderLimit O.limits.maxTotalBytes (countedBytes ts + 1 + 1)) :
    O.Permits (ts ++ [.string x]) := by
  refine ⟨?_, ?_, h.allowed⟩
  · rw [writtenText_append, writtenText_singleton]
    simpa [Json.Token.text, quoted] using htakes
  · rw [countedBytes_append, countedBytes_singleton]
    exact hunder

theorem TextOutput.InText.stringEnds (hO : O.Lawful env ptr) {x : Bytes}
    (h : O.InText ptr d ts false x c) :
    (textRecorder O env ptr).Goes (O.Inside ptr d (ts ++ [.string x])) (ts ++ [.string x])
      (jsonValueStringEnd env c) := by
  obtain ⟨hemits, hstream⟩ := h.stringEnd hO
  rcases hemits with ⟨hok, htext, hjson, hfailed, htakes, hunder⟩ | ⟨hhard, hcode, hfull⟩
  · have hat := hstream.emitted htext hjson hfailed
    refine .inl ⟨hok, ?_, ?_, fun _ => h.permits_string htakes hunder⟩
    · rw [writtenText_append, writtenText_singleton, countedBytes_append, countedBytes_singleton]
      simpa [Json.Token.text, quoted, countedToken] using hat
    · rw [hjson]
      exact h.depth
  · refine .inr ⟨hhard, hcode, trivial, ?_⟩
    apply @not_permits _ _ _ _ _ hO (.string x) (0x22 :: escapeText x ++ [0x22]) 2
    · simp [Json.Token.text, quoted]
    · exact le_refl _
    · simpa using hfull

/-- The closing quote of a key, and the colon. -/
theorem TextOutput.InText.keyEnds (hO : O.Lawful env ptr) {x : Bytes}
    (h : O.InText ptr d ts true x c) :
    (textRecorder O env ptr).Goes (O.Inside ptr d (ts ++ [.key x])) (ts ++ [.key x])
      (andThenOk (jsonValueStringEnd env c) fun c => emitMark env c 0x3a) := by
  obtain ⟨hemits, hstream⟩ := h.stringEnd hO
  have hlength (data : Bytes) (hdata : data = [0x22] ∨ data = [0x22, 0x3a]) :
      (0x22 :: escapeText x ++ data).length ≤ ((Json.Token.key x).text escapeText).length := by
    rcases hdata with rfl | rfl <;> simp [Json.Token.text, quoted]
  rw [andThenOk]
  rcases hemits with ⟨hok, htext, hjson, hfailed, htakes, hunder⟩ | ⟨hhard, hcode, hfull⟩
  swap
  · rw [if_neg (Status.ne_ok_of_hard hhard)]
    refine .inr ⟨hhard, hcode, trivial, ?_⟩
    apply not_permits hO (hlength [0x22] (.inl rfl)) (show 2 ≤ 3 by decide)
    simpa using hfull
  rw [if_pos hok]
  have hat := hstream.emitted htext hjson hfailed
  have hmark : emitMark env (jsonValueStringEnd env c).1 0x3a =
      jsonValueEmit env (jsonValueStringEnd env c).1 [0x3a] := by
    rw [emitMark, if_pos (by simp [hat.active, hat.visits])]
  rw [hmark]
  rcases jsonValueEmit_emits hO hat [0x3a] with
    ⟨hok, htext, hjson', hfailed, htakes, hunder⟩ | ⟨hhard, hcode, hfull⟩
  · have hat' := hat.emitted htext hjson' hfailed
    refine .inl ⟨hok, ?_, ?_, fun _ => ⟨?_, ?_, h.allowed⟩⟩
    · rw [writtenText_append, writtenText_singleton, countedBytes_append, countedBytes_singleton]
      simpa [Json.Token.text, quoted, countedToken] using hat'
    · rw [hjson', hjson]
      exact h.depth
    · rw [writtenText_append, writtenText_singleton]
      simpa [Json.Token.text, quoted] using htakes
    · rw [countedBytes_append, countedBytes_singleton]
      exact hunder
  · refine .inr ⟨hhard, hcode, trivial, ?_⟩
    apply not_permits hO (hlength [0x22, 0x3a] (.inr rfl)) (le_refl 3)
    simpa using hfull

/-! ## The start and the end of a value -/

/-- A value that starts, at some depth. -/
theorem beginJsonStream_starts (hO : O.Lawful env ptr) (n : ℕ) :
    (beginJsonStream env O.first ptr n).2 = .ok ∧
      (beginJsonStream env O.first ptr n).1.json.depth = n ∧
      ∀ d, O.Inside ptr d [] ((beginJsonStream env O.first ptr n).1.setJsonDepth d) := by
  obtain ⟨v, hv, hmode⟩ := hO.first
  obtain ⟨hactive, hfailed, hpath⟩ := hO.idle
  have hnone : v.parseMode ≠ .none := by
    rw [hmode, textMode]
    cases O.sink <;> exact JsonParseMode.noConfusion
  have hstarts := hO.starts
  have hprepare : (jsonValuePrepareParse env O.first ptr).2 = .ok ∧
      (jsonValuePrepareParse env O.first ptr).1.json = O.first.json ∧
      (jsonValuePrepareParse env O.first ptr).1.failed = O.first.failed := by
    rw [jsonValuePrepareParse, hv]
    dsimp only
    rw [if_neg hnone]
    exact ⟨rfl, rfl, rfl⟩
  obtain ⟨hok, hjson, hfail⟩ := hprepare
  rw [beginJsonStream, andThenOk, if_pos hok]
  generalize (jsonValuePrepareParse env O.first ptr).1 = c at hstarts hjson hfail
  obtain ⟨v', hv', hmode', -⟩ := hO.member hstarts
  have hcleanup : cleanupJsonStreamPath env c = c := by
    rw [cleanupJsonStreamPath, hjson, hpath]
  rw [hv']
  dsimp only
  rw [setJsonStreamValue, hcleanup]
  refine ⟨rfl, rfl, fun d => ⟨?_, rfl, absurd rfl⟩⟩
  refine ⟨hO.same hstarts rfl rfl rfl, rfl, rfl, ?_, ?_, rfl, ?_, ?_⟩
  · simp only [Core.setJsonDepth, Core.resetJsonCounters, JsonStream.start, hmode', textMode]
    cases O.sink <;> rfl
  · simp only [Core.setJsonDepth, Core.resetJsonCounters, JsonStream.start, hmode', textMode]
    cases O.sink <;> rfl
  · simp only [Core.setJsonDepth, Core.resetJsonCounters, JsonStream.start, hjson, hpath]
  · simp only [Core.setJsonDepth, Core.resetJsonCounters, hfail, hfailed]

theorem TextOutput.At.cleared {total : ℕ} (h : O.At ptr text total c) :
    clearJsonStreamValue env c = { c with
      json := { depth := c.json.depth, totalBytes := c.json.totalBytes,
                textBytes := c.json.textBytes, textIsKey := c.json.textIsKey } } := by
  have hcleanup : cleanupJsonStreamPath env c = c := by
    rw [cleanupJsonStreamPath, h.path]
  rw [clearJsonStreamValue, hcleanup]

theorem TextOutput.Inside.ends (hO : O.Lawful env ptr) (h : O.Inside ptr d ts c) :
    O.Ended ts (clearJsonStreamValue env c) := by
  rw [h.stream.cleared]
  exact ⟨hO.same h.stream.holds rfl rfl rfl, rfl, h.stream.failed, h.permits⟩

/-- A scalar that is the whole value. -/
theorem assignJsonScalar_ends (hO : O.Lawful env ptr) (text : Bytes) {mode : LexMode}
    (hnone : mode ≠ .none) (hstring : mode ≠ .string) :
    (textRecorder O env ptr).Goes (O.Ended [(textRecorder O env ptr).valueToken text mode])
      [(textRecorder O env ptr).valueToken text mode] (assignJsonScalar env O.first ptr text mode) := by
  obtain ⟨hok, hdepth, hinside⟩ := beginJsonStream_starts hO 0
  have hfirst : O.Inside ptr 0 [] (beginJsonStream env O.first ptr 0).1 := by
    have h := hinside 0
    rwa [setJsonDepth_same hdepth] at h
  rw [assignJsonScalar, andThenOk, if_pos hok]
  generalize (beginJsonStream env O.first ptr 0).1 = c at hfirst
  obtain ⟨v, -, hmode, -, hstreamed⟩ := hfirst.stream.streamed hO
  have hvisitor : ¬ (c.streamedValue?.any fun v => v.2.parseMode.isVisitor) = true := by
    rw [hstreamed, Option.any_some, hmode, textMode]
    cases O.sink <;> exact Bool.false_ne_true
  dsimp only
  rw [if_neg hvisitor]
  have hends {t : Json.Token} {data : Bytes} (hdata : t.text escapeText = data)
      (hcount : countedToken t = data.length) (hallow : O.limits.Allows t) :
      (textRecorder O env ptr).Goes (O.Ended [t]) [t]
        (clearJsonStreamValue env (jsonValueEmit env c data).1, (jsonValueEmit env c data).2) := by
    rcases hfirst.emit hO hdata hcount hallow with ⟨hok, hinside⟩ | ⟨hhard, hcode, -, hdeny⟩
    · exact .inl ⟨hok, hinside.ends hO⟩
    · obtain ⟨allocLive, json, hclear⟩ := clearJsonStreamValue_same env (jsonValueEmit env c data).1
      refine .inr ⟨hhard, ?_, trivial, hdeny⟩
      rw [hclear]
      exact hcode
  cases mode with
  | none => exact absurd rfl hnone
  | string => exact absurd rfl hstring
  | number => exact hends rfl rfl trivial
  | true => exact hends rfl rfl trivial
  | false => exact hends rfl rfl trivial
  | null => exact hends rfl rfl trivial

/-! ## The laws of the recorder -/

theorem TextOutput.Inside.atDepth (hO : O.Lawful env ptr) (h : O.Inside ptr d ts c) (n : ℕ) :
    O.Inside ptr n ts (c.setJsonDepth n) where
  stream := ⟨hO.same h.stream.holds rfl rfl rfl, h.stream.value, h.stream.active, h.stream.visits,
    h.stream.sink, h.stream.total, h.stream.path, h.stream.failed⟩
  depth := rfl
  permits := h.permits

theorem jsonOpen_text (hvisits : c.json.parseVisitorActive = false) (kind : ContainerKind) :
    jsonOpen env c kind = jsonValueEmit env c [kind.bracket.opening] := by
  cases kind <;> simp [jsonOpen, hvisits, ContainerKind.bracket, Json.Bracket.opening]

theorem jsonClose_text (hvisits : c.json.parseVisitorActive = false) (kind : ContainerKind) :
    jsonClose env c kind = jsonValueEmit env c [kind.bracket.closing] := by
  cases kind <;> simp [jsonClose, hvisits, ContainerKind.bracket, Json.Bracket.closing]

/-- A scalar inside a container is emitted as a whole. -/
theorem TextOutput.Inside.scalar (hO : O.Lawful env ptr) (h : O.Inside ptr d ts c) (text : Bytes)
    {mode : LexMode} (hnone : mode ≠ .none) (hstring : mode ≠ .string) :
    (textRecorder O env ptr).Goes (O.Inside ptr d (ts ++ [scalarToken text mode]))
      (ts ++ [scalarToken text mode]) (deliverStreamedScalar env c text mode) := by
  rw [deliverStreamedScalar, if_neg (by simp [h.stream.visits]), if_neg hstring]
  cases mode with
  | none => exact absurd rfl hnone
  | string => exact absurd rfl hstring
  | number => exact h.emit hO rfl rfl trivial
  | true => exact h.emit hO rfl rfl trivial
  | false => exact h.emit hO rfl rfl trivial
  | null => exact h.emit hO rfl rfl trivial

theorem escapeText_mono {x y : Bytes} (h : x <+: y) : escapeText x <+: escapeText y := by
  obtain ⟨z, rfl⟩ := h
  rw [escapeText_append]
  exact List.prefix_append _ _

/-- Permits look at lengths only. -/
theorem permits_mono (hO : O.Lawful env ptr) {t t' : Json.Token}
    (htext : (t.text escapeText).length ≤ (t'.text escapeText).length)
    (hcount : countedToken t ≤ countedToken t') (hallows : O.limits.Allows t' → O.limits.Allows t)
    (h : O.Permits (ts ++ [t'])) : O.Permits (ts ++ [t]) := by
  by_contra hdeny
  obtain ⟨htakes, hunder, hall⟩ := h
  have hboth : O.takes (writtenText ts ++ t.text escapeText).length ∧
      UnderLimit O.limits.maxTotalBytes (countedBytes ts + countedToken t) := by
    rw [writtenText_append, writtenText_singleton, List.length_append] at htakes
    rw [countedBytes_append, countedBytes_singleton] at hunder
    rw [List.length_append]
    exact ⟨hO.takes_less (Nat.add_le_add_left htext _) htakes,
      underLimit_le hunder (Nat.add_le_add_left hcount _)⟩
  apply hdeny
  refine ⟨?_, ?_, ?_⟩
  · rw [writtenText_append, writtenText_singleton]
    exact hboth.1
  · rw [countedBytes_append, countedBytes_singleton]
    exact hboth.2
  · intro t'' ht''
    rcases List.mem_append.mp ht'' with ht'' | ht''
    · exact hall t'' (List.mem_append_left _ ht'')
    · rw [List.mem_singleton.mp ht'']
      exact hallows (hall t' (by simp))

theorem textRecorder_lawful (hO : O.Lawful env ptr) : (textRecorder O env ptr).Lawful where
  waits_idle := by
    rintro c rfl
    exact ⟨hO.idle.1, hO.idle.2.1⟩
  inside_live h := ⟨h.stream.active, h.stream.visits, h.depth, h.stream.failed⟩
  text_live h := ⟨h.stream.active, h.stream.visits, h.stream.failed⟩
  ended_idle h := ⟨h.idle, h.failed⟩
  waits_kept _ := trivial
  inside_kept _ := trivial
  text_kept _ := trivial
  ended_kept _ := trivial
  kept_same _ _ _ := trivial
  deny_more _ hdeny hpermits := hdeny (permits_append hO hpermits)
  deny_text {_ k _ _} hprefix hdeny hpermits := by
    refine hdeny (permits_mono hO ?_ ?_ ?_ hpermits)
    · have hlength := (escapeText_mono hprefix).length_le
      cases k <;> simpa [textToken, Json.Token.text, quoted] using hlength
    · cases k <;> exact le_refl _
    · intro hallows
      rw [allows_text] at hallows ⊢
      exact underLimit_le hallows hprefix.length_le
  deny_scalar {_ _ mode} hlength hdeny hpermits := by
    refine hdeny (@permits_mono _ _ _ _ [] hO _ _ ?_ ?_ ?_ hpermits)
    · cases mode <;> simp [textRecorder, Recorder.valueToken, Json.Token.text, hlength]
    · cases mode <;> simp [textRecorder, Recorder.valueToken, countedToken, hlength]
    · intro _
      cases mode <;> exact trivial
  begins n h := by
    subst h
    obtain ⟨hok, hdepth, hinside⟩ := beginJsonStream_starts hO n
    exact .inl ⟨hok, hdepth, hinside 0⟩
  opens {d _ c kind} h := by
    have hdeeper := h.atDepth hO (d + 1)
    have hshallow : jsonTooDeep (c.setJsonDepth (d + 1)) = false := by
      rw [jsonTooDeep, hdeeper.stream.visits]
      rfl
    rw [if_neg (by simp [hshallow]), jsonOpen_text hdeeper.stream.visits]
    exact hdeeper.emit hO rfl rfl trivial
  closes {d _ _ kind} h := by
    rw [jsonClose_text h.stream.visits]
    rcases h.emit (t := .closing kind.bracket) hO rfl rfl trivial with ⟨hok, hinside⟩ | hfails
    · exact .inl ⟨hok, hinside.stream.active, hinside.depth, hinside.atDepth hO d⟩
    · exact .inr hfails
  ends h := h.ends hO
  commas h := by
    rw [emitMark, if_pos (by simp [h.stream.active, h.stream.visits])]
    exact h.emit hO rfl rfl trivial
  textBegins h := h.textBegins hO _
  chunks h _ := h.chunk hO
  stringEnds h := h.stringEnds hO
  stringEnd_live h hok := by
    obtain ⟨hemits, hstream⟩ := h.stringEnd hO
    rcases hemits with ⟨-, htext, hjson, hfailed, -⟩ | ⟨hhard, -⟩
    · have hat := hstream.emitted htext hjson hfailed
      exact ⟨hat.active, hat.visits⟩
    · exact absurd hok (Status.ne_ok_of_hard hhard)
  keyEnds h := h.keyEnds hO
  scalars h hnone hstring := h.scalar hO _ hnone hstring
  scalarValue h hnone hstring := by
    subst h
    exact assignJsonScalar_ends hO _ hnone hstring

end

end

/-! ## The capture -/

section

variable (env : Env σ) (ptr : SlotPtr)

/-- The bytes that the parse holds on the heap while a value is captured, but for the capture. -/
def captureBase (c : Core σ) (v : JsonValue) : ℕ := (jsonValueClearRuntimeParse env c v).1.allocLive

/-- The bytes that a captured text may take, with its NUL. -/
def captureRoom (c : Core σ) (v : JsonValue) : ℕ := allocAvailable env (captureBase env c v) 0

/-- A block of the capture buffer, charged to the parser as a whole. -/
structure CaptureBlock (room : ℕ) (header : AllocHeader) : Prop where
  tag : header.budgetTag = some env.parserId
  charge : header.budgetBytes = header.size
  fits : room ≠ sizeMax → header.size ≤ room

/-- The text that has been captured. -/
def Captured (limits : ValueLimits) (base : ℕ) (text : Bytes) (c : Core σ) : Prop :=
  ∃ v, c.value? ptr = some (.jsonValue v) ∧ v.parseMode = .capture ∧ v.limits = limits ∧
    (text = [] ∧ v.json = none ∧ c.allocLive = base ∨
      ∃ header, v.json = some ⟨header, text⟩ ∧ v.kind = .buffer ∧ c.allocLive = base + header.size ∧
        CaptureBlock env (allocAvailable env base 0) header ∧ text.length + 1 ≤ header.size)

/-- The capture of the JSON value `v`, which is what the member holds before. -/
def captureOutput (c : Core σ) (v : JsonValue) : TextOutput σ where
  sink := false
  limits := v.limits
  first := c
  holds := Captured env ptr v.limits (captureBase env c v)
  takes n := captureRoom env c v = sizeMax ∨ n + 1 ≤ captureRoom env c v

end

theorem growCapture_spec {available required : ℕ} (hroom : available ≠ sizeMax → required ≤ available)
    (fuel cap : ℕ) (hfuel : required ≤ cap + fuel) (hcap : available ≠ sizeMax → cap ≤ available) :
    required ≤ growCapture available required fuel cap ∧
      (available ≠ sizeMax → growCapture available required fuel cap ≤ available) := by
  induction fuel generalizing cap with
  | zero => exact ⟨hfuel, hcap⟩
  | succ fuel ih =>
      rw [growCapture]
      split_ifs with hless hover hclip
      · exact ⟨le_refl _, hroom⟩
      · exact ⟨hroom hclip.1, fun _ => le_refl _⟩
      · refine ih _ (by omega) ?_
        intro havailable
        by_contra hlarge
        exact hclip ⟨havailable, by omega⟩
      · exact ⟨by omega, hcap⟩

/-- The next capacity is enough, and within the budget. -/
theorem captureCapacity_spec {available required : ℕ} (capacity : ℕ)
    (hroom : available ≠ sizeMax → required ≤ available) :
    required ≤ captureCapacity available required capacity ∧
      (available ≠ sizeMax → captureCapacity available required capacity ≤ available) := by
  rw [captureCapacity]
  apply growCapture_spec hroom
  · exact Nat.le_add_left _ _
  · intro havailable
    split_ifs <;> omega

section

variable {env : Env σ} {ptr : SlotPtr} {c : Core σ}

theorem allocAvailable_shift (base n : ℕ) :
    allocAvailable env (base + n) n = allocAvailable env base 0 := by
  rw [allocAvailable, allocAvailable]
  simp

/-- A block may grow up to what is available. -/
theorem allocCanGrow_available (hbudget : env.options.maxAllocBytes < sizeMax) {base current next : ℕ}
    (hnext : allocAvailable env base 0 ≠ sizeMax → next ≤ allocAvailable env base 0) :
    allocCanGrow env (base + current) current next = true := by
  rw [allocCanGrow]
  by_cases hmax : env.options.maxAllocBytes = 0
  · rw [if_pos hmax]
  rw [if_neg hmax]
  by_cases hsmall : next ≤ current
  · rw [if_pos hsmall]
  rw [if_neg hsmall]
  have havailable : allocAvailable env base 0 = env.options.maxAllocBytes - base := by
    rw [allocAvailable, if_neg hmax]
    simp only [Nat.zero_le, ge_iff_le, if_true, Nat.sub_zero]
    split_ifs <;> omega
  rw [havailable] at hnext
  simp only [ge_iff_le, Nat.le_add_left, if_true, Nat.add_sub_cancel, Bool.and_eq_true,
    decide_eq_true_eq]
  omega

theorem ownedReallocParse_grows {h : Option AllocHeader} {base next : ℕ} (hnext : next ≠ 0)
    (hlive : c.allocLive = base + allocCountedBytes env h)
    (hgrow : allocCanGrow env c.allocLive (allocCountedBytes env h) next = true) :
    ∃ header, ownedReallocParse env c h next = (some header, { c with allocLive := base + next }) ∧
      header.size = next ∧ header.budgetTag = some env.parserId ∧ header.budgetBytes = next := by
  have hresize (header : AllocHeader) (hcharge : header.charge env.parserId = allocCountedBytes env h) :
      (allocNoteResize env c.allocLive header next).1 = base + next := by
    rw [allocNoteResize]
    dsimp only
    rw [hcharge, hlive, if_pos (Nat.le_add_left _ _), Nat.add_sub_cancel]
  rw [ownedReallocParse.eq_def, if_pos hgrow]
  cases h with
  | none =>
      have hlive' := hresize { size := next } rfl
      dsimp only
      rw [hlive']
      exact ⟨_, rfl, rfl, rfl, rfl⟩
  | some h =>
      dsimp only
      rw [if_neg hnext]
      have hlive' := hresize { h with size := next } rfl
      rw [hlive']
      exact ⟨_, rfl, rfl, rfl, rfl⟩

theorem value?_setValue {v w : Value} (h : c.value? ptr = some w) :
    (c.setValue ptr v).value? ptr = some v := by
  have hvalue := Record.value?_modifyValue c.dst ptr fun _ => v
  rw [Core.value?] at h
  rw [h] at hvalue
  exact hvalue

variable {first : Core σ} {v₀ : JsonValue}

theorem captureAppend_writes (hbudget : env.options.maxAllocBytes < sizeMax) {text : Bytes}
    (hcaptured : (captureOutput env ptr first v₀).holds text c) {v : JsonValue}
    (hv : c.value? ptr = some (.jsonValue v)) (data : Bytes) :
    (captureOutput env ptr first v₀).Writes (text ++ data) c (captureAppend env c ptr v data) := by
  obtain ⟨v', hv', hmode, hlimits, hblock⟩ := hcaptured
  obtain rfl : v = v' := by
    rw [hv] at hv'
    cases hv'
    rfl
  generalize hroom : captureRoom env first v₀ = room
  rw [captureRoom] at hroom
  rw [hroom] at hblock
  -- Whether a block is there or not, its size is what it is charged.
  have hblock' : (v.json.map Owned.data).getD [] = text ∧
      c.allocLive = captureBase env first v₀ + allocCountedBytes env (v.json.map Owned.header) ∧
      ((v.json.map Owned.header).map AllocHeader.size).getD 0 =
        allocCountedBytes env (v.json.map Owned.header) ∧
      ∀ header, v.json.map Owned.header = some header → CaptureBlock env room header := by
    rcases hblock with ⟨rfl, hjson, hlive⟩ | ⟨header, hjson, -, hlive, hheader, -⟩
    · rw [hjson]
      exact ⟨rfl, hlive, rfl, nofun⟩
    · rw [hjson]
      have hcounted : allocCountedBytes env (some header) = header.size := by
        rw [allocCountedBytes, AllocHeader.charge, if_pos hheader.tag, hheader.charge]
      refine ⟨rfl, ?_, hcounted.symm, ?_⟩
      · exact hlive.trans (by rw [← hcounted]; rfl)
      · rintro _ ⟨⟩
        exact hheader
  obtain ⟨htext, hlive, hsize, hheader⟩ := hblock'
  generalize hcapacity : allocCountedBytes env (v.json.map Owned.header) = capacity at hlive hsize
  have havailable : allocAvailable env c.allocLive capacity = room := by
    rw [hlive, allocAvailable_shift, hroom]
  have hstore {header : AllocHeader} {live : ℕ} (hheader : CaptureBlock env room header)
      (hlength : (text ++ data).length + 1 ≤ header.size)
      (hlive : live = captureBase env first v₀ + header.size) :
      (captureOutput env ptr first v₀).Writes (text ++ data) c
        (Core.setValue { c with allocLive := live } ptr (.jsonValue
          { v with kind := .buffer, json := some { header, data := text ++ data } }), .ok) := by
    refine .inl ⟨rfl, ⟨{ v with kind := .buffer, json := some { header, data := text ++ data } }, ?_,
      hmode, hlimits, .inr ⟨header, rfl, rfl, hlive, ?_, hlength⟩⟩, rfl, rfl, ?_⟩
    · exact value?_setValue (c := { c with allocLive := live }) hv
    · rw [hroom]
      exact hheader
    · by_cases hfull : room = sizeMax
      · exact .inl (hroom.trans hfull)
      · refine .inr ?_
        rw [captureRoom, hroom]
        exact hlength.trans (hheader.fits hfull)
  have hrefuse (hfull : room ≠ sizeMax ∧ room < text.length + data.length + 1) :
      ¬ (captureOutput env ptr first v₀).takes (text ++ data).length := by
    rintro (htakes | htakes)
    · exact hfull.1 (hroom.symm.trans htakes)
    · rw [captureRoom, hroom, List.length_append] at htakes
      omega
  rw [captureAppend]
  dsimp only
  rw [htext, hsize, hcapacity, havailable]
  split_ifs with hsmall hfull hgrow
  · exact .inr ⟨rfl, rfl, hrefuse hfull⟩
  · have hrequired : room ≠ sizeMax → text.length + data.length + 1 ≤ room := by
      intro hne
      by_contra hless
      exact hfull ⟨hne, by omega⟩
    obtain ⟨henough, hwithin⟩ := captureCapacity_spec capacity hrequired
    obtain ⟨header, hrealloc, hheader, htag, hcharge⟩ := @ownedReallocParse_grows _ env c
      (v.json.map Owned.header) (captureBase env first v₀)
      (captureCapacity room (text.length + data.length + 1) capacity) (by omega)
      (by rw [hcapacity]; exact hlive) (by rw [hcapacity]; exact hgrow)
    rw [hrealloc]
    refine hstore ⟨htag, hcharge.trans hheader.symm, ?_⟩ ?_ (by rw [hheader])
    · rw [hheader]
      exact hwithin
    · rw [hheader, List.length_append]
      exact henough
  · exfalso
    have hrequired : room ≠ sizeMax → text.length + data.length + 1 ≤ room := by
      intro hne
      by_contra hless
      exact hfull ⟨hne, by omega⟩
    apply hgrow
    rw [hlive]
    apply allocCanGrow_available hbudget
    rw [hroom]
    exact (captureCapacity_spec capacity hrequired).2
  · cases hjson : v.json with
    | none =>
        rw [hjson] at hsize
        simp only [Option.map_none, Option.getD_none] at hsize
        omega
    | some block =>
        rw [hjson] at hsize hheader
        have hblock := hheader block.header rfl
        have hblockSize : block.header.size = capacity := hsize
        apply hstore hblock
        · rw [hblockSize, List.length_append]
          omega
        · rw [hblockSize]
          exact hlive

/-- A core before a value: the member holds a handle that is set up for this mode. -/
structure Core.Awaits (ptr : SlotPtr) (sink : Bool) (v : JsonValue) (c : Core σ) : Prop where
  value : c.value? ptr = some (.jsonValue v)
  mode : v.parseMode = textMode sink
  idle : c.json.active = false ∧ c.failed = false ∧ c.json.path = none

theorem Core.Awaits.prepares {sink : Bool} {v : JsonValue} (h : c.Awaits ptr sink v) :
    jsonValuePrepareParse env c ptr =
      ((jsonValueClearRuntimeParse env c v).1.setValue ptr (.jsonValue v.clearRuntime), .ok) := by
  have hnone : v.parseMode ≠ .none := by
    rw [h.mode, textMode]
    cases sink <;> exact JsonParseMode.noConfusion
  rw [jsonValuePrepareParse, h.value]
  dsimp only
  rw [if_neg hnone]
  rfl

theorem captureOutput_lawful (hbudget : env.options.maxAllocBytes < sizeMax) {v : JsonValue}
    (h : c.Awaits ptr false v) : (captureOutput env ptr c v).Lawful env ptr where
  member := by
    rintro text c' ⟨v', hv', hmode, hlimits, -⟩
    exact ⟨v', hv', hmode, hlimits⟩
  same := by
    rintro text c' c'' ⟨v', hv', hmode, hlimits, hblock⟩ hdst - hlive
    refine ⟨v', ?_, hmode, hlimits, ?_⟩
    · rw [Core.value?, hdst]
      exact hv'
    · rw [hlive]
      exact hblock
  first := ⟨v, h.value, h.mode⟩
  idle := h.idle
  starts := by
    have hprepares := @Core.Awaits.prepares _ env _ _ _ _ h
    change TextOutput.holds _ [] (jsonValuePrepareParse env c ptr).1
    rw [hprepares]
    refine ⟨v.clearRuntime, ?_, h.mode, rfl, .inl ⟨rfl, rfl, rfl⟩⟩
    exact value?_setValue (c := (jsonValueClearRuntimeParse env c v).1) h.value
  takes_less {_ _} hle htakes := htakes.imp_right fun hroom => by omega
  append data hholds hv := captureAppend_writes hbudget hholds hv data

/-! ## The sink -/

/-- A sink callback: what has been gathered from the calls, and whether it takes more. A sink that
refuses bytes leaves an error. -/
structure SinkCallback (env : Env σ) (ptr : SlotPtr) where
  gathered : σ → Bytes
  takes : ℕ → Prop
  takes_less : ∀ {m n}, m ≤ n → takes n → takes m
  accepts : ∀ w data error, takes (gathered w ++ data).length →
    (env.call w (.sink ptr data) error).2.2 = .ok ∧
      gathered (env.call w (.sink ptr data) error).1 = gathered w ++ data
  refuses : ∀ w data error, ¬ takes (gathered w ++ data).length →
    (env.call w (.sink ptr data) error).2.2.soft = false ∧
      (env.call w (.sink ptr data) error).2.1.code.soft = false

/-- The sink of the JSON value `v`; what it gathered before is no part of the value. -/
def SinkCallback.output (S : SinkCallback env ptr) (c : Core σ) (v : JsonValue) : TextOutput σ where
  sink := true
  limits := v.limits
  first := c
  holds text c' := (∃ v', c'.value? ptr = some (.jsonValue v') ∧ v'.parseMode = .sink ∧
    v'.limits = v.limits) ∧ S.gathered c'.world = S.gathered c.world ++ text
  takes n := S.takes ((S.gathered c.world).length + n)

theorem SinkCallback.output_lawful (S : SinkCallback env ptr) {v : JsonValue}
    (h : c.Awaits ptr true v) : (S.output c v).Lawful env ptr where
  member := by
    rintro text c' ⟨hv', -⟩
    exact hv'
  same := by
    rintro text c' c'' ⟨⟨v', hv', hmode, hlimits⟩, hgathered⟩ hdst hworld -
    refine ⟨⟨v', ?_, hmode, hlimits⟩, ?_⟩
    · rw [Core.value?, hdst]
      exact hv'
    · rw [hworld]
      exact hgathered
  first := ⟨v, h.value, h.mode⟩
  idle := h.idle
  starts := by
    have hprepares := @Core.Awaits.prepares _ env _ _ _ _ h
    change TextOutput.holds _ [] (jsonValuePrepareParse env c ptr).1
    rw [hprepares]
    refine ⟨⟨v.clearRuntime, ?_, h.mode, rfl⟩, (List.append_nil _).symm⟩
    exact value?_setValue (c := (jsonValueClearRuntimeParse env c v).1) h.value
  takes_less hle htakes := S.takes_less (Nat.add_le_add_left hle _) htakes
  append {text c' v'} data hholds hv := by
    obtain ⟨hmember, hgathered⟩ := hholds
    have happend : S.gathered c'.world ++ data = S.gathered c.world ++ (text ++ data) := by
      rw [hgathered, List.append_assoc]
    have hlength : (S.gathered c'.world ++ data).length =
        (S.gathered c.world).length + (text ++ data).length := by
      rw [happend, List.length_append]
    by_cases htakes : S.takes (S.gathered c'.world ++ data).length
    · obtain ⟨hok, hmore⟩ := S.accepts _ data c'.error htakes
      refine .inl ⟨hok, ⟨hmember, hmore.trans happend⟩, rfl, rfl, ?_⟩
      rw [hlength] at htakes
      exact htakes
    · obtain ⟨hhard, hcode⟩ := S.refuses _ data c'.error htakes
      refine .inr ⟨hhard, hcode, ?_⟩
      rw [hlength] at htakes
      exact htakes

end

end Lonejson
