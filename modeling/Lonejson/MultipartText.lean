import Lonejson.MultipartChunks

/-!
# Bodies between boundary lines

The text of a list of parts, and what the scanner makes of a body. It looks for a boundary
line at the start of each line, and again at each place where its buffer has run empty. A
body goes through untouched exactly when it is made of pieces at which the scanner fails.
-/

namespace Lonejson

/-- `"\r\n"`. -/
abbrev crlf : Bytes := [CR, LF]

/-- A byte that ends no line. -/
def isLineByte (ch : Byte) : Bool := ch != CR && ch != LF

@[simp] theorem isLineByte_iff {ch : Byte} : isLineByte ch = true ↔ ch ≠ CR ∧ ch ≠ LF := by
  simp [isLineByte]

variable {cfg : MultipartConfig}

/-! ## The two lines -/

theorem boundaryLine_prefix : cfg.boundaryLine <+: cfg.closingBoundaryLine :=
  List.prefix_append _ _

theorem boundaryLine_length : 3 ≤ cfg.boundaryLine.length := by
  have hpos := List.length_pos_of_ne_nil cfg.boundary_ne
  simp only [MultipartConfig.boundaryLine, List.length_append, List.length_cons, List.length_nil]
  omega

theorem closingBoundaryLine_length :
    cfg.closingBoundaryLine.length = cfg.boundaryLine.length + 2 := by
  simp [MultipartConfig.closingBoundaryLine]

theorem closingBoundaryLine_ne : cfg.closingBoundaryLine ≠ cfg.boundaryLine := fun h => by
  have hlength := congrArg List.length h
  rw [closingBoundaryLine_length] at hlength
  omega

/-- The boundary goes into one line. -/
def MultipartConfig.OneLine (cfg : MultipartConfig) : Prop := ∀ ch ∈ cfg.boundary, isLineByte ch = true

theorem MultipartConfig.OneLine.closing (h : cfg.OneLine) :
    ∀ ch ∈ cfg.closingBoundaryLine, isLineByte ch = true := by
  intro ch hch
  simp only [closingBoundaryLine, boundaryLine, List.mem_append, List.mem_cons, List.not_mem_nil,
    or_false, or_self] at hch
  rcases hch with (rfl | hch) | rfl
  · decide
  · exact h ch hch
  · decide

/-- One of the two lines. -/
def MultipartConfig.IsLine (cfg : MultipartConfig) (line : Bytes) : Prop :=
  line = cfg.boundaryLine ∨ line = cfg.closingBoundaryLine

theorem MultipartConfig.IsLine.prefix_closing {line : Bytes} (h : cfg.IsLine line) :
    line <+: cfg.closingBoundaryLine := by
  rcases h with rfl | rfl
  · exact boundaryLine_prefix
  · exact List.prefix_rfl

theorem MultipartConfig.IsLine.ne_nil {line : Bytes} (h : cfg.IsLine line) : line ≠ [] := by
  have hlength : 3 ≤ cfg.boundaryLine.length := boundaryLine_length
  rcases h with rfl | rfl <;> rintro hnil
  · simp [hnil] at hlength
  · simp [MultipartConfig.closingBoundaryLine] at hnil

/-! ## Looking for a line -/

theorem boundaryLineComplete_eq (text line : Bytes) : boundaryLineComplete text line =
    if line ++ [LF] <+: text then some (line.length + 1)
    else if line ++ [CR, LF] <+: text then some (line.length + 2) else none := by
  rw [boundaryLineComplete]
  by_cases h : line <+: text
  · obtain ⟨more, rfl⟩ := h
    have hpre : line.isPrefixOf (line ++ more) = true := by simp
    rw [if_pos hpre, List.drop_left]
    simp only [List.prefix_append_right_inj]
    cases more with
    | nil => simp
    | cons c more =>
        simp only [List.cons_prefix_cons, List.nil_prefix, and_true]
        by_cases hlf : c = LF
        · rw [if_pos hlf, if_pos hlf.symm]
        · rw [if_neg hlf, if_neg (Ne.symm hlf)]
          by_cases hcr : c = CR
          · cases more with
            | nil => simp
            | cons c' more => simp [hcr, eq_comm (a := c')]
          · rw [if_neg hcr, if_neg fun h => hcr h.1.symm]
  · rw [if_neg (by simpa using h), if_neg fun hlf => h ((List.prefix_append _ _).trans hlf),
      if_neg fun hcr => h ((List.prefix_append _ _).trans hcr)]

theorem boundaryLinePrefix_iff {text line : Bytes} (hne : text ≠ []) :
    boundaryLinePrefix text line = true ↔
      text <+: line ∨ line ++ [CR] <+: text ∨ line ++ [LF] <+: text := by
  rw [boundaryLinePrefix, if_neg (by simpa using hne)]
  split_ifs with hlen hpre
  · obtain ⟨more, rfl⟩ := List.isPrefixOf_iff_prefix.mp hpre
    rw [List.drop_left, List.prefix_append_right_inj, List.prefix_append_right_inj]
    cases more with
    | nil => simp
    | cons c more =>
        have hlong : ¬ line ++ c :: more <+: line := fun h => by
          have := h.length_le
          simp at this
        simp only [hlong, false_or, List.cons_prefix_cons, List.nil_prefix, and_true,
          Bool.or_eq_true, beq_iff_eq]
        exact or_congr eq_comm eq_comm
  · rw [List.isPrefixOf_iff_prefix] at hpre
    simp only [false_iff, not_or]
    refine ⟨fun h => hpre ?_, fun h => hpre ((List.prefix_append _ _).trans h),
      fun h => hpre ((List.prefix_append _ _).trans h)⟩
    rw [h.eq_of_length_le hlen]
  · rw [List.isPrefixOf_iff_prefix]
    refine ⟨.inl, ?_⟩
    have hshort {ch : Byte} (h : line ++ [ch] <+: text) : False := by
      have := h.length_le
      simp only [List.length_append, List.length_cons, List.length_nil] at this
      omega
    rintro (h | h | h)
    · exact h
    · exact (hshort h).elim
    · exact (hshort h).elim

/-- No line starts here, and none may. -/
def Lineless (cfg : MultipartConfig) (text : Bytes) : Prop :=
  ∀ line, cfg.IsLine line → boundaryLineComplete text line = none ∧
    boundaryLinePrefix text line = false

theorem lineless_iff {text : Bytes} (hne : text ≠ []) :
    Lineless cfg text ↔ ¬ text <+: cfg.closingBoundaryLine ∧
      ∀ line, cfg.IsLine line → ∀ ch, line ++ [ch] <+: text → isLineByte ch = true := by
  constructor
  · intro h
    constructor
    · intro hpre
      have := (h _ (.inr rfl)).2
      rw [← Bool.not_eq_true, boundaryLinePrefix_iff hne] at this
      exact this (.inl hpre)
    · intro line hline ch hch
      have := (h line hline).2
      rw [← Bool.not_eq_true, boundaryLinePrefix_iff hne, not_or, not_or] at this
      rw [isLineByte_iff]
      constructor
      · rintro rfl
        exact this.2.1 hch
      · rintro rfl
        exact this.2.2 hch
  · rintro ⟨hpre, hnext⟩ line hline
    have hno {ch : Byte} (hch : isLineByte ch = false) : ¬ line ++ [ch] <+: text := fun h => by
      simp [hnext line hline ch h] at hch
    have hlf : ¬ line ++ [LF] <+: text := hno (by decide)
    have hcr : ¬ line ++ [CR] <+: text := hno (by decide)
    constructor
    · rw [boundaryLineComplete_eq, if_neg hlf, if_neg fun h => hcr ?_]
      refine List.IsPrefix.trans ?_ h
      rw [List.prefix_append_right_inj]
      simp
    · rw [← Bool.not_eq_true, boundaryLinePrefix_iff hne]
      rintro (h | h | h)
      · exact hpre (h.trans hline.prefix_closing)
      · exact hcr h
      · exact hlf h

/-- A line starts with a hyphen. -/
theorem lineless_of_head {ch : Byte} (hch : ch ≠ 0x2d) (rest : Bytes) : Lineless cfg (ch :: rest) := by
  have hhead {line : Bytes} (hline : cfg.IsLine line) : ∃ more, line = 0x2d :: more := by
    rcases hline with rfl | rfl <;>
      simp [MultipartConfig.boundaryLine, MultipartConfig.closingBoundaryLine]
  rw [lineless_iff (by simp)]
  constructor
  · obtain ⟨more, hmore⟩ := hhead (.inr rfl)
    rw [hmore]
    intro h
    exact hch (List.cons_prefix_cons.mp h).1
  · intro line hline c h
    obtain ⟨more, rfl⟩ := hhead hline
    exact absurd (List.cons_prefix_cons.mp h).1.symm hch

theorem scanBody_lineless {before : Bytes} {ch : Byte} {rest : Bytes} (h : Lineless cfg (ch :: rest)) :
    scanBody cfg before (ch :: rest) = scanBody cfg (before ++ [ch]) rest := by
  obtain ⟨hclosing, hclosing'⟩ := h _ (.inr rfl)
  obtain ⟨hline, hline'⟩ := h _ (.inl rfl)
  rw [scanBody, hclosing, hline, hclosing', hline']
  simp

/-- Inside a line nothing is found. -/
theorem scanBody_inside {before rest : Bytes} (hne : before ≠ [])
    (hlast : before.getLast? ≠ some LF) (hrest : LF ∉ rest.dropLast) :
    scanBody cfg before rest = .hold (keepFromTail (before ++ rest)) := by
  induction rest generalizing before with
  | nil => rw [scanBody, List.append_nil]
  | cons ch rest ih =>
      rw [scanBody, if_neg (not_or.mpr ⟨hne, hlast⟩)]
      cases rest with
      | nil => rw [scanBody]
      | cons c rest =>
          have hch : ch ≠ LF := fun h => hrest (by simp [h])
          rw [ih (by simp) (by simpa using hch) fun h => hrest (by simp [h]), List.append_assoc]
          rfl

/-- What may be held back in front of the start of a line. -/
def lineEnds : List Bytes := [[], [LF], crlf]

theorem scanBody_lineEnd {nl : Bytes} (hnl : nl ∈ lineEnds) (text : Bytes) :
    scanBody cfg [] (nl ++ text) = scanBody cfg nl text := by
  simp only [lineEnds, List.mem_cons, List.not_mem_nil, or_false] at hnl
  rcases hnl with rfl | rfl | rfl
  · rfl
  · exact scanBody_lineless (lineless_of_head (by decide) _)
  · refine (scanBody_lineless (lineless_of_head (by decide) _)).trans ?_
    exact scanBody_lineless (lineless_of_head (by decide) _)

theorem emitLen_lineEnd {nl : Bytes} (hnl : nl ∈ lineEnds) : emitLenBeforeBoundary nl = 0 := by
  simp only [lineEnds, List.mem_cons, List.not_mem_nil, or_false] at hnl
  rcases hnl with rfl | rfl | rfl <;> rfl

theorem lineEnd_start {nl : Bytes} (hnl : nl ∈ lineEnds) : nl = [] ∨ nl.getLast? = some LF := by
  simp only [lineEnds, List.mem_cons, List.not_mem_nil, or_false] at hnl
  rcases hnl with rfl | rfl | rfl <;> simp

/-- What may become a line is held back. -/
theorem scanBody_candidate {nl p : Bytes} (hnl : nl ∈ lineEnds) (hne : p ≠ [])
    (hcomplete : ∀ line, cfg.IsLine line → boundaryLineComplete p line = none)
    (hbegun : ∃ line, cfg.IsLine line ∧ boundaryLinePrefix p line = true) :
    scanBody cfg [] (nl ++ p) = .hold 0 := by
  rw [scanBody_lineEnd hnl]
  cases p with
  | nil => exact absurd rfl hne
  | cons ch p =>
      have hsome : (boundaryLinePrefix (ch :: p) cfg.closingBoundaryLine ||
          boundaryLinePrefix (ch :: p) cfg.boundaryLine) = true := by
        obtain ⟨line, rfl | rfl, h⟩ := hbegun <;> simp [h]
      rw [scanBody, if_pos (lineEnd_start hnl), hcomplete _ (.inr rfl), hcomplete _ (.inl rfl)]
      dsimp only
      rw [if_pos hsome, emitLen_lineEnd hnl]

/-- A line with its end is found. -/
theorem scanBody_complete {nl text line : Bytes} (hnl : nl ∈ lineEnds) (hline : cfg.IsLine line)
    {n : ℕ} (hn : boundaryLineComplete text line = some n)
    (hclosing : line = cfg.boundaryLine → boundaryLineComplete text cfg.closingBoundaryLine = none) :
    scanBody cfg [] (nl ++ text) =
      .boundary (line == cfg.closingBoundaryLine) 0 (nl.length + n) := by
  rw [scanBody_lineEnd hnl]
  cases text with
  | nil =>
      rw [boundaryLineComplete_eq] at hn
      simp at hn
  | cons ch rest =>
      rw [scanBody, if_pos (lineEnd_start hnl), emitLen_lineEnd hnl]
      rcases hline with rfl | rfl
      · rw [hclosing rfl, hn]
        simp [closingBoundaryLine_ne.symm]
      · rw [hn]
        simp

/-- Something that is no line goes, up to what may be the end of a line. -/
theorem scanBody_miss (hone : cfg.OneLine) {nl p : Bytes} {ch : Byte} (hnl : nl ∈ lineEnds)
    (hp : p <+: cfg.closingBoundaryLine) (hless : Lineless cfg (p ++ [ch])) :
    scanBody cfg [] (nl ++ (p ++ [ch])) = .hold (keepFromTail (nl ++ (p ++ [ch]))) := by
  have hlf (c : Byte) (hc : c ∈ p) : c ≠ LF :=
    (isLineByte_iff.mp (hone.closing c (hp.subset hc))).2
  rw [scanBody_lineEnd hnl]
  cases p with
  | nil => exact (scanBody_lineless hless).trans (by rw [scanBody]; rfl)
  | cons c p =>
      refine (scanBody_lineless hless).trans ?_
      have hlast : (nl ++ [c]).getLast? ≠ some LF := by simpa using hlf c (by simp)
      have hrest : LF ∉ (p ++ [ch]).dropLast := by
        rw [List.dropLast_concat]
        exact fun h => hlf LF (by simp [h]) rfl
      exact (scanBody_inside (by simp) hlast hrest).trans (by rw [List.append_assoc]; rfl)

theorem scanBody_cr (ch : Byte) : scanBody cfg [] [CR, ch] = .hold (keepFromTail [CR, ch]) := by
  refine (scanBody_lineless (lineless_of_head (by decide) _)).trans ?_
  rw [List.nil_append, scanBody, if_neg (by decide), scanBody]
  rfl

theorem keepFromTail_concat (w : Bytes) (ch : Byte) : keepFromTail (w ++ [ch]) =
    if ch = LF then if w.getLast? = some CR then w.length - 1 else w.length
    else if ch = CR then w.length else w.length + 1 := by
  simp [keepFromTail]

/-! ## One byte of a body -/

/-- Room for the longer line and what is held back with it. -/
structure MultipartConfig.Roomy (cfg : MultipartConfig) : Prop where
  body : cfg.closingBoundaryLine.length + 4 ≤ cfg.options.maxPartBufferedBytes
  body_max : cfg.options.maxPartBufferedBytes < sizeMax

/-- In the body of a part, with what has been delivered of it and what is held back. -/
def inBody (part : MultipartPart) (log : List PartTick) (delivered held : Bytes) :
    MultipartRun (List PartTick) where
  mp := { phase := .bodyScan, part, inPart := true, body := held }
  user := log ++ delivered.map .byte

/-- Behind a boundary line. -/
def behindLine (closing : Bool) (log : List PartTick) : MultipartRun (List PartTick) where
  mp := if closing then { phase := .done, closed := true } else { phase := .headers }
  user := log

section

variable {part : MultipartPart} {log : List PartTick} {delivered held : Bytes} {ch : Byte}

theorem inBody_feed (hroom : cfg.Roomy) (hlen : held.length < cfg.closingBoundaryLine.length + 4) :
    multipartByte cfg (inBody part log delivered held) ch =
      multipartProcessBodyBuffer cfg ticker (inBody part log delivered (held ++ [ch])) := by
  have happend : byteAppendChar held ch cfg.options.maxPartBufferedBytes = .ok (held ++ [ch]) :=
    byteAppendChar_of_room (hlen.trans_le hroom.body) hroom.body_max
  have hphase : (inBody part log delivered held).mp.phase = .bodyScan := rfl
  rw [multipartByte, if_neg (by simp [hphase]), multipartFeedChar, if_pos hphase,
    multipartFeedBodyScanChar, inBody, happend]
  rfl

theorem inBody_hold (hroom : cfg.Roomy) (hlen : held.length < cfg.closingBoundaryLine.length + 4)
    {k : ℕ} (hscan : scanBody cfg [] (held ++ [ch]) = .hold k) :
    multipartByte cfg (inBody part log delivered held) ch =
      (inBody part log (delivered ++ (held ++ [ch]).take k) ((held ++ [ch]).drop k), .ok) := by
  have hbody : (inBody part log delivered (held ++ [ch])).mp.body = held ++ [ch] := rfl
  rw [inBody_feed hroom hlen, multipartProcessBodyBuffer, hbody, hscan]
  cases k with
  | zero => simp [inBody]
  | succ k => simp [inBody, MultipartRun.tell, MultipartRun.setMp]

theorem inBody_wait (hroom : cfg.Roomy) (hlen : held.length < cfg.closingBoundaryLine.length + 4)
    (hscan : scanBody cfg [] (held ++ [ch]) = .hold 0) :
    multipartByte cfg (inBody part log delivered held) ch =
      (inBody part log delivered (held ++ [ch]), .ok) := by
  rw [inBody_hold hroom hlen hscan, List.take_zero, List.drop_zero, List.append_nil]

theorem inBody_boundary (hroom : cfg.Roomy)
    (hlen : held.length < cfg.closingBoundaryLine.length + 4) {closing : Bool} {n : ℕ}
    (hscan : scanBody cfg [] (held ++ [ch]) = .boundary closing 0 n) :
    multipartByte cfg (inBody part log delivered held) ch =
      (behindLine closing (log ++ delivered.map .byte ++ [.endPart part]), .ok) := by
  have hbody : (inBody part log delivered (held ++ [ch])).mp.body = held ++ [ch] := rfl
  rw [inBody_feed hroom hlen, multipartProcessBodyBuffer, hbody, hscan]
  cases closing <;>
    simp [inBody, behindLine, MultipartRun.tell, MultipartRun.setMp, Multipart.resetPart]

/-- A beginning of a line is held back byte by byte. -/
theorem candidate_run (hroom : cfg.Roomy) (hone : cfg.OneLine) {nl q p : Bytes}
    (hnl : nl ∈ lineEnds) (hp : q ++ p <+: cfg.closingBoundaryLine) :
    multipartBytes cfg p (inBody part log delivered (nl ++ q)) =
      (inBody part log delivered (nl ++ (q ++ p)), .ok) := by
  induction p generalizing q with
  | nil => simp [multipartBytes]
  | cons ch p ih =>
      have hmore : (q ++ [ch]) ++ p <+: cfg.closingBoundaryLine := by simpa using hp
      have hq : q ++ [ch] <+: cfg.closingBoundaryLine := (List.prefix_append _ _).trans hmore
      have hscan : scanBody cfg [] (nl ++ q ++ [ch]) = .hold 0 := by
        rw [List.append_assoc]
        refine scanBody_candidate hnl (by simp) (fun line hline => ?_) ⟨_, .inr rfl, ?_⟩
        · -- a line end is no byte of a line
          have hno {c : Byte} (hc : isLineByte c = false) (more : Bytes) :
              ¬ line ++ c :: more <+: q ++ [ch] := fun h => by
            have := hone.closing c ((h.trans hq).subset (by simp))
            simp [hc] at this
          rw [boundaryLineComplete_eq, if_neg (hno (by decide) []), if_neg (hno (by decide) [LF])]
        · exact (boundaryLinePrefix_iff (by simp)).mpr (.inl hq)
      have hlen : (nl ++ q).length < cfg.closingBoundaryLine.length + 4 := by
        have hq' := hq.length_le
        simp only [lineEnds, List.mem_cons, List.not_mem_nil, or_false] at hnl
        simp only [List.length_append, List.length_cons, List.length_nil] at hq' ⊢
        rcases hnl with rfl | rfl | rfl <;> simp <;> omega
      rw [multipartBytes, inBody_hold hroom hlen hscan, andThenOk_ok]
      simp only [List.take_zero, List.drop_zero, List.append_nil, List.append_assoc]
      rw [ih hmore]
      simp

theorem prefix_run (hroom : cfg.Roomy) (hone : cfg.OneLine) {p : Bytes} (hheld : held ∈ lineEnds)
    (hp : p <+: cfg.closingBoundaryLine) :
    multipartBytes cfg p (inBody part log delivered held) =
      (inBody part log delivered (held ++ p), .ok) := by
  have hrun : multipartBytes cfg p (inBody part log delivered (held ++ [])) =
      (inBody part log delivered (held ++ ([] ++ p)), .ok) :=
    candidate_run hroom hone hheld (by simpa using hp)
  simpa using hrun

/-- The last of several CRs is held back. -/
theorem cr_run (hroom : cfg.Roomy) (n : ℕ) :
    multipartBytes cfg (List.replicate n CR) (inBody part log delivered [CR]) =
      (inBody part log (delivered ++ List.replicate n CR) [CR], .ok) := by
  induction n generalizing delivered with
  | zero => simp [multipartBytes]
  | succ n ih =>
      have hscan : scanBody cfg [] ([CR] ++ [CR]) = .hold 1 := scanBody_cr CR
      rw [List.replicate_succ, multipartBytes, inBody_hold hroom (by simp) hscan, andThenOk_ok]
      simp only [List.cons_append, List.nil_append, List.take_succ_cons, List.take_zero,
        List.drop_succ_cons, List.drop_zero]
      rw [ih, List.append_assoc]
      rfl

end

/-! ## Pieces of a body -/

/-- A piece of a body at which the scanner fails: a beginning of the longer line, perhaps empty,
any number of CRs, and a byte that does not go on with it. -/
def Missed (cfg : MultipartConfig) (piece : Bytes) : Prop :=
  ∃ p n ch, piece = p ++ (List.replicate n CR ++ [ch]) ∧ p <+: cfg.closingBoundaryLine ∧
    ch ≠ CR ∧ (n = 0 → ¬ p ++ [ch] <+: cfg.closingBoundaryLine) ∧
    (cfg.IsLine p → n = 0 ∧ ch ≠ LF)

/-- The body, with the line end behind it, is made of such pieces. -/
def Clean (cfg : MultipartConfig) (text : Bytes) : Prop :=
  ∃ pieces : List Bytes, text = pieces.flatten ∧ ∀ piece ∈ pieces, Missed cfg piece

/-- What is held back between two pieces: the end of a line, and nothing else. -/
inductive Held : Bytes → Bytes → Prop where
  | none {delivered : Bytes} (hlf : delivered.getLast? ≠ some LF)
      (hcr : delivered.getLast? ≠ some CR) : Held delivered []
  | lf {delivered : Bytes} (hcr : delivered.getLast? ≠ some CR) : Held delivered [LF]
  | crlf {delivered : Bytes} : Held delivered crlf

theorem Held.mem {delivered held : Bytes} (h : Held delivered held) : held ∈ lineEnds := by
  cases h <;> simp [lineEnds]

/-- A CR is not the last byte in front of a piece. -/
theorem Held.last {delivered held : Bytes} (h : Held delivered held) :
    (delivered ++ held).getLast? ≠ some CR := by
  cases h with
  | none _ hcr => simpa using hcr
  | lf _ => simp
  | crlf => simp

section

variable {part : MultipartPart} {log : List PartTick} {delivered held : Bytes}

theorem lineless_miss (hone : cfg.OneLine) {p : Bytes} {ch : Byte}
    (hp : p <+: cfg.closingBoundaryLine) (hch : ¬ p ++ [ch] <+: cfg.closingBoundaryLine)
    (hline : cfg.IsLine p → isLineByte ch = true) : Lineless cfg (p ++ [ch]) := by
  refine (lineless_iff (by simp)).mpr ⟨hch, fun line hl c hc => ?_⟩
  rcases List.prefix_concat_iff.mp hc with heq | hpre
  · obtain ⟨rfl, hcc⟩ := List.append_inj' heq rfl
    obtain rfl : c = ch := by simpa using hcc
    exact hline hl
  · exact hone.closing c ((hpre.trans hp).subset (by simp))

/-- A piece goes through, and only the end of a line is held back. -/
theorem missed_run (hroom : cfg.Roomy) (hone : cfg.OneLine) {piece : Bytes}
    (hpiece : Missed cfg piece) (hheld : Held delivered held) :
    ∃ delivered' held', Held delivered' held' ∧ delivered' ++ held' = delivered ++ held ++ piece ∧
      ∀ part log, multipartBytes cfg piece (inBody part log delivered held) =
        (inBody part log delivered' held', .ok) := by
  obtain ⟨p, n, ch, rfl, hp, hcr, hnext, hline⟩ := hpiece
  have hnl := hheld.mem
  have hlen : (held ++ p).length < cfg.closingBoundaryLine.length + 4 := by
    have hp' := hp.length_le
    simp only [lineEnds, List.mem_cons, List.not_mem_nil, or_false] at hnl
    rcases hnl with rfl | rfl | rfl <;> simp <;> omega
  -- no CR stands in front of the byte that fails
  have hlast : (delivered ++ (held ++ p)).getLast? ≠ some CR := by
    rcases List.eq_nil_or_concat p with rfl | ⟨q, c, rfl⟩
    · simpa using hheld.last
    · have hc := isLineByte_iff.mp (hone.closing c (hp.subset (by simp)))
      simpa [← List.append_assoc] using hc.1
  have hlast' : (held ++ p).getLast? ≠ some CR := fun h => hlast (by simp [List.getLast?_append, h])
  -- one byte that ends the beginning of a line
  have hmiss (part : MultipartPart) (log : List PartTick) (c : Byte)
      (hless : Lineless cfg (p ++ [c])) :
      multipartByte cfg (inBody part log delivered (held ++ p)) c =
        (inBody part log (delivered ++ (held ++ p ++ [c]).take (keepFromTail (held ++ p ++ [c])))
          ((held ++ p ++ [c]).drop (keepFromTail (held ++ p ++ [c]))), .ok) := by
    refine inBody_hold hroom hlen ?_
    rw [List.append_assoc]
    exact scanBody_miss hone hnl hp hless
  cases n with
  | zero =>
      have hless := lineless_miss hone hp (hnext rfl) fun h => isLineByte_iff.mpr ⟨hcr, (hline h).2⟩
      by_cases hlf : ch = LF
      · refine ⟨delivered ++ (held ++ p), [LF], .lf hlast, by simp [hlf], fun part log => ?_⟩
        have hbyte := hmiss part log ch hless
        rw [keepFromTail_concat, if_neg hlast', if_pos hlf, List.take_left, List.drop_left] at hbyte
        rw [multipartBytes_append, prefix_run hroom hone hnl hp, andThenOk_ok]
        rw [List.replicate_zero, List.nil_append, multipartBytes_singleton, hbyte, hlf]
      · refine ⟨delivered ++ (held ++ p ++ [ch]), [], .none (by simp [hlf]) (by simp [hcr]),
          by simp, fun part log => ?_⟩
        have hwhole : (held ++ p).length + 1 = (held ++ p ++ [ch]).length := by
          simp [Nat.add_assoc]
        have hbyte := hmiss part log ch hless
        rw [keepFromTail_concat, if_neg hlf, if_neg hcr, hwhole, List.take_length,
          List.drop_length] at hbyte
        rw [multipartBytes_append, prefix_run hroom hone hnl hp, andThenOk_ok]
        rw [List.replicate_zero, List.nil_append, multipartBytes_singleton, hbyte]
  | succ n =>
      have hless : Lineless cfg (p ++ [CR]) := by
        refine lineless_miss hone hp (fun h => ?_) fun h => by simpa using (hline h).1
        have := hone.closing CR (h.subset (by simp))
        simp [isLineByte] at this
      have hrun (part : MultipartPart) (log : List PartTick) :
          multipartBytes cfg (p ++ (List.replicate (n + 1) CR ++ [ch]))
              (inBody part log delivered held) =
            multipartByte cfg
              (inBody part log (delivered ++ (held ++ p) ++ List.replicate n CR) [CR]) ch := by
        have hbyte := hmiss part log CR hless
        rw [keepFromTail_concat, if_neg cr_ne_lf, if_pos rfl, List.take_left,
          List.drop_left] at hbyte
        rw [multipartBytes_append, prefix_run hroom hone hnl hp, andThenOk_ok,
          List.replicate_succ, List.cons_append, multipartBytes, hbyte, andThenOk_ok,
          multipartBytes_append, cr_run hroom, andThenOk_ok, multipartBytes_singleton]
      have hshift (rest : Bytes) :
          List.replicate n CR ++ CR :: rest = List.replicate (n + 1) CR ++ rest := by
        rw [List.replicate_succ', List.append_assoc]
        rfl
      have hscan : scanBody cfg [] ([CR] ++ [ch]) = .hold (keepFromTail [CR, ch]) := scanBody_cr ch
      by_cases hlf : ch = LF
      · refine ⟨delivered ++ (held ++ p) ++ List.replicate n CR, crlf, .crlf, by simp [hshift, hlf],
          fun part log => ?_⟩
        rw [hrun, inBody_hold hroom (by simp) hscan]
        simp [keepFromTail, hlf]
      · refine ⟨delivered ++ (held ++ p) ++ List.replicate n CR ++ [CR, ch], [],
          .none (by simp [hlf]) (by simp [hcr]), by simp [hshift], fun part log => ?_⟩
        rw [hrun, inBody_hold hroom (by simp) hscan]
        simp [keepFromTail, hlf, hcr]

/-- So does a text that is made of pieces. -/
theorem clean_run (hroom : cfg.Roomy) (hone : cfg.OneLine) {pieces : List Bytes}
    (hpieces : ∀ piece ∈ pieces, Missed cfg piece) (hheld : Held delivered held) :
    ∃ delivered' held', Held delivered' held' ∧
      delivered' ++ held' = delivered ++ held ++ pieces.flatten ∧
      ∀ part log, multipartBytes cfg pieces.flatten (inBody part log delivered held) =
        (inBody part log delivered' held', .ok) := by
  induction pieces generalizing delivered held with
  | nil => exact ⟨delivered, held, hheld, by simp, fun _ _ => rfl⟩
  | cons piece pieces ih =>
      obtain ⟨delivered', held', hheld', htext, hrun⟩ :=
        missed_run hroom hone (hpieces piece (by simp)) hheld
      obtain ⟨delivered'', held'', hheld'', htext', hrun'⟩ :=
        ih (fun p hp => hpieces p (by simp [hp])) hheld'
      refine ⟨delivered'', held'', hheld'', ?_, ?_⟩
      · rw [htext', htext, List.flatten_cons, List.append_assoc]
      · intro part log
        rw [List.flatten_cons, multipartBytes_append, hrun, andThenOk_ok, hrun']

/-- What is held back at a line end is the line end. -/
theorem Held.crlf_eq {body : Bytes} (h : Held delivered held)
    (htext : delivered ++ held = body ++ Lonejson.crlf) :
    held = Lonejson.crlf ∧ delivered = body := by
  cases h with
  | none hlf _ =>
      rw [List.append_nil] at htext
      simp [htext] at hlf
  | lf hcr =>
      have hsplit : delivered ++ [LF] = (body ++ [CR]) ++ [LF] := by simpa using htext
      obtain ⟨rfl, -⟩ := List.append_inj' hsplit rfl
      simp at hcr
  | crlf => exact ⟨rfl, (List.append_inj' htext rfl).1⟩

end

/-! ## What looks like a boundary line -/

/-- One of the lines and the first byte of a line end. -/
def LookAlike (cfg : MultipartConfig) (text : Bytes) : Prop :=
  ∃ line ch, cfg.IsLine line ∧ isLineByte ch = false ∧ line ++ [ch] <+: text

theorem LookAlike.length {text : Bytes} (h : LookAlike cfg text) : 4 ≤ text.length := by
  obtain ⟨line, ch, hline, -, hpre⟩ := h
  have hlength : 3 ≤ cfg.boundaryLine.length := boundaryLine_length
  have hlong : cfg.boundaryLine.length ≤ line.length := by
    rcases hline with rfl | rfl
    · exact le_rfl
    · exact boundaryLine_prefix.length_le
  have htext := hpre.length_le
  rw [List.length_append, List.length_singleton] at htext
  omega

/-- The longest beginning that two texts share. -/
theorem exists_common_prefix (text line : Bytes) : ∃ p rest, text = p ++ rest ∧ p <+: line ∧
    ∀ ch ∈ rest.head?, ¬ p ++ [ch] <+: line := by
  induction text generalizing line with
  | nil => exact ⟨[], [], rfl, List.nil_prefix, by simp⟩
  | cons ch text ih =>
      cases line with
      | nil => exact ⟨[], ch :: text, rfl, List.nil_prefix, by simp⟩
      | cons c line =>
          by_cases hc : ch = c
          · subst hc
            obtain ⟨p, rest, rfl, hp, hrest⟩ := ih line
            refine ⟨ch :: p, rest, rfl, List.cons_prefix_cons.mpr ⟨rfl, hp⟩, fun b hb h => ?_⟩
            exact hrest b hb (List.cons_prefix_cons.mp h).2
          · refine ⟨[], ch :: text, rfl, List.nil_prefix, fun b hb h => ?_⟩
            obtain rfl : ch = b := by simpa using hb
            exact hc (List.cons_prefix_cons.mp h).1

/-- The CRs at the beginning of a text that does not end with one. -/
theorem exists_crs {text : Bytes} (hlast : text.getLast? = some LF) :
    ∃ n ch rest, text = List.replicate n CR ++ ch :: rest ∧ ch ≠ CR := by
  induction text with
  | nil => simp at hlast
  | cons ch text ih =>
      by_cases hch : ch = CR
      · subst hch
        cases text with
        | nil => simp at hlast
        | cons c text =>
            obtain ⟨n, b, rest, htext, hb⟩ := ih (by simpa using hlast)
            exact ⟨n + 1, b, rest, by rw [htext]; rfl, hb⟩
      · exact ⟨0, ch, text, rfl, hch⟩

theorem missed_or_lookAlike (hone : cfg.OneLine) {text : Bytes} (hlast : text.getLast? = some LF) :
    LookAlike cfg text ∨ ∃ piece rest, text = piece ++ rest ∧ Missed cfg piece := by
  obtain ⟨p, more, rfl, hp, hnext⟩ := exists_common_prefix text cfg.closingBoundaryLine
  have hmore : more.getLast? = some LF := by
    rcases List.eq_nil_or_concat more with rfl | ⟨init, c, rfl⟩
    · rw [List.append_nil] at hlast
      have := hone.closing LF (hp.subset (List.mem_of_getLast? hlast))
      simp [isLineByte] at this
    · simpa [← List.append_assoc] using hlast
  obtain ⟨n, ch, rest, rfl, hch⟩ := exists_crs hmore
  by_cases hline : cfg.IsLine p ∧ (n ≠ 0 ∨ ch = LF)
  · left
    obtain ⟨hline, hn | rfl⟩ := hline
    · obtain ⟨n, rfl⟩ := Nat.exists_eq_succ_of_ne_zero hn
      exact ⟨p, CR, hline, rfl, by simp [List.replicate_succ]⟩
    · cases n with
      | zero => exact ⟨p, LF, hline, rfl, by simp⟩
      | succ n => exact ⟨p, CR, hline, rfl, by simp [List.replicate_succ]⟩
  · right
    refine ⟨p ++ (List.replicate n CR ++ [ch]), rest, by simp, p, n, ch, rfl, hp, hch, ?_, ?_⟩
    · rintro rfl
      exact hnext ch (by simp)
    · intro h
      rw [not_and, not_or, not_not] at hline
      exact hline h

/-- A text is clean, or behind some pieces of it something looks like a boundary line. -/
theorem clean_or_lookAlike (hone : cfg.OneLine) (text : Bytes)
    (hlast : text = [] ∨ text.getLast? = some LF) :
    Clean cfg text ∨ ∃ (pieces : List Bytes) (rest : Bytes), text = pieces.flatten ++ rest ∧
      (∀ piece ∈ pieces, Missed cfg piece) ∧ LookAlike cfg rest := by
  induction hn : text.length using Nat.strong_induction_on generalizing text with
  | _ n ih =>
      rcases hlast with rfl | hlast
      · exact .inl ⟨[], rfl, by simp⟩
      rcases missed_or_lookAlike hone hlast with hlook | ⟨piece, rest, rfl, hpiece⟩
      · exact .inr ⟨[], text, rfl, by simp, hlook⟩
      have hpos : 0 < piece.length := by
        obtain ⟨p, k, ch, rfl, -⟩ := hpiece
        simp
      have hrest : rest = [] ∨ rest.getLast? = some LF := by
        rcases List.eq_nil_or_concat rest with rfl | ⟨init, c, rfl⟩
        · exact .inl rfl
        · exact .inr (by simpa [← List.append_assoc] using hlast)
      rw [List.length_append] at hn
      have hcons (pieces : List Bytes) (hpieces : ∀ p ∈ pieces, Missed cfg p) :
          ∀ p ∈ piece :: pieces, Missed cfg p := by
        intro p hp
        rcases List.mem_cons.mp hp with rfl | hp
        · exact hpiece
        · exact hpieces p hp
      rcases ih rest.length (by omega) rest hrest rfl with
        ⟨pieces, htext, hpieces⟩ | ⟨pieces, tail, htext, hpieces, hlook⟩
      · exact .inl ⟨piece :: pieces, by rw [htext, List.flatten_cons], hcons pieces hpieces⟩
      · exact .inr ⟨piece :: pieces, tail, by rw [htext, List.flatten_cons, List.append_assoc],
          hcons pieces hpieces, hlook⟩

/-- What stands behind one of the lines tells which of them it is. -/
theorem isLine_unique (hone : cfg.OneLine) {line line' : Bytes} (h : cfg.IsLine line)
    (h' : cfg.IsLine line') {ch ch' : Byte} (hch : isLineByte ch = false)
    (hch' : isLineByte ch' = false) {text text' : Bytes}
    (heq : line ++ ch :: text = line' ++ ch' :: text') : line = line' ∧ ch = ch' ∧ text = text' := by
  have hbytes {l : Bytes} (hl : cfg.IsLine l) : ∀ c ∈ l, isLineByte c = true :=
    fun c hc => hone.closing c (hl.prefix_closing.subset hc)
  have hwhile {l more : Bytes} {c : Byte} (hl : cfg.IsLine l) (hc : isLineByte c = false) :
      (l ++ c :: more).takeWhile isLineByte = l := by
    rw [List.takeWhile_append_of_pos (hbytes hl), List.takeWhile_cons_of_neg (by simp [hc])]
    simp
  have hline := congrArg (List.takeWhile isLineByte) heq
  rw [hwhile h hch, hwhile h' hch'] at hline
  subst hline
  simpa using heq

/-- A line is complete with a line end. -/
theorem complete_iff (hone : cfg.OneLine) {line line' : Bytes} (h : cfg.IsLine line)
    (h' : cfg.IsLine line') {ch : Byte} (hch : isLineByte ch = false) (tail : Bytes) {n : ℕ} :
    boundaryLineComplete (line ++ ch :: tail) line' = some n ↔ line' = line ∧
      (ch = LF ∧ n = line.length + 1 ∨ ch = CR ∧ tail.head? = some LF ∧ n = line.length + 2) := by
  rw [boundaryLineComplete_eq]
  by_cases hne : line' = line
  · subst hne
    simp only [List.prefix_append_right_inj, List.cons_prefix_cons, List.nil_prefix, and_true]
    rcases (by simpa [isLineByte, imp_iff_not_or] using hch : ch = CR ∨ ch = LF) with rfl | rfl
    · cases tail with
      | nil => simp
      | cons c tail =>
          by_cases hc : c = LF
          · simp [hc, eq_comm]
          · simp [hc, Ne.symm hc]
    · simp [eq_comm]
  · have hno {c : Byte} (hc : isLineByte c = false) (more : Bytes) :
        ¬ line' ++ c :: more <+: line ++ ch :: tail := by
      rintro ⟨rest, hrest⟩
      exact hne (isLine_unique hone h' h hc hch (by simpa using hrest)).1
    rw [if_neg (hno rfl []), if_neg (hno rfl [LF])]
    simp [hne]

section

variable {part : MultipartPart} {log : List PartTick} {delivered held : Bytes}

/-- A line and a CR that no LF follows stay held back. -/
theorem scanBody_stuck (hone : cfg.OneLine) {line : Bytes} {ch : Byte} (hheld : held ∈ lineEnds)
    (hline : cfg.IsLine line) (hch : ch ≠ LF) (more : Bytes) :
    scanBody cfg [] (held ++ (line ++ CR :: ch :: more)) = .hold 0 := by
  refine scanBody_candidate hheld (by simp) (fun line' hline' => ?_)
    ⟨line, hline, (boundaryLinePrefix_iff (by simp)).mpr (.inr (.inl ⟨ch :: more, by simp⟩))⟩
  refine Option.eq_none_iff_forall_not_mem.mpr fun n hn => ?_
  have := (complete_iff hone hline hline' rfl _).mp hn
  simp [hch] at this

/-- They do so whatever follows. -/
theorem stuck_run (hone : cfg.OneLine) {line more : Bytes} {ch : Byte} (hheld : held ∈ lineEnds)
    (hline : cfg.IsLine line) (hch : ch ≠ LF) (text : Bytes) :
    (multipartBytes cfg text
      (inBody part log delivered (held ++ (line ++ CR :: ch :: more)))).1.mp.phase = .bodyScan := by
  induction text generalizing more with
  | nil => rfl
  | cons c text ih =>
      set r := inBody part log delivered (held ++ (line ++ CR :: ch :: more)) with hr
      have hphase : r.mp.phase = .bodyScan := rfl
      have hbyte : multipartByte cfg r c = multipartFeedBodyScanChar cfg ticker r c := by
        rw [multipartByte, if_neg (by simp [hphase]), multipartFeedChar, if_pos hphase]
      rw [multipartBytes, hbyte, multipartFeedBodyScanChar]
      cases happend : byteAppendChar r.mp.body c cfg.options.maxPartBufferedBytes with
      | error message => rfl
      | ok body =>
          obtain rfl : body = held ++ (line ++ CR :: ch :: (more ++ [c])) := by
            simpa [hr, inBody] using byteAppend_eq_ok happend
          dsimp only
          rw [multipartProcessBodyBuffer, MultipartRun.setMp_mp, scanBody_stuck hone hheld hline hch]
          exact ih

/-- A line with its end is found behind the end of a line. -/
theorem scanBody_line (hone : cfg.OneLine) {line tail : Bytes} {b : Byte} (hheld : held ∈ lineEnds)
    (hline : cfg.IsLine line) (hb : isLineByte b = false) {n : ℕ}
    (hn : boundaryLineComplete (line ++ b :: tail) line = some n) :
    scanBody cfg [] (held ++ (line ++ b :: tail)) =
      .boundary (line == cfg.closingBoundaryLine) 0 (held.length + n) := by
  refine scanBody_complete hheld hline hn fun hshorter => ?_
  refine Option.eq_none_iff_forall_not_mem.mpr fun m hm => ?_
  have := ((complete_iff hone hline (.inr rfl) hb _).mp hm).1
  exact closingBoundaryLine_ne (this.trans hshorter)

theorem held_line_length {line : Bytes} (hheld : held ∈ lineEnds) (hline : cfg.IsLine line) :
    (held ++ line).length + 1 < cfg.closingBoundaryLine.length + 4 := by
  have hle := hline.prefix_closing.length_le
  simp only [lineEnds, List.mem_cons, List.not_mem_nil, or_false] at hheld
  rcases hheld with rfl | rfl | rfl <;> simp <;> omega

/-- The CR behind a line is held back with it. -/
theorem line_cr (hroom : cfg.Roomy) (hone : cfg.OneLine) {line : Bytes} (hheld : held ∈ lineEnds)
    (hline : cfg.IsLine line) :
    multipartByte cfg (inBody part log delivered (held ++ line)) CR =
      (inBody part log delivered (held ++ (line ++ [CR])), .ok) := by
  have hscan : scanBody cfg [] (held ++ line ++ [CR]) = .hold 0 := by
    rw [List.append_assoc]
    refine scanBody_candidate hheld (by simp) (fun line' hline' => ?_)
      ⟨line, hline, (boundaryLinePrefix_iff (by simp)).mpr (.inr (.inl List.prefix_rfl))⟩
    refine Option.eq_none_iff_forall_not_mem.mpr fun n hn => ?_
    have := (complete_iff hone hline hline' rfl _).mp hn
    simp at this
  have hlen := held_line_length hheld hline
  rw [inBody_wait hroom (by omega) hscan, List.append_assoc]

/-- The LF behind the CR ends the part. -/
theorem line_crlf (hroom : cfg.Roomy) (hone : cfg.OneLine) {line : Bytes} (hheld : held ∈ lineEnds)
    (hline : cfg.IsLine line) :
    multipartByte cfg (inBody part log delivered (held ++ (line ++ [CR]))) LF =
      (behindLine (line == cfg.closingBoundaryLine) (log ++ delivered.map .byte ++ [.endPart part]),
        .ok) := by
  have hend : scanBody cfg [] (held ++ (line ++ [CR]) ++ [LF]) =
      .boundary (line == cfg.closingBoundaryLine) 0 (held.length + (line.length + 2)) := by
    rw [List.append_assoc, List.append_assoc]
    exact scanBody_line hone hheld hline rfl
      ((complete_iff hone hline hline rfl _).mpr ⟨rfl, .inr ⟨rfl, rfl, rfl⟩⟩)
  have hlen := held_line_length hheld hline
  exact inBody_boundary hroom (by simpa [Nat.add_assoc] using hlen) hend

/-- A boundary line ends the part. -/
theorem inBody_line (hroom : cfg.Roomy) (hone : cfg.OneLine) {line : Bytes}
    (hheld : held ∈ lineEnds) (hline : cfg.IsLine line) :
    multipartBytes cfg (line ++ crlf) (inBody part log delivered held) =
      (behindLine (line == cfg.closingBoundaryLine) (log ++ delivered.map .byte ++ [.endPart part]),
        .ok) := by
  rw [multipartBytes_append, prefix_run hroom hone hheld hline.prefix_closing, andThenOk_ok, multipartBytes,
    line_cr hroom hone hheld hline, andThenOk_ok, multipartBytes, line_crlf hroom hone hheld hline]
  rfl

/-- Where something looks like a boundary line, the part ends or the body never does. -/
theorem lookAlike_run (hroom : cfg.Roomy) (hone : cfg.OneLine) (hheld : Held delivered held)
    {text : Bytes} (hlook : LookAlike cfg text) (part : MultipartPart) (log : List PartTick) :
    (∃ closing rest, multipartBytes cfg text (inBody part log delivered held) =
        multipartBytes cfg rest
          (behindLine closing (log ++ delivered.map .byte ++ [.endPart part]))) ∨
      (multipartBytes cfg text (inBody part log delivered held)).1.mp.phase = .bodyScan := by
  obtain ⟨line, ch, hline, hch, rest, rfl⟩ := hlook
  have hnl := hheld.mem
  have hlen := held_line_length hnl hline
  rw [List.append_assoc, multipartBytes_append, prefix_run hroom hone hnl hline.prefix_closing, andThenOk_ok,
    List.singleton_append, multipartBytes]
  rcases (by simpa [isLineByte, imp_iff_not_or] using hch : ch = CR ∨ ch = LF) with rfl | rfl
  · rw [line_cr hroom hone hnl hline, andThenOk_ok]
    cases rest with
    | nil => exact .inr rfl
    | cons c rest =>
        rw [multipartBytes]
        by_cases hc : c = LF
        · subst hc
          rw [line_crlf hroom hone hnl hline]
          exact .inl ⟨_, rest, rfl⟩
        · right
          have hscan : scanBody cfg [] (held ++ (line ++ [CR]) ++ [c]) = .hold 0 := by
            rw [List.append_assoc, List.append_assoc]
            exact scanBody_stuck hone hnl hline hc []
          rw [inBody_wait hroom (by simpa [Nat.add_assoc] using hlen) hscan, andThenOk_ok,
            List.append_assoc, List.append_assoc]
          exact stuck_run hone hnl hline hc rest
  · have hend : scanBody cfg [] (held ++ line ++ [LF]) =
        .boundary (line == cfg.closingBoundaryLine) 0 (held.length + (line.length + 1)) := by
      rw [List.append_assoc]
      exact scanBody_line hone hnl hline rfl
        ((complete_iff hone hline hline rfl _).mpr ⟨rfl, .inl ⟨rfl, rfl⟩⟩)
    rw [inBody_boundary hroom (by omega) hend]
    exact .inl ⟨_, rest, rfl⟩

end

end Lonejson
