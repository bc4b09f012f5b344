import Lonejson.MultipartText

/-!
# The text of a list of parts

Parts without a `Content-Length`, framed by boundary lines. The parser tells them as they are
exactly when the boundary goes into one line and every body is clean.
-/

namespace Lonejson

/-- The header lines of a part, read one after another. -/
def readHeaders (options : MultipartOptions) :
    MultipartPart → List Bytes → Except MultipartError MultipartPart
  | part, [] => .ok part
  | part, line :: lines =>
    (multipartProcessHeaderLine options part (cstr line)).bind (readHeaders options · lines)

/-- A header line: not empty, within its limit, and without a line end. -/
structure IsHeader (options : MultipartOptions) (line : Bytes) : Prop where
  ne_nil : line ≠ []
  length_le : line.length ≤ options.maxHeaderLineBytes
  bytes : ∀ ch ∈ line, isLineByte ch = true

/-- A part without a `Content-Length`, with what the parser makes of its headers. -/
structure PartText (options : MultipartOptions) where
  headers : List Bytes
  body : Bytes
  info : MultipartPart
  headers_line : ∀ line ∈ headers, IsHeader options line
  headers_read : readHeaders options {} headers = .ok info
  uncounted : info.contentLength = none

/-- The headers and the body, each with its line end. -/
def PartText.text {options : MultipartOptions} (part : PartText options) : Bytes :=
  part.headers.flatMap (· ++ crlf) ++ crlf ++ (part.body ++ crlf)

/-- What is to be told of a part. -/
def PartText.ticks {options : MultipartOptions} (part : PartText options) : List PartTick :=
  .beginPart part.info :: (part.body.map .byte ++ [.endPart part.info])

/-- The text of a list of parts. -/
def multipartText (cfg : MultipartConfig) : List (PartText cfg.options) → Bytes
  | [] => cfg.closingBoundaryLine ++ crlf
  | part :: parts => cfg.boundaryLine ++ crlf ++ (part.text ++ multipartText cfg parts)

/-- The first line of the text. -/
def firstLine (cfg : MultipartConfig) : List (PartText cfg.options) → Bytes
  | [] => cfg.closingBoundaryLine
  | _ :: _ => cfg.boundaryLine

/-- The limits leave room for the first line, and for the lines behind a body. -/
structure Fits (cfg : MultipartConfig) (parts : List (PartText cfg.options)) : Prop where
  line : (firstLine cfg parts).length ≤ cfg.options.maxHeaderLineBytes
  line_max : cfg.options.maxHeaderLineBytes < sizeMax
  body : parts ≠ [] → cfg.Roomy

variable {cfg : MultipartConfig}

theorem firstLine_isLine (parts : List (PartText cfg.options)) :
    cfg.IsLine (firstLine cfg parts) := by
  cases parts with
  | nil => exact .inr rfl
  | cons part parts => exact .inl rfl

theorem firstLine_prefix (parts : List (PartText cfg.options)) :
    firstLine cfg parts ++ crlf <+: multipartText cfg parts := by
  cases parts with
  | nil => exact List.prefix_rfl
  | cons part parts => exact List.prefix_append _ _

/-! ## Lines -/

/-- In a line of the header or a boundary line. -/
structure InLine (mp : Multipart) : Prop where
  phase : mp.phase = .expectBoundary ∨ mp.phase = .headers
  sawCr : mp.sawCr = false

section

variable {r : MultipartRun (List PartTick)}

theorem InLine.byte (h : InLine r.mp) (ch : Byte) :
    multipartByte cfg r ch = multipartTakeLineChar cfg ticker ch r := by
  have hlength : r.mp.phase ≠ .bodyLength := by rcases h.phase with h | h <;> simp [h]
  have hscan : r.mp.phase ≠ .bodyScan := by rcases h.phase with h | h <;> simp [h]
  rw [multipartByte, if_neg hlength, multipartFeedChar, if_neg hscan, multipartFeedLineChar,
    if_neg (by simp [h.sawCr])]

theorem InLine.bytes (h : InLine r.mp) {line : Bytes}
    (hbytes : ∀ ch ∈ line, isLineByte ch = true)
    (hlen : (r.mp.line ++ line).length ≤ cfg.options.maxHeaderLineBytes)
    (hmax : cfg.options.maxHeaderLineBytes < sizeMax) :
    multipartBytes cfg line r = (r.setMp { r.mp with line := r.mp.line ++ line }, .ok) := by
  induction line generalizing r with
  | nil => simp [multipartBytes, MultipartRun.setMp]
  | cons ch line ih =>
      obtain ⟨hcr, hlf⟩ := isLineByte_iff.mp (hbytes ch (by simp))
      have happend : byteAppendChar r.mp.line ch cfg.options.maxHeaderLineBytes =
          .ok (r.mp.line ++ [ch]) := by
        refine byteAppendChar_of_room ?_ hmax
        rw [List.length_append, List.length_cons] at hlen
        omega
      have hbyte : multipartByte cfg r ch =
          (r.setMp { r.mp with line := r.mp.line ++ [ch] }, .ok) := by
        rw [h.byte, multipartTakeLineChar, if_neg hcr, if_neg hlf, happend]
      have hnext : InLine (r.setMp { r.mp with line := r.mp.line ++ [ch] }).mp :=
        ⟨h.phase, h.sawCr⟩
      rw [multipartBytes, hbyte, andThenOk_ok,
        ih hnext (fun c hc => hbytes c (by simp [hc])) (by simpa using hlen)]
      simp

/-- The line that stands in the buffer, processed and cleared. -/
def takeLine (cfg : MultipartConfig) (r : MultipartRun (List PartTick)) (line : Bytes) :
    MultipartRun (List PartTick) × Status :=
  MultipartRun.clearLine (multipartProcessLine cfg ticker (r.setMp { r.mp with line }))

/-- A line end takes the line: at once, or with the byte behind the CR. -/
theorem InLine.cr (h : InLine r.mp) (ch : Byte) (text : Bytes) :
    multipartBytes cfg (CR :: ch :: text) r =
      andThenOk (takeLine cfg r r.mp.line) fun r =>
        andThenOk (if ch = LF then (r, .ok) else multipartTakeLineChar cfg ticker ch r)
          (multipartBytes cfg text) := by
  have hcr : multipartByte cfg r CR = (r.setMp { r.mp with sawCr := true }, .ok) := by
    rw [h.byte, multipartTakeLineChar, if_pos rfl]
  have hback : (r.setMp { r.mp with sawCr := true }).setMp
      { (r.setMp { r.mp with sawCr := true }).mp with sawCr := false } =
      r.setMp { r.mp with line := r.mp.line } := by
    rw [MultipartRun.setMp_setMp, MultipartRun.setMp_mp, ← h.sawCr]
  have hlength : r.mp.phase ≠ .bodyLength := by rcases h.phase with h | h <;> simp [h]
  have hscan : r.mp.phase ≠ .bodyScan := by rcases h.phase with h | h <;> simp [h]
  rw [multipartBytes, hcr, andThenOk_ok, multipartBytes, multipartByte, if_neg (by exact hlength),
    multipartFeedChar, if_neg (by exact hscan), multipartFeedLineChar, if_pos (by simp),
    hback,
    andThenOk_assoc]
  rfl

theorem InLine.crlf (h : InLine r.mp) (hnil : r.mp.line = []) {line : Bytes}
    (hbytes : ∀ ch ∈ line, isLineByte ch = true)
    (hlen : line.length ≤ cfg.options.maxHeaderLineBytes)
    (hmax : cfg.options.maxHeaderLineBytes < sizeMax) :
    multipartBytes cfg (line ++ Lonejson.crlf) r = takeLine cfg r line := by
  have hnext : InLine (r.setMp { r.mp with line }).mp := ⟨h.phase, h.sawCr⟩
  rw [multipartBytes_append, h.bytes hbytes (by rwa [hnil]) hmax, andThenOk_ok, hnil,
    List.nil_append, hnext.cr]
  simp [takeLine, multipartBytes]

end

/-! ## Boundary lines and headers -/

/-- In the headers of a part. -/
def inHeaders (part : MultipartPart) (log : List PartTick) : MultipartRun (List PartTick) where
  mp := { phase := .headers, part }
  user := log

theorem inHeaders_inLine (part : MultipartPart) (log : List PartTick) :
    InLine (inHeaders part log).mp := ⟨.inr rfl, rfl⟩

theorem MultipartConfig.IsLine.cstr_eq {line : Bytes} (hline : cfg.IsLine line) :
    cstr line = line := by
  have hnul : 0 ∉ cfg.closingBoundaryLine := by
    simp [MultipartConfig.closingBoundaryLine, MultipartConfig.boundaryLine, cfg.boundary_nul]
  refine cstr_of_notMem fun hmem => hnul (hline.prefix_closing.subset hmem)

/-- A boundary line in front of the first part, or the closing one. -/
theorem start_line {line : Bytes} (hone : cfg.OneLine) (hline : cfg.IsLine line)
    (hlen : line.length ≤ cfg.options.maxHeaderLineBytes)
    (hmax : cfg.options.maxHeaderLineBytes < sizeMax) :
    multipartBytes cfg (line ++ crlf) { user := [] } =
      (behindLine (line == cfg.closingBoundaryLine) [], .ok) := by
  have hstart : InLine ({ user := [] } : MultipartRun (List PartTick)).mp := ⟨.inl rfl, rfl⟩
  rw [hstart.crlf rfl (fun ch hch => hone.closing ch (hline.prefix_closing.subset hch)) hlen hmax,
    takeLine, multipartProcessLine]
  have hne : line.length ≠ 0 := by simpa using hline.ne_nil
  simp only [MultipartRun.setMp_mp, hline.cstr_eq]
  rw [if_neg hne]
  rcases hline with rfl | rfl
  · rw [if_pos rfl]
    simp [MultipartRun.clearLine, behindLine, MultipartRun.setMp, Multipart.resetPart,
      closingBoundaryLine_ne.symm]
  · rw [if_neg closingBoundaryLine_ne, if_pos rfl]
    simp [MultipartRun.clearLine, behindLine, MultipartRun.setMp]

/-- The header lines of a part. -/
theorem inHeaders_lines {part info : MultipartPart} {log : List PartTick} {headers : List Bytes}
    (hlines : ∀ line ∈ headers, IsHeader cfg.options line)
    (hmax : cfg.options.maxHeaderLineBytes < sizeMax)
    (hread : readHeaders cfg.options part headers = .ok info) :
    multipartBytes cfg (headers.flatMap (· ++ crlf)) (inHeaders part log) =
      (inHeaders info log, .ok) := by
  induction headers generalizing part with
  | nil =>
      obtain rfl : part = info := Except.ok.inj hread
      rfl
  | cons line headers ih =>
      obtain ⟨hne, hlen, hbytes⟩ := hlines line (by simp)
      rw [readHeaders] at hread
      cases hline : multipartProcessHeaderLine cfg.options part (cstr line) with
      | error e =>
          rw [hline] at hread
          cases hread
      | ok part' =>
          rw [hline] at hread
          have htake : takeLine cfg (inHeaders part log) line = (inHeaders part' log, .ok) := by
            rw [takeLine, multipartProcessLine]
            simp only [MultipartRun.setMp_mp, inHeaders]
            rw [if_neg (by simpa using hne), hline]
            rfl
          rw [List.flatMap_cons, multipartBytes_append,
            (inHeaders_inLine part log).crlf rfl hbytes hlen hmax, htake, andThenOk_ok]
          exact ih (fun l hl => hlines l (by simp [hl])) hread

/-- The empty line behind the headers begins the part. -/
theorem inHeaders_end {info : MultipartPart} {log : List PartTick}
    (hmax : cfg.options.maxHeaderLineBytes < sizeMax) (huncounted : info.contentLength = none) :
    multipartBytes cfg crlf (inHeaders info log) =
      (inBody info (log ++ [.beginPart info]) [] [], .ok) := by
  have htake : takeLine cfg (inHeaders info log) [] =
      (inBody info (log ++ [.beginPart info]) [] [], .ok) := by
    rw [takeLine, multipartProcessLine]
    simp [inHeaders, inBody, huncounted, MultipartRun.setMp, MultipartRun.tell,
      MultipartRun.clearLine]
  exact ((inHeaders_inLine info log).crlf rfl (List.forall_mem_nil _) (Nat.zero_le _) hmax).trans htake

/-- The text of a part up to its body. -/
theorem inHeaders_part (part : PartText cfg.options) {log : List PartTick}
    (hmax : cfg.options.maxHeaderLineBytes < sizeMax) (text : Bytes) :
    multipartBytes cfg (part.text ++ text) (inHeaders {} log) =
      multipartBytes cfg (part.body ++ crlf ++ text)
        (inBody part.info (log ++ [.beginPart part.info]) [] []) := by
  rw [PartText.text, List.append_assoc, List.append_assoc, multipartBytes_append,
    inHeaders_lines part.headers_line hmax part.headers_read, andThenOk_ok, multipartBytes_append,
    inHeaders_end hmax part.uncounted, andThenOk_ok]

/-! ## Parts -/

section

variable {r : MultipartRun (List PartTick)}

theorem processLine_told (r : MultipartRun (List PartTick)) :
    r.user <+: (multipartProcessLine cfg ticker r).1.user := by
  rw [multipartProcessLine]
  cases r.mp.phase with
  | expectBoundary =>
      dsimp only
      split_ifs <;> exact List.prefix_rfl
  | headers =>
      dsimp only
      split_ifs
      · simp only [callBegin_ticker, andThenOk_ok, MultipartRun.tell_mp]
        cases r.mp.part.contentLength with
        | none => simp
        | some n =>
            dsimp only
            split_ifs <;> simp
      · cases multipartProcessHeaderLine cfg.options r.mp.part (cstr r.mp.line) with
        | error e => exact List.prefix_rfl
        | ok part => exact List.prefix_rfl
  | bodyLength => exact List.prefix_rfl
  | bodyScan => exact List.prefix_rfl
  | done => exact List.prefix_rfl

theorem takeLineChar_told (ch : Byte) :
    r.user <+: (multipartTakeLineChar cfg ticker ch r).1.user := by
  rw [multipartTakeLineChar]
  split_ifs
  · exact List.prefix_rfl
  · exact processLine_told r
  · cases byteAppendChar r.mp.line ch cfg.options.maxHeaderLineBytes with
    | error message => exact List.prefix_rfl
    | ok line => exact List.prefix_rfl

theorem feedBodyScanChar_told (ch : Byte) :
    r.user <+: (multipartFeedBodyScanChar cfg ticker r ch).1.user := by
  rw [multipartFeedBodyScanChar]
  cases byteAppendChar r.mp.body ch cfg.options.maxPartBufferedBytes with
  | error message => exact List.prefix_rfl
  | ok body =>
      dsimp only
      rw [multipartProcessBodyBuffer]
      cases scanBody cfg [] (r.setMp { r.mp with body }).mp.body with
      | boundary closing emitLen consumeLen => simp
      | hold keepFrom =>
          dsimp only
          split_ifs <;> simp

theorem andThenOk_told {log : List PartTick} {x : MultipartRun (List PartTick) × Status}
    {k : MultipartRun (List PartTick) → MultipartRun (List PartTick) × Status}
    (hx : log <+: x.1.user) (hk : ∀ r, r.user <+: (k r).1.user) :
    log <+: (andThenOk x k).1.user := by
  rw [andThenOk]
  split_ifs
  · exact hx.trans (hk _)
  · exact hx

theorem multipartByte_told (ch : Byte) : r.user <+: (multipartByte cfg r ch).1.user := by
  rw [multipartByte]
  split_ifs
  · simp only [multipartFeedBodyLength, callData_ticker, andThenOk_ok, multipartEndCounted]
    split_ifs <;> simp
  · rw [multipartFeedChar]
    split_ifs
    · exact feedBodyScanChar_told ch
    · rw [multipartFeedLineChar]
      by_cases hcr : r.mp.sawCr = true
      · rw [if_pos hcr]
        refine andThenOk_told (processLine_told (r.setMp { r.mp with sawCr := false })) fun r => ?_
        split_ifs
        · exact List.prefix_rfl
        · exact takeLineChar_told ch
      · rw [if_neg hcr]
        exact takeLineChar_told ch

/-- What has been told stays told. -/
theorem multipartBytes_told (cfg : MultipartConfig) (text : Bytes)
    (r : MultipartRun (List PartTick)) : r.user <+: (multipartBytes cfg text r).1.user := by
  induction text generalizing r with
  | nil => exact List.prefix_rfl
  | cons ch text ih =>
      rw [multipartBytes]
      exact andThenOk_told (multipartByte_told ch) ih

end

/-- Ready for a boundary line, with what has been told when it is read. -/
def Awaits (cfg : MultipartConfig) (line : Bytes) (r : MultipartRun (List PartTick))
    (log : List PartTick) : Prop :=
  multipartBytes cfg (line ++ crlf) r = (behindLine (line == cfg.closingBoundaryLine) log, .ok)

/-- A clean body is told as it is. -/
theorem clean_body (hroom : cfg.Roomy) (hone : cfg.OneLine) {body : Bytes}
    (hclean : Clean cfg (body ++ crlf)) (part : MultipartPart) (log : List PartTick) :
    multipartBytes cfg (body ++ crlf) (inBody part log [] []) =
      (inBody part log body crlf, .ok) := by
  obtain ⟨pieces, htext, hpieces⟩ := hclean
  have hstart : Held [] [] := .none (by simp) (by simp)
  obtain ⟨delivered, held, hheld, hall, hrun⟩ := clean_run hroom hone hpieces hstart
  obtain ⟨rfl, rfl⟩ := hheld.crlf_eq (by rw [hall, htext]; rfl)
  rw [htext, hrun]

/-- Any other body is not. -/
theorem unclean_body (hroom : cfg.Roomy) (hone : cfg.OneLine) {body : Bytes}
    (hclean : ¬ Clean cfg (body ++ crlf)) (part : MultipartPart) (log : List PartTick)
    (text : Bytes) :
    let x := (multipartBytes cfg (body ++ crlf ++ text) (inBody part log [] [])).1
    x.mp.phase = .bodyScan ∨ ∃ (delivered : Bytes) (rest : List PartTick),
      delivered.length < body.length ∧
        x.user = log ++ (delivered.map .byte ++ .endPart part :: rest) := by
  obtain ⟨pieces, rest, htext, hpieces, hlook⟩ :=
    (clean_or_lookAlike hone (body ++ crlf) (.inr (by simp))).resolve_left hclean
  have hstart : Held [] [] := .none (by simp) (by simp)
  obtain ⟨delivered, held, hheld, hall, hrun⟩ := clean_run hroom hone hpieces hstart
  have hlook' : LookAlike cfg (rest ++ text) := by
    obtain ⟨line, ch, hline, hch, hpre⟩ := hlook
    exact ⟨line, ch, hline, hch, hpre.trans (List.prefix_append _ _)⟩
  dsimp only
  rw [htext, List.append_assoc, multipartBytes_append, hrun, andThenOk_ok]
  rcases lookAlike_run hroom hone hheld hlook' part log with ⟨closing, tail, hend⟩ | hstuck
  · right
    obtain ⟨more, hmore⟩ := multipartBytes_told cfg tail (behindLine closing
      (log ++ delivered.map .byte ++ [.endPart part]))
    refine ⟨delivered, more, ?_, ?_⟩
    · -- what looks like a line is longer than the line end behind the body
      have hlong := hlook.length
      have hbody := congrArg List.length htext
      have hheld := congrArg List.length hall
      simp only [List.length_append, List.length_cons, List.length_nil] at hbody hheld
      omega
    · rw [hend, ← hmore]
      simp [behindLine]
  · exact .inl hstuck

theorem parts_iff (hone : cfg.OneLine) (hmax : cfg.options.maxHeaderLineBytes < sizeMax)
    (parts : List (PartText cfg.options)) (hroom : parts ≠ [] → cfg.Roomy)
    {r : MultipartRun (List PartTick)} {log : List PartTick}
    (hr : Awaits cfg (firstLine cfg parts) r log) :
    let x := (multipartBytes cfg (multipartText cfg parts) r).1
    (x.mp.phase = .done ∧ x.user = log ++ parts.flatMap PartText.ticks) ↔
      ∀ part ∈ parts, Clean cfg (part.body ++ crlf) := by
  induction parts generalizing r log with
  | nil =>
      have hend : multipartBytes cfg (multipartText cfg []) r = _ := hr
      simp [hend, firstLine, behindLine]
  | cons part parts ih =>
      have hroom := hroom (by simp)
      have hbegin : multipartBytes cfg (multipartText cfg (part :: parts)) r =
          multipartBytes cfg (part.body ++ crlf ++ multipartText cfg parts)
            (inBody part.info (log ++ [.beginPart part.info]) [] []) := by
        have hline : multipartBytes cfg (cfg.boundaryLine ++ crlf) r = _ := hr
        rw [multipartText, multipartBytes_append, hline, andThenOk_ok, firstLine,
          beq_false_of_ne closingBoundaryLine_ne.symm]
        exact inHeaders_part part hmax _
      dsimp only
      rw [hbegin, List.forall_mem_cons]
      by_cases hclean : Clean cfg (part.body ++ crlf)
      · have hawaits : Awaits cfg (firstLine cfg parts)
            (inBody part.info (log ++ [.beginPart part.info]) part.body crlf)
            (log ++ part.ticks) := by
          rw [Awaits, inBody_line hroom hone (by simp [lineEnds]) (firstLine_isLine parts)]
          simp [PartText.ticks]
        rw [multipartBytes_append, clean_body hroom hone hclean, andThenOk_ok, List.flatMap_cons,
          ← List.append_assoc]
        exact (ih (fun _ => hroom) hawaits).trans (by simp [hclean])
      · refine iff_of_false ?_ fun h => hclean h.1
        rintro ⟨hdone, huser⟩
        rcases unclean_body hroom hone hclean part.info (log ++ [.beginPart part.info])
          (multipartText cfg parts) with hscan | ⟨delivered, rest, hshort, htold⟩
        · exact absurd (hdone.symm.trans hscan) (by simp)
        · rw [huser, List.flatMap_cons, List.append_assoc, List.append_cancel_left_eq,
            PartText.ticks, List.cons_append, List.cons_append, List.nil_append,
            List.cons_inj_right, List.append_assoc] at htold
          -- where the end of the part was told there should be a byte of the body
          have hat := congrArg (·[delivered.length]?) htold
          simp [List.getElem?_append, hshort] at hat

/-- A line that a line end cuts out of a boundary. -/
theorem exists_cut (hone : ¬ cfg.OneLine) : ∃ line ch post, cfg.boundaryLine = line ++ ch :: post ∧
    line ≠ [] ∧ (∀ c ∈ line, isLineByte c = true) ∧ isLineByte ch = false := by
  have hsplit : cfg.boundary.takeWhile isLineByte ++ cfg.boundary.dropWhile isLineByte =
      cfg.boundary := List.takeWhile_append_dropWhile
  have hhead := List.head?_dropWhile_not isLineByte cfg.boundary
  cases hdrop : cfg.boundary.dropWhile isLineByte with
  | nil =>
      rw [hdrop, List.append_nil] at hsplit
      exact absurd (fun c hc => List.mem_takeWhile_imp (hsplit ▸ hc)) hone
  | cons ch post =>
      rw [hdrop] at hhead hsplit
      refine ⟨[0x2d, 0x2d] ++ cfg.boundary.takeWhile isLineByte, ch, post, ?_, by simp, ?_, hhead⟩
      · rw [MultipartConfig.boundaryLine, List.append_assoc, hsplit]
      · intro c hc
        rcases List.mem_append.mp hc with hc | hc
        · simp only [List.mem_cons, List.not_mem_nil, or_false, or_self] at hc
          subst hc
          decide
        · exact List.mem_takeWhile_imp hc

/-- Such a line is refused. -/
theorem takeLine_cut {r : MultipartRun (List PartTick)} (hphase : r.mp.phase = .expectBoundary)
    {line more : Bytes} (hne : line ≠ []) (hmore : more ≠ [])
    (hcut : cfg.boundaryLine = line ++ more) :
    (takeLine cfg r line).2 ≠ .ok ∧ (takeLine cfg r line).1.mp.phase = .expectBoundary := by
  have hnul : 0 ∉ line := fun hmem => by
    have : 0 ∈ cfg.boundaryLine := by simp [hcut, hmem]
    simp [MultipartConfig.boundaryLine, cfg.boundary_nul] at this
  have hshort : line.length < cfg.boundaryLine.length := by
    simp [hcut, List.length_pos_iff.mpr hmore]
  have hno {other : Bytes} (hother : cfg.IsLine other) : line ≠ other := by
    rintro rfl
    have hle : cfg.boundaryLine.length ≤ line.length := by
      rcases hother with rfl | rfl
      · exact le_rfl
      · exact boundaryLine_prefix.length_le
    omega
  rw [takeLine, multipartProcessLine, MultipartRun.setMp_mp, hphase]
  dsimp only
  rw [if_neg (by simpa using hne), cstr_of_notMem hnul, if_neg (hno (.inl rfl)),
    if_neg (hno (.inr rfl))]
  exact ⟨by simp [MultipartRun.clearLine, MultipartRun.fail], hphase⟩

/-- A boundary with a line end in it is refused with the first line. -/
theorem unlined_boundary {parts : List (PartText cfg.options)} (hfits : Fits cfg parts)
    (hone : ¬ cfg.OneLine) :
    (multipartBytes cfg (multipartText cfg parts) { user := [] }).1.mp.phase ≠ .done := by
  obtain ⟨line, ch, post, hcut, hne, hbytes, hch⟩ := exists_cut hone
  obtain ⟨post', hfirst⟩ : ∃ post', firstLine cfg parts = line ++ ch :: post' := by
    cases parts with
    | nil =>
        refine ⟨post ++ [0x2d, 0x2d], ?_⟩
        rw [firstLine, MultipartConfig.closingBoundaryLine, hcut, List.append_assoc]
        rfl
    | cons part parts => exact ⟨post, hcut⟩
  have hlen : line.length ≤ cfg.options.maxHeaderLineBytes := by
    have hline := hfits.line
    rw [hfirst, List.length_append] at hline
    omega
  obtain ⟨c, more, htext⟩ : ∃ c more, multipartText cfg parts = line ++ ch :: c :: more := by
    obtain ⟨tail, htail⟩ := firstLine_prefix parts
    rw [← htail, hfirst]
    cases post' with
    | nil => exact ⟨CR, LF :: tail, by simp⟩
    | cons c post' => exact ⟨c, post' ++ crlf ++ tail, by simp⟩
  have hstart : InLine ({ user := [] } : MultipartRun (List PartTick)).mp := ⟨.inl rfl, rfl⟩
  obtain ⟨hstatus, hphase⟩ :=
    takeLine_cut (r := { user := [] }) rfl hne (List.cons_ne_nil ch post) hcut
  have hrest : (andThenOk (multipartBytes cfg line { user := [] })
      (multipartBytes cfg (ch :: c :: more))).1 = (takeLine cfg { user := [] } line).1 := by
    have hnext : InLine (({ user := [] } : MultipartRun (List PartTick)).setMp { line }).mp :=
      ⟨.inl rfl, rfl⟩
    have hline : multipartBytes cfg line { user := [] } =
        (({ user := [] } : MultipartRun (List PartTick)).setMp { line }, .ok) :=
      hstart.bytes hbytes hlen hfits.line_max
    rw [hline, andThenOk_ok]
    rcases (by simpa [isLineByte, imp_iff_not_or] using hch : ch = CR ∨ ch = LF) with rfl | rfl
    · rw [hnext.cr, andThenOk]
      exact congrArg Prod.fst (if_neg hstatus)
    · have hlf : multipartByte cfg
          (({ user := [] } : MultipartRun (List PartTick)).setMp { line }) LF =
          takeLine cfg { user := [] } line := by
        rw [hnext.byte, multipartTakeLineChar, if_neg lf_ne_cr, if_pos rfl]
        rfl
      rw [multipartBytes, hlf, andThenOk]
      exact congrArg Prod.fst (if_neg hstatus)
  rw [htext, multipartBytes_append, hrest, hphase]
  simp

/-- A part without headers. -/
def barePart (cfg : MultipartConfig) (body : Bytes) : PartText cfg.options where
  headers := []
  body := body
  info := {}
  headers_line := by simp
  headers_read := rfl
  uncounted := rfl

theorem boundaryX_fits (parts : List (PartText boundaryX.options)) : Fits boundaryX parts := by
  refine ⟨?_, by decide, fun _ => ⟨by decide, by decide⟩⟩
  cases parts <;> simp [firstLine] <;> decide

theorem clean_begun : Clean boundaryX (ascii "--x!" ++ crlf) := by
  refine ⟨[ascii "--x!", crlf], by decide, fun piece hpiece => ?_⟩
  simp only [List.mem_cons, List.not_mem_nil, or_false] at hpiece
  rcases hpiece with rfl | rfl
  · exact ⟨ascii "--x", 0, 0x21, by decide, by decide, by decide, by decide, fun _ => by decide⟩
  · refine ⟨[], 1, LF, by decide, by decide, by decide, by decide, fun h => ?_⟩
    exact absurd rfl h.ne_nil

/-- A boundary line at the start of a line of a body. -/
def HasDelimiter (cfg : MultipartConfig) (text : Bytes) : Prop :=
  ∃ k < text.length, (k = 0 ∨ (text.take k).getLast? = some LF) ∧
    ∃ line ∈ [cfg.boundaryLine, cfg.closingBoundaryLine],
      line ++ [LF] <+: text.drop k ∨ line ++ crlf <+: text.drop k

instance (cfg : MultipartConfig) (text : Bytes) : Decidable (HasDelimiter cfg text) :=
  inferInstanceAs (Decidable (∃ k < text.length, _))

end Lonejson
