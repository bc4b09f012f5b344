import Lonejson.Descent
import Lonejson.SseGathering

/-!
# The reader of a stream

The reader makes the progress that the bytes of the stream make, however they are cut into
pieces, and it delivers the events of the stream as far as its callbacks can carry them.
-/

namespace Lonejson

/-! ## The reader makes its progress -/

/-- The lines to come fit the limits, behind the lines of a block. -/
def LinesFit (options : SseOptions) : List Bytes → List Bytes → Prop
  | _, [] => True
  | block, l :: ls =>
    l.length ≤ options.maxLineBytes ∧
      if l = [] then LinesFit options [] ls
      else LineFits options (sseFields block) l ∧ LinesFit options (block ++ [l]) ls

/-- The reader has come as far as `a`. -/
structure SseTracks (a : SseProgress) (r : SseRun SseLog) : Prop where
  gathered : Gathered a.allocated (sseFields a.block) r
  line : r.sse.line = a.line
  cr : r.sse.sawCr = a.cr
  closed : r.sse.closed = false
  events : r.user.events = a.events

section

variable {a : SseProgress} {r : SseRun SseLog} {options : SseOptions}

theorem fits_invariant (options : SseOptions) :
    LineInvariant fun a ls => LinesFit options a.block ls where
  endLine := by
    rintro a ls ⟨-, h⟩
    rw [SseProgress.endLine]
    split_ifs at h ⊢
    · exact h
    · exact h.2
  line := fun a line cr ls h => h

theorem sseFields_concat (block : List Bytes) (line : Bytes) :
    sseFields (block ++ [line]) = (sseFields block).addLine line := by
  rw [sseFields, List.foldl_append]
  rfl

/-- A gathered block does not depend on the line or on the error record. -/
theorem Gathered.other {allocated : Bool} {f : SseFields} (h : Gathered allocated f r)
    (line : Bytes) (sawCr : Bool) (error : ErrorInfo) :
    Gathered allocated f { r with sse := { r.sse with line, sawCr }, error } :=
  ⟨h.pending, h.event, h.id, h.seen, h.current, h.dataLen, h.retry, h.noNul⟩

theorem sseEndLine_ok {r' : SseRun SseLog} (h : sseProcessLine options sseRecorder r = .ok r') :
    sseEndLine options sseRecorder r = .ok { r' with sse := { r'.sse with line := [] } } := by
  rw [sseEndLine, h]

theorem sseEndLine_tracks (h : SseTracks a r) (hsize : options.maxBufferedBytes ≤ sizeMax)
    {ls : List Bytes} (hfits : LinesFit options a.block (a.line :: ls))
    (hroom : LineRoom options a.line) :
    ∃ r', sseEndLine options sseRecorder r = .ok r' ∧ SseTracks a.endLine r' := by
  obtain ⟨-, hfits⟩ := hfits
  rw [SseProgress.endLine]
  by_cases hline : a.line = []
  · rw [if_pos hline]
    obtain ⟨r', hemit, hgathered, -, hcr, hclosed, hevents⟩ := sseEmit_gathered h.gathered
    have hprocess : sseProcessLine options sseRecorder r = .ok r' := by
      rw [sseProcessLine]
      dsimp only
      rw [if_pos (h.line.trans hline), hemit]
    refine ⟨_, sseEndLine_ok hprocess, ?_⟩
    exact ⟨hgathered.other [] _ _, hline.symm, hcr.trans h.cr, hclosed.trans h.closed,
      by rw [hevents, h.events]⟩
  · rw [if_neg hline] at hfits ⊢
    rw [← h.line] at hfits hroom hline
    obtain ⟨r', hprocess, hgathered, hframe⟩ :=
      sseProcessLine_gathered h.gathered hsize hline hfits.1 hroom
    refine ⟨_, sseEndLine_ok hprocess, ?_⟩
    refine ⟨?_, rfl, hframe.sawCr.trans h.cr, hframe.closed.trans h.closed,
      hframe.events.trans h.events⟩
    rw [sseFields_concat, ← h.line]
    exact hgathered.other [] _ _

theorem sseEndLine_full (hroom : ¬ LineRoom options r.sse.line) :
    ∃ e, sseEndLine options sseRecorder r = .error e := by
  have hline : r.sse.line ≠ [] := by
    intro hline
    exact hroom (.inr (by rw [hline]; rfl))
  obtain ⟨e, he⟩ := sseProcessLine_full hline hroom
  rw [sseEndLine, he]
  exact ⟨_, rfl⟩

/-- The line buffer has room for the byte and a NUL. -/
def CharRoom (options : SseOptions) (ch : Byte) : Prop :=
  options.maxLineBytes ≠ sizeMax ∨ ch = CR ∨ ch = LF

/-- The lines that a byte ends, with the carriage return before it. -/
def SseProgress.ended (a : SseProgress) (ch : Byte) : List Bytes :=
  if a.cr ∨ ch = LF then [a.line] else []

theorem linesOf_take (hopen : a.cr = false) (ch : Byte) (rest : Bytes) :
    a.linesOf (ch :: rest) =
      (if ch = LF then [a.line] else []) ++ (a.take ch).linesOf rest := by
  rw [SseProgress.linesOf_open hopen, SseProgress.take]
  split_ifs with hlf hcr hcr
  · rw [hlf] at hcr
    exact absurd hcr lf_ne_cr
  · rw [hlf, Lines.cut_lf _ _ cr_ne_lf,
      SseProgress.linesOf_open (a.endLine_cr.trans hopen), a.endLine_line]
    rfl
  · rw [hcr, Lines.cut_cr]
    rfl
  · rw [Lines.cut_other _ _ hcr hlf, SseProgress.linesOf_open (by exact hopen)]
    rfl

theorem linesOf_feed (a : SseProgress) (ch : Byte) (rest : Bytes) :
    a.linesOf (ch :: rest) = a.ended ch ++ (a.feed ch).linesOf rest := by
  rw [SseProgress.ended, SseProgress.feed]
  by_cases hcr : a.cr = true
  · have hopen : ({ a with cr := false }.endLine).cr = false := SseProgress.endLine_cr _
    have hline : ({ a with cr := false }.endLine).line = [] := SseProgress.endLine_line _
    have hended : a.cr = true ∨ ch = LF := .inl hcr
    rw [SseProgress.linesOf_cr hcr, Lines.cutBehind, if_pos hended, if_pos hcr]
    dsimp only
    generalize ({ a with cr := false }.endLine) = b at hopen hline ⊢
    rw [List.head?_cons, List.tail_cons, List.singleton_append]
    by_cases hlf : ch = LF
    · rw [if_pos (congrArg some hlf), if_pos hlf, SseProgress.linesOf_open hopen, hline]
    · have hnext := linesOf_take hopen ch rest
      rw [SseProgress.linesOf_open hopen, hline, if_neg hlf, List.nil_append] at hnext
      rw [if_neg (by simpa using hlf), if_neg hlf, hnext]
  · rw [if_neg hcr, linesOf_take (by simpa using hcr)]
    simp [hcr]

theorem sseTakeChar_tracks (h : SseTracks a r) (hopen : a.cr = false)
    (hsize : options.maxBufferedBytes ≤ sizeMax) (hlineSize : options.maxLineBytes ≤ sizeMax)
    {ch : Byte} {rest : Bytes} (hfits : LinesFit options a.block (a.linesOf (ch :: rest)))
    (hroom : ch = LF → LineRoom options a.line) (hchar : CharRoom options ch) :
    ∃ r', sseTakeChar options sseRecorder ch r = .ok r' ∧ SseTracks (a.take ch) r' := by
  rw [sseTakeChar, SseProgress.take]
  by_cases hcr : ch = CR
  · rw [if_pos hcr, if_pos hcr]
    exact ⟨_, rfl, h.gathered.other _ _ _, h.line, rfl, h.closed, h.events⟩
  rw [if_neg hcr, if_neg hcr]
  by_cases hlf : ch = LF
  · rw [if_pos hlf, if_pos hlf]
    rw [SseProgress.linesOf_open hopen, hlf, Lines.cut_lf _ _ cr_ne_lf] at hfits
    exact sseEndLine_tracks h hsize hfits (hroom hlf)
  rw [if_neg hlf, if_neg hlf]
  have hlimit : options.maxLineBytes ≠ sizeMax := hchar.resolve_right (by simp [hcr, hlf])
  rw [SseProgress.linesOf_open hopen, Lines.cut_other _ _ hcr hlf] at hfits
  obtain ⟨more, ls, hcut⟩ := @Lines.cut_begins Byte _ CR LF (a.line ++ [ch]) (by simp)
    cr_ne_lf rest
  rw [hcut] at hfits
  have hlength := hfits.1
  rw [List.length_append, List.length_append, List.length_singleton] at hlength
  have happend : byteAppendChar r.sse.line ch options.maxLineBytes =
      .ok (a.line ++ [ch]) := by
    rw [h.line]
    exact byteAppendChar_of_room (by omega) (by omega)
  rw [happend]
  exact ⟨_, rfl, h.gathered.other _ _ _, rfl, h.cr, h.closed, h.events⟩

theorem sseFeedChar_tracks (h : SseTracks a r) (hsize : options.maxBufferedBytes ≤ sizeMax)
    (hlineSize : options.maxLineBytes ≤ sizeMax) {ch : Byte} {rest : Bytes}
    (hfits : LinesFit options a.block (a.linesOf (ch :: rest)))
    (hroom : ∀ l ∈ a.ended ch, LineRoom options l) (hchar : CharRoom options ch) :
    ∃ r', sseFeedChar options sseRecorder r ch = .ok r' ∧ SseTracks (a.feed ch) r' := by
  rw [sseFeedChar, SseProgress.feed, h.cr]
  by_cases hcr : a.cr = true
  · rw [if_pos hcr, if_pos hcr]
    have hopen : ({ a with cr := false }.endLine).cr = false := SseProgress.endLine_cr _
    have hline : ({ a with cr := false }.endLine).line = [] := SseProgress.endLine_line _
    have hcurrent : LineRoom options a.line := hroom _ (by simp [SseProgress.ended, hcr])
    rw [SseProgress.linesOf_cr hcr] at hfits
    have hbehind : LinesFit options ({ a with cr := false }.endLine).block _ :=
      (fits_invariant options).endCr hfits
    have h' : SseTracks { a with cr := false } { r with sse := { r.sse with sawCr := false } } :=
      ⟨h.gathered.other _ _ _, h.line, rfl, h.closed, h.events⟩
    obtain ⟨r₁, hend, htracks⟩ := sseEndLine_tracks h' hsize hfits hcurrent
    rw [hend]
    change ∃ r', (if ch = LF then .ok r₁ else sseTakeChar options sseRecorder ch r₁) = .ok r' ∧ _
    dsimp only
    generalize ({ a with cr := false }.endLine) = b at hopen hline hbehind htracks ⊢
    by_cases hlf : ch = LF
    · rw [if_pos hlf, if_pos hlf]
      exact ⟨r₁, rfl, htracks⟩
    · rw [if_neg hlf, if_neg hlf]
      rw [List.head?_cons, if_neg (by simpa using hlf)] at hbehind
      have hnext : LinesFit options b.block (b.linesOf (ch :: rest)) := by
        rwa [SseProgress.linesOf_open hopen, hline]
      exact sseTakeChar_tracks htracks hopen hsize hlineSize hnext (fun h => absurd h hlf) hchar
  · rw [if_neg hcr, if_neg hcr]
    apply sseTakeChar_tracks h (by simpa using hcr) hsize hlineSize hfits _ hchar
    intro hlf
    exact hroom _ (by simp [SseProgress.ended, hlf])

/-! ### Failures -/

theorem sseTakeChar_full {ch : Byte} (hchar : ¬ CharRoom options ch) :
    ∃ e, sseTakeChar options sseRecorder ch r = .error e := by
  rw [CharRoom, not_or, not_not, not_or] at hchar
  obtain ⟨hlimit, hcr, hlf⟩ := hchar
  obtain ⟨message, hfull⟩ := @byteAppend_full r.sse.line [ch] (List.cons_ne_nil _ _)
  rw [sseTakeChar, if_neg hcr, if_neg hlf, byteAppendChar, hlimit, hfull]
  exact ⟨_, rfl⟩

theorem sseFeedChar_full {ch : Byte} (hchar : ¬ CharRoom options ch) :
    ∃ e, sseFeedChar options sseRecorder r ch = .error e := by
  have hlf : ch ≠ LF := fun h => hchar (.inr (.inr h))
  rw [sseFeedChar]
  split_ifs
  · cases sseEndLine options sseRecorder { r with sse := { r.sse with sawCr := false } } with
    | error e => exact ⟨e, rfl⟩
    | ok r' => exact sseTakeChar_full hchar
  · exact sseTakeChar_full hchar

/-- A byte that is taken has had room, and so has the line that it ends. -/
theorem sseFeedChar_room (h : SseTracks a r) {ch : Byte} {r' : SseRun SseLog}
    (hok : sseFeedChar options sseRecorder r ch = .ok r') :
    CharRoom options ch ∧ ∀ l ∈ a.ended ch, LineRoom options l := by
  have hchar : CharRoom options ch := by
    by_contra hchar
    obtain ⟨e, he⟩ := @sseFeedChar_full r options ch hchar
    rw [he] at hok
    cases hok
  refine ⟨hchar, fun l hl => ?_⟩
  rw [SseProgress.ended] at hl
  split_ifs at hl with hended
  · obtain rfl := List.mem_singleton.mp hl
    by_contra hroom
    rw [← h.line] at hroom
    rw [sseFeedChar, h.cr] at hok
    by_cases hcr : a.cr = true
    · have hfull : ∃ e, sseEndLine options sseRecorder
          { r with sse := { r.sse with sawCr := false } } = .error e := sseEndLine_full hroom
      obtain ⟨e, he⟩ := hfull
      rw [if_pos hcr, he] at hok
      cases hok
    · have hlf : ch = LF := hended.resolve_left hcr
      obtain ⟨e, he⟩ := sseEndLine_full hroom
      rw [if_neg hcr, sseTakeChar, if_neg (by rw [hlf]; decide), if_pos hlf, he] at hok
      cases hok
  · cases hl

/-! ### Whole streams -/

/-- The limits are `size_t`s. -/
structure SseOptions.Sized (options : SseOptions) : Prop where
  line : options.maxLineBytes ≤ sizeMax
  buffered : options.maxBufferedBytes ≤ sizeMax

theorem room_invariant (options : SseOptions) :
    LineInvariant fun _ ls => ∀ l ∈ ls, LineRoom options l where
  endLine := fun _ _ h l hl => h l (List.mem_cons_of_mem _ hl)
  line := fun _ _ _ _ h => h

theorem sseFeed_tracks (hsize : options.Sized) (rest : Bytes) : ∀ (bytes : Bytes)
    (a : SseProgress) (r : SseRun SseLog), SseTracks a r →
    LinesFit options a.block (a.linesOf (bytes ++ rest)) →
    (∀ l ∈ a.linesOf (bytes ++ rest), LineRoom options l) → (∀ ch ∈ bytes, CharRoom options ch) →
    ∃ r', sseFeed options sseRecorder bytes r = .ok r' ∧
      SseTracks (bytes.foldl SseProgress.feed a) r' := by
  intro bytes
  induction bytes with
  | nil =>
      intro a r h _ _ _
      exact ⟨r, rfl, h⟩
  | cons ch bytes ih =>
      intro a r h hfits hroom hchar
      have hended : ∀ l ∈ a.ended ch, LineRoom options l := by
        intro l hl
        apply hroom
        rw [List.cons_append, linesOf_feed]
        exact List.mem_append_left _ hl
      obtain ⟨r₁, hfeed, h₁⟩ := sseFeedChar_tracks h hsize.buffered hsize.line hfits hended
        (hchar ch List.mem_cons_self)
      obtain ⟨r', hrun, h'⟩ := ih (a.feed ch) r₁ h₁ ((fits_invariant options).feed hfits)
        ((room_invariant options).feed hroom) fun c hc => hchar c (List.mem_cons_of_mem _ hc)
      refine ⟨r', ?_, h'⟩
      rw [sseFeed, hfeed]
      exact hrun

theorem LineInvariant.feedAll {P : SseProgress → List Bytes → Prop} (hP : LineInvariant P)
    (rest : Bytes) : ∀ (bytes : Bytes) (a : SseProgress), P a (a.linesOf (bytes ++ rest)) →
    P (bytes.foldl SseProgress.feed a) ((bytes.foldl SseProgress.feed a).linesOf rest) := by
  intro bytes
  induction bytes with
  | nil => exact fun a h => h
  | cons ch bytes ih => exact fun a h => ih (a.feed ch) (hP.feed h)

/-- Bytes that are taken have had room, and so have the lines that they end. -/
theorem sseFeed_room (hsize : options.Sized) (rest : Bytes) : ∀ (bytes : Bytes)
    (a : SseProgress) (r r' : SseRun SseLog), SseTracks a r →
    LinesFit options a.block (a.linesOf (bytes ++ rest)) →
    sseFeed options sseRecorder bytes r = .ok r' →
    (∀ ch ∈ bytes, CharRoom options ch) ∧ SseTracks (bytes.foldl SseProgress.feed a) r' ∧
      ∀ l ∈ a.linesOf (bytes ++ rest),
        LineRoom options l ∨ l ∈ (bytes.foldl SseProgress.feed a).linesOf rest := by
  intro bytes
  induction bytes with
  | nil =>
      rintro a r r' h _ ⟨⟩
      exact ⟨nofun, h, fun l hl => .inr hl⟩
  | cons ch bytes ih =>
      intro a r r' h hfits hok
      rw [sseFeed] at hok
      cases hfeed : sseFeedChar options sseRecorder r ch with
      | error e =>
          rw [hfeed] at hok
          cases hok
      | ok r₁ =>
          rw [hfeed] at hok
          obtain ⟨hchar, hended⟩ := sseFeedChar_room h hfeed
          obtain ⟨r₂, hfeed₂, h₁⟩ := sseFeedChar_tracks h hsize.buffered hsize.line hfits hended
            hchar
          obtain rfl : r₁ = r₂ := Except.ok.inj (hfeed.symm.trans hfeed₂)
          obtain ⟨hchars, h', hlines⟩ :=
            ih (a.feed ch) r₁ r' h₁ ((fits_invariant options).feed hfits) hok
          refine ⟨?_, h', ?_⟩
          · intro c hc
            rcases List.mem_cons.mp hc with rfl | hc
            · exact hchar
            · exact hchars c hc
          · intro l hl
            rw [List.cons_append, linesOf_feed] at hl
            rcases List.mem_append.mp hl with hl | hl
            · exact .inl (hended l hl)
            · exact hlines l hl

theorem SseTracks.clear (h : SseTracks a r) : SseTracks a { r with error := {} } :=
  ⟨h.gathered.other _ _ _, h.line, h.cr, h.closed, h.events⟩

theorem ssePush_open (h : SseTracks a r) (bytes : Bytes) :
    ssePush options sseRecorder bytes r =
      sseFeed options sseRecorder bytes { r with error := {} } := by
  rw [ssePush, h.closed]
  rfl

theorem ssePushes_tracks (hsize : options.Sized) : ∀ (pieces : List Bytes) (a : SseProgress)
    (r : SseRun SseLog), SseTracks a r → LinesFit options a.block (a.linesOf pieces.flatten) →
    (∀ l ∈ a.linesOf pieces.flatten, LineRoom options l) →
    (∀ ch ∈ pieces.flatten, CharRoom options ch) →
    ∃ r', ssePushes options sseRecorder pieces r = .ok r' ∧
      SseTracks (pieces.flatten.foldl SseProgress.feed a) r' := by
  intro pieces
  induction pieces with
  | nil =>
      intro a r h _ _ _
      exact ⟨r, rfl, h⟩
  | cons bytes pieces ih =>
      intro a r h hfits hroom hchar
      rw [List.flatten_cons] at hfits hroom hchar ⊢
      obtain ⟨r₁, hfeed, h₁⟩ := sseFeed_tracks hsize pieces.flatten bytes a _ h.clear hfits hroom
        fun ch hch => hchar ch (List.mem_append_left _ hch)
      obtain ⟨r', hrun, h'⟩ := ih _ r₁ h₁ ((fits_invariant options).feedAll _ bytes a hfits)
        ((room_invariant options).feedAll _ bytes a hroom)
        fun ch hch => hchar ch (List.mem_append_right _ hch)
      refine ⟨r', ?_, ?_⟩
      · rw [ssePushes, ssePush_open h, hfeed]
        exact hrun
      · rwa [List.foldl_append]

theorem ssePushes_room (hsize : options.Sized) : ∀ (pieces : List Bytes) (a : SseProgress)
    (r r' : SseRun SseLog), SseTracks a r → LinesFit options a.block (a.linesOf pieces.flatten) →
    ssePushes options sseRecorder pieces r = .ok r' →
    (∀ ch ∈ pieces.flatten, CharRoom options ch) ∧
      SseTracks (pieces.flatten.foldl SseProgress.feed a) r' ∧
      ∀ l ∈ a.linesOf pieces.flatten,
        LineRoom options l ∨ l ∈ (pieces.flatten.foldl SseProgress.feed a).linesOf [] := by
  intro pieces
  induction pieces with
  | nil =>
      rintro a r r' h _ ⟨⟩
      exact ⟨nofun, h, fun l hl => .inr hl⟩
  | cons bytes pieces ih =>
      intro a r r' h hfits hok
      rw [List.flatten_cons] at hfits ⊢
      rw [ssePushes, ssePush_open h] at hok
      cases hfeed : sseFeed options sseRecorder bytes { r with error := {} } with
      | error e =>
          rw [hfeed] at hok
          cases hok
      | ok r₁ =>
          rw [hfeed] at hok
          obtain ⟨hchars, h₁, hlines⟩ :=
            sseFeed_room hsize pieces.flatten bytes a _ r₁ h.clear hfits hfeed
          obtain ⟨hchars', h', hlines'⟩ :=
            ih _ r₁ r' h₁ ((fits_invariant options).feedAll _ bytes a hfits) hok
          rw [List.foldl_append]
          refine ⟨?_, h', ?_⟩
          · intro ch hch
            rcases List.mem_append.mp hch with hch | hch
            · exact hchars ch hch
            · exact hchars' ch hch
          · intro l hl
            exact (hlines l hl).elim .inl (hlines' l)

end

/-! ### The end of the stream -/

section

variable {a : SseProgress} {r : SseRun SseLog} {options : SseOptions}

/-- The line that the end of the stream ends, if any. -/
theorem linesOf_nil (a : SseProgress) :
    a.linesOf [] = if a.cr ∨ a.line ≠ [] then [a.line] else [] := by
  by_cases hcr : a.cr = true
  · rw [SseProgress.linesOf_cr hcr, if_pos (.inl hcr)]
    rfl
  · rw [SseProgress.linesOf_open (by simpa using hcr), Lines.cut]
    by_cases hline : a.line = [] <;> simp [hcr, hline]

theorem sseLastLine_tracks (hsize : options.Sized) (h : SseTracks a r)
    (hfits : LinesFit options a.block (a.linesOf []))
    (hroom : ∀ l ∈ a.linesOf [], LineRoom options l) :
    ∃ r', sseLastLine options sseRecorder r = .ok r' ∧ SseTracks a.lastLine r' := by
  rw [linesOf_nil] at hfits hroom
  rw [sseLastLine, SseProgress.lastLine, h.cr, h.line]
  by_cases hlast : a.cr = true ∨ a.line ≠ []
  · rw [if_pos hlast] at hfits hroom
    rw [if_pos hlast, if_pos hlast]
    have h' : SseTracks { a with cr := false } { r with sse := { r.sse with sawCr := false } } :=
      ⟨h.gathered.other _ _ _, h.line, rfl, h.closed, h.events⟩
    exact sseEndLine_tracks h' hsize.buffered hfits (hroom _ List.mem_cons_self)
  · rw [if_neg hlast, if_neg hlast]
    exact ⟨r, rfl, h⟩

theorem sseFinish_tracks (hsize : options.Sized) (h : SseTracks a r)
    (hfits : LinesFit options a.block (a.linesOf []))
    (hroom : ∀ l ∈ a.linesOf [], LineRoom options l) :
    ∃ r', sseFinish options sseRecorder r = .ok r' ∧
      r'.user.events = a.total (a.linesOf []) := by
  obtain ⟨r₁, hlast, h₁⟩ := sseLastLine_tracks hsize h hfits hroom
  obtain ⟨r₂, hemit, -, -, -, -, hevents⟩ := sseEmit_gathered h₁.gathered
  have htotal := (total_invariant (a.total (a.linesOf []))).lastLine rfl
  rw [sseFinish, h.closed, hlast]
  refine ⟨{ r₂ with sse := { r₂.sse with closed := true } }, ?_, ?_⟩
  · change (sseEmit sseRecorder r₁).map _ = _
    rw [hemit]
    rfl
  · rw [← htotal, SseProgress.total, deliverLines, ← h₁.events]
    exact hevents

theorem sseFinish_room (h : SseTracks a r) {r' : SseRun SseLog}
    (hok : sseFinish options sseRecorder r = .ok r') : ∀ l ∈ a.linesOf [], LineRoom options l := by
  intro l hl
  rw [linesOf_nil] at hl
  split_ifs at hl with hlast
  · obtain rfl := List.mem_singleton.mp hl
    by_contra hroom
    rw [← h.line] at hroom
    have hfull : ∃ e, sseEndLine options sseRecorder
        { r with sse := { r.sse with sawCr := false } } = .error e := sseEndLine_full hroom
    obtain ⟨e, he⟩ := hfull
    rw [← h.cr, ← h.line] at hlast
    rw [sseFinish, h.closed, sseLastLine, if_pos hlast, he] at hok
    cases hok
  · cases hl

theorem tracks_start : SseTracks {} { user := {} } :=
  ⟨⟨rfl, rfl, rfl, by simp [sseFields], rfl, rfl, rfl, by simp [sseFields]⟩, rfl, rfl, rfl, rfl⟩

/-- A stream within the limits is taken exactly when the buffers have room for their NULs; it
then delivers what its blocks say. -/
theorem sseStream_ok_iff (hsize : options.Sized) (pieces : List Bytes)
    (hfits : LinesFit options [] (sseLines pieces.flatten)) (events : List SseText) :
    (∃ r, sseStream options sseRecorder pieces {} = .ok r ∧ r.user.events = events) ↔
      (∀ ch ∈ pieces.flatten, CharRoom options ch) ∧
      (∀ l ∈ sseLines pieces.flatten, LineRoom options l) ∧
      deliverBlocks false (sseBlocks pieces.flatten) = events := by
  have hlines : ({} : SseProgress).linesOf pieces.flatten = sseLines pieces.flatten := rfl
  have hend (b : SseProgress) (hb : b = pieces.flatten.foldl SseProgress.feed {}) :
      LinesFit options b.block (b.linesOf []) ∧ b.total (b.linesOf []) =
        deliverBlocks false (sseBlocks pieces.flatten) := by
    subst hb
    constructor
    · apply (fits_invariant options).feedAll [] pieces.flatten {}
      rwa [List.append_nil]
    · have htotal := (total_invariant (({} : SseProgress).total
        (sseLines pieces.flatten))).feedAll [] pieces.flatten {} (by rw [List.append_nil]; rfl)
      rw [htotal, SseProgress.total_blocks]
      rfl
  obtain ⟨hfitsEnd, htotal⟩ := hend _ rfl
  constructor
  · rintro ⟨r', hok, rfl⟩
    rw [sseStream] at hok
    cases hpushes : ssePushes options sseRecorder pieces { user := {} } with
    | error e =>
        rw [hpushes] at hok
        cases hok
    | ok r₁ =>
        rw [hpushes] at hok
        obtain ⟨hchars, h₁, hrest⟩ := ssePushes_room hsize pieces {} _ r₁ tracks_start hfits hpushes
        have hlast := sseFinish_room h₁ hok
        obtain ⟨r₂, hfinish, hevents⟩ := sseFinish_tracks hsize h₁ hfitsEnd hlast
        obtain rfl : r' = r₂ := Except.ok.inj (hok.symm.trans hfinish)
        exact ⟨hchars, fun l hl => (hrest l hl).elim id (hlast l), htotal.symm.trans hevents.symm⟩
  · rintro ⟨hchars, hroom, rfl⟩
    obtain ⟨r₁, hpushes, h₁⟩ := ssePushes_tracks hsize pieces {} _ tracks_start hfits hroom hchars
    have hlast := (room_invariant options).feedAll [] pieces.flatten {}
      (by rw [List.append_nil]; exact hroom)
    obtain ⟨r₂, hfinish, hevents⟩ := sseFinish_tracks hsize h₁ hfitsEnd hlast
    refine ⟨r₂, ?_, hevents.trans htotal⟩
    rw [sseStream, hpushes]
    exact hfinish

end

/-! ## When the callbacks carry the events -/

theorem cstr_eq_iff {bytes : Bytes} : cstr bytes = bytes ↔ 0 ∉ bytes := by
  constructor
  · intro h hmem
    rw [cstr, List.takeWhile_eq_self_iff] at h
    simpa using h 0 hmem
  · exact cstr_of_notMem

theorem SseText.carried_eq_iff (e : SseText) (allocated : Bool) :
    e.carried allocated = e ↔ 0 ∉ e.name ∧ (e.id.isSome = true ↔ allocated = true) := by
  obtain ⟨name, id, data, dataLen, retry⟩ := e
  rw [SseText.carried]
  simp only [SseText.mk.injEq, and_true, cstr_eq_iff]
  apply and_congr_right'
  cases allocated <;> cases id <;> simp

/-- The strings of C carry the event: its name holds no NUL, and it has an id exactly when the
stream has had one that is not empty. -/
def Carries (before : List (List Bytes)) (block : List Bytes) (e : SseText) : Prop :=
  0 ∉ e.name ∧ (e.id.isSome = true ↔ ∃ b ∈ before ++ [block], ∃ id ∈ (sseFields b).ids, id ≠ [])

theorem anyFresh_iff (blocks : List (List Bytes)) :
    (blocks.any fun b => (sseFields b).freshId) = true ↔
      ∃ b ∈ blocks, ∃ id ∈ (sseFields b).ids, id ≠ [] := by
  simp [SseFields.freshId]

theorem deliverBlock_eq_iff (before : List (List Bytes)) (block : List Bytes)
    (delivered told : List SseText) :
    deliverBlock (before.any fun b => (sseFields b).freshId) (sseFields block) ++ delivered =
        (sseFields block).event.toList ++ told ↔
      (∀ e, (sseFields block).event = some e → Carries before block e) ∧ delivered = told := by
  rw [deliverBlock]
  cases hevent : (sseFields block).event with
  | none => simp
  | some e =>
      have hcarried := e.carried_eq_iff ((before ++ [block]).any fun b => (sseFields b).freshId)
      rw [anyFresh_iff, List.any_append, List.any_cons, List.any_nil, Bool.or_false] at hcarried
      simp only [Option.toList_some, List.map_cons, List.map_nil, List.singleton_append,
        List.cons.injEq, Option.some.injEq, forall_eq', hcarried, Carries]

theorem deliverBlocks_eq_iff (blocks : List (List Bytes)) : ∀ (before : List (List Bytes)),
    deliverBlocks (before.any fun b => (sseFields b).freshId) blocks =
        blocks.filterMap (fun block => (sseFields block).event) ↔
      ∀ more block after e, blocks = more ++ block :: after →
        (sseFields block).event = some e → Carries (before ++ more) block e := by
  induction blocks with
  | nil =>
      intro before
      refine iff_of_true rfl ?_
      intro more block after e h
      simp at h
  | cons block blocks ih =>
      intro before
      have hnext := ih (before ++ [block])
      rw [List.any_append, List.any_cons, List.any_nil, Bool.or_false] at hnext
      have hcons : (block :: blocks).filterMap (fun block => (sseFields block).event) =
          (sseFields block).event.toList ++
            blocks.filterMap fun block => (sseFields block).event := by
        rw [List.filterMap_cons]
        cases (sseFields block).event <;> rfl
      rw [hcons, deliverBlocks, deliverBlock_eq_iff, hnext]
      constructor
      · rintro ⟨hfirst, hrest⟩ more b after e hblocks he
        cases more with
        | nil =>
            obtain ⟨rfl, rfl⟩ := List.cons.inj hblocks
            rw [List.append_nil]
            exact hfirst e he
        | cons m more =>
            obtain ⟨rfl, htail⟩ := List.cons.inj hblocks
            have h := hrest more b after e htail he
            rwa [List.append_assoc, List.singleton_append] at h
      · intro h
        constructor
        · intro e he
          have hfirst := h [] block blocks e rfl he
          rwa [List.append_nil] at hfirst
        · intro more b after e hblocks he
          have hrest := h (block :: more) b after e (by rw [hblocks]; rfl) he
          rwa [List.append_assoc, List.singleton_append]

/-! ## Limits -/

/-- The limits are not exceeded. -/
structure SseWithin (options : SseOptions) (stream : Bytes) : Prop where
  line : ∀ l ∈ sseLines stream, l.length ≤ options.maxLineBytes
  value : ∀ l ∈ sseLines stream, (sseRetained l).length ≤ options.maxBufferedBytes
  data : ∀ block ∈ sseBlocks stream,
    (sseFields block).text.length ≤ options.maxEventDataBytes

theorem SseFields.text_addLine (f : SseFields) (line : Bytes) :
    f.text.length ≤ (f.addLine line).text.length := by
  rw [SseFields.addLine]
  cases sseField line with
  | none => exact le_rfl
  | some field =>
      obtain ⟨name, value⟩ := field
      dsimp only
      rw [SseFields.add]
      split_ifs
      · rw [f.text_concat value]
        split_ifs with hdata
        · simp [SseFields.text, hdata]
        · rw [List.length_append, List.length_append]
          omega
      · exact le_rfl
      · exact le_rfl
      · exact le_rfl
      · exact le_rfl
      · exact le_rfl

theorem sseFields_text_mono (block more : List Bytes) :
    (sseFields block).text.length ≤ (sseFields (block ++ more)).text.length := by
  induction more generalizing block with
  | nil => rw [List.append_nil]
  | cons line more ih =>
      calc (sseFields block).text.length
          ≤ (sseFields (block ++ [line])).text.length := by
            rw [sseFields_concat]
            exact SseFields.text_addLine _ line
        _ ≤ (sseFields (block ++ [line] ++ more)).text.length := ih _
        _ = (sseFields (block ++ line :: more)).text.length := by
            rw [List.append_assoc, List.singleton_append]

/-- The first block goes on with the lines that have been read of it. -/
theorem firstBlock (ls : List Bytes) : ∀ block : List Bytes, (∀ l ∈ block, l ≠ []) →
    ∃ more rest, (block ++ ls).splitOnP (· = []) = (block ++ more) :: rest := by
  induction ls with
  | nil =>
      intro block hblock
      exact ⟨[], [], by
        rw [List.append_nil]
        exact List.splitOnP_eq_singleton (by simpa using hblock)⟩
  | cons l ls ih =>
      intro block hblock
      by_cases hl : l = []
      · subst hl
        exact ⟨[], ls.splitOnP (· = []), by
          rw [List.append_nil]
          exact List.splitOnP_append_cons_of_forall_mem (by simpa using hblock) [] (by simp) ls⟩
      · obtain ⟨more, rest, hsplit⟩ := ih (block ++ [l]) (by
          intro l' hl'
          rcases List.mem_append.mp hl' with hmem | hmem
          · exact hblock l' hmem
          · rwa [List.mem_singleton.mp hmem])
        refine ⟨l :: more, rest, ?_⟩
        rwa [List.append_assoc, List.singleton_append, List.append_assoc,
          List.singleton_append] at hsplit

theorem linesFit_of_within {options : SseOptions} (ls : List Bytes) : ∀ block : List Bytes,
    (∀ l ∈ block, l ≠ []) → (∀ l ∈ ls, l.length ≤ options.maxLineBytes) →
    (∀ l ∈ ls, (sseRetained l).length ≤ options.maxBufferedBytes) →
    (∀ b ∈ (block ++ ls).splitOnP (· = []),
      (sseFields b).text.length ≤ options.maxEventDataBytes) → LinesFit options block ls := by
  induction ls with
  | nil => exact fun _ _ _ _ _ => trivial
  | cons l ls ih =>
      intro block hblock hline hvalue hdata
      refine ⟨hline l List.mem_cons_self, ?_⟩
      have hline' (l' : Bytes) (hl' : l' ∈ ls) := hline l' (List.mem_cons_of_mem _ hl')
      have hvalue' (l' : Bytes) (hl' : l' ∈ ls) := hvalue l' (List.mem_cons_of_mem _ hl')
      split_ifs with hl
      · subst hl
        have hcut : (block ++ [] :: ls).splitOnP (· = []) = block :: ls.splitOnP (· = []) :=
          List.splitOnP_append_cons_of_forall_mem (by simpa using hblock) [] (by simp) ls
        rw [hcut] at hdata
        exact ih [] nofun hline' hvalue' fun b hb => hdata b (List.mem_cons_of_mem _ hb)
      · have hblock' : ∀ l' ∈ block ++ [l], l' ≠ [] := by
          intro l' hl'
          rcases List.mem_append.mp hl' with hmem | hmem
          · exact hblock l' hmem
          · rwa [List.mem_singleton.mp hmem]
        have hcons : block ++ l :: ls = block ++ [l] ++ ls := by
          rw [List.append_assoc, List.singleton_append]
        rw [hcons] at hdata
        obtain ⟨more, rest, hsplit⟩ := firstBlock ls (block ++ [l]) hblock'
        refine ⟨⟨?_, hvalue l List.mem_cons_self⟩, ih _ hblock' hline' hvalue' hdata⟩
        rw [← sseFields_concat]
        apply (sseFields_text_mono _ more).trans
        apply hdata
        rw [hsplit]
        exact List.mem_cons_self

theorem SseWithin.linesFit {options : SseOptions} {stream : Bytes}
    (h : SseWithin options stream) : LinesFit options [] (sseLines stream) :=
  linesFit_of_within _ [] nofun h.line h.value h.data

/-- The limit of the line buffer leaves room exactly when it is not the greatest one, or no
line holds a byte. -/
theorem charRoom_iff (options : SseOptions) (stream : Bytes) :
    (∀ ch ∈ stream, CharRoom options ch) ↔
      options.maxLineBytes ≠ sizeMax ∨ ∀ l ∈ sseLines stream, l = [] := by
  rw [sseLines, Lines.cut_empty_iff]
  by_cases hlimit : options.maxLineBytes = sizeMax <;> simp [CharRoom, hlimit]

/-! ## The data limit -/

/-- The data of every event, delivered or gathered, is within the limit, and the parser counts
what the callbacks have been told. -/
structure DataWithin (options : SseOptions) (r : SseRun SseLog) : Prop where
  counted : r.sse.eventDataLen = r.user.current.length
  current : r.user.current.length ≤ options.maxEventDataBytes
  events : ∀ e ∈ r.user.events,
    e.data.length ≤ options.maxEventDataBytes ∧ e.dataLen = e.data.length

/-- What a function of the reader leaves is within the data limit, whether or not it fails. -/
def KeepsData (options : SseOptions) (x : SseResult SseLog) : Prop :=
  Json.Holds (DataWithin options) (fun e => DataWithin options e.1) x

section

variable {r : SseRun SseLog} {options : SseOptions}

theorem sseEmitData_keeps (h : DataWithin options r) (data : Bytes) :
    KeepsData options (sseEmitData options sseRecorder data r) := by
  by_cases hfits : r.sse.eventDataLen +
      (data.length + if r.sse.dataSeen then 1 else 0) ≤ options.maxEventDataBytes
  · have hcounted := h.counted
    rw [sseEmitData_recorder hfits]
    constructor
    · dsimp only
      rw [List.length_append, List.length_append, hcounted]
      split_ifs <;> rfl
    · dsimp only
      rw [List.length_append, List.length_append]
      split_ifs at hfits ⊢ <;> simp <;> omega
    · exact h.events
  · rw [sseEmitData]
    dsimp only
    rw [if_pos (by omega)]
    exact ⟨h.counted, h.current, h.events⟩

theorem sseEmit_keeps (h : DataWithin options r) :
    KeepsData options (sseEmit sseRecorder r) := by
  rw [sseEmit]
  split_ifs
  · exact h
  · rw [sseBeginIfNeeded_recorder]
    constructor
    · rfl
    · exact Nat.zero_le _
    · intro e he
      rcases List.mem_append.mp he with he | he
      · exact h.events e he
      · obtain rfl := List.mem_singleton.mp he
        exact ⟨h.current, h.counted⟩

theorem sseProcessLine_keeps (h : DataWithin options r) :
    KeepsData options (sseProcessLine options sseRecorder r) := by
  rw [sseProcessLine]
  dsimp only
  split_ifs
  · exact sseEmit_keeps h
  · exact h
  · exact sseEmitData_keeps h _
  · rw [sseSetEvent]
    dsimp only
    split <;> exact ⟨h.counted, h.current, h.events⟩
  · rw [sseSetId]
    dsimp only
    split <;> exact ⟨h.counted, h.current, h.events⟩
  · rw [sseSetRetry]
    split <;> exact ⟨h.counted, h.current, h.events⟩
  · exact h

theorem sseEndLine_keeps (h : DataWithin options r) :
    KeepsData options (sseEndLine options sseRecorder r) := by
  have hline := sseProcessLine_keeps h
  rw [sseEndLine]
  revert hline
  rcases sseProcessLine options sseRecorder r with ⟨r', status⟩ | r'
  · exact fun h' => ⟨h'.counted, h'.current, h'.events⟩
  · exact fun h' => ⟨h'.counted, h'.current, h'.events⟩

theorem sseTakeChar_keeps (h : DataWithin options r) (ch : Byte) :
    KeepsData options (sseTakeChar options sseRecorder ch r) := by
  rw [sseTakeChar]
  split_ifs
  · exact ⟨h.counted, h.current, h.events⟩
  · exact sseEndLine_keeps h
  · split <;> exact ⟨h.counted, h.current, h.events⟩

theorem sseFeedChar_keeps (h : DataWithin options r) (ch : Byte) :
    KeepsData options (sseFeedChar options sseRecorder r ch) := by
  rw [sseFeedChar]
  by_cases hcr : r.sse.sawCr = true
  · rw [if_pos hcr]
    have h' : DataWithin options { r with sse := { r.sse with sawCr := false } } :=
      ⟨h.counted, h.current, h.events⟩
    apply (sseEndLine_keeps h').bind
    intro r' h'
    by_cases hlf : ch = LF
    · rw [if_pos hlf]
      exact h'
    · rw [if_neg hlf]
      exact sseTakeChar_keeps h' ch
  · rw [if_neg hcr]
    exact sseTakeChar_keeps h ch

theorem sseFeed_keeps (bytes : Bytes) : ∀ {r : SseRun SseLog}, DataWithin options r →
    KeepsData options (sseFeed options sseRecorder bytes r) := by
  induction bytes with
  | nil => exact fun h => h
  | cons ch bytes ih =>
      intro r h
      exact (sseFeedChar_keeps h ch).bind fun r' h' => ih h'

theorem ssePushes_keeps (pieces : List Bytes) : ∀ {r : SseRun SseLog}, DataWithin options r →
    KeepsData options (ssePushes options sseRecorder pieces r) := by
  induction pieces with
  | nil => exact fun h => h
  | cons bytes pieces ih =>
      intro r h
      have hpush : KeepsData options (ssePush options sseRecorder bytes r) := by
        rw [ssePush]
        split_ifs
        · exact ⟨h.counted, h.current, h.events⟩
        · exact sseFeed_keeps bytes ⟨h.counted, h.current, h.events⟩
      exact hpush.bind fun r' h' => ih h'

theorem sseFinish_keeps (h : DataWithin options r) :
    KeepsData options (sseFinish options sseRecorder r) := by
  have hlast : KeepsData options (sseLastLine options sseRecorder r) := by
    rw [sseLastLine]
    split_ifs
    · exact sseEndLine_keeps ⟨h.counted, h.current, h.events⟩
    · exact h
  rw [sseFinish]
  split_ifs
  · exact h
  · apply hlast.bind
    intro r' h'
    exact (sseEmit_keeps h').map fun r'' h'' => ⟨h''.counted, h''.current, h''.events⟩

/-- Whatever the stream, the limits and the outcome, no event has more data than the limit. -/
theorem sseStream_keeps (options : SseOptions) (pieces : List Bytes) :
    KeepsData options (sseStream options sseRecorder pieces {}) := by
  have hstart : DataWithin options { user := {} } := ⟨rfl, Nat.zero_le _, nofun⟩
  exact (ssePushes_keeps pieces hstart).bind fun r h => sseFinish_keeps h

end

/-! ## The reading and the reader -/

/-- The reader delivers the events of the reference reading, and in no case more data than the
limit allows. -/
def ReadsEvents (options : SseOptions) (pieces : List Bytes) : Prop :=
  ∃ r, sseStream options sseRecorder pieces {} = .ok r ∧
    r.user.events = sseEvents pieces.flatten ∧
    ∀ e ∈ r.user.events, e.data.length ≤ options.maxEventDataBytes

/-- The reader delivers the events of the stream exactly when its buffers have room for their
NULs and the strings of C carry every event. -/
theorem sse_events_read (options : SseOptions) (hsize : options.Sized) (pieces : List Bytes)
    (hwithin : SseWithin options pieces.flatten) :
    ReadsEvents options pieces ↔
      (options.maxLineBytes ≠ sizeMax ∨ ∀ l ∈ sseLines pieces.flatten, l = []) ∧
      (∀ l ∈ sseLines pieces.flatten, LineRoom options l) ∧
      ∀ before block after e, sseBlocks pieces.flatten = before ++ block :: after →
        (sseFields block).event = some e → Carries before block e := by
  have hreads := sseStream_ok_iff hsize pieces hwithin.linesFit (sseEvents pieces.flatten)
  have hcarries := deliverBlocks_eq_iff (sseBlocks pieces.flatten) []
  rw [charRoom_iff] at hreads
  rw [sseEvents] at hreads
  rw [List.any_nil] at hcarries
  simp only [List.nil_append] at hcarries
  rw [hcarries] at hreads
  rw [← hreads, ReadsEvents, ← sseEvents]
  constructor
  · rintro ⟨r, hok, hevents, -⟩
    exact ⟨r, hok, hevents⟩
  · rintro ⟨r, hok, hevents⟩
    refine ⟨r, hok, hevents, fun e he => ?_⟩
    have hkeeps := sseStream_keeps options pieces
    rw [KeepsData, hok] at hkeeps
    exact (hkeeps.events e he).1

/-- Two events in two pieces, the second one unterminated and the first to have an id. -/
theorem sse_events_read_one :
    let pieces := [ascii "data: a\n", ascii "\nid: 7\nevent: b\r\n\r"]
    ReadsEvents {} pieces ∧ ∀ e, (sseFields [ascii "id: 7", ascii "event: b"]).event = some e →
      Carries [[ascii "data: a"]] [ascii "id: 7", ascii "event: b"] e := by
  intro pieces
  have hreads : ReadsEvents {} pieces := ⟨_, rfl, by decide, by decide⟩
  have hcarries := ((sse_events_read {} ⟨by decide, by decide⟩ pieces
    ⟨by decide, by decide, by decide⟩).mp hreads).2.2
  exact ⟨hreads, fun e => hcarries _ _ [[]] e (by decide)⟩

/-- The second event has no id, but the buffer of the first one. -/
theorem sse_events_id_stays : ¬ ∀ (options : SseOptions) (pieces : List Bytes), options.Sized →
    SseWithin options pieces.flatten → ReadsEvents options pieces := by
  intro h
  have hread := h {} [ascii "id: 1\ndata: a\n\ndata: b\n\n"] ⟨by decide, by decide⟩
    ⟨by decide, by decide, by decide⟩
  obtain ⟨r, hok, hevents, -⟩ := hread
  obtain rfl := Except.ok.inj (hok.symm.trans rfl)
  exact absurd hevents (by decide)

end Lonejson
