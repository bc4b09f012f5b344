import Lonejson.Trees
import Lonejson.Visitor

/-!
# A visit makes the callbacks of a tree

What the visitor does with a text that spells a tree: the callbacks are the events of the
tree, in order, with every string in some chunks that do not depend on the callbacks.
-/

namespace Lonejson

open Json (Text Tree Spells SpellsMembers SpellsMember SpellsItems SpellsElement Lexis Space)

variable {υ : Type}

/-! ## The events of a tree -/

section

variable (limit : ℕ)

mutual

/-- The events of a tree whose numbers have up to `limit` bytes; a string may come in any
chunks. -/
inductive EventsOf : Tree → List VisitEvent → Prop where
  | null : EventsOf .null [.null]
  | bool {value : Bool} : EventsOf (.bool value) [.bool value]
  | number {lexeme : Bytes} (h : JsonNumber lexeme) (hlen : lexeme.length ≤ limit) :
      EventsOf (.number lexeme) [.numberBegin, .numberChunk lexeme, .numberEnd]
  | string {chunks : List Bytes} : EventsOf (.string chunks.flatten)
      (.stringBegin :: (chunks.map .stringChunk ++ [.stringEnd]))
  | array {ts : List Tree} {es : List VisitEvent} (h : EventsOfItems ts es) :
      EventsOf (.array ts) (.arrayBegin :: (es ++ [.arrayEnd]))
  | object {ms : List (Text × Tree)} {es : List VisitEvent} (h : EventsOfMembers ms es) :
      EventsOf (.object ms) (.objectBegin :: (es ++ [.objectEnd]))

inductive EventsOfItems : List Tree → List VisitEvent → Prop where
  | nil : EventsOfItems [] []
  | cons {t : Tree} {ts : List Tree} {es es' : List VisitEvent} (h : EventsOf t es)
      (hs : EventsOfItems ts es') : EventsOfItems (t :: ts) (es ++ es')

inductive EventsOfMembers : List (Text × Tree) → List VisitEvent → Prop where
  | nil : EventsOfMembers [] []
  | cons {chunks : List Bytes} {t : Tree} {ms : List (Text × Tree)} {es es' : List VisitEvent}
      (h : EventsOf t es) (hs : EventsOfMembers ms es') :
      EventsOfMembers ((chunks.flatten, t) :: ms)
        (.keyBegin :: (chunks.map .keyChunk ++ (.keyEnd :: (es ++ es'))))

end

end

/-- A list of callbacks. -/
def JsonIo.feed (v : Visitor υ) : JsonIo υ → List VisitEvent → Except (JsonIo υ) (JsonIo υ)
  | io, [] => .ok io
  | io, e :: es => (io.visit v e).bind fun io => JsonIo.feed v io es

theorem JsonIo.feed_append (v : Visitor υ) (io : JsonIo υ) (es es' : List VisitEvent) :
    io.feed v (es ++ es') = (io.feed v es).bind fun io => io.feed v es' := by
  induction es generalizing io with
  | nil => rfl
  | cons e es ih =>
      rw [List.cons_append, feed, feed]
      cases io.visit v e with
      | error _ => rfl
      | ok io => exact ih io

/-- A part of a visit that makes some callbacks and returns a value. -/
def Feeds {α : Type} (v : Visitor υ) (es : List VisitEvent) (x : α)
    (f : JsonIo υ → Except (JsonIo υ) (α × JsonIo υ)) : Prop :=
  ∀ io, f io = (io.feed v es).map (x, ·)

section

variable {α β : Type} {v : Visitor υ} {es es' : List VisitEvent} {x : α} {y : β}
  {f : JsonIo υ → Except (JsonIo υ) (α × JsonIo υ)}

theorem Feeds.nil : Feeds v [] x fun io => .ok (x, io) := fun _ => rfl

theorem Feeds.event (e : VisitEvent) : Feeds v [e] x fun io => (io.visit v e).map (x, ·) := by
  intro io
  dsimp only
  rw [JsonIo.feed]
  cases io.visit v e <;> rfl

theorem Feeds.bind {g : α → JsonIo υ → Except (JsonIo υ) (β × JsonIo υ)} (h : Feeds v es x f)
    (hg : Feeds v es' y (g x)) :
    Feeds v (es ++ es') y fun io => (f io).bind fun z => g z.1 z.2 := by
  intro io
  dsimp only
  rw [h io, JsonIo.feed_append]
  cases io.feed v es with
  | error _ => rfl
  | ok io => exact hg io

theorem Feeds.before {g : JsonIo υ → Except (JsonIo υ) (β × JsonIo υ)} (e : VisitEvent)
    (hg : Feeds v es y g) : Feeds v (e :: es) y fun io => (io.visit v e).bind g := by
  intro io
  dsimp only
  rw [JsonIo.feed]
  cases io.visit v e with
  | error _ => rfl
  | ok io => exact hg io

end

/-! ## Strings are delivered -/

/-- The content of a string and its text behind the quote. Surrogates come in pairs. -/
inductive StringText : Bytes → Text → Text → Prop where
  | close {r : Text} : StringText [] (0x22 :: r) r
  | plain {b : Byte} {content i r : Text} (hb : isPlain b = true) (h : StringText content i r) :
      StringText (b :: content) (b :: i) r
  | escape {e ch : Byte} {content i r : Text} (he : simpleEscape e = some ch)
      (h : StringText content i r) : StringText (ch :: content) (0x5c :: e :: i) r
  | unit {a b c d : Byte} {cp : ℕ} {data content i r : Text}
      (hcp : decodeUnicodeQuad a b c d = some cp) (hhigh : isHighSurrogate cp = false)
      (hlow : isLowSurrogate cp = false) (hdata : utf8Encode cp = some data)
      (h : StringText content i r) :
      StringText (data ++ content) (0x5c :: 0x75 :: a :: b :: c :: d :: i) r
  | pair {a b c d a' b' c' d' : Byte} {hi lo : ℕ} {data content i r : Text}
      (hhi : decodeUnicodeQuad a b c d = some hi) (hhigh : isHighSurrogate hi = true)
      (hlo : decodeUnicodeQuad a' b' c' d' = some lo) (hlow : isLowSurrogate lo = true)
      (hdata : utf8Encode (combineSurrogates hi lo) = some data) (h : StringText content i r) :
      StringText (data ++ content) (0x5c :: 0x75 :: a :: b :: c :: d ::
        0x5c :: 0x75 :: a' :: b' :: c' :: d' :: i) r

/-- The strings and numbers of the visitor. -/
def strictLexis : Lexis := ⟨StringText, JsonNumber⟩

theorem StringText.length {content i r : Text} (h : StringText content i r) :
    r.length < i.length := by
  induction h with
  | close => exact Nat.lt_succ_self _
  | plain _ _ ih | escape _ _ ih | unit _ _ _ _ _ ih | pair _ _ _ _ _ _ ih =>
      simp only [List.length_cons]
      omega

theorem strictLexis_lawful : strictLexis.Lawful where
  string _ _ _ h := h.length
  number num h := by
    rintro rfl
    have hvalid := (isValidJsonNumber_iff []).mpr h
    cases hvalid

/-- Plain bytes in front are content. -/
theorem StringText.drop {content i r : Text} (h : StringText content i r) {n : ℕ}
    (hplain : ∀ b ∈ i.take n, isPlain b = true) :
    ∃ rest, content = i.take n ++ rest ∧ StringText rest (i.drop n) r := by
  induction n generalizing content i with
  | zero => exact ⟨content, rfl, h⟩
  | succ n ih =>
      cases h with
      | close => exact absurd (hplain 0x22 (by simp)) (by decide)
      | plain hb h =>
          obtain ⟨rest, rfl, hrest⟩ := ih h fun c hc => hplain c (by simp [hc])
          exact ⟨rest, rfl, hrest⟩
      | escape he h => exact absurd (hplain 0x5c (by simp)) (by decide)
      | unit hcp hhigh hlow hdata h => exact absurd (hplain 0x5c (by simp)) (by decide)
      | pair hhi hhigh hlo hlow hdata h => exact absurd (hplain 0x5c (by simp)) (by decide)

section

variable {env : VisitEnv} {v : Visitor υ} {isKey : Bool}

/-- The events of chunks. -/
def chunkEvents (isKey : Bool) (chunks : List Bytes) : List VisitEvent :=
  chunks.map (textChunk isKey)

theorem fillPlain_feeds (v : Visitor υ) (isKey : Bool) {n : ℕ} {plain data : Bytes} (hn : data.length < n)
    (hplain : plain.length < 256) :
    ∃ chunks rest, chunks.flatten ++ rest = plain ++ data ∧ rest.length < 256 ∧
      Feeds v (chunkEvents isKey chunks) rest (fillPlain v isKey n plain data) := by
  induction n generalizing plain data with
  | zero => omega
  | succ n ih =>
      by_cases hdata : data = []
      · refine ⟨[], plain, by simp [hdata], hplain, fun io => ?_⟩
        rw [fillPlain, if_pos hdata]
        rfl
      · have hlen : 0 < data.length := List.length_pos_iff.mpr hdata
        have hdrop : (data.drop (256 - plain.length)).length < n := by
          rw [List.length_drop]
          omega
        by_cases hfull : (plain ++ data.take (256 - plain.length)).length = 256
        · obtain ⟨chunks, rest, hcontent, hrest, hfeeds⟩ := ih hdrop (show ([] : Bytes).length < 256 by simp)
          refine ⟨(plain ++ data.take (256 - plain.length)) :: chunks, rest, ?_, hrest, ?_⟩
          · rw [List.flatten_cons, List.append_assoc, hcontent, List.nil_append, List.append_assoc,
              List.take_append_drop]
          · intro io
            rw [fillPlain, if_neg hdata, if_pos hfull]
            exact hfeeds.before _ io
        · have hshort : (plain ++ data.take (256 - plain.length)).length < 256 := by
            rw [List.length_append, List.length_take] at *
            omega
          obtain ⟨chunks, rest, hcontent, hrest, hfeeds⟩ := ih hdrop hshort
          refine ⟨chunks, rest, ?_, hrest, fun io => ?_⟩
          · rw [hcontent, List.append_assoc, List.take_append_drop]
          · rw [fillPlain, if_neg hdata, if_neg hfull]
            exact hfeeds io

theorem overText_false {n : ℕ} (h : env.textLimit isKey = 0 ∨ n ≤ env.textLimit isKey) :
    env.overText isKey n = false := by
  rcases h with h | h
  · simp [VisitEnv.overText, h]
  · simp [VisitEnv.overText, Nat.not_lt.mpr h]

/-- No byte of the text is beyond the total limit. -/
def VisitEnv.Roomy (env : VisitEnv) : Prop := ∀ left, env.tooLong left = false

theorem visitPlainChunk_feeds (v : Visitor υ) (hroom : env.Roomy) (left : ℕ) {decoded : ℕ}
    {span plain : Bytes}
    (hplain : plain.length < 256) (htext : env.overText isKey (decoded + span.length) = false) :
    ∃ chunks rest, chunks.flatten ++ rest = plain ++ span ∧ rest.length < 256 ∧
      Feeds v (chunkEvents isKey chunks) rest
        (visitPlainChunk env v isKey left span plain decoded) := by
  by_cases hspan : span = []
  · refine ⟨[], plain, by simp [hspan], hplain, fun io => ?_⟩
    rw [visitPlainChunk, if_pos hspan]
    rfl
  · by_cases hempty : plain = []
    · subst hempty
      refine ⟨[span], [], by simp, by simp, fun io => ?_⟩
      rw [visitPlainChunk, if_neg hspan, hroom, if_neg (by simp), htext, if_neg (by simp),
        if_pos rfl]
      exact Feeds.event _ io
    · obtain ⟨chunks, rest, hcontent, hrest, hfeeds⟩ :=
        fillPlain_feeds v isKey (Nat.lt_succ_self span.length) hplain
      refine ⟨chunks, rest, hcontent, hrest, fun io => ?_⟩
      rw [visitPlainChunk, if_neg hspan, hroom, if_neg (by simp), htext, if_neg (by simp),
        if_neg hempty]
      exact hfeeds io

theorem flushPlain_feeds (isKey : Bool) (plain : Bytes) {β : Type}
    {g : JsonIo υ → Except (JsonIo υ) (β × JsonIo υ)} {es : List VisitEvent} {y : β} (hg : Feeds v es y g) :
    ∃ chunks, chunks.flatten = plain ∧
      Feeds v (chunkEvents isKey chunks ++ es) y fun io => (flushPlain v isKey plain io).bind g := by
  by_cases hempty : plain = []
  · refine ⟨[], hempty.symm, fun io => ?_⟩
    dsimp only
    rw [flushPlain, if_pos hempty]
    exact hg io
  · refine ⟨[plain], by simp, fun io => ?_⟩
    dsimp only
    rw [flushPlain, if_neg hempty]
    exact hg.before _ io

theorem visitQuad_eq (hroom : env.Roomy) {message : String} {a b c d : Byte} {cp : ℕ}
    (hcp : decodeUnicodeQuad a b c d = some cp) (i : Text) (io : JsonIo υ) :
    visitQuad env message 4 0 (a :: b :: c :: d :: i) io = .ok (cp, i) := by
  obtain ⟨va, vb, vc, vd, ha, hb, hc, hd, rfl⟩ := decodeUnicodeQuad_eq_some.mp hcp
  simp [visitQuad, hroom _, ha, hb, hc, hd]

theorem visitUnicode_unit (hroom : env.Roomy) {a b c d : Byte} {cp : ℕ}
    (hcp : decodeUnicodeQuad a b c d = some cp) (hhigh : isHighSurrogate cp = false)
    (hlow : isLowSurrogate cp = false) (i : Text) (io : JsonIo υ) :
    visitUnicode env (a :: b :: c :: d :: i) io = .ok (cp, i) := by
  rw [visitUnicode, visitQuad_eq hroom hcp]
  simp [Except.bind, hhigh, hlow]

theorem visitUnicode_pair (hroom : env.Roomy) {a b c d a' b' c' d' : Byte} {hi lo : ℕ}
    (hhi : decodeUnicodeQuad a b c d = some hi) (hhigh : isHighSurrogate hi = true)
    (hlo : decodeUnicodeQuad a' b' c' d' = some lo) (hlow : isLowSurrogate lo = true) (i : Text)
    (io : JsonIo υ) :
    visitUnicode env (a :: b :: c :: d :: 0x5c :: 0x75 :: a' :: b' :: c' :: d' :: i) io =
      .ok (combineSurrogates hi lo, i) := by
  have hreads : (env.reads 0x5c (0x5c :: 0x75 :: a' :: b' :: c' :: d' :: i)).bind (env.reads 0x75) =
      some (a' :: b' :: c' :: d' :: i) := by
    simp [VisitEnv.reads, hroom _]
  rw [visitUnicode, visitQuad_eq hroom hhi]
  simp only [Except.bind, hhigh, if_true]
  rw [visitLow, hreads]
  simp only [visitQuad_eq hroom hlo, Except.bind, hlow, if_true]

theorem deliverEscape_feeds {data : Bytes} {decoded : ℕ} {i : Text}
    (htext : env.overText isKey (decoded + data.length) = false)
    {g : Text → ℕ → JsonIo υ → Except (JsonIo υ) (Text × JsonIo υ)} {es : List VisitEvent} {r : Text}
    (hg : Feeds v es r (g i (decoded + data.length))) :
    Feeds v (textChunk isKey data :: es) r fun io =>
      (deliverEscape env v isKey data decoded i io).bind fun x => g x.1 x.2.1 x.2.2 := by
  intro io
  dsimp only
  rw [deliverEscape, htext, if_neg (by simp), JsonIo.feed]
  cases io.visit v (textChunk isKey data) with
  | error _ => rfl
  | ok io => exact hg io

theorem simpleEscape_u : simpleEscape 0x75 = none := by
  simp [simpleEscape]

theorem visitEscape_simple (hroom : env.Roomy) {e ch : Byte} (he : simpleEscape e = some ch)
    (decoded : ℕ) (i : Text) (io : JsonIo υ) :
    visitEscape env v isKey decoded (e :: i) io = deliverEscape env v isKey [ch] decoded i io := by
  rw [visitEscape, hroom, if_neg (by simp), he]

theorem visitEscape_unicode (hroom : env.Roomy) {i j : Text} {cp : ℕ} {data : Bytes}
    {io : JsonIo υ} (hcp : visitUnicode env i io = .ok (cp, j)) (hdata : utf8Encode cp = some data)
    (decoded : ℕ) :
    visitEscape env v isKey decoded (0x75 :: i) io =
      deliverEscape env v isKey data decoded j io := by
  simp only [visitEscape, hroom _, Bool.false_eq_true, if_false, simpleEscape_u, if_true, hcp,
    Except.bind, hdata]

/-- What the loop does with a text that is shorter than `i`. -/
def LoopFeeds (env : VisitEnv) (v : Visitor υ) (isKey : Bool) (i r : Text)
    (loop : Text → Bytes → ℕ → JsonIo υ → Except (JsonIo υ) (Text × JsonIo υ)) : Prop :=
  ∀ (content j plain : Bytes) (decoded : ℕ), j.length < i.length → StringText content j r →
    plain.length < 256 →
    (env.textLimit isKey = 0 ∨ decoded + content.length ≤ env.textLimit isKey) →
    ∃ chunks, chunks.flatten = plain ++ content ∧
      Feeds v (chunkEvents isKey chunks ++ [textEnd isKey]) r (loop j plain decoded)

section

variable {loop : Text → Bytes → ℕ → JsonIo υ → Except (JsonIo υ) (Text × JsonIo υ)} {decoded : ℕ}

/-- An escape in front of a text that the loop delivers. -/
theorem visitTextByte_escape (hroom : env.Roomy) {data content plain i j r : Bytes}
    (htext : env.textLimit isKey = 0 ∨
      decoded + (data ++ content).length ≤ env.textLimit isKey)
    (hloop : LoopFeeds env v isKey (0x5c :: i) r loop) (hj : j.length ≤ i.length)
    (h : StringText content j r)
    (hvisit : ∀ io : JsonIo υ, visitEscape env v isKey decoded i io =
      deliverEscape env v isKey data decoded j io) :
    ∃ chunks, chunks.flatten = plain ++ (data ++ content) ∧
      Feeds v (chunkEvents isKey chunks ++ [textEnd isKey]) r
        (visitTextByte env v isKey loop decoded (0x5c :: i) plain) := by
  rw [List.length_append] at htext
  have hdata : env.overText isKey (decoded + data.length) = false :=
    overText_false (htext.imp id fun h => by omega)
  obtain ⟨more, hmore, hih⟩ := hloop content j [] (decoded + data.length)
    (Nat.lt_succ_of_le hj) h (by simp) (htext.imp id fun h => by omega)
  obtain ⟨chunks, hchunks, hflush⟩ := flushPlain_feeds isKey plain
    (deliverEscape_feeds hdata (g := fun i decoded => loop i [] decoded) hih)
  refine ⟨chunks ++ data :: more, ?_, fun io => ?_⟩
  · rw [List.flatten_append, hchunks, List.flatten_cons, hmore, List.nil_append]
  · rw [visitTextByte, hroom, if_neg (by simp), if_neg (by simp), if_neg (by simp),
      if_neg (by simp), chunkEvents, List.map_append, List.append_assoc]
    simp only [hvisit]
    exact hflush io

/-- A plain byte in front of a text that the loop delivers. -/
theorem visitTextByte_plain (hroom : env.Roomy) {content plain i r : Bytes} {b : Byte}
    (hb : isPlain b = true) (hplain : plain.length < 256)
    (htext : env.textLimit isKey = 0 ∨ decoded + (b :: content).length ≤ env.textLimit isKey)
    (hloop : LoopFeeds env v isKey (b :: i) r loop) (h : StringText content i r) :
    ∃ chunks, chunks.flatten = plain ++ b :: content ∧
      Feeds v (chunkEvents isKey chunks ++ [textEnd isKey]) r
        (visitTextByte env v isKey loop decoded (b :: i) plain) := by
  obtain ⟨hquote, hback, hcontrol⟩ := isPlain_iff.mp hb
  rw [List.length_cons] at htext
  have hdata : env.overText isKey (decoded + 1) = false :=
    overText_false (htext.imp id fun h => by omega)
  have hhere (io : JsonIo υ) : visitTextByte env v isKey loop decoded (b :: i) plain io =
      if (plain ++ [b]).length = 256 then
        (io.visit v (textChunk isKey (plain ++ [b]))).bind (loop i [] (decoded + 1))
      else loop i (plain ++ [b]) (decoded + 1) io := by
    rw [visitTextByte, hroom, if_neg (by simp), if_neg hquote, if_neg hcontrol, if_pos hback]
    dsimp only
    rw [hdata, if_neg (by simp)]
  by_cases hfull : (plain ++ [b]).length = 256
  · obtain ⟨more, hmore, hih⟩ := hloop content i [] (decoded + 1) (Nat.lt_succ_self _) h
      (by simp) (htext.imp id fun h => by omega)
    refine ⟨(plain ++ [b]) :: more, by simp [hmore], fun io => ?_⟩
    rw [hhere, if_pos hfull]
    exact hih.before _ io
  · have hshort : (plain ++ [b]).length < 256 := by
      rw [List.length_append] at *
      simp only [List.length_singleton] at *
      omega
    obtain ⟨more, hmore, hih⟩ := hloop content i (plain ++ [b]) (decoded + 1) (Nat.lt_succ_self _) h
      hshort (htext.imp id fun h => by omega)
    refine ⟨more, by simp [hmore], fun io => ?_⟩
    rw [hhere, if_neg hfull]
    exact hih io

/-- One byte or escape behind the plain span, when the loop delivers what comes behind it. -/
theorem visitTextByte_feeds (hroom : env.Roomy) {content i r plain : Bytes}
    (h : StringText content i r) (hplain : plain.length < 256)
    (htext : env.textLimit isKey = 0 ∨ decoded + content.length ≤ env.textLimit isKey)
    (hloop : LoopFeeds env v isKey i r loop) :
    ∃ chunks, chunks.flatten = plain ++ content ∧
      Feeds v (chunkEvents isKey chunks ++ [textEnd isKey]) r
        (visitTextByte env v isKey loop decoded i plain) := by
  cases h with
  | close =>
      obtain ⟨more, hmore, hflush⟩ := flushPlain_feeds isKey plain
        (Feeds.event (v := v) (x := r) (textEnd isKey))
      refine ⟨more, by rw [hmore, List.append_nil], fun io => ?_⟩
      rw [visitTextByte, hroom, if_neg (by simp), if_pos rfl]
      exact hflush io
  | plain hb h => exact visitTextByte_plain hroom hb hplain htext hloop h
  | escape he h =>
      exact visitTextByte_escape hroom htext hloop (Nat.le_succ _) h
        fun io => visitEscape_simple hroom he _ _ io
  | unit hcp hhigh hlow hdata h =>
      refine visitTextByte_escape hroom htext hloop (by simp only [List.length_cons]; omega) h
        fun io => ?_
      exact visitEscape_unicode hroom (visitUnicode_unit hroom hcp hhigh hlow _ io) hdata _
  | pair hhi hhigh hlo hlow hdata h =>
      refine visitTextByte_escape hroom htext hloop (by simp only [List.length_cons]; omega) h
        fun io => ?_
      exact visitEscape_unicode hroom (visitUnicode_pair hroom hhi hhigh hlo hlow _ io) hdata _

end

/-- A string is delivered up to its closing quote. -/
theorem visitText_feeds (hroom : env.Roomy) {n : ℕ} {content i r plain : Bytes} {decoded : ℕ}
    (hn : i.length < n) (h : StringText content i r) (hplain : plain.length < 256)
    (htext : env.textLimit isKey = 0 ∨ decoded + content.length ≤ env.textLimit isKey) :
    ∃ chunks, chunks.flatten = plain ++ content ∧
      Feeds v (chunkEvents isKey chunks ++ [textEnd isKey]) r
        (visitText env v isKey n i plain decoded) := by
  induction n generalizing content i plain decoded with
  | zero => omega
  | succ n ih =>
      obtain ⟨span, hspan⟩ : ∃ span, span = (i.take (env.window i.length)).takeWhile isPlain :=
        ⟨_, rfl⟩
      have hprefix : span <+: i := by
        rw [hspan]
        exact (List.takeWhile_prefix _).trans (List.take_prefix _ _)
      have htake : i.take span.length = span := (List.prefix_iff_eq_take.mp hprefix).symm
      have hbytes : ∀ b ∈ i.take span.length, isPlain b = true := by
        rw [htake, hspan]
        exact fun b hb => List.mem_takeWhile_imp hb
      obtain ⟨content, rfl, hrest⟩ := h.drop hbytes
      rw [htake] at htext ⊢
      have htext' (m : ℕ) (hm : m ≤ decoded + (span ++ content).length) :
          env.overText isKey m = false := overText_false (htext.imp id hm.trans)
      simp only [List.length_append] at htext htext'
      obtain ⟨chunks, plain', hcontent, hplain', hfeeds⟩ :=
        visitPlainChunk_feeds v hroom (i.length - span.length) hplain
          (htext' (decoded + span.length) (by omega))
      have hdrop : (i.drop span.length).length ≤ i.length := by
        rw [List.length_drop]
        exact Nat.sub_le _ _
      suffices hnext : ∃ more, more.flatten = plain' ++ content ∧
          Feeds v (chunkEvents isKey more ++ [textEnd isKey]) r
            (visitTextByte env v isKey (visitText env v isKey n) (decoded + span.length)
              (i.drop span.length) plain') by
        obtain ⟨more, hmore, hnext⟩ := hnext
        refine ⟨chunks ++ more, ?_, fun io => ?_⟩
        · rw [List.flatten_append, hmore, ← List.append_assoc, hcontent, List.append_assoc]
        · rw [visitText, ← hspan, chunkEvents, List.map_append, List.append_assoc]
          exact hfeeds.bind hnext io
      exact visitTextByte_feeds hroom hrest hplain'
        (htext.imp id fun h => by omega) fun _ _ _ _ hlen h hplain htext => ih (by omega) h hplain htext

/-! ## Trees are delivered -/

def withinText (limit : ℕ) (content : Bytes) : Bool := limit = 0 || content.length ≤ limit

mutual

/-- A tree inside `depth` containers that no limit of a visit cuts off. -/
def treeWithin (limits : ValueLimits) (depth : ℕ) : Tree → Bool
  | .null => true
  | .bool _ => true
  | .number lexeme => lexeme.length ≤ limits.maxNumberBytes
  | .string content => withinText limits.maxStringBytes content
  | .array ts => depth < limits.maxDepth && itemsWithin limits (depth + 1) ts
  | .object ms => depth < limits.maxDepth && membersWithin limits (depth + 1) ms
  | .raw _ => true

def itemsWithin (limits : ValueLimits) (depth : ℕ) : List Tree → Bool
  | [] => true
  | t :: ts => treeWithin limits depth t && itemsWithin limits depth ts

def membersWithin (limits : ValueLimits) (depth : ℕ) : List (Text × Tree) → Bool
  | [] => true
  | (key, t) :: ms =>
    withinText limits.maxKeyBytes key && treeWithin limits depth t && membersWithin limits depth ms

end

theorem visitString_feeds (isKey : Bool) (hroom : env.Roomy) {content i r : Bytes}
    (h : StringText content i r) (hwithin : withinText (env.textLimit isKey) content = true) :
    ∃ chunks, chunks.flatten = content ∧
      Feeds v (textBegin isKey :: (chunkEvents isKey chunks ++ [textEnd isKey])) r
        (visitString env v isKey i) := by
  have htext : env.textLimit isKey = 0 ∨ 0 + content.length ≤ env.textLimit isKey := by
    simpa [withinText] using hwithin
  obtain ⟨chunks, hchunks, hfeeds⟩ :=
    visitText_feeds (v := v) hroom (Nat.lt_succ_self i.length) h
      (show ([] : Bytes).length < 256 by simp) htext
  refine ⟨chunks, hchunks, ?_⟩
  exact hfeeds.before _

/-- No number goes on here. -/
def NumberEnds (r : Text) : Prop := ∀ b ∈ r.head?, isNumberByte b = false

theorem visitDigits_eq (hroom : env.Roomy) (io : JsonIo υ) {buffer more r : Bytes}
    (hmore : ∀ b ∈ more, isNumberByte b = true) (hr : NumberEnds r)
    (hlen : (buffer ++ more).length ≤ env.limits.maxNumberBytes) :
    visitDigits env io buffer (more ++ r) = .ok (buffer ++ more, r) := by
  induction more generalizing buffer with
  | nil =>
      rw [List.append_nil, List.nil_append]
      cases r with
      | nil => rfl
      | cons b r => rw [visitDigits, hr b (by simp), if_neg (by simp)]
  | cons b more ih =>
      rw [List.length_append, List.length_cons] at hlen
      rw [List.cons_append, visitDigits, hmore b (by simp), if_pos rfl, hroom, if_neg (by simp),
        if_neg (by omega), ih fun c hc => hmore c (by simp [hc])]
      · rw [List.append_assoc, List.singleton_append]
      · simp only [List.length_append, List.length_singleton]
        omega

theorem visitNumber_feeds (hroom : env.Roomy) {first : Byte} {more r : Bytes}
    (hnum : JsonNumber (first :: more)) (hr : NumberEnds r)
    (hlen : (first :: more).length ≤ env.limits.maxNumberBytes) :
    Feeds v [.numberBegin, .numberChunk (first :: more), .numberEnd] r
      (visitNumber env v first (more ++ r)) := by
  have hpos : ¬ 0 ≥ env.limits.maxNumberBytes := by
    simp only [List.length_cons] at hlen
    omega
  have hdigits (io : JsonIo υ) :
      visitDigits env io [first] (more ++ r) = .ok (first :: more, r) :=
    visitDigits_eq hroom io (fun b hb => hnum.bytes b (by simp [hb])) hr hlen
  have hvalid := (isValidJsonNumber_iff (first :: more)).mpr hnum
  apply Feeds.before
  intro io
  dsimp only
  rw [if_neg hpos, hdigits]
  dsimp only [Except.bind]
  rw [hvalid, if_pos rfl]
  exact (Feeds.event (v := v) (x := r) VisitEvent.numberEnd).before _ io

theorem visitLiteral_feeds (hroom : env.Roomy) (event : VisitEvent) (rest r : Text) :
    Feeds v [event] r (visitLiteral env v event rest (rest ++ r)) := by
  induction rest with
  | nil => exact Feeds.event event
  | cons c rest ih =>
      intro io
      rw [List.cons_append, visitLiteral, hroom, if_neg (by simp), if_pos rfl]
      exact ih io

theorem visitPeek_eq (hroom : env.Roomy) (io : JsonIo υ) {i r : Text} (h : Space i r)
    (hr : ∀ b ∈ r.head?, isJsonSpace b = false) : visitPeek env io i = .ok r := by
  induction h with
  | @done r =>
      cases r with
      | nil => rfl
      | cons b r => rw [visitPeek, hroom, if_neg (by simp), hr b (by simp), if_neg (by simp)]
  | skip hb _ ih =>
      rw [visitPeek, hroom, if_neg (by simp), ← isSpace_eq, if_pos hb]
      exact ih hr

theorem numberEnds_space {i r : Text} (h : Space i r) (hr : NumberEnds r) : NumberEnds i := by
  cases h with
  | done => exact hr
  | @skip b _ _ hb _ =>
      intro c hc
      obtain rfl : b = c := by simpa using hc
      revert hb
      simp only [Json.isSpace, isNumberByte, isDigit, Bool.or_eq_true, beq_iff_eq]
      rintro (((rfl | rfl) | rfl) | rfl) <;> decide

theorem chunkEvents_key (chunks : List Bytes) :
    chunkEvents true chunks = chunks.map VisitEvent.keyChunk := rfl

theorem chunkEvents_string (chunks : List Bytes) :
    chunkEvents false chunks = chunks.map VisitEvent.stringChunk := rfl

theorem visitKey_feeds (hroom : env.Roomy) {key i j k l : Bytes} (hi : Space i (0x22 :: j))
    (hkey : StringText key j k) (hk : Space k (0x3a :: l))
    (hwithin : withinText env.limits.maxKeyBytes key = true) :
    ∃ chunks : List Bytes, chunks.flatten = key ∧
      Feeds v (.keyBegin :: (chunks.map .keyChunk ++ [.keyEnd])) l (visitKey env v i) := by
  obtain ⟨chunks, hchunks, hfeeds⟩ :=
    visitString_feeds (v := v) true hroom hkey hwithin
  refine ⟨chunks, hchunks, fun io => ?_⟩
  have hcolon : Feeds v [] l (visitColon env k) := by
    intro io
    rw [visitColon, visitPeek_eq hroom io hk (by simp [isJsonSpace])]
    rfl
  rw [visitKey, visitPeek_eq hroom io hi (by simp [isJsonSpace])]
  have h := hfeeds.bind hcolon io
  rw [List.append_nil] at h
  exact h

/-- The first byte of a number starts nothing else. -/
theorem isNumberStart_only {b : Byte} (h : isNumberStart b = true) :
    isJsonSpace b = false ∧ b ≠ 0x22 ∧ b ≠ 0x7b ∧ b ≠ 0x5b ∧ b ≠ 0x74 ∧ b ≠ 0x66 ∧ b ≠ 0x6e := by
  refine ⟨?_, ?_, ?_, ?_, ?_, ?_, ?_⟩
  · by_contra hspace
    revert h
    simp only [isJsonSpace, Bool.not_eq_false, Bool.or_eq_true, beq_iff_eq] at hspace
    rcases hspace with ((rfl | rfl) | rfl) | rfl <;> decide
  all_goals
    rintro rfl
    revert h
    decide

theorem visitValue_number {n depth : ℕ} (hroom : env.Roomy) {num : Bytes} (hnum : JsonNumber num)
    {i r : Text} (hi : Space i (num ++ r)) (hr : NumberEnds r)
    (hlen : num.length ≤ env.limits.maxNumberBytes) :
    Feeds v [.numberBegin, .numberChunk num, .numberEnd] r (visitValue env v (n + 1) depth i) := by
  obtain ⟨first, more, rfl, hfirst⟩ := hnum.start
  obtain ⟨hspace, h₁, h₂, h₃, h₄, h₅, h₆⟩ := isNumberStart_only hfirst
  intro io
  rw [visitValue, visitPeek_eq hroom io hi (by simpa using hspace)]
  dsimp only [Except.bind, List.cons_append]
  rw [if_neg h₁, if_neg h₂, if_neg h₃, if_neg h₄, if_neg h₅, if_neg h₆, if_pos hfirst]
  exact visitNumber_feeds hroom hnum hr hlen io

theorem visitValue_object {n depth : ℕ} (hroom : env.Roomy) {i j r : Text}
    (hi : Space i (0x7b :: j)) (hdepth : depth < env.limits.maxDepth) {es : List VisitEvent}
    (h : Feeds v es r (visitMembers env v n depth true j)) :
    Feeds v (.objectBegin :: es) r (visitValue env v (n + 1) depth i) := by
  intro io
  rw [visitValue, visitPeek_eq hroom io hi (by simp [isJsonSpace])]
  dsimp only [Except.bind]
  rw [if_neg (by decide), if_pos rfl, if_neg (Nat.not_le.mpr hdepth)]
  exact h.before _ io

theorem visitValue_array {n depth : ℕ} (hroom : env.Roomy) {i j r : Text}
    (hi : Space i (0x5b :: j)) (hdepth : depth < env.limits.maxDepth) {es : List VisitEvent}
    (h : Feeds v es r (visitItems env v n depth true j)) :
    Feeds v (.arrayBegin :: es) r (visitValue env v (n + 1) depth i) := by
  intro io
  rw [visitValue, visitPeek_eq hroom io hi (by simp [isJsonSpace])]
  dsimp only [Except.bind]
  rw [if_neg (by decide), if_neg (by decide), if_pos rfl, if_neg (Nat.not_le.mpr hdepth)]
  exact h.before _ io

theorem visitMembers_close {n depth : ℕ} (hroom : env.Roomy) (first : Bool) {i r : Text}
    (hi : Space i (0x7d :: r)) :
    Feeds v [.objectEnd] r (visitMembers env v (n + 1) depth first i) := by
  intro io
  rw [visitMembers, visitPeek_eq hroom io hi (by simp [isJsonSpace])]
  exact Feeds.event _ io

theorem visitItems_close {n depth : ℕ} (hroom : env.Roomy) (first : Bool) {i r : Text}
    (hi : Space i (0x5d :: r)) :
    Feeds v [.arrayEnd] r (visitItems env v (n + 1) depth first i) := by
  intro io
  rw [visitItems, visitPeek_eq hroom io hi (by simp [isJsonSpace])]
  exact Feeds.event _ io

/-- Where a loop stands: before its first item, or before the comma of another one. -/
def LoopAt (first : Bool) (i j : Text) : Prop :=
  first = true ∧ i = j ∨ first = false ∧ Space i (0x2c :: j)

/-- A member and the rest of its object. -/
theorem visitMembers_step {n depth : ℕ} (hroom : env.Roomy) {first : Bool} {i j : Text}
    (hi : LoopAt first i j) {key k l m r x : Bytes} (hj : Space j (0x22 :: k))
    (hkey : StringText key k l) (hl : Space l (0x3a :: m))
    (hwithin : withinText env.limits.maxKeyBytes key = true) {es es' : List VisitEvent}
    (hvalue : Feeds v es x (visitValue env v n (depth + 1) m))
    (hrest : Feeds v es' r (visitMembers env v n depth false x)) :
    ∃ chunks : List Bytes, chunks.flatten = key ∧
      Feeds v (.keyBegin :: (chunks.map .keyChunk ++ (.keyEnd :: (es ++ es')))) r
        (visitMembers env v (n + 1) depth first i) := by
  obtain ⟨chunks, hchunks, hfeeds⟩ : ∃ chunks : List Bytes, chunks.flatten = key ∧
      Feeds v (.keyBegin :: (chunks.map .keyChunk ++ [.keyEnd])) m (visitKey env v j) :=
    visitKey_feeds hroom hj hkey hl hwithin
  refine ⟨chunks, hchunks, fun io => ?_⟩
  have hall := hfeeds.bind (g := fun m io =>
    (visitValue env v n (depth + 1) m io).bind fun y => visitMembers env v n depth false y.1 y.2)
    (hvalue.bind hrest) io
  rw [List.cons_append, List.append_assoc, List.singleton_append] at hall
  rcases hi with ⟨rfl, rfl⟩ | ⟨rfl, hi⟩
  · -- the key is peeked twice
    rw [visitMembers, visitPeek_eq hroom io hj (by simp [isJsonSpace])]
    dsimp only [Except.bind]
    rw [if_neg (by decide), if_neg (by simp), if_pos rfl]
    have hskip : visitKey env v (0x22 :: k) io = visitKey env v i io := by
      rw [visitKey, visitKey, visitPeek_eq hroom io hj (by simp [isJsonSpace]),
        visitPeek_eq hroom io .done (by simp [isJsonSpace])]
    rw [hskip]
    exact hall
  · rw [visitMembers, visitPeek_eq hroom io hi (by simp [isJsonSpace])]
    dsimp only [Except.bind]
    rw [if_neg (by decide), if_neg (by decide), if_neg (by simp)]
    exact hall

/-- An item and the rest of its array. -/
theorem visitItems_step {n depth : ℕ} (hroom : env.Roomy) {first : Bool} {i j : Text}
    (hi : LoopAt first i j) {b : Byte} {k r x : Bytes} (hj : Space j (b :: k))
    (hb : isJsonSpace b = false) (hclose : b ≠ 0x5d) {es es' : List VisitEvent}
    (hvalue : Feeds v es x (visitValue env v n (depth + 1) j))
    (hrest : Feeds v es' r (visitItems env v n depth false x)) :
    Feeds v (es ++ es') r (visitItems env v (n + 1) depth first i) := by
  intro io
  have hall := hvalue.bind hrest io
  rcases hi with ⟨rfl, rfl⟩ | ⟨rfl, hi⟩
  · rw [visitItems, visitPeek_eq hroom io hj (by simpa using hb)]
    dsimp only [Except.bind]
    rw [if_neg hclose, if_neg (by simp), if_pos rfl]
    have hskip : visitValue env v n (depth + 1) (b :: k) io =
        visitValue env v n (depth + 1) i io := by
      cases n with
      | zero => rfl
      | succ n =>
          rw [visitValue, visitValue, visitPeek_eq hroom io hj (by simpa using hb),
            visitPeek_eq hroom io .done (by simpa using hb)]
    rw [hskip]
    exact hall
  · rw [visitItems, visitPeek_eq hroom io hi (by simp [isJsonSpace])]
    dsimp only [Except.bind]
    rw [if_neg (by decide), if_neg (by decide), if_neg (by simp)]
    exact hall

/-- A value starts with a byte that is no blank and does not close an array. -/
theorem spells_head {L : Lexis} (hL : ∀ num, L.number num → JsonNumber num) {t : Tree}
    {i r : Text} (h : Spells L t i r) : ∃ b k, i = b :: k ∧ isJsonSpace b = false ∧ b ≠ 0x5d := by
  cases h with
  | number h =>
      obtain ⟨first, more, rfl, hfirst⟩ := (hL _ h).start
      refine ⟨first, more ++ r, rfl, ?_, ?_⟩
      · by_contra hspace
        revert hfirst
        simp only [isJsonSpace, Bool.not_eq_false, Bool.or_eq_true, beq_iff_eq] at hspace
        rcases hspace with ((rfl | rfl) | rfl) | rfl <;> decide
      · rintro rfl
        revert hfirst
        decide
  | _ => exact ⟨_, _, rfl, by decide, by decide⟩

theorem numberEnds_brace {r : Text} : NumberEnds (0x7d :: r) := by
  simp [NumberEnds, isNumberByte, isDigit]

theorem numberEnds_bracket {r : Text} : NumberEnds (0x5d :: r) := by
  simp [NumberEnds, isNumberByte, isDigit]

theorem numberEnds_comma {r : Text} : NumberEnds (0x2c :: r) := by
  simp [NumberEnds, isNumberByte, isDigit]

/-- A member takes up some text in front of its value. -/
theorem memberLength {j k l m x : Bytes} (hj : Space j (0x22 :: k))
    (hkey : l.length < k.length) (hl : Space l (0x3a :: m)) (hx : Space m x) :
    x.length + 3 ≤ j.length := by
  have h₁ := hj.length
  have h₃ := hl.length
  have h₄ := hx.length
  simp only [List.length_cons] at *
  omega

mutual

theorem visitValue_feeds (hroom : env.Roomy) {n depth : ℕ} {t : Tree} {i j r : Text}
    (hi : Space i j) (hr : NumberEnds r) (hwithin : treeWithin env.limits depth t = true)
    (hn : 2 * j.length < n) (h : Spells strictLexis t j r) :
    ∃ es, EventsOf env.limits.maxNumberBytes t es ∧ Feeds v es r (visitValue env v n depth i) := by
  obtain ⟨n, rfl⟩ : ∃ m, n = m + 1 := ⟨n - 1, by omega⟩
  match h with
  | .string h =>
      obtain ⟨chunks, rfl, hfeeds⟩ := visitString_feeds (v := v) false hroom h hwithin
      refine ⟨_, .string, fun io => ?_⟩
      rw [visitValue, visitPeek_eq hroom io hi (by simp [isJsonSpace])]
      exact hfeeds io
  | .number h =>
      have hlen := by simpa [treeWithin] using hwithin
      exact ⟨_, .number h hlen, visitValue_number hroom h hi hr hlen⟩
  | .true =>
      refine ⟨_, .bool, fun io => ?_⟩
      rw [visitValue, visitPeek_eq hroom io hi (by simp [Json.trueText, isJsonSpace])]
      exact visitLiteral_feeds hroom _ [0x72, 0x75, 0x65] r io
  | .false =>
      refine ⟨_, .bool, fun io => ?_⟩
      rw [visitValue, visitPeek_eq hroom io hi (by simp [Json.falseText, isJsonSpace])]
      exact visitLiteral_feeds hroom _ [0x61, 0x6c, 0x73, 0x65] r io
  | .null =>
      refine ⟨_, .null, fun io => ?_⟩
      rw [visitValue, visitPeek_eq hroom io hi (by simp [Json.nullText, isJsonSpace])]
      exact visitLiteral_feeds hroom _ [0x75, 0x6c, 0x6c] r io
  | @Spells.emptyObject _ j _ h =>
      simp only [treeWithin, Bool.and_eq_true, decide_eq_true_eq] at hwithin
      obtain ⟨m, rfl⟩ : ∃ m, n = m + 1 := ⟨n - 1, by simp only [List.length_cons] at hn; omega⟩
      exact ⟨_, .object .nil,
        visitValue_object hroom hi hwithin.1 (visitMembers_close hroom true h)⟩
  | @Spells.object _ ms j _ h =>
      simp only [treeWithin, Bool.and_eq_true, decide_eq_true_eq] at hwithin
      obtain ⟨es, hes, hfeeds⟩ := visitMembers_feeds hroom (.inl ⟨rfl, rfl⟩) hwithin.2
        (show 2 * j.length + 1 < n by simp only [List.length_cons] at hn; omega) h
      exact ⟨_, .object hes, visitValue_object hroom hi hwithin.1 hfeeds⟩
  | @Spells.emptyArray _ j _ h =>
      simp only [treeWithin, Bool.and_eq_true, decide_eq_true_eq] at hwithin
      obtain ⟨m, rfl⟩ : ∃ m, n = m + 1 := ⟨n - 1, by simp only [List.length_cons] at hn; omega⟩
      exact ⟨_, .array .nil,
        visitValue_array hroom hi hwithin.1 (visitItems_close hroom true h)⟩
  | @Spells.array _ ts j _ h =>
      simp only [treeWithin, Bool.and_eq_true, decide_eq_true_eq] at hwithin
      obtain ⟨es, hes, hfeeds⟩ := visitItems_feeds hroom (.inl ⟨rfl, rfl⟩) hwithin.2
        (show 2 * j.length + 1 < n by simp only [List.length_cons] at hn; omega) h
      exact ⟨_, .array hes, visitValue_array hroom hi hwithin.1 hfeeds⟩

theorem visitMembers_feeds (hroom : env.Roomy) {n depth : ℕ} {ms : List (Text × Tree)}
    {first : Bool} {i j r : Text} (hi : LoopAt first i j)
    (hwithin : membersWithin env.limits (depth + 1) ms = true) (hn : 2 * j.length + 1 < n)
    (h : SpellsMembers strictLexis ms j r) :
    ∃ es, EventsOfMembers env.limits.maxNumberBytes ms es ∧
      Feeds v (es ++ [.objectEnd]) r (visitMembers env v n depth first i) := by
  obtain ⟨n, rfl⟩ : ∃ m, n = m + 1 := ⟨n - 1, by omega⟩
  match h with
  | .last (.mk hj hkey hl (.mk hx hv hy)) =>
      simp only [membersWithin, Bool.and_eq_true, and_true] at hwithin
      have hlen := memberLength hj hkey.length hl hx
      have hpos := hv.length strictLexis_lawful
      obtain ⟨es, hes, hvalue⟩ := visitValue_feeds (n := n) hroom hx
        (numberEnds_space hy numberEnds_brace) hwithin.2 (by omega) hv
      obtain ⟨m, rfl⟩ : ∃ m, n = m + 1 := ⟨n - 1, by omega⟩
      obtain ⟨chunks, rfl, hfeeds⟩ := visitMembers_step hroom hi hj hkey hl hwithin.1 hvalue
        (visitMembers_close hroom false hy)
      refine ⟨_, .cons hes .nil, ?_⟩
      simpa using hfeeds
  | .cons (.mk hj hkey hl (.mk hx hv hy)) hs =>
      simp only [membersWithin, Bool.and_eq_true] at hwithin
      have hlen := memberLength hj hkey.length hl hx
      have hpos := hv.length strictLexis_lawful
      have hrest := hy.length
      rw [List.length_cons] at hrest
      obtain ⟨es, hes, hvalue⟩ := visitValue_feeds (n := n) hroom hx
        (numberEnds_space hy numberEnds_comma) hwithin.1.2 (by omega) hv
      obtain ⟨es', hes', hmore⟩ :=
        visitMembers_feeds (n := n) hroom (.inr ⟨rfl, hy⟩) hwithin.2 (by omega) hs
      obtain ⟨chunks, rfl, hfeeds⟩ :=
        visitMembers_step hroom hi hj hkey hl hwithin.1.1 hvalue hmore
      refine ⟨_, .cons hes hes', ?_⟩
      simpa using hfeeds

theorem visitItems_feeds (hroom : env.Roomy) {n depth : ℕ} {ts : List Tree}
    {first : Bool} {i j r : Text} (hi : LoopAt first i j)
    (hwithin : itemsWithin env.limits (depth + 1) ts = true) (hn : 2 * j.length + 1 < n)
    (h : SpellsItems strictLexis ts j r) :
    ∃ es, EventsOfItems env.limits.maxNumberBytes ts es ∧
      Feeds v (es ++ [.arrayEnd]) r (visitItems env v n depth first i) := by
  obtain ⟨n, rfl⟩ : ∃ m, n = m + 1 := ⟨n - 1, by omega⟩
  match h with
  | .last (.mk hx hv hy) =>
      simp only [itemsWithin, Bool.and_true] at hwithin
      have hlen := hx.length
      have hpos := hv.length strictLexis_lawful
      obtain ⟨es, hes, hvalue⟩ := visitValue_feeds (n := n) hroom hx
        (numberEnds_space hy numberEnds_bracket) hwithin (by omega) hv
      obtain ⟨m, rfl⟩ : ∃ m, n = m + 1 := ⟨n - 1, by omega⟩
      obtain ⟨b, k, rfl, hb, hclose⟩ := spells_head (fun _ h => h) hv
      refine ⟨_, .cons hes .nil, ?_⟩
      have hfeeds := visitItems_step hroom hi hx hb hclose hvalue (visitItems_close hroom false hy)
      simpa using hfeeds
  | .cons (.mk hx hv hy) hs =>
      simp only [itemsWithin, Bool.and_eq_true] at hwithin
      have hlen := hx.length
      have hpos := hv.length strictLexis_lawful
      have hrest := hy.length
      rw [List.length_cons] at hrest
      obtain ⟨es, hes, hvalue⟩ := visitValue_feeds (n := n) hroom hx
        (numberEnds_space hy numberEnds_comma) hwithin.1 (by omega) hv
      obtain ⟨es', hes', hmore⟩ :=
        visitItems_feeds (n := n) hroom (.inr ⟨rfl, hy⟩) hwithin.2 (by omega) hs
      obtain ⟨b, k, rfl, hb, hclose⟩ := spells_head (fun _ h => h) hv
      refine ⟨_, .cons hes hes', ?_⟩
      have hfeeds := visitItems_step hroom hi hx hb hclose hvalue hmore
      simpa using hfeeds

end

end

/-- The visit of a text makes the callbacks of the tree that the text spells. -/
theorem jsonVisit_spelled {env : VisitEnv} (v : Visitor υ) (hroom : env.Roomy) {t : Tree}
    {s : Text} (h : t.SpelledBy strictLexis s) (hwithin : treeWithin env.limits 0 t = true) :
    ∃ es, EventsOf env.limits.maxNumberBytes t es ∧ ∀ io, jsonVisit env v s io =
      match io.feed v es with
      | .ok io => io
      | .error io => io := by
  obtain ⟨hi, hv, hr⟩ := h
  obtain ⟨es, hes, hfeeds⟩ := visitValue_feeds (v := v) (n := 2 * s.length + 2) hroom hi
    (numberEnds_space hr (by simp [NumberEnds])) hwithin
    (by have := hi.length; omega) hv
  refine ⟨es, hes, fun io => ?_⟩
  rw [jsonVisit, hfeeds io]
  cases io.feed v es with
  | error _ => rfl
  | ok io =>
      dsimp only [Except.map]
      rw [visitPeek_eq hroom io hr (by simp)]

end Lonejson
