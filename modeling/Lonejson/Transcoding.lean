import Lonejson.Layout
import Lonejson.VisitorTrees

/-!
# What the transcoder writes

The transcoder lays out the tree of its text, with its strings and numbers as they are spelled,
and it fails only where an indentation is too deep for the code. Without blanks that is the text
without the blanks outside its strings.
-/

namespace Lonejson

open Json (Text Tree Lexis Layout Spells SpellsMembers SpellsMember SpellsItems SpellsElement Space
  Holds Descent Bracket Document compact compactFrom quoted itemsLaid membersLaid itemsFit
  membersFit commaUnless)

/-! ## Texts as they are spelled -/

/-- Strings are known as they are spelled. -/
def rawLexis : Lexis := ⟨fun content i r => i = content ++ 0x22 :: r ∧ CopyTail i r, JsonNumber⟩

theorem CopyTail.split {i r : Text} (h : CopyTail i r) :
    ∃ content, i = content ++ 0x22 :: r ∧
      compactFrom .inside i = content ++ 0x22 :: compact r ∧
      ∀ s, CopyTail (content ++ 0x22 :: s) s := by
  induction h with
  | close => exact ⟨[], rfl, Json.compact_close, fun s => .close⟩
  | @plain b i r hb _ ih =>
      obtain ⟨content, hi, hcompact, hagain⟩ := ih
      obtain ⟨hquote, hbackslash, -⟩ := isPlain_iff.mp hb
      refine ⟨b :: content, by rw [hi]; rfl, ?_, fun s => .plain hb (hagain s)⟩
      rw [Json.compact_inside hquote hbackslash, hcompact]
      rfl
  | @escape e ch i r he _ ih =>
      obtain ⟨content, hi, hcompact, hagain⟩ := ih
      refine ⟨0x5c :: e :: content, by rw [hi]; rfl, ?_, fun s => .escape he (hagain s)⟩
      rw [Json.compact_escape, hcompact]
      rfl
  | @unit a b c d cp i r hcp _ ih =>
      obtain ⟨content, hi, hcompact, hagain⟩ := ih
      obtain ⟨va, vb, vc, vd, ha, hb, hc, hd, -⟩ := decodeUnicodeQuad_eq_some.mp hcp
      refine ⟨0x5c :: 0x75 :: a :: b :: c :: d :: content, by rw [hi]; rfl, ?_,
        fun s => .unit hcp (hagain s)⟩
      rw [Json.compact_escape, Json.compact_inside (hexValue_solid ha).1 (hexValue_solid ha).2,
        Json.compact_inside (hexValue_solid hb).1 (hexValue_solid hb).2,
        Json.compact_inside (hexValue_solid hc).1 (hexValue_solid hc).2,
        Json.compact_inside (hexValue_solid hd).1 (hexValue_solid hd).2, hcompact]
      rfl

theorem rawLexis_split {content i r : Text} (h : rawLexis.string content i r) :
    compactFrom .inside i = content ++ 0x22 :: compact r ∧
      ∀ s, CopyTail (content ++ 0x22 :: s) s := by
  obtain ⟨hi, htail⟩ := h
  obtain ⟨content', hi', hcompact, hagain⟩ := htail.split
  obtain rfl : content = content' := List.append_cancel_right (hi.symm.trans hi')
  exact ⟨hcompact, hagain⟩

theorem rawLexis_requotes : rawLexis.Requotes id :=
  fun _ _ _ s h => ⟨rfl, (rawLexis_split h).2 s⟩

theorem isNumberByte_solid {b : Byte} (h : isNumberByte b = true) :
    Json.isSpace b = false ∧ b ≠ 0x22 := by
  constructor
  · by_contra hspace
    revert h
    simp only [Json.isSpace, Bool.not_eq_false, Bool.or_eq_true, beq_iff_eq] at hspace
    rcases hspace with ((rfl | rfl) | rfl) | rfl <;> decide
  · rintro rfl
    revert h
    decide

theorem rawLexis_solid : rawLexis.Solid id where
  string _ _ _ h := (rawLexis_split h).1
  number _ h b hb := isNumberByte_solid (h.bytes b hb)

theorem rawLexis_lawful : rawLexis.Lawful where
  string content i r h := by
    rw [h.1, List.length_append, List.length_cons]
    omega
  number _ h := by
    obtain ⟨b, more, rfl, -⟩ := JsonNumber.start h
    exact List.cons_ne_nil _ _

theorem rawLexis_covers : rawLexis.Covers (copyRules .none) where
  string _ _ _ h := by
    obtain ⟨content, hi, -⟩ := h.split
    exact ⟨content, hi, h⟩
  key _ _ _ h := by
    obtain ⟨content, hi, -⟩ := h.split
    exact ⟨content, hi, h⟩
  number _ h := h

/-! ## The layout of the transcoder -/

/-- The layout of a pretty text; an indentation is a `size_t`. -/
def prettyLayout (baseDepth : ℕ) : Layout where
  line d := 0x0a :: spaces ((baseDepth + d) * 2 % (sizeMax + 1))
  colon := [0x20]

def transcodeLayout (pretty : Bool) (baseDepth : ℕ) : Layout :=
  if pretty then prettyLayout baseDepth else .none

/-- The depths that `lonejson__json_emit_indent` takes. -/
def indentFits (pretty : Bool) (baseDepth d : ℕ) : Bool :=
  !pretty || decide (sizeAdd baseDepth d ≤ sizeMax / 2)

theorem transcodeLayout_blank (pretty : Bool) (baseDepth : ℕ) :
    (transcodeLayout pretty baseDepth).Blank := by
  cases pretty with
  | false =>
      constructor
      · exact fun _ _ hb => absurd hb List.not_mem_nil
      · exact fun _ hb => absurd hb List.not_mem_nil
  | true =>
      constructor
      · intro d b hb
        rcases List.mem_cons.mp hb with rfl | hb
        · rfl
        · rw [List.eq_of_mem_replicate hb]
          rfl
      · intro b hb
        rw [List.mem_singleton.mp hb]
        rfl

theorem indentRuns_flatten (fuel : ℕ) : ∀ n, n ≤ fuel * 64 →
    (indentRuns fuel n).flatten = spaces n := by
  induction fuel with
  | zero =>
      intro n hn
      obtain rfl : n = 0 := by omega
      rfl
  | succ fuel ih =>
      intro n hn
      rw [indentRuns]
      split_ifs with hlong hzero
      · obtain ⟨m, rfl⟩ : ∃ m, n = 64 + m := ⟨n - 64, by omega⟩
        rw [List.flatten_cons, ih _ (by omega), Nat.add_sub_cancel_left, spaces, spaces, spaces,
          ← List.replicate_add]
      · rw [List.flatten_singleton]
      · obtain rfl : n = 0 := by omega
        rfl

theorem indentPieces_flatten (depth : ℕ) :
    (indentPieces depth).flatten = 0x0a :: spaces (depth * 2) := by
  rw [indentPieces]
  split_ifs with hshort
  · rw [List.flatten_singleton]
  · obtain ⟨m, hm⟩ : ∃ m, depth * 2 = 64 + m := ⟨depth * 2 - 64, by omega⟩
    rw [List.flatten_cons, indentRuns_flatten _ _ (by omega), hm, Nat.add_sub_cancel_left,
      List.cons_append, spaces, spaces, spaces, ← List.replicate_add]

/-! ## Tokens -/

section

variable {τ : Type} {sink : Sink τ} {text : τ → Bytes}

/-- A run has failed in front of a line that is too deep, and written `out` up to it. -/
def CutAtLine (text : τ → Bytes) (out : Text) (io io' : JsonIo τ) : Prop :=
  io'.status = .overflow ∧ ∃ before behind, out = before ++ 0x0a :: behind ∧
    text io'.out = text io.out ++ before

/-- A run has written `out`, if what it had to write fits; else an indentation is too deep. -/
def WritesOut (text : τ → Bytes) (fit : Bool) (out : Text) (io : JsonIo τ)
    (x : Except (JsonIo τ) (JsonIo τ)) : Prop :=
  Holds (fun io' => fit = true ∧ text io'.out = text io.out ++ out)
    (fun io' => fit = false ∧ CutAtLine text out io io') x

/-- A part of the parser has read up to `r` and written `out`. -/
def Lays (text : τ → Bytes) (fit : Bool) (out r : Text) (io : JsonIo τ)
    (x : Except (JsonIo τ) (Text × JsonIo τ)) : Prop :=
  Holds (fun y => fit = true ∧ y.1 = r ∧ text y.2.out = text io.out ++ out ∧
      y.2.status.soft = true) (fun io' => fit = false ∧ CutAtLine text out io io') x

theorem CutAtLine.append {out : Text} {io io' : JsonIo τ} (h : CutAtLine text out io io')
    (out' : Text) : CutAtLine text (out ++ out') io io' := by
  obtain ⟨hstatus, before, behind, rfl, hout⟩ := h
  refine ⟨hstatus, before, behind ++ out', ?_, hout⟩
  rw [List.append_assoc, List.cons_append]

theorem CutAtLine.behind {out out' : Text} {io io' io'' : JsonIo τ}
    (h : CutAtLine text out' io' io'') (hio : text io'.out = text io.out ++ out) :
    CutAtLine text (out ++ out') io io'' := by
  obtain ⟨hstatus, before, behind, rfl, hout⟩ := h
  refine ⟨hstatus, out ++ before, behind, ?_, ?_⟩
  · rw [List.append_assoc]
  · rw [hout, hio, List.append_assoc]

theorem WritesOut.bind {fit fit' : Bool} {out out' r : Text} {io : JsonIo τ}
    {x : Except (JsonIo τ) (JsonIo τ)} {f : JsonIo τ → Except (JsonIo τ) (Text × JsonIo τ)}
    (h : WritesOut text fit out io x) (hf : ∀ io', Lays text fit' out' r io' (f io')) :
    Lays text (fit && fit') (out ++ out') r io (x.bind f) := by
  cases x with
  | error io' =>
      obtain ⟨hfit, hcut⟩ := h
      exact ⟨by rw [hfit, Bool.false_and], hcut.append out'⟩
  | ok io' =>
      obtain ⟨rfl, hout⟩ := h
      rw [Bool.true_and]
      apply ((hf io').imp_error fun e he => ?_).imp
      · rintro y ⟨hfit, hr, hy, hsoft⟩
        exact ⟨hfit, hr, by rw [hy, hout, List.append_assoc], hsoft⟩
      · exact ⟨he.1, he.2.behind hout⟩

theorem WritesOut.then {fit fit' : Bool} {out out' : Text} {io : JsonIo τ}
    {x : Except (JsonIo τ) (JsonIo τ)} {f : JsonIo τ → Except (JsonIo τ) (JsonIo τ)}
    (h : WritesOut text fit out io x) (hf : ∀ io', WritesOut text fit' out' io' (f io')) :
    WritesOut text (fit && fit') (out ++ out') io (x.bind f) := by
  cases x with
  | error io' =>
      obtain ⟨hfit, hcut⟩ := h
      exact ⟨by rw [hfit, Bool.false_and], hcut.append out'⟩
  | ok io' =>
      obtain ⟨rfl, hout⟩ := h
      rw [Bool.true_and]
      apply ((hf io').imp_error fun e he => ?_).imp
      · rintro io'' ⟨hfit, hy⟩
        exact ⟨hfit, by rw [hy, hout, List.append_assoc]⟩
      · exact ⟨he.1, he.2.behind hout⟩

theorem Lays.bind {fit fit' : Bool} {out out' r r' : Text} {io : JsonIo τ}
    {x : Except (JsonIo τ) (Text × JsonIo τ)}
    {f : Text × JsonIo τ → Except (JsonIo τ) (Text × JsonIo τ)}
    (h : Lays text fit out r io x) (hf : ∀ io', Lays text fit' out' r' io' (f (r, io'))) :
    Lays text (fit && fit') (out ++ out') r' io (x.bind f) := by
  cases x with
  | error io' =>
      obtain ⟨hfit, hcut⟩ := h
      exact ⟨by rw [hfit, Bool.false_and], hcut.append out'⟩
  | ok y =>
      obtain ⟨j, io'⟩ := y
      obtain ⟨rfl, rfl, hout, -⟩ := h
      rw [Bool.true_and]
      apply ((hf io').imp_error fun e he => ?_).imp
      · rintro y ⟨hfit, hr, hy, hsoft⟩
        exact ⟨hfit, hr, by rw [hy, hout, List.append_assoc], hsoft⟩
      · exact ⟨he.1, he.2.behind hout⟩

variable (hsink : sink.Appends text) (hreliable : sink.Reliable)
include hsink hreliable

theorem emit_lays (io : JsonIo τ) (data r : Bytes) :
    Lays text true data r io ((io.emit sink data).map (r, ·)) := by
  have hsoft := hreliable io.out data io.error
  have hemit : io.emit sink data = .ok (io.call sink data) := if_pos hsoft
  rw [hemit]
  exact ⟨rfl, rfl, hsink _ _ _ hsoft, hsoft⟩

theorem emit_writes (io : JsonIo τ) (data : Bytes) :
    WritesOut text true data io (io.emit sink data) := by
  have hsoft := hreliable io.out data io.error
  have hemit : io.emit sink data = .ok (io.call sink data) := if_pos hsoft
  rw [hemit]
  exact ⟨rfl, hsink _ _ _ hsoft⟩

theorem emitAll_writes (pieces : List Bytes) (io : JsonIo τ) :
    WritesOut text true pieces.flatten io (io.emitAll sink pieces) := by
  induction pieces generalizing io with
  | nil => exact ⟨rfl, (List.append_nil _).symm⟩
  | cons piece pieces ih =>
      rw [JsonIo.emitAll, List.flatten_cons]
      exact (emit_writes hsink hreliable io piece).then fun io' => ih io'

theorem emitIndent_writes (baseDepth d : ℕ) (io : JsonIo τ) :
    WritesOut text (indentFits true baseDepth d) ((prettyLayout baseDepth).line d) io
      (io.emitIndent sink (sizeAdd baseDepth d)) := by
  rw [JsonIo.emitIndent, indentFits]
  by_cases hfits : sizeAdd baseDepth d ≤ sizeMax / 2
  · have hdouble : sizeAdd baseDepth d * 2 = (baseDepth + d) * 2 % (sizeMax + 1) := by
      have hmax : sizeMax = 2 ^ 64 - 1 := rfl
      rw [sizeAdd, hmax] at hfits ⊢
      omega
    have hline : (indentPieces (sizeAdd baseDepth d)).flatten = (prettyLayout baseDepth).line d := by
      rw [indentPieces_flatten, prettyLayout, hdouble]
    rw [if_neg (by omega), decide_eq_true hfits, ← hline]
    exact emitAll_writes hsink hreliable _ io
  · rw [if_pos (by omega), decide_eq_false hfits]
    exact ⟨rfl, rfl, [], _, rfl, (List.append_nil _).symm⟩

/-- In front of an item. -/
theorem item_writes (ahead : Ahead) (pretty : Bool) (baseDepth : ℕ) (c : Bracket) (first : Bool)
    (d : ℕ) (io : JsonIo τ) :
    WritesOut text (indentFits pretty baseDepth (d + 1))
      (commaUnless first ++ (transcodeLayout pretty baseDepth).line (d + 1)) io
      ((transcoder sink ahead pretty baseDepth).item c first d io) := by
  have hcomma : WritesOut text true (commaUnless first) io
      (if first then .ok io else io.emit sink [0x2c]) := by
    cases first with
    | true => exact ⟨rfl, (List.append_nil _).symm⟩
    | false => exact emit_writes hsink hreliable io [0x2c]
  cases pretty with
  | false => exact hcomma.then fun io' => ⟨rfl, (List.append_nil _).symm⟩
  | true =>
      have hindent := hcomma.then fun io' =>
        emitIndent_writes hsink hreliable baseDepth (d + 1) io'
      rwa [Bool.true_and] at hindent

/-- The closing mark of a container, on a line of its own behind items. -/
theorem closing_lays (ahead : Ahead) (pretty : Bool) (baseDepth : ℕ) (c : Bracket)
    (first : Bool) (d : ℕ) (r : Text) (io : JsonIo τ) :
    Lays text (first || indentFits pretty baseDepth d)
      ((transcodeLayout pretty baseDepth).closing d first ++ [c.closing]) r io
      (((transcoder sink ahead pretty baseDepth).closing c first d io).map (r, ·)) := by
  have hmark (io' : JsonIo τ) := emit_lays hsink hreliable io' [c.closing] r
  have hindent : WritesOut text (first || indentFits pretty baseDepth d)
      ((transcodeLayout pretty baseDepth).closing d first) io
      (if pretty && !first then io.emitIndent sink (sizeAdd baseDepth d) else .ok io) := by
    cases first with
    | true =>
        rw [Bool.not_true, Bool.and_false]
        exact ⟨rfl, (List.append_nil _).symm⟩
    | false =>
        cases pretty with
        | false => exact ⟨rfl, (List.append_nil _).symm⟩
        | true => exact emitIndent_writes hsink hreliable baseDepth d io
  have hboth := hindent.bind hmark
  rw [Bool.and_true] at hboth
  change Lays _ _ _ _ _ (Except.map _ (Except.bind (if pretty && !first then _ else _) _))
  cases hx : (if pretty && !first then io.emitIndent sink (sizeAdd baseDepth d) else .ok io) with
  | error io' =>
      rw [hx] at hboth
      exact hboth
  | ok io' =>
      rw [hx] at hboth
      exact hboth

theorem colon_lays (ahead : Ahead) (pretty : Bool) (baseDepth : ℕ) (r : Text) (io : JsonIo τ) :
    Lays text true (0x3a :: (transcodeLayout pretty baseDepth).colon) r io
      (((transcoder sink ahead pretty baseDepth).colon io).map (r, ·)) := by
  have hcolon := emit_lays hsink hreliable io (if pretty then [0x3a, 0x20] else [0x3a]) r
  cases pretty with
  | false => exact hcolon
  | true => exact hcolon

omit hsink hreliable in
/-- A string that has been copied leaves `ok`. -/
theorem copyString_done (ahead : Ahead) (n : ℕ) : ∀ (i : Text) (io : JsonIo τ),
    Holds (fun x => x.2.status = .ok) (fun _ => True) (copyString sink ahead n i io) := by
  induction n with
  | zero => exact fun _ _ => trivial
  | succ n ih =>
      intro i io
      have hgo {σ : Type} {x : Except (JsonIo τ) σ} {f : σ → Except (JsonIo τ) (Text × JsonIo τ)}
          (hf : ∀ a, Holds (fun x => x.2.status = .ok) (fun _ => True) (f a)) :
          Holds (fun x => x.2.status = .ok) (fun _ => True) (x.bind f) := by
        cases x with
        | error io' => trivial
        | ok a => exact hf a
      rw [copyString.eq_def]
      dsimp only
      split
      · exact hgo fun io' => ih _ io'
      · cases i with
        | nil => trivial
        | cons ch i =>
            dsimp only
            split
            · trivial
            · apply hgo
              intro io'
              split
              · exact rfl
              · split
                · exact hgo fun x => ih x.1 x.2
                · exact ih i io'

theorem string_lays (ahead : Ahead) {content i r : Text} (h : rawLexis.string content i r)
    (io : JsonIo τ) :
    Lays text true (quoted id content) r io (jsonParseString sink ahead i io) := by
  obtain ⟨rfl, htail⟩ := h
  obtain ⟨q, hends⟩ := Json.Lexer.tail_iff_ends.mp ((copyTail_iff _ r).mpr htail)
  have hcopies := jsonParseString_appends hsink ahead (content ++ 0x22 :: r) io
  have hdone : Holds (fun x => x.2.status = .ok) (fun _ => True)
      (jsonParseString sink ahead (content ++ 0x22 :: r) io) := by
    rw [jsonParseString]
    cases io.emit sink [0x22] with
    | error io' => trivial
    | ok io' => exact copyString_done ahead _ _ io'
  cases hx : jsonParseString sink ahead (content ++ 0x22 :: r) io with
  | error io' =>
      rw [hx] at hcopies
      rcases hcopies with hunreliable | hnone
      · exact absurd hreliable hunreliable
      · exact absurd hends (hnone q r)
  | ok x =>
      obtain ⟨j, io'⟩ := x
      rw [hx] at hcopies hdone
      obtain ⟨body, q', hbody, hends', hout⟩ := hcopies
      obtain ⟨-, rfl⟩ := hends.unique hends'
      have hcontent : body ++ r = content ++ [0x22] ++ r := by
        rw [List.append_assoc]
        exact hbody.symm
      refine ⟨rfl, rfl, ?_, by rw [hdone]; rfl⟩
      rw [hout, List.append_cancel_right hcontent]
      rfl

theorem number_lays {first : Byte} {more r : Text} (hnum : JsonNumber (first :: more))
    (hr : NumberEnds r) (io : JsonIo τ) :
    Lays text true (first :: more) r io (jsonParseNumber sink first (more ++ r) io) := by
  have hmore : ∀ b ∈ more, isNumberByte b = true :=
    fun b hb => hnum.bytes b (List.mem_cons_of_mem _ hb)
  have htake : (more ++ r).takeWhile isNumberByte = more := by
    rw [List.takeWhile_append_of_pos hmore]
    cases r with
    | nil => rw [List.takeWhile_nil, List.append_nil]
    | cons b r =>
        have hb : isNumberByte b = false := hr b rfl
        rw [List.takeWhile_cons_of_neg (by simp [hb]), List.append_nil]
  have hdrop : (more ++ r).dropWhile isNumberByte = r := by
    rw [List.dropWhile_append_of_pos hmore]
    cases r with
    | nil => rfl
    | cons b r =>
        have hb : isNumberByte b = false := hr b rfl
        rw [List.dropWhile_cons_of_neg (by simp [hb])]
  have hvalid : isValidJsonNumber (first :: more) = true := (isValidJsonNumber_iff _).mpr hnum
  rw [jsonParseNumber, htake, hdrop, if_pos hvalid]
  exact emit_lays hsink hreliable io (first :: more) r

theorem literal_lays (first : Byte) (rest r : Text) (io : JsonIo τ) :
    Lays text true (first :: rest) r io (jsonParseLiteral sink first rest (rest ++ r) io) := by
  have hrest : ∀ io' : JsonIo τ, Lays text true rest r io' (copyLiteral sink rest (rest ++ r) io') := by
    induction rest with
    | nil => exact fun io' => ⟨rfl, rfl, (List.append_nil _).symm, rfl⟩
    | cons b rest ih =>
        intro io'
        rw [List.cons_append, copyLiteral, if_pos rfl]
        exact (emit_writes hsink hreliable io' [b]).bind fun io'' => ih io''
  exact (emit_writes hsink hreliable io [first]).bind hrest

/-! ## Values -/

omit hsink hreliable in
theorem dropSpace_of_space {i j : Text} (h : Space i j) (hj : ∀ b ∈ j.head?, Json.isSpace b = false) :
    Json.dropSpace i = j := by
  induction h with
  | @done r =>
      cases r with
      | nil => rfl
      | cons b r => rw [Json.dropSpace, hj b rfl, if_neg Bool.false_ne_true]
  | skip hb _ ih =>
      rw [Json.dropSpace, if_pos hb]
      exact ih hj

omit hsink hreliable in
theorem dropSpace_cons {i r : Text} {b : Byte} (h : Space i (b :: r)) (hb : Json.isSpace b = false) :
    Json.dropSpace i = b :: r :=
  dropSpace_of_space h fun c hc => by
    obtain rfl : b = c := by simpa using hc
    exact hb

/-- In front of an item, with a comma if it is not the first; `f` reads the item behind blanks. -/
theorem separator_lays (ahead : Ahead) (pretty : Bool) (baseDepth : ℕ) (c : Bracket)
    {first : Bool} (d : ℕ) {b : Byte} {i j k r out : Text} {fit : Bool} (h : LoopAt first i j)
    (hj : Space j (b :: k)) (hb : Json.isSpace b = false) (hclose : b ≠ c.closing)
    {f : Text × JsonIo τ → Except (JsonIo τ) (Text × JsonIo τ)}
    (hf : ∀ l io', Space l (b :: k) → Lays text fit out r io' (f (l, io'))) (io : JsonIo τ) :
    ∃ b' i', Json.dropSpace i = b' :: i' ∧ b' ≠ c.closing ∧
      Lays text (indentFits pretty baseDepth (d + 1) && fit)
        (commaUnless first ++ ((transcodeLayout pretty baseDepth).line (d + 1) ++ out)) r io
        (((transcoder sink ahead pretty baseDepth).separator c first d b' i' io).bind f) := by
  have hitem := item_writes hsink hreliable ahead pretty baseDepth c first d io
  have hgo {l : Text} (hl : Space l (b :: k)) :
      Lays text (indentFits pretty baseDepth (d + 1) && fit)
        (commaUnless first ++ ((transcodeLayout pretty baseDepth).line (d + 1) ++ out)) r io
        ((((transcoder sink ahead pretty baseDepth).item c first d io).map (l, ·)).bind f) := by
    have hnext := hitem.bind fun io' => hf l io' hl
    rw [List.append_assoc] at hnext
    cases hx : (transcoder sink ahead pretty baseDepth).item c first d io with
    | error io' =>
        rw [hx] at hnext
        exact hnext
    | ok io' =>
        rw [hx] at hnext
        exact hnext
  rcases h with ⟨rfl, rfl⟩ | ⟨rfl, hi⟩
  · refine ⟨b, k, dropSpace_cons hj hb, hclose, ?_⟩
    rw [Descent.separator, if_pos rfl]
    exact hgo .done
  · refine ⟨0x2c, j, dropSpace_cons hi rfl, by cases c <;> decide, ?_⟩
    rw [Descent.separator, if_neg Bool.false_ne_true, if_pos rfl]
    exact hgo hj

theorem key_lays (ahead : Ahead) (pretty : Bool) (baseDepth : ℕ) {key i j k l : Text}
    (hi : Space i (0x22 :: j)) (hkey : rawLexis.string key j k) (hk : Space k (0x3a :: l))
    (io : JsonIo τ) :
    Lays text true (quoted id key ++ 0x3a :: (transcodeLayout pretty baseDepth).colon) l io
      ((transcoder sink ahead pretty baseDepth).key i io) := by
  have hstring := string_lays hsink hreliable ahead hkey io
  have hcolon (io' : JsonIo τ) := colon_lays hsink hreliable ahead pretty baseDepth l io'
  rw [Descent.key, dropSpace_cons hi rfl]
  dsimp only
  rw [if_pos rfl]
  apply hstring.bind
  intro io'
  rw [dropSpace_cons hk rfl]
  dsimp only
  rw [if_pos rfl]
  exact hcolon io'

/-- A member and the rest of its object. -/
theorem member_lays (ahead : Ahead) (pretty : Bool) (baseDepth : ℕ) {first : Bool} {n d : ℕ}
    {i j k l m x r key out out' : Text} {fit fit' : Bool} (hi : LoopAt first i j)
    (hj : Space j (0x22 :: k)) (hkey : rawLexis.string key k l) (hl : Space l (0x3a :: m))
    (hvalue : ∀ io : JsonIo τ, Lays text fit out x io
      ((transcoder sink ahead pretty baseDepth).value n (d + 1) m io))
    (hrest : ∀ io : JsonIo τ, Lays text fit' out' r io
      ((transcoder sink ahead pretty baseDepth).members n d false x io)) (io : JsonIo τ) :
    Lays text (indentFits pretty baseDepth (d + 1) && (fit && fit'))
      (commaUnless first ++ ((transcodeLayout pretty baseDepth).line (d + 1) ++ (quoted id key ++
        0x3a :: ((transcodeLayout pretty baseDepth).colon ++ (out ++ out'))))) r io
      ((transcoder sink ahead pretty baseDepth).members (n + 1) d first i io) := by
  obtain ⟨b', i', hdrop, hclose, hlays⟩ := separator_lays hsink hreliable ahead pretty baseDepth
    .object d hi hj rfl (by decide)
    (f := fun x => ((transcoder sink ahead pretty baseDepth).key x.1 x.2).bind fun y =>
      ((transcoder sink ahead pretty baseDepth).value n (d + 1) y.1 y.2).bind fun z =>
        (transcoder sink ahead pretty baseDepth).members n d false z.1 z.2)
    (fun l' io' hl' =>
      (key_lays hsink hreliable ahead pretty baseDepth hl' hkey hl io').bind fun io'' =>
        (hvalue io'').bind hrest) io
  rw [Descent.members, hdrop]
  dsimp only
  rw [if_neg (by exact hclose)]
  rw [Bool.true_and, List.append_assoc (quoted id key), List.cons_append] at hlays
  exact hlays

/-- An item and the rest of its array. -/
theorem item_lays (ahead : Ahead) (pretty : Bool) (baseDepth : ℕ) {first : Bool} {n d : ℕ}
    {b : Byte} {i j k x r out out' : Text} {fit fit' : Bool} (hi : LoopAt first i j)
    (hj : Space j (b :: k)) (hb : Json.isSpace b = false) (hclose : b ≠ 0x5d)
    (hvalue : ∀ l (io : JsonIo τ), Space l (b :: k) → Lays text fit out x io
      ((transcoder sink ahead pretty baseDepth).value n (d + 1) l io))
    (hrest : ∀ io : JsonIo τ, Lays text fit' out' r io
      ((transcoder sink ahead pretty baseDepth).items n d false x io)) (io : JsonIo τ) :
    Lays text (indentFits pretty baseDepth (d + 1) && (fit && fit'))
      (commaUnless first ++ ((transcodeLayout pretty baseDepth).line (d + 1) ++ (out ++ out')))
      r io ((transcoder sink ahead pretty baseDepth).items (n + 1) d first i io) := by
  obtain ⟨b', i', hdrop, hclose', hlays⟩ := separator_lays hsink hreliable ahead pretty baseDepth
    .array d hi hj hb hclose
    (f := fun x => ((transcoder sink ahead pretty baseDepth).value n (d + 1) x.1 x.2).bind fun y =>
      (transcoder sink ahead pretty baseDepth).items n d false y.1 y.2)
    (fun l io' hl => (hvalue l io' hl).bind hrest) io
  rw [Descent.items, hdrop]
  dsimp only
  rw [if_neg (by exact hclose')]
  exact hlays

/-- The end of an object. -/
theorem membersEnd_lays (ahead : Ahead) (pretty : Bool) (baseDepth n d : ℕ) (first : Bool)
    {i r : Text} (hi : Space i (0x7d :: r)) (io : JsonIo τ) :
    Lays text (membersFit (indentFits pretty baseDepth) d first [])
      (membersLaid (transcodeLayout pretty baseDepth) id d first [] ++ [0x7d]) r io
      ((transcoder sink ahead pretty baseDepth).members (n + 1) d first i io) := by
  rw [Descent.members, dropSpace_cons hi rfl]
  dsimp only
  rw [if_pos rfl]
  exact closing_lays hsink hreliable ahead pretty baseDepth .object first d r io

theorem itemsEnd_lays (ahead : Ahead) (pretty : Bool) (baseDepth n d : ℕ) (first : Bool)
    {i r : Text} (hi : Space i (0x5d :: r)) (io : JsonIo τ) :
    Lays text (itemsFit (indentFits pretty baseDepth) d first [])
      (itemsLaid (transcodeLayout pretty baseDepth) id d first [] ++ [0x5d]) r io
      ((transcoder sink ahead pretty baseDepth).items (n + 1) d first i io) := by
  rw [Descent.items, dropSpace_cons hi rfl]
  dsimp only
  rw [if_pos rfl]
  exact closing_lays hsink hreliable ahead pretty baseDepth .array first d r io

mutual

theorem value_lays (ahead : Ahead) (pretty : Bool) (baseDepth : ℕ) {n d : ℕ} {t : Tree}
    {i j r : Text} (hi : Space i j) (hr : NumberEnds r) (hn : 2 * j.length < n)
    (h : Spells rawLexis t j r) (io : JsonIo τ) :
    Lays text (t.linesFit (indentFits pretty baseDepth) d)
      (t.laid (transcodeLayout pretty baseDepth) id d) r io
      ((transcoder sink ahead pretty baseDepth).value n d i io) := by
  obtain ⟨n, rfl⟩ : ∃ m, n = m + 1 := ⟨n - 1, by omega⟩
  have hdrop {b : Byte} {k : Text} (hj : j = b :: k) (hb : Json.isSpace b = false) :
      Json.dropSpace i = b :: k := dropSpace_cons (hj ▸ hi) hb
  match h with
  | .string hstring =>
      rw [Descent.value, hdrop rfl rfl]
      exact string_lays hsink hreliable ahead hstring io
  | .number hnum =>
      obtain ⟨first, more, rfl, hfirst⟩ := JsonNumber.start hnum
      obtain ⟨hspace, h₁, h₂, h₃, h₄, h₅, h₆⟩ := isNumberStart_only hfirst
      have hlays := number_lays hsink hreliable hnum hr io
      rw [Descent.value, hdrop rfl (by rw [isSpace_eq]; exact hspace)]
      dsimp only
      rw [if_neg h₁, if_neg h₂, if_neg h₃, if_neg h₄, if_neg h₅, if_neg h₆]
      change Lays _ _ _ _ _ (if isNumberStart first then _ else _)
      rw [if_pos hfirst]
      exact hlays
  | .true =>
      rw [Descent.value, hdrop rfl rfl]
      exact literal_lays hsink hreliable 0x74 [0x72, 0x75, 0x65] r io
  | .false =>
      rw [Descent.value, hdrop rfl rfl]
      exact literal_lays hsink hreliable 0x66 [0x61, 0x6c, 0x73, 0x65] r io
  | .null =>
      rw [Descent.value, hdrop rfl rfl]
      exact literal_lays hsink hreliable 0x6e [0x75, 0x6c, 0x6c] r io
  | .emptyObject hspace =>
      obtain ⟨n, rfl⟩ : ∃ m, n = m + 1 := ⟨n - 1, by rw [List.length_cons] at hn; omega⟩
      rw [Descent.value, hdrop rfl rfl]
      exact (emit_writes hsink hreliable io [0x7b]).bind fun io' =>
        membersEnd_lays hsink hreliable ahead pretty baseDepth n d true hspace io'
  | .object hms =>
      rw [Descent.value, hdrop rfl rfl]
      exact (emit_writes hsink hreliable io [0x7b]).bind fun io' =>
        members_lays ahead pretty baseDepth (.inl ⟨rfl, rfl⟩)
          (by rw [List.length_cons] at hn; omega) hms io'
  | .emptyArray hspace =>
      obtain ⟨n, rfl⟩ : ∃ m, n = m + 1 := ⟨n - 1, by rw [List.length_cons] at hn; omega⟩
      rw [Descent.value, hdrop rfl rfl]
      exact (emit_writes hsink hreliable io [0x5b]).bind fun io' =>
        itemsEnd_lays hsink hreliable ahead pretty baseDepth n d true hspace io'
  | .array hts =>
      rw [Descent.value, hdrop rfl rfl]
      exact (emit_writes hsink hreliable io [0x5b]).bind fun io' =>
        items_lays ahead pretty baseDepth (.inl ⟨rfl, rfl⟩)
          (by rw [List.length_cons] at hn; omega) hts io'

/-- The members of an object, of which the first one is in `j`. -/
theorem members_lays (ahead : Ahead) (pretty : Bool) (baseDepth : ℕ) {n d : ℕ} {first : Bool}
    {ms : List (Text × Tree)} {i j r : Text} (hi : LoopAt first i j)
    (hn : 2 * j.length + 1 < n) (h : SpellsMembers rawLexis ms j r) (io : JsonIo τ) :
    Lays text (membersFit (indentFits pretty baseDepth) d first ms)
      (membersLaid (transcodeLayout pretty baseDepth) id d first ms ++ [0x7d]) r io
      ((transcoder sink ahead pretty baseDepth).members n d first i io) := by
  obtain ⟨n, rfl⟩ : ∃ m, n = m + 1 := ⟨n - 1, by omega⟩
  match h with
  | .last (m := (key, t)) (.mk hj hkey hl (.mk hm hv hx)) =>
      have hlen := memberLength hj (rawLexis_lawful.string _ _ _ hkey) hl hm
      have hpos := hv.length rawLexis_lawful
      obtain ⟨n, rfl⟩ : ∃ m, n = m + 1 := ⟨n - 1, by omega⟩
      have hvalue (io' : JsonIo τ) := value_lays ahead pretty baseDepth (n := n + 1) (d := d + 1) hm
        (numberEnds_space hx numberEnds_brace) (by omega) hv io'
      have hend (io' : JsonIo τ) :=
        membersEnd_lays hsink hreliable ahead pretty baseDepth n d false hx io'
      have hmember := member_lays hsink hreliable ahead pretty baseDepth hi hj hkey hl hvalue hend io
      simpa [membersLaid, membersFit] using hmember
  | .cons (m := (key, t)) (.mk hj hkey hl (.mk hm hv hx)) hms =>
      have hlen := memberLength hj (rawLexis_lawful.string _ _ _ hkey) hl hm
      have hpos := hv.length rawLexis_lawful
      have hcomma := hx.length
      rw [List.length_cons] at hcomma
      have hvalue (io' : JsonIo τ) := value_lays ahead pretty baseDepth (n := n) (d := d + 1) hm
        (numberEnds_space hx numberEnds_comma) (by omega) hv io'
      have hrest (io' : JsonIo τ) := members_lays ahead pretty baseDepth (n := n) (d := d)
        (.inr ⟨rfl, hx⟩) (by omega) hms io'
      have hmember := member_lays hsink hreliable ahead pretty baseDepth hi hj hkey hl hvalue hrest io
      simpa [membersLaid, membersFit] using hmember

/-- The items of an array, of which the first one is in `j`. -/
theorem items_lays (ahead : Ahead) (pretty : Bool) (baseDepth : ℕ) {n d : ℕ} {first : Bool}
    {ts : List Tree} {i j r : Text} (hi : LoopAt first i j) (hn : 2 * j.length + 1 < n)
    (h : SpellsItems rawLexis ts j r) (io : JsonIo τ) :
    Lays text (itemsFit (indentFits pretty baseDepth) d first ts)
      (itemsLaid (transcodeLayout pretty baseDepth) id d first ts ++ [0x5d]) r io
      ((transcoder sink ahead pretty baseDepth).items n d first i io) := by
  obtain ⟨n, rfl⟩ : ∃ m, n = m + 1 := ⟨n - 1, by omega⟩
  match h with
  | .last (t := t) (.mk hj hv hx) =>
      have hlen := hj.length
      have hpos := hv.length rawLexis_lawful
      obtain ⟨b, k, rfl, hb, hclose⟩ := spells_head (fun _ h => h) hv
      obtain ⟨n, rfl⟩ : ∃ m, n = m + 1 := ⟨n - 1, by omega⟩
      have hvalue (l : Text) (io' : JsonIo τ) (hl : Space l (b :: k)) :=
        value_lays ahead pretty baseDepth (n := n + 1) (d := d + 1) hl
          (numberEnds_space hx numberEnds_bracket) (by omega) hv io'
      have hend (io' : JsonIo τ) :=
        itemsEnd_lays hsink hreliable ahead pretty baseDepth n d false hx io'
      have hitem := item_lays hsink hreliable ahead pretty baseDepth hi hj
        (by rw [isSpace_eq]; exact hb) hclose hvalue hend io
      simpa [itemsLaid, itemsFit] using hitem
  | .cons (t := t) (.mk hj hv hx) hts =>
      have hlen := hj.length
      have hpos := hv.length rawLexis_lawful
      have hcomma := hx.length
      rw [List.length_cons] at hcomma
      obtain ⟨b, k, rfl, hb, hclose⟩ := spells_head (fun _ h => h) hv
      have hvalue (l : Text) (io' : JsonIo τ) (hl : Space l (b :: k)) :=
        value_lays ahead pretty baseDepth (n := n) (d := d + 1) hl
          (numberEnds_space hx numberEnds_comma) (by omega) hv io'
      have hrest (io' : JsonIo τ) := items_lays ahead pretty baseDepth (n := n) (d := d)
        (.inr ⟨rfl, hx⟩) (by omega) hts io'
      have hitem := item_lays hsink hreliable ahead pretty baseDepth hi hj
        (by rw [isSpace_eq]; exact hb) hclose hvalue hrest io
      simpa [itemsLaid, itemsFit] using hitem

end

/-- A whole text: it is laid out, unless an indentation is too deep. -/
theorem transcode_lays (ahead : Ahead) (pretty : Bool) (baseDepth : ℕ) {t : Tree} {v : Text}
    (h : t.SpelledBy rawLexis v) (io : JsonIo τ) :
    (t.linesFit (indentFits pretty baseDepth) 0 = true ∧
      (jsonTranscodeCursor sink ahead pretty baseDepth v io).status.soft = true ∧
      text (jsonTranscodeCursor sink ahead pretty baseDepth v io).out =
        text io.out ++ t.laid (transcodeLayout pretty baseDepth) id 0) ∨
    (t.linesFit (indentFits pretty baseDepth) 0 = false ∧
      CutAtLine text (t.laid (transcodeLayout pretty baseDepth) id 0) io
        (jsonTranscodeCursor sink ahead pretty baseDepth v io)) := by
  obtain ⟨hi, ht, hk⟩ := h
  have hend : NumberEnds [] := nofun
  have hlength := hi.length
  have hlays := value_lays hsink hreliable ahead pretty baseDepth (n := 2 * v.length + 1) (d := 0) hi
    (numberEnds_space hk hend) (by omega) ht io
  rw [jsonTranscodeCursor, jsonParseValue]
  cases hx : (transcoder sink ahead pretty baseDepth).value (2 * v.length + 1) 0 v io with
  | error io' =>
      rw [hx] at hlays
      exact .inr hlays
  | ok x =>
      obtain ⟨r, io'⟩ := x
      rw [hx] at hlays
      obtain ⟨hfit, rfl, hout, hsoft⟩ := hlays
      dsimp only
      rw [if_pos (dropSpace_of_space hk nofun)]
      exact .inl ⟨hfit, hsoft, hout⟩

end

/-! ## Compact and pretty texts -/

theorem linesFit_compact (baseDepth : ℕ) : indentFits false baseDepth = fun _ => true := rfl

mutual

theorem linesFit_all (d : ℕ) : (t : Tree) → t.linesFit (fun _ => true) d = true
  | .null | .bool _ | .number _ | .string _ | .raw _ => rfl
  | .array items => itemsFit_all d true items
  | .object members => membersFit_all d true members

theorem itemsFit_all (d : ℕ) (first : Bool) : (ts : List Tree) →
    itemsFit (fun _ => true) d first ts = true
  | [] => Bool.or_true first
  | t :: ts => by rw [itemsFit, linesFit_all (d + 1) t, itemsFit_all d false ts]; rfl

theorem membersFit_all (d : ℕ) (first : Bool) : (ms : List (Text × Tree)) →
    membersFit (fun _ => true) d first ms = true
  | [] => Bool.or_true first
  | (_, t) :: ms => by rw [membersFit, linesFit_all (d + 1) t, membersFit_all d false ms]; rfl

end

/-- The run has succeeded and written `out`. -/
def JsonIo.Wrote {τ : Type} (text : τ → Bytes) (io : JsonIo τ) (out : Text) (io' : JsonIo τ) :
    Prop :=
  io'.status.soft = true ∧ text io'.out = text io.out ++ out

/-- The compact run writes `v` without the blanks outside its strings, and so does a compact run
over what the pretty run writes. -/
def TranscodesAlike (baseDepth : ℕ) (v : Text) : Prop :=
  ∀ (τ : Type) (sink : Sink τ) (text : τ → Bytes), sink.Appends text → sink.Reliable →
    ∀ (ahead : Ahead) (io : JsonIo τ),
      io.Wrote text (compact v) (jsonTranscodeCursor sink ahead false baseDepth v io) ∧
      ∃ p, io.Wrote text p (jsonTranscodeCursor sink ahead true baseDepth v io) ∧
        ∀ (ahead' : Ahead) (baseDepth' : ℕ) (io' : JsonIo τ),
          io'.Wrote text (compact v) (jsonTranscodeCursor sink ahead' false baseDepth' p io')

section

variable {τ : Type} {sink : Sink τ} {text : τ → Bytes} (hsink : sink.Appends text)
  (hreliable : sink.Reliable)
include hsink hreliable

theorem compact_wrote (ahead : Ahead) (baseDepth : ℕ) {t : Tree} {v : Text}
    (h : t.SpelledBy rawLexis v) (io : JsonIo τ) :
    io.Wrote text (compact v) (jsonTranscodeCursor sink ahead false baseDepth v io) := by
  have hlaid : t.laid (transcodeLayout false baseDepth) id 0 = compact v := by
    rw [h.compact_eq rawLexis_solid]
    exact t.laid_none id 0
  rcases transcode_lays hsink hreliable ahead false baseDepth h io with ⟨-, hwrote⟩ | ⟨hfit, -⟩
  · rwa [hlaid] at hwrote
  · rw [linesFit_compact, linesFit_all] at hfit
    cases hfit

end

/-- Compact and pretty runs write the same text up to blanks, for every text of the grammar; a
pretty run fails where it has to indent deeper than half of a `size_t`. -/
theorem transcodes_alike (v : Text) (hv : Document (copyRules .none) v) (baseDepth : ℕ) :
    (∃ t : Tree, t.SpelledBy rawLexis v) ∧ ∀ t : Tree, t.SpelledBy rawLexis v →
      (t.linesFit (indentFits true baseDepth) 0 = true → TranscodesAlike baseDepth v) ∧
      (t.linesFit (indentFits true baseDepth) 0 = false →
        ∀ (τ : Type) (sink : Sink τ) (text : τ → Bytes), sink.Appends text → sink.Reliable →
          ∀ (ahead : Ahead) (io : JsonIo τ),
            io.Wrote text (compact v) (jsonTranscodeCursor sink ahead false baseDepth v io) ∧
            (jsonTranscodeCursor sink ahead true baseDepth v io).status = .overflow) := by
  refine ⟨rawLexis_covers.document hv, fun t ht => ⟨fun hfit => ?_, fun hfit => ?_⟩⟩
  · intro τ sink text hsink hreliable ahead io
    refine ⟨compact_wrote hsink hreliable ahead baseDepth ht io, ?_⟩
    rcases transcode_lays hsink hreliable ahead true baseDepth ht io with ⟨-, hwrote⟩ | ⟨hno, -⟩
    · refine ⟨_, hwrote, fun ahead' baseDepth' io' => ?_⟩
      have hagain := ht.laid rawLexis_requotes (transcodeLayout_blank true baseDepth) 0
      have hcompact := compact_wrote hsink hreliable ahead' baseDepth' hagain io'
      rwa [hagain.compact_eq rawLexis_solid, ← ht.compact_eq rawLexis_solid] at hcompact
    · rw [hfit] at hno
      cases hno
  · intro τ sink text hsink hreliable ahead io
    refine ⟨compact_wrote hsink hreliable ahead baseDepth ht io, ?_⟩
    rcases transcode_lays hsink hreliable ahead true baseDepth ht io with ⟨hyes, -⟩ | ⟨-, hcut⟩
    · rw [hfit] at hyes
      cases hyes
    · exact hcut.1

/-- `[ 1 ,{ } ]`, inside three levels. -/
theorem transcodes_alike_array :
    TranscodesAlike 3 [0x5b, 0x20, 0x31, 0x20, 0x2c, 0x7b, 0x20, 0x7d, 0x20, 0x5d] := by
  have hnumber : JsonNumber [0x31] := (isValidJsonNumber_iff _).mp (by decide)
  have hfirst := @Spells.number rawLexis [0x31] [0x20, 0x2c, 0x7b, 0x20, 0x7d, 0x20, 0x5d] hnumber
  have hspells : (Tree.array [.number [0x31], .object []]).SpelledBy rawLexis
      [0x5b, 0x20, 0x31, 0x20, 0x2c, 0x7b, 0x20, 0x7d, 0x20, 0x5d] :=
    .mk .done (.array (.cons (.mk (.skip rfl .done) hfirst (.skip rfl .done))
      (.last (.mk .done (.emptyObject (.skip rfl .done)) (.skip rfl .done))))) .done
  exact ((transcodes_alike _ (by decide) 3).2 _ hspells).1 (by decide)

/-- At half of a `size_t` the pretty run of an array with an item fails. -/
theorem transcodes_alike_deep :
    ¬ ∀ (v : Text) (baseDepth : ℕ), Document (copyRules .none) v → TranscodesAlike baseDepth v := by
  intro h
  have hsink : collectSink.Appends id := fun _ _ _ _ => rfl
  have hreliable : collectSink.Reliable := fun _ _ _ => rfl
  obtain ⟨-, p, ⟨hsoft, -⟩, -⟩ :=
    h [0x5b, 0x31, 0x5d] (2 ^ 63) (by decide) Bytes collectSink id hsink hreliable id { out := [] }
  exact absurd hsoft (by decide)

end Lonejson
