import Lonejson.Trees

/-!
# Laid out texts

The text of a tree with blanks in front of its items and behind its colons, and what is left
of a text when the blanks outside its strings are taken away: a laid out text spells its tree,
and without its blanks it is the compact one.
-/

namespace Json

/-! ## Blanks -/

/-- Where a byte stands that is looked at in a text. -/
inductive Scan where
  | outside
  | inside
  | escaped

/-- What is left of a text without the blanks outside its strings. -/
def compactFrom : Scan → Text → Text
  | _, [] => []
  | .outside, b :: i =>
    if isSpace b then compactFrom .outside i
    else b :: compactFrom (if b = 0x22 then .inside else .outside) i
  | .inside, b :: i =>
    b :: compactFrom (if b = 0x22 then .outside else if b = 0x5c then .escaped else .inside) i
  | .escaped, b :: i => b :: compactFrom .inside i

/-- A text without the blanks outside its strings. -/
def compact : Text → Text := compactFrom .outside

theorem compact_space {i r : Text} (h : Space i r) : compact i = compact r := by
  induction h with
  | done => rfl
  | skip hb _ ih =>
      rw [compact, compactFrom, if_pos hb]
      exact ih

theorem compact_cons {b : UInt8} {i : Text} (hb : isSpace b = false) (hquote : b ≠ 0x22) :
    compact (b :: i) = b :: compact i := by
  rw [compact, compactFrom, if_neg (by simp [hb]), if_neg hquote]

theorem compact_quote {i : Text} : compact (0x22 :: i) = 0x22 :: compactFrom .inside i := by
  rw [compact, compactFrom, if_neg (by decide), if_pos rfl]

theorem compact_append {num r : Text} (h : ∀ b ∈ num, isSpace b = false ∧ b ≠ 0x22) :
    compact (num ++ r) = num ++ compact r := by
  induction num with
  | nil => rfl
  | cons b num ih =>
      obtain ⟨hb, hquote⟩ := h b List.mem_cons_self
      rw [List.cons_append, compact_cons hb hquote, ih fun c hc => h c (List.mem_cons_of_mem _ hc)]
      rfl

theorem compact_inside {b : UInt8} {i : Text} (hquote : b ≠ 0x22) (hbackslash : b ≠ 0x5c) :
    compactFrom .inside (b :: i) = b :: compactFrom .inside i := by
  rw [compactFrom, if_neg hquote, if_neg hbackslash]

theorem compact_escape {e : UInt8} {i : Text} :
    compactFrom .inside (0x5c :: e :: i) = 0x5c :: e :: compactFrom .inside i := by
  rw [compactFrom, if_neg (by decide), if_pos rfl, compactFrom]

theorem compact_close {i : Text} : compactFrom .inside (0x22 :: i) = 0x22 :: compact i := by
  rw [compactFrom, if_pos rfl, compact]

theorem space_append {blanks : Text} (h : ∀ b ∈ blanks, isSpace b = true) (r : Text) :
    Space (blanks ++ r) r := by
  induction blanks with
  | nil => exact .done
  | cons b blanks ih =>
      exact .skip (h b List.mem_cons_self) (ih fun c hc => h c (List.mem_cons_of_mem _ hc))

/-! ## Layouts -/

/-- The blanks in front of an item, or of the closing mark of a container that has items, by
how many containers are around, and those behind a colon. -/
structure Layout where
  line : ℕ → Text
  colon : Text

def Layout.none : Layout := ⟨fun _ => [], []⟩

structure Layout.Blank (Y : Layout) : Prop where
  line : ∀ d, ∀ b ∈ Y.line d, isSpace b = true
  colon : ∀ b ∈ Y.colon, isSpace b = true

/-- In front of the closing mark. -/
def Layout.closing (Y : Layout) (d : ℕ) (empty : Bool) : Text := if empty then [] else Y.line d

section

variable (Y : Layout) (quote : Text → Text)

mutual

/-- The text of a tree inside `d` containers. -/
def Tree.laid (d : ℕ) : Tree → Text
  | .null => nullText
  | .bool value => boolText value
  | .number lexeme => lexeme
  | .string content => quoted quote content
  | .array items => 0x5b :: (itemsLaid d true items ++ [0x5d])
  | .object members => 0x7b :: (membersLaid d true members ++ [0x7d])
  | .raw text => text

def itemsLaid (d : ℕ) (first : Bool) : List Tree → Text
  | [] => Y.closing d first
  | t :: ts => commaUnless first ++ (Y.line (d + 1) ++ (Tree.laid (d + 1) t ++ itemsLaid d false ts))

def membersLaid (d : ℕ) (first : Bool) : List (Text × Tree) → Text
  | [] => Y.closing d first
  | (key, t) :: ms =>
    commaUnless first ++ (Y.line (d + 1) ++
      (quoted quote key ++ 0x3a :: (Y.colon ++ (Tree.laid (d + 1) t ++ membersLaid d false ms))))

end

mutual

/-- Without blanks it is the compact text. -/
theorem Tree.laid_none (d : ℕ) : (t : Tree) → t.laid .none quote d = t.text quote
  | .null => rfl
  | .bool _ => rfl
  | .number _ => rfl
  | .string _ => rfl
  | .array items => by rw [Tree.laid, Tree.text, itemsLaid_none d true items]
  | .object members => by rw [Tree.laid, Tree.text, membersLaid_none d true members]
  | .raw _ => rfl

theorem itemsLaid_none (d : ℕ) (first : Bool) :
    (ts : List Tree) → itemsLaid .none quote d first ts = itemsText quote first ts
  | [] => by cases first <;> rfl
  | t :: ts => by
      rw [itemsLaid, itemsText, t.laid_none (d + 1), itemsLaid_none d false ts]
      rfl

theorem membersLaid_none (d : ℕ) (first : Bool) :
    (ms : List (Text × Tree)) → membersLaid .none quote d first ms = membersText quote first ms
  | [] => by cases first <;> rfl
  | (key, t) :: ms => by
      rw [membersLaid, membersText, t.laid_none (d + 1), membersLaid_none d false ms]
      rfl

end

end

/-! ## Laid out texts spell their trees -/

/-- A string of a text may be written again. -/
def Lexis.Requotes (L : Lexis) (quote : Text → Text) : Prop :=
  ∀ content i r s, L.string content i r → L.string content (quote content ++ 0x22 :: s) s

section

variable {L : Lexis} {quote : Text → Text} {Y : Layout}

theorem itemsLaid_rest (d : ℕ) {ts : List Tree} (hts : ts ≠ []) :
    itemsLaid Y quote d false ts = 0x2c :: itemsLaid Y quote d true ts := by
  cases ts with
  | nil => exact absurd rfl hts
  | cons t ts => rfl

theorem membersLaid_rest (d : ℕ) {ms : List (Text × Tree)} (hms : ms ≠ []) :
    membersLaid Y quote d false ms = 0x2c :: membersLaid Y quote d true ms := by
  cases ms with
  | nil => exact absurd rfl hms
  | cons m ms => rfl

theorem SpellsItems.ne_nil {ts : List Tree} {i r : Text} (h : SpellsItems L ts i r) : ts ≠ [] := by
  cases h <;> exact List.cons_ne_nil _ _

theorem SpellsMembers.ne_nil {ms : List (Text × Tree)} {i r : Text}
    (h : SpellsMembers L ms i r) : ms ≠ [] := by
  cases h <;> exact List.cons_ne_nil _ _

mutual

theorem Spells.laid (hL : L.Requotes quote) (hY : Y.Blank) {t : Tree} {i r : Text}
    (h : Spells L t i r) (d : ℕ) (s : Text) : Spells L t (t.laid Y quote d ++ s) s := by
  match h with
  | .string hstring =>
      have hquoted := Spells.string (hL _ _ _ s hstring)
      simpa [Tree.laid, quoted] using hquoted
  | .number hnumber => exact .number hnumber
  | .true => exact .true
  | .false => exact .false
  | .null => exact .null
  | .emptyObject _ => exact .emptyObject .done
  | .object hms =>
      have hmembers := Spells.object (hms.laid hL hY d s)
      simpa [Tree.laid] using hmembers
  | .emptyArray _ => exact .emptyArray .done
  | .array hts =>
      have hitems := Spells.array (hts.laid hL hY d s)
      simpa [Tree.laid] using hitems

theorem SpellsMembers.laid (hL : L.Requotes quote) (hY : Y.Blank) {ms : List (Text × Tree)}
    {i r : Text} (h : SpellsMembers L ms i r) (d : ℕ) (s : Text) :
    SpellsMembers L ms (membersLaid Y quote d true ms ++ 0x7d :: s) s := by
  match h with
  | .last (m := (key, t)) hm =>
      have hlast := SpellsMembers.last
        (hm.laid hL hY d (space_append (hY.line d) (0x7d :: s)))
      simpa [membersLaid, Layout.closing] using hlast
  | .cons (m := (key, t)) hm hms =>
      have hrest := hms.laid hL hY d s
      have hcons := SpellsMembers.cons (hm.laid hL hY d .done) hrest
      rw [membersLaid, membersLaid_rest d hms.ne_nil]
      simpa using hcons

/-- A member on its line, with blanks behind it. -/
theorem SpellsMember.laid (hL : L.Requotes quote) (hY : Y.Blank) {key : Text} {t : Tree}
    {i r j s : Text} (h : SpellsMember L (key, t) i r) (d : ℕ) (hs : Space j s) :
    SpellsMember L (key, t) (Y.line (d + 1) ++ (quoted quote key ++ 0x3a :: (Y.colon ++
      (t.laid Y quote (d + 1) ++ j)))) s := by
  match h with
  | .mk _ hkey _ (.mk _ ht _) =>
      have hvalue := SpellsElement.mk (space_append hY.colon _) (ht.laid hL hY (d + 1) j) hs
      have hmember := SpellsMember.mk (space_append (hY.line (d + 1)) _)
        (hL _ _ _ (0x3a :: (Y.colon ++ (t.laid Y quote (d + 1) ++ j))) hkey) .done hvalue
      simpa [quoted] using hmember

theorem SpellsItems.laid (hL : L.Requotes quote) (hY : Y.Blank) {ts : List Tree} {i r : Text}
    (h : SpellsItems L ts i r) (d : ℕ) (s : Text) :
    SpellsItems L ts (itemsLaid Y quote d true ts ++ 0x5d :: s) s := by
  match h with
  | .last (.mk _ ht _) =>
      have hitem := SpellsElement.mk (space_append (hY.line (d + 1)) _)
        (ht.laid hL hY (d + 1) _) (space_append (hY.line d) (0x5d :: s))
      have hlast := SpellsItems.last hitem
      simpa [itemsLaid, Layout.closing] using hlast
  | @SpellsItems.cons _ _ more _ _ _ (.mk _ ht _) hts =>
      have hrest := hts.laid hL hY d s
      have hitem := SpellsElement.mk (space_append (hY.line (d + 1)) _)
        (ht.laid hL hY (d + 1) (0x2c :: (itemsLaid Y quote d true more ++ 0x5d :: s))) .done
      have hcons := SpellsItems.cons hitem hrest
      rw [itemsLaid, itemsLaid_rest d hts.ne_nil]
      simpa using hcons

end

end

/-! ## A text without its blanks -/

/-- The strings and the numbers of a text stay when its blanks go. -/
structure Lexis.Solid (L : Lexis) (quote : Text → Text) : Prop where
  string : ∀ content i r, L.string content i r →
    compactFrom .inside i = quote content ++ 0x22 :: compact r
  number : ∀ num, L.number num → ∀ b ∈ num, isSpace b = false ∧ b ≠ 0x22

section

variable {L : Lexis} {quote : Text → Text}

mutual

theorem Spells.compact_eq (hL : L.Solid quote) {t : Tree} {i r : Text} (h : Spells L t i r) :
    compact i = t.text quote ++ compact r := by
  match h with
  | .string hstring =>
      rw [compact_quote, hL.string _ _ _ hstring, Tree.text, quoted]
      simp
  | .number hnumber => exact compact_append (hL.number _ hnumber)
  | .true => exact @compact_append trueText _ (by simp [trueText, isSpace])
  | .false => exact @compact_append falseText _ (by simp [falseText, isSpace])
  | .null => exact @compact_append nullText _ (by simp [nullText, isSpace])
  | .emptyObject hspace =>
      rw [compact_cons rfl (by decide), compact_space hspace, compact_cons rfl (by decide)]
      rfl
  | .object hms =>
      rw [compact_cons rfl (by decide), hms.compact_eq hL, Tree.text]
      simp
  | .emptyArray hspace =>
      rw [compact_cons rfl (by decide), compact_space hspace, compact_cons rfl (by decide)]
      rfl
  | .array hts =>
      rw [compact_cons rfl (by decide), hts.compact_eq hL, Tree.text]
      simp

theorem SpellsMembers.compact_eq (hL : L.Solid quote) {ms : List (Text × Tree)} {i r : Text}
    (h : SpellsMembers L ms i r) :
    compact i = membersText quote true ms ++ 0x7d :: compact r := by
  match h with
  | .last (m := (key, t)) hm =>
      rw [hm.compact_eq hL, compact_cons rfl (by decide), membersText, membersText]
      simp
  | .cons (m := (key, t)) hm hms =>
      have hrest := hms.compact_eq hL
      rw [hm.compact_eq hL, compact_cons rfl (by decide), hrest]
      cases hms <;> simp [membersText]

theorem SpellsMember.compact_eq (hL : L.Solid quote) {key : Text} {t : Tree} {i r : Text}
    (h : SpellsMember L (key, t) i r) :
    compact i = quoted quote key ++ 0x3a :: (t.text quote ++ compact r) := by
  match h with
  | .mk hi hkey hk (.mk hspace ht hbehind) =>
      rw [compact_space hi, compact_quote, hL.string _ _ _ hkey, compact_space hk,
        compact_cons rfl (by decide), compact_space hspace, ht.compact_eq hL,
        compact_space hbehind, quoted]
      simp

theorem SpellsItems.compact_eq (hL : L.Solid quote) {ts : List Tree} {i r : Text}
    (h : SpellsItems L ts i r) : compact i = itemsText quote true ts ++ 0x5d :: compact r := by
  match h with
  | .last (.mk hspace ht hbehind) =>
      rw [compact_space hspace, ht.compact_eq hL, compact_space hbehind,
        compact_cons rfl (by decide), itemsText, itemsText]
      simp
  | .cons (.mk hspace ht hbehind) hts =>
      have hrest := hts.compact_eq hL
      rw [compact_space hspace, ht.compact_eq hL, compact_space hbehind,
        compact_cons rfl (by decide), hrest]
      cases hts <;> simp [itemsText]

end

/-- Without its blanks a text of a tree is the compact one. -/
theorem Tree.SpelledBy.compact_eq (hL : L.Solid quote) {t : Tree} {s : Text}
    (h : t.SpelledBy L s) : compact s = t.text quote := by
  obtain ⟨hi, ht, hk⟩ := h
  rw [compact_space hi, ht.compact_eq hL, compact_space hk]
  exact List.append_nil _

/-- A laid out text spells its tree. -/
theorem Tree.SpelledBy.laid {Y : Layout} (hL : L.Requotes quote) (hY : Y.Blank) {t : Tree}
    {s : Text} (h : t.SpelledBy L s) (d : ℕ) : t.SpelledBy L (t.laid Y quote d) := by
  obtain ⟨-, ht, -⟩ := h
  have hlaid := ht.laid hL hY d []
  rw [List.append_nil] at hlaid
  exact .mk .done hlaid .done

end

/-! ## Tokens and depths of a tree -/

section

variable (string number : Text → Prop)

mutual

/-- The strings, keys among them, and the numbers of a tree are of a kind. -/
def Tree.EachToken : Tree → Prop
  | .number lexeme => number lexeme
  | .string content => string content
  | .array items => itemsEachToken items
  | .object members => membersEachToken members
  | _ => True

def itemsEachToken : List Tree → Prop
  | [] => True
  | t :: ts => Tree.EachToken t ∧ itemsEachToken ts

def membersEachToken : List (Text × Tree) → Prop
  | [] => True
  | (key, t) :: ms => string key ∧ Tree.EachToken t ∧ membersEachToken ms

end

end

section

variable (fits : ℕ → Bool)

mutual

/-- Every line of a tree inside `d` containers is at a depth that fits. -/
def Tree.linesFit (d : ℕ) : Tree → Bool
  | .array items => itemsFit d true items
  | .object members => membersFit d true members
  | _ => true

def itemsFit (d : ℕ) (first : Bool) : List Tree → Bool
  | [] => first || fits d
  | t :: ts => fits (d + 1) && (Tree.linesFit (d + 1) t && itemsFit d false ts)

def membersFit (d : ℕ) (first : Bool) : List (Text × Tree) → Bool
  | [] => first || fits d
  | (_, t) :: ms => fits (d + 1) && (Tree.linesFit (d + 1) t && membersFit d false ms)

end

end

end Json
