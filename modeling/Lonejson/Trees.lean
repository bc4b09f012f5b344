import Lonejson.Grammar

/-!
# Trees and their texts

The values that JSON texts spell, the texts that spell a value, and the compact text of a
value. What spells a string and what is a number is left open.
-/

namespace Json

/-- A JSON value; a number is kept as it is written. A raw value is known by its text only; no
text of the grammar spells one. -/
inductive Tree where
  | null
  | bool (value : Bool)
  | number (lexeme : Text)
  | string (content : Text)
  | array (items : List Tree)
  | object (members : List (Text × Tree))
  | raw (text : Text)

def boolText (value : Bool) : Text := if value then trueText else falseText

/-- The comma in front of an item that is not the first. -/
def commaUnless (first : Bool) : Text := if first then [] else [0x2c]

@[simp] theorem commaUnless_true : commaUnless true = [] := rfl

@[simp] theorem commaUnless_false : commaUnless false = [0x2c] := rfl

section

variable (quote : Text → Text)

def quoted (content : Text) : Text := 0x22 :: (quote content ++ [0x22])

mutual

/-- The text without blanks; `quote` writes the content of a string. -/
def Tree.text : Tree → Text
  | .null => nullText
  | .bool value => boolText value
  | .number lexeme => lexeme
  | .string content => quoted quote content
  | .array items => 0x5b :: (itemsText true items ++ [0x5d])
  | .object members => 0x7b :: (membersText true members ++ [0x7d])
  | .raw text => text

def itemsText (first : Bool) : List Tree → Text
  | [] => []
  | t :: ts => commaUnless first ++ (Tree.text t ++ itemsText false ts)

def membersText (first : Bool) : List (Text × Tree) → Text
  | [] => []
  | (key, t) :: ms => commaUnless first ++ (quoted quote key ++ 0x3a :: (Tree.text t ++ membersText false ms))

end

/-- The text of one member. -/
def memberText (m : Text × Tree) : Text := quoted quote m.1 ++ 0x3a :: Tree.text quote m.2

variable {quote}

theorem itemsText_append (first : Bool) (ts ts' : List Tree) :
    itemsText quote first (ts ++ ts') =
      itemsText quote first ts ++ itemsText quote (first && ts.isEmpty) ts' := by
  induction ts generalizing first with
  | nil => simp [itemsText]
  | cons t ts ih => simp [itemsText, ih]

theorem membersText_append (first : Bool) (ms ms' : List (Text × Tree)) :
    membersText quote first (ms ++ ms') =
      membersText quote first ms ++ membersText quote (first && ms.isEmpty) ms' := by
  induction ms generalizing first with
  | nil => simp [membersText]
  | cons m ms ih => simp [membersText, ih]

end

/-! ## Texts that spell a tree -/

/-- What spells the content of a string behind its quote, up to and including the closing
one, and what is a number. -/
structure Lexis where
  string : Text → Text → Text → Prop
  number : Text → Prop

variable (L : Lexis)

mutual

/-- A value that starts at the first byte, and the text behind it. -/
inductive Spells : Tree → Text → Text → Prop where
  | string {content i r : Text} (h : L.string content i r) : Spells (.string content) (0x22 :: i) r
  | number {num r : Text} (h : L.number num) : Spells (.number num) (num ++ r) r
  | true {r : Text} : Spells (.bool true) (trueText ++ r) r
  | false {r : Text} : Spells (.bool false) (falseText ++ r) r
  | null {r : Text} : Spells .null (nullText ++ r) r
  | emptyObject {i r : Text} (h : Space i (0x7d :: r)) : Spells (.object []) (0x7b :: i) r
  | object {ms : List (Text × Tree)} {i r : Text} (h : SpellsMembers ms i r) :
      Spells (.object ms) (0x7b :: i) r
  | emptyArray {i r : Text} (h : Space i (0x5d :: r)) : Spells (.array []) (0x5b :: i) r
  | array {ts : List Tree} {i r : Text} (h : SpellsItems ts i r) : Spells (.array ts) (0x5b :: i) r

/-- At least one member, up to and including the closing brace. -/
inductive SpellsMembers : List (Text × Tree) → Text → Text → Prop where
  | last {m : Text × Tree} {i r : Text} (h : SpellsMember m i (0x7d :: r)) : SpellsMembers [m] i r
  | cons {m : Text × Tree} {ms : List (Text × Tree)} {i j r : Text}
      (h : SpellsMember m i (0x2c :: j)) (t : SpellsMembers ms j r) : SpellsMembers (m :: ms) i r

inductive SpellsMember : Text × Tree → Text → Text → Prop where
  | mk {key : Text} {t : Tree} {i j k l r : Text} (hi : Space i (0x22 :: j))
      (hkey : L.string key j k) (hk : Space k (0x3a :: l)) (h : SpellsElement t l r) :
      SpellsMember (key, t) i r

/-- At least one item, up to and including the closing bracket. -/
inductive SpellsItems : List Tree → Text → Text → Prop where
  | last {t : Tree} {i r : Text} (h : SpellsElement t i (0x5d :: r)) : SpellsItems [t] i r
  | cons {t : Tree} {ts : List Tree} {i j r : Text} (h : SpellsElement t i (0x2c :: j))
      (hs : SpellsItems ts j r) : SpellsItems (t :: ts) i r

/-- A value with whitespace around it. -/
inductive SpellsElement : Tree → Text → Text → Prop where
  | mk {t : Tree} {i j k r : Text} (hi : Space i j) (h : Spells t j k) (hk : Space k r) :
      SpellsElement t i r

end

/-- A JSON text of a tree. -/
def Tree.SpelledBy (t : Tree) (s : Text) : Prop := SpellsElement L t s []

/-! ## Every text of the grammar spells a tree -/

/-- The strings and numbers of a grammar have contents. -/
structure Lexis.Covers (R : Rules) : Prop where
  string : ∀ d i r, R.stringTail d i r → ∃ content, L.string content i r
  key : ∀ d i r, R.keyTail d i r → ∃ content, L.string content i r
  number : ∀ num, R.number num → L.number num

section

variable {L} {R : Rules}

mutual

theorem Lexis.Covers.value (h : L.Covers R) {d : ℕ} {i r : Text} :
    Value R d i r → ∃ t, Spells L t i r
  | .string _ ht =>
      have ⟨content, hs⟩ := h.string _ _ _ ht
      ⟨.string content, .string hs⟩
  | .number hnum _ => ⟨.number _, .number (h.number _ hnum)⟩
  | .true _ => ⟨.bool true, .true⟩
  | .false _ => ⟨.bool false, .false⟩
  | .null _ => ⟨.null, .null⟩
  | .object _ ho => h.objectRest ho
  | .array _ ha => h.arrayRest ha

theorem Lexis.Covers.objectRest (h : L.Covers R) {d : ℕ} {i r : Text} :
    ObjectRest R d i r → ∃ t, Spells L t (0x7b :: i) r
  | .empty hs => ⟨.object [], .emptyObject hs⟩
  | .members hm =>
      have ⟨ms, hms⟩ := h.members hm
      ⟨.object ms, .object hms⟩

theorem Lexis.Covers.members (h : L.Covers R) {d : ℕ} {i r : Text} :
    Members R d i r → ∃ ms, SpellsMembers L ms i r
  | .last hm =>
      have ⟨m, hm⟩ := h.member hm
      ⟨[m], .last hm⟩
  | .cons hm ht =>
      have ⟨m, hm⟩ := h.member hm
      have ⟨ms, hms⟩ := h.members ht
      ⟨m :: ms, .cons hm hms⟩

theorem Lexis.Covers.member (h : L.Covers R) {d : ℕ} {i r : Text} :
    Member R d i r → ∃ m, SpellsMember L m i r
  | .mk hi _ hkey hk he =>
      have ⟨key, hkey⟩ := h.key _ _ _ hkey
      have ⟨t, ht⟩ := h.element he
      ⟨(key, t), .mk hi hkey hk ht⟩

theorem Lexis.Covers.arrayRest (h : L.Covers R) {d : ℕ} {i r : Text} :
    ArrayRest R d i r → ∃ t, Spells L t (0x5b :: i) r
  | .empty hs => ⟨.array [], .emptyArray hs⟩
  | .items hm =>
      have ⟨ts, hts⟩ := h.items hm
      ⟨.array ts, .array hts⟩

theorem Lexis.Covers.items (h : L.Covers R) {d : ℕ} {i r : Text} :
    Items R d i r → ∃ ts, SpellsItems L ts i r
  | .last he =>
      have ⟨t, ht⟩ := h.element he
      ⟨[t], .last ht⟩
  | .cons he hs =>
      have ⟨t, ht⟩ := h.element he
      have ⟨ts, hts⟩ := h.items hs
      ⟨t :: ts, .cons ht hts⟩

theorem Lexis.Covers.element (h : L.Covers R) {d : ℕ} {i r : Text} :
    Element R d i r → ∃ t, SpellsElement L t i r
  | .mk hi hv hk =>
      have ⟨t, ht⟩ := h.value hv
      ⟨t, .mk hi ht hk⟩

end

/-- Strings and numbers take up text. -/
structure Lexis.Lawful : Prop where
  string : ∀ content i r, L.string content i r → r.length < i.length
  number : ∀ num, L.number num → num ≠ []

theorem Space.length {i r : Text} (h : Space i r) : r.length ≤ i.length := by
  induction h with
  | done => exact le_rfl
  | skip _ _ ih => exact ih.trans (Nat.le_succ _)

mutual

theorem Spells.length (hL : L.Lawful) {t : Tree} {i r : Text} :
    Spells L t i r → r.length < i.length
  | .string h => (hL.string _ _ _ h).trans (Nat.lt_succ_self _)
  | .number h => by simp [List.length_pos_iff.mpr (hL.number _ h)]
  | .true => by simp only [trueText, List.length_append, List.length_cons]; omega
  | .false => by simp only [falseText, List.length_append, List.length_cons]; omega
  | .null => by simp only [nullText, List.length_append, List.length_cons]; omega
  | .emptyObject h => by have := h.length; simp only [List.length_cons] at *; omega
  | .object h => by have := h.length hL; simp only [List.length_cons] at *; omega
  | .emptyArray h => by have := h.length; simp only [List.length_cons] at *; omega
  | .array h => by have := h.length hL; simp only [List.length_cons] at *; omega

theorem SpellsMembers.length (hL : L.Lawful) {ms : List (Text × Tree)} {i r : Text} :
    SpellsMembers L ms i r → r.length < i.length
  | .last h => by have := h.length hL; simp only [List.length_cons] at *; omega
  | .cons h t => by
      have := h.length hL
      have := t.length hL
      simp only [List.length_cons] at *
      omega

theorem SpellsMember.length (hL : L.Lawful) {m : Text × Tree} {i r : Text} :
    SpellsMember L m i r → r.length < i.length
  | .mk hi hkey hk h => by
      have := hi.length
      have := hL.string _ _ _ hkey
      have := hk.length
      have := h.length hL
      simp only [List.length_cons] at *
      omega

theorem SpellsItems.length (hL : L.Lawful) {ts : List Tree} {i r : Text} :
    SpellsItems L ts i r → r.length < i.length
  | .last h => by have := h.length hL; simp only [List.length_cons] at *; omega
  | .cons h hs => by
      have := h.length hL
      have := hs.length hL
      simp only [List.length_cons] at *
      omega

theorem SpellsElement.length (hL : L.Lawful) {t : Tree} {i r : Text} :
    SpellsElement L t i r → r.length < i.length
  | .mk hi h hk => by
      have := hi.length
      have := h.length hL
      have := hk.length
      omega

end

theorem Lexis.Covers.document (h : L.Covers R) {s : Text} (hs : Document R s) :
    ∃ t : Tree, t.SpelledBy L s := h.element hs

end

end Json
