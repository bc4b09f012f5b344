import Mathlib

/-!
# The grammar of JSON texts

The grammar of RFC 8259 over bytes, with the parts that differ between readers left
open: what may follow the opening quote of a key or a string, which texts are numbers,
how long a number or a literal may be at a depth, and what may be opened there. A
nonterminal relates a text to the rest that is left behind it.
-/

namespace Json

abbrev Text := List UInt8

/-- The open parts of the grammar. A depth is the number of containers around. -/
@[ext]
structure Rules where
  /-- The text behind an opening quote, up to and including the closing one. -/
  stringTail : ℕ → Text → Text → Prop
  keyTail : ℕ → Text → Text → Prop
  number : Text → Prop
  fitsNumber : ℕ → ℕ → Bool
  fitsLiteral : ℕ → ℕ → Bool
  /-- Whether a quote, a brace or a bracket may open something here. -/
  enter : ℕ → UInt8 → Bool

def isSpace (b : UInt8) : Bool := b == 0x20 || b == 0x09 || b == 0x0a || b == 0x0d

def trueText : Text := [0x74, 0x72, 0x75, 0x65]

def falseText : Text := [0x66, 0x61, 0x6c, 0x73, 0x65]

def nullText : Text := [0x6e, 0x75, 0x6c, 0x6c]

/-- Any amount of whitespace. -/
inductive Space : Text → Text → Prop where
  | done {r : Text} : Space r r
  | skip {b : UInt8} {i r : Text} (hb : isSpace b = true) (h : Space i r) : Space (b :: i) r

variable (R : Rules)

mutual

/-- A value that starts at the first byte. -/
inductive Value : ℕ → Text → Text → Prop where
  | string {d : ℕ} {i r : Text} (henter : R.enter d 0x22 = true) (h : R.stringTail d i r) :
      Value d (0x22 :: i) r
  | number {d : ℕ} {num r : Text} (h : R.number num)
      (hfits : R.fitsNumber d num.length = true) : Value d (num ++ r) r
  | true {d : ℕ} {r : Text} (hfits : R.fitsLiteral d 4 = true) : Value d (trueText ++ r) r
  | false {d : ℕ} {r : Text} (hfits : R.fitsLiteral d 5 = true) : Value d (falseText ++ r) r
  | null {d : ℕ} {r : Text} (hfits : R.fitsLiteral d 4 = true) : Value d (nullText ++ r) r
  | object {d : ℕ} {i r : Text} (henter : R.enter d 0x7b = true)
      (h : ObjectRest (d + 1) i r) : Value d (0x7b :: i) r
  | array {d : ℕ} {i r : Text} (henter : R.enter d 0x5b = true) (h : ArrayRest (d + 1) i r) :
      Value d (0x5b :: i) r

/-- An object behind its opening brace. -/
inductive ObjectRest : ℕ → Text → Text → Prop where
  | empty {d : ℕ} {i r : Text} (h : Space i (0x7d :: r)) : ObjectRest d i r
  | members {d : ℕ} {i r : Text} (h : Members d i r) : ObjectRest d i r

/-- At least one member, up to and including the closing brace. -/
inductive Members : ℕ → Text → Text → Prop where
  | last {d : ℕ} {i r : Text} (h : Member d i (0x7d :: r)) : Members d i r
  | cons {d : ℕ} {i j r : Text} (h : Member d i (0x2c :: j)) (t : Members d j r) : Members d i r

/-- A key, a colon and an element. -/
inductive Member : ℕ → Text → Text → Prop where
  | mk {d : ℕ} {i j k l r : Text} (hi : Space i (0x22 :: j)) (henter : R.enter d 0x22 = true)
      (hkey : R.keyTail d j k) (hk : Space k (0x3a :: l)) (h : Element d l r) : Member d i r

/-- An array behind its opening bracket. -/
inductive ArrayRest : ℕ → Text → Text → Prop where
  | empty {d : ℕ} {i r : Text} (h : Space i (0x5d :: r)) : ArrayRest d i r
  | items {d : ℕ} {i r : Text} (h : Items d i r) : ArrayRest d i r

/-- At least one element, up to and including the closing bracket. -/
inductive Items : ℕ → Text → Text → Prop where
  | last {d : ℕ} {i r : Text} (h : Element d i (0x5d :: r)) : Items d i r
  | cons {d : ℕ} {i j r : Text} (h : Element d i (0x2c :: j)) (t : Items d j r) : Items d i r

/-- A value with whitespace around it. -/
inductive Element : ℕ → Text → Text → Prop where
  | mk {d : ℕ} {i j k r : Text} (hi : Space i j) (h : Value d j k) (hk : Space k r) :
      Element d i r

end

/-- A JSON text: one element. -/
def Document (s : Text) : Prop := Element R 0 s []

/-! ## Whitespace -/

theorem Space.trans {i j r : Text} (h : Space i j) (h' : Space j r) : Space i r := by
  induction h with
  | done => exact h'
  | skip hb _ ih => exact .skip hb (ih h')

theorem space_nil_left {r : Text} : Space [] r ↔ r = [] := by
  constructor
  · intro h
    cases h
    rfl
  · rintro rfl
    exact .done

/-- Whitespace in front of a byte that is none. -/
theorem space_cons_solid {b : UInt8} {i r : Text} (hb : isSpace b = false) :
    Space (b :: i) r ↔ r = b :: i := by
  constructor
  · intro h
    cases h with
    | done => rfl
    | skip hb' _ => simp [hb] at hb'
  · rintro rfl
    exact .done

/-- One more blank before a text that does not start with one. -/
theorem space_cons_blank {b c : UInt8} {i r : Text} (hb : isSpace b = true)
    (hc : isSpace c = false) : Space (b :: i) (c :: r) ↔ Space i (c :: r) := by
  constructor
  · intro h
    cases h with
    | done => simp [hb] at hc
    | skip _ h => exact h
  · exact .skip hb

/-! ## Comparing grammars -/

/-- The structural bytes. -/
@[simp] def marks : Text := [0x2c, 0x3a, 0x5b, 0x5d, 0x7b, 0x7d]

/-- From a depth on, the texts of `R` with a property are texts of `R'`, and the property is
handed on to the rest. -/
structure Rules.Carries (R R' : Rules) (m : ℕ) (P : Text → Prop) : Prop where
  blank : ∀ b i, isSpace b = true → P (b :: i) → P i
  mark : ∀ b i, b ∈ marks → P (b :: i) → P i
  string : ∀ d i r, m ≤ d → R.enter d 0x22 = true → R.stringTail d i r → P (0x22 :: i) →
    R'.enter d 0x22 = true ∧ R'.stringTail d i r ∧ P r
  key : ∀ d i r, m ≤ d → R.enter d 0x22 = true → R.keyTail d i r → P (0x22 :: i) →
    R'.enter d 0x22 = true ∧ R'.keyTail d i r ∧ P r
  number : ∀ d num r, m ≤ d → R.number num → R.fitsNumber d num.length = true → P (num ++ r) →
    R'.number num ∧ R'.fitsNumber d num.length = true ∧ P r
  literal : ∀ d lit r, m ≤ d → lit ∈ [trueText, falseText, nullText] →
    R.fitsLiteral d lit.length = true → P (lit ++ r) → R'.fitsLiteral d lit.length = true ∧ P r
  enter : ∀ d b, m ≤ d → b = 0x7b ∨ b = 0x5b → R.enter d b = true → R'.enter d b = true

section

variable {R} {R' : Rules} {m : ℕ} {P : Text → Prop}

theorem Rules.Carries.space (h : R.Carries R' m P) {i r : Text} (hs : Space i r) (hi : P i) :
    P r := by
  induction hs with
  | done => exact hi
  | skip hb _ ih => exact ih (h.blank _ _ hb hi)

mutual

theorem Rules.Carries.value (h : R.Carries R' m P) {d : ℕ} {i r : Text} (hd : m ≤ d) :
    Value R d i r → P i → Value R' d i r ∧ P r
  | .string henter ht, hi =>
      have ⟨henter, ht, hr⟩ := h.string _ _ _ hd henter ht hi
      ⟨.string henter ht, hr⟩
  | .number hnum hfits, hi =>
      have ⟨hnum, hfits, hr⟩ := h.number _ _ _ hd hnum hfits hi
      ⟨.number hnum hfits, hr⟩
  | .true hfits, hi =>
      have ⟨hfits, hr⟩ := h.literal _ trueText _ hd (by simp) hfits hi
      ⟨.true hfits, hr⟩
  | .false hfits, hi =>
      have ⟨hfits, hr⟩ := h.literal _ falseText _ hd (by simp) hfits hi
      ⟨.false hfits, hr⟩
  | .null hfits, hi =>
      have ⟨hfits, hr⟩ := h.literal _ nullText _ hd (by simp) hfits hi
      ⟨.null hfits, hr⟩
  | .object henter ho, hi =>
      have ⟨ho, hr⟩ := h.objectRest (Nat.le_succ_of_le hd) ho (h.mark _ _ (by simp) hi)
      ⟨.object (h.enter _ _ hd (.inl rfl) henter) ho, hr⟩
  | .array henter ha, hi =>
      have ⟨ha, hr⟩ := h.arrayRest (Nat.le_succ_of_le hd) ha (h.mark _ _ (by simp) hi)
      ⟨.array (h.enter _ _ hd (.inr rfl) henter) ha, hr⟩

theorem Rules.Carries.objectRest (h : R.Carries R' m P) {d : ℕ} {i r : Text} (hd : m ≤ d) :
    ObjectRest R d i r → P i → ObjectRest R' d i r ∧ P r
  | .empty hs, hi => ⟨.empty hs, h.mark _ _ (by simp) (h.space hs hi)⟩
  | .members hm, hi =>
      have ⟨hm, hr⟩ := h.members hd hm hi
      ⟨.members hm, hr⟩

theorem Rules.Carries.members (h : R.Carries R' m P) {d : ℕ} {i r : Text} (hd : m ≤ d) :
    Members R d i r → P i → Members R' d i r ∧ P r
  | .last hm, hi =>
      have ⟨hm, hr⟩ := h.member hd hm hi
      ⟨.last hm, h.mark _ _ (by simp) hr⟩
  | .cons hm ht, hi =>
      have ⟨hm, hj⟩ := h.member hd hm hi
      have ⟨ht, hr⟩ := h.members hd ht (h.mark _ _ (by simp) hj)
      ⟨.cons hm ht, hr⟩

theorem Rules.Carries.member (h : R.Carries R' m P) {d : ℕ} {i r : Text} (hd : m ≤ d) :
    Member R d i r → P i → Member R' d i r ∧ P r
  | .mk hs henter hkey hk he, hi =>
      have ⟨henter, hkey, hk'⟩ := h.key _ _ _ hd henter hkey (h.space hs hi)
      have ⟨he, hr⟩ := h.element hd he (h.mark _ _ (by simp) (h.space hk hk'))
      ⟨.mk hs henter hkey hk he, hr⟩

theorem Rules.Carries.arrayRest (h : R.Carries R' m P) {d : ℕ} {i r : Text} (hd : m ≤ d) :
    ArrayRest R d i r → P i → ArrayRest R' d i r ∧ P r
  | .empty hs, hi => ⟨.empty hs, h.mark _ _ (by simp) (h.space hs hi)⟩
  | .items hm, hi =>
      have ⟨hm, hr⟩ := h.items hd hm hi
      ⟨.items hm, hr⟩

theorem Rules.Carries.items (h : R.Carries R' m P) {d : ℕ} {i r : Text} (hd : m ≤ d) :
    Items R d i r → P i → Items R' d i r ∧ P r
  | .last hm, hi =>
      have ⟨hm, hr⟩ := h.element hd hm hi
      ⟨.last hm, h.mark _ _ (by simp) hr⟩
  | .cons hm ht, hi =>
      have ⟨hm, hj⟩ := h.element hd hm hi
      have ⟨ht, hr⟩ := h.items hd ht (h.mark _ _ (by simp) hj)
      ⟨.cons hm ht, hr⟩

theorem Rules.Carries.element (h : R.Carries R' m P) {d : ℕ} {i r : Text} (hd : m ≤ d) :
    Element R d i r → P i → Element R' d i r ∧ P r
  | .mk hs hv hk, hi =>
      have ⟨hv, hr⟩ := h.value hd hv (h.space hs hi)
      ⟨.mk hs hv hk, h.space hk hr⟩

end

theorem Rules.Carries.document (h : R.Carries R' 0 P) {s : Text} (hs : Document R s) (hP : P s) :
    Document R' s :=
  (h.element (le_refl _) hs hP).1

/-- A text whose root is an object. -/
def RootObject (s : Text) : Prop := ∃ i, Space s (0x7b :: i)

theorem Space.unique {b c : UInt8} (hb : isSpace b = false) (hc : isSpace c = false)
    {s i j : Text} (h : Space s (b :: i)) (h' : Space s (c :: j)) : b :: i = c :: j := by
  induction s with
  | nil => cases h
  | cons a s ih =>
      cases ha : isSpace a with
      | true => exact ih ((space_cons_blank ha hb).mp h) ((space_cons_blank ha hc).mp h')
      | false => exact ((space_cons_solid ha).mp h).trans ((space_cons_solid ha).mp h').symm

/-- When the root is an object, the depths inside it decide. -/
theorem Rules.Carries.object (h : R.Carries R' 1 P)
    (hnumber : ∀ num, R.number num → ∃ b t, num = b :: t ∧ isSpace b = false ∧ b ≠ 0x7b)
    (henter : R.enter 0 0x7b = true → R'.enter 0 0x7b = true) {s : Text} (hroot : RootObject s)
    (hs : Document R s) (hP : ∀ i, Space s (0x7b :: i) → P i) : Document R' s := by
  obtain ⟨i, hi⟩ := hroot
  have hbrace : isSpace 0x7b = false := rfl
  -- a value that starts with another byte is not at the place of the brace
  have hother {b : UInt8} {t : Text} (hb : isSpace b = false) (hne : b ≠ 0x7b)
      (ht : Space s (b :: t)) : False :=
    hne (List.cons.inj (Space.unique hb hbrace ht hi)).1
  obtain ⟨hspace, hvalue, hend⟩ := hs
  cases hvalue with
  | string _ _ => exact (hother rfl (by decide) hspace).elim
  | number hnum _ =>
      obtain ⟨b, t, rfl, hb, hne⟩ := hnumber _ hnum
      exact (hother hb hne hspace).elim
  | true _ => exact (hother rfl (by decide) hspace).elim
  | false _ => exact (hother rfl (by decide) hspace).elim
  | null _ => exact (hother rfl (by decide) hspace).elim
  | object hopen hrest =>
      obtain ⟨hrest, -⟩ := h.objectRest (le_refl _) hrest (hP _ hspace)
      exact .mk hspace (.object (henter hopen) hrest) hend
  | array _ _ => exact (hother rfl (by decide) hspace).elim

end

/-- The texts of `R` in front of a rest with a property have it too. -/
structure Rules.Restores (R : Rules) (P : Text → Prop) : Prop where
  blank : ∀ b i, isSpace b = true → P i → P (b :: i)
  mark : ∀ b i, b ∈ marks → P i → P (b :: i)
  string : ∀ d i r, R.stringTail d i r → P r → P (0x22 :: i)
  key : ∀ d i r, R.keyTail d i r → P r → P (0x22 :: i)
  number : ∀ num r, R.number num → P r → P (num ++ r)
  literal : ∀ lit r, lit ∈ [trueText, falseText, nullText] → P r → P (lit ++ r)

section

variable {R} {P : Text → Prop}

theorem Rules.Restores.space (h : R.Restores P) {i r : Text} (hs : Space i r) (hr : P r) : P i := by
  induction hs with
  | done => exact hr
  | skip hb _ ih => exact h.blank _ _ hb (ih hr)

mutual

theorem Rules.Restores.value (h : R.Restores P) {d : ℕ} {i r : Text} : Value R d i r → P r → P i
  | .string _ ht, hr => h.string _ _ _ ht hr
  | .number hnum _, hr => h.number _ _ hnum hr
  | .true _, hr => h.literal trueText _ (by simp) hr
  | .false _, hr => h.literal falseText _ (by simp) hr
  | .null _, hr => h.literal nullText _ (by simp) hr
  | .object _ ho, hr => h.mark _ _ (by simp) (h.objectRest ho hr)
  | .array _ ha, hr => h.mark _ _ (by simp) (h.arrayRest ha hr)

theorem Rules.Restores.objectRest (h : R.Restores P) {d : ℕ} {i r : Text} :
    ObjectRest R d i r → P r → P i
  | .empty hs, hr => h.space hs (h.mark _ _ (by simp) hr)
  | .members hm, hr => h.members hm hr

theorem Rules.Restores.members (h : R.Restores P) {d : ℕ} {i r : Text} :
    Members R d i r → P r → P i
  | .last hm, hr => h.member hm (h.mark _ _ (by simp) hr)
  | .cons hm ht, hr => h.member hm (h.mark _ _ (by simp) (h.members ht hr))

theorem Rules.Restores.member (h : R.Restores P) {d : ℕ} {i r : Text} :
    Member R d i r → P r → P i
  | .mk hs _ hkey hk he, hr =>
      h.space hs (h.key _ _ _ hkey (h.space hk (h.mark _ _ (by simp) (h.element he hr))))

theorem Rules.Restores.arrayRest (h : R.Restores P) {d : ℕ} {i r : Text} :
    ArrayRest R d i r → P r → P i
  | .empty hs, hr => h.space hs (h.mark _ _ (by simp) hr)
  | .items hm, hr => h.items hm hr

theorem Rules.Restores.items (h : R.Restores P) {d : ℕ} {i r : Text} : Items R d i r → P r → P i
  | .last he, hr => h.element he (h.mark _ _ (by simp) hr)
  | .cons he ht, hr => h.element he (h.mark _ _ (by simp) (h.items ht hr))

theorem Rules.Restores.element (h : R.Restores P) {d : ℕ} {i r : Text} :
    Element R d i r → P r → P i
  | .mk hs hv hk, hr => h.space hs (h.value hv (h.space hk hr))

end

theorem Rules.Restores.document (h : R.Restores P) {s : Text} (hs : Document R s) (hP : P []) :
    P s :=
  h.element hs hP

end

end Json
