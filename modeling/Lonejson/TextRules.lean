import Lonejson.Bytes
import Lonejson.Machine

/-!
# Strings and numbers of the library's JSON

The instance of the grammar for the readers of this library. A reader either pairs
surrogates as RFC 8259 describes them, a low one right behind its high one, or it
keeps a pending high surrogate over other characters; the parameter `gap` tells the
two apart.
-/

namespace Lonejson

open Json (Text Lexer Machine)

/-! ## Strings -/

/-- What may follow an opening quote. The flag says that a high surrogate still waits
for its low half; without `gap` nothing but that half may come next. -/
inductive StringTail (gap : Bool) : Bool → Text → Text → Prop where
  | close {r : Text} : StringTail gap false (0x22 :: r) r
  | plain {pending : Bool} {b : Byte} {i r : Text} (hb : isPlain b = true)
      (hgap : pending = true → gap = true) (h : StringTail gap pending i r) :
      StringTail gap pending (b :: i) r
  | escape {pending : Bool} {e ch : Byte} {i r : Text} (he : simpleEscape e = some ch)
      (hgap : pending = true → gap = true) (h : StringTail gap pending i r) :
      StringTail gap pending (0x5c :: e :: i) r
  | unit {a b c d : Byte} {cp : ℕ} {i r : Text} (hcp : decodeUnicodeQuad a b c d = some cp)
      (hhigh : isHighSurrogate cp = false) (hlow : isLowSurrogate cp = false)
      (h : StringTail gap false i r) : StringTail gap false (0x5c :: 0x75 :: a :: b :: c :: d :: i) r
  | high {a b c d : Byte} {cp : ℕ} {i r : Text} (hcp : decodeUnicodeQuad a b c d = some cp)
      (hhigh : isHighSurrogate cp = true) (h : StringTail gap true i r) :
      StringTail gap false (0x5c :: 0x75 :: a :: b :: c :: d :: i) r
  | low {a b c d : Byte} {cp : ℕ} {i r : Text} (hcp : decodeUnicodeQuad a b c d = some cp)
      (hlow : isLowSurrogate cp = true) (h : StringTail gap false i r) :
      StringTail gap true (0x5c :: 0x75 :: a :: b :: c :: d :: i) r

/-- The registers of the string lexers: whether a high surrogate is pending, and how
far an escape has been read. -/
inductive StringState where
  | body (pending : Bool)
  | escape (pending : Bool)
  | hex (pending : Bool) (needed accum : ℕ)
  deriving DecidableEq, Repr

/-- The state after the last digit of a `\u` escape. -/
def afterUnit (pending : Bool) (cp : ℕ) : Option StringState :=
  if pending then
    if isLowSurrogate cp then some (.body false) else none
  else if isHighSurrogate cp then some (.body true)
  else if isLowSurrogate cp then none
  else some (.body false)

/-- The lexer behind an opening quote. -/
def stringLexer (gap : Bool) : Lexer StringState where
  start := .body false
  next
    | .body pending, b =>
      if b = 0x22 then if pending then none else some none
      else if b = 0x5c then some (some (.escape pending))
      else if b < 0x20 then none
      else if pending && !gap then none
      else some (some (.body pending))
    | .escape pending, b =>
      match simpleEscape b with
      | some _ => if pending && !gap then none else some (some (.body pending))
      | none => if b = 0x75 then some (some (.hex pending 4 0)) else none
    | .hex pending needed accum, b =>
      match hexValue b with
      | none => none
      | some hv =>
        if needed - 1 ≠ 0 then some (some (.hex pending (needed - 1) (pushHex accum hv)))
        else (afterUnit pending (pushHex accum hv)).map some

/-- One digit of a `\u` escape that is not the last. -/
theorem tail_hex_more (gap pending : Bool) (n acc : ℕ) (b : Byte) (i r : Text) :
    (stringLexer gap).Tail (.hex pending (n + 2) acc) (b :: i) r ↔
      ∃ hv, hexValue b = some hv ∧
        (stringLexer gap).Tail (.hex pending (n + 1) (pushHex acc hv)) i r := by
  rw [Lexer.tail_cons]
  cases hb : hexValue b <;> simp [stringLexer, hb]

/-- The last digit of a `\u` escape. -/
theorem tail_hex_last (gap pending : Bool) (acc : ℕ) (b : Byte) (i r : Text) :
    (stringLexer gap).Tail (.hex pending 1 acc) (b :: i) r ↔
      ∃ hv q, hexValue b = some hv ∧ afterUnit pending (pushHex acc hv) = some q ∧
        (stringLexer gap).Tail q i r := by
  rw [Lexer.tail_cons]
  cases hb : hexValue b with
  | none => simp [stringLexer, hb]
  | some hv => cases hq : afterUnit pending (pushHex acc hv) <;> simp [stringLexer, hb, hq]

/-- Four digits decode to a code unit when each of them is a digit. -/
theorem decodeUnicodeQuad_eq_some {a b c d : Byte} {cp : ℕ} :
    decodeUnicodeQuad a b c d = some cp ↔
      ∃ va vb vc vd, hexValue a = some va ∧ hexValue b = some vb ∧ hexValue c = some vc ∧
        hexValue d = some vd ∧ cp = pushHex (pushHex (pushHex (pushHex 0 va) vb) vc) vd := by
  simp only [decodeUnicodeQuad, Option.bind_eq_bind, Option.bind_eq_some_iff, Option.pure_def,
    Option.some.injEq]
  constructor
  · rintro ⟨va, ha, vb, hb, vc, hc, vd, hd, rfl⟩
    exact ⟨va, vb, vc, vd, ha, hb, hc, hd, rfl⟩
  · rintro ⟨va, vb, vc, vd, ha, hb, hc, hd, rfl⟩
    exact ⟨va, ha, vb, hb, vc, hc, vd, hd, rfl⟩

/-- Four digits and what the code unit leads to. -/
theorem tail_hex_iff (gap pending : Bool) (i r : Text) :
    (stringLexer gap).Tail (.hex pending 4 0) i r ↔
      ∃ a b c d j cp q, i = a :: b :: c :: d :: j ∧ decodeUnicodeQuad a b c d = some cp ∧
        afterUnit pending cp = some q ∧ (stringLexer gap).Tail q j r := by
  constructor
  · intro h
    rcases i with _ | ⟨a, _ | ⟨b, _ | ⟨c, _ | ⟨d, j⟩⟩⟩⟩ <;>
      simp only [tail_hex_more, zero_add, tail_hex_last, Lexer.not_tail_nil, and_false,
        exists_false] at h
    obtain ⟨va, ha, vb, hb, vc, hc, vd, q, hd, hq, ht⟩ := h
    exact ⟨a, b, c, d, j, _, q, rfl,
      decodeUnicodeQuad_eq_some.mpr ⟨va, vb, vc, vd, ha, hb, hc, hd, rfl⟩, hq, ht⟩
  · rintro ⟨a, b, c, d, j, cp, q, rfl, hcp, hq, ht⟩
    obtain ⟨va, vb, vc, vd, ha, hb, hc, hd, rfl⟩ := decodeUnicodeQuad_eq_some.mp hcp
    simp only [tail_hex_more, zero_add, tail_hex_last]
    exact ⟨va, ha, vb, hb, vc, hc, vd, q, hd, hq, ht⟩

/-- A plain byte is none of those that the lexer treats by name. -/
theorem isPlain_iff {b : Byte} : isPlain b = true ↔ b ≠ 0x22 ∧ b ≠ 0x5c ∧ ¬ b < 0x20 := by
  simp [isPlain, and_assoc]

/-- A byte of a string that is not part of an escape. -/
theorem next_plain {gap pending : Bool} {b : Byte} (hb : isPlain b = true) :
    (stringLexer gap).next (.body pending) b =
      if pending && !gap then none else some (some (.body pending)) := by
  obtain ⟨hquote, hback, hcontrol⟩ := isPlain_iff.mp hb
  simp [stringLexer, hquote, hback, hcontrol]

/-- What may follow a backslash. -/
theorem tail_escape_iff (gap pending : Bool) (i r : Text) :
    (stringLexer gap).Tail (.escape pending) i r ↔
      (∃ e ch j, i = e :: j ∧ simpleEscape e = some ch ∧ (pending = true → gap = true) ∧
        (stringLexer gap).Tail (.body pending) j r) ∨
      ∃ j, i = 0x75 :: j ∧ (stringLexer gap).Tail (.hex pending 4 0) j r := by
  rcases i with _ | ⟨e, j⟩
  · simp
  · rw [Lexer.tail_cons]
    cases he : simpleEscape e with
    | none =>
        by_cases hu : e = 0x75
        · subst hu
          simp [stringLexer, he]
        · simp [stringLexer, he, hu]
    | some ch =>
        have hu : e ≠ 0x75 := by
          rintro rfl
          simp [simpleEscape] at he
        cases pending <;> cases gap <;> simp [stringLexer, he, hu]

/-- The lexer reads the strings of the grammar. -/
theorem tail_body_iff (gap pending : Bool) (i r : Text) :
    (stringLexer gap).Tail (.body pending) i r ↔ StringTail gap pending i r := by
  constructor
  · intro h
    induction hlen : i.length using Nat.strong_induction_on generalizing i pending with
    | _ n ih =>
        rcases i with _ | ⟨b, i⟩
        · simp at h
        rw [Lexer.tail_cons] at h
        by_cases hquote : b = 0x22
        · subst hquote
          cases pending
          · obtain rfl : r = i := by simpa [stringLexer] using h
            exact .close
          · simp [stringLexer] at h
        by_cases hback : b = 0x5c
        · subst hback
          replace h : (stringLexer gap).Tail (.escape pending) i r := by
            simpa [stringLexer] using h
          rw [tail_escape_iff] at h
          rcases h with ⟨e, ch, j, rfl, he, hgap, h⟩ | ⟨j, rfl, h⟩
          · exact .escape he hgap (ih j.length (by simp [← hlen]) pending j h rfl)
          · rw [tail_hex_iff] at h
            obtain ⟨a, b, c, d, j, cp, q, rfl, hcp, hq, h⟩ := h
            have hlt : j.length < n := by
              simp [← hlen]
              omega
            cases pending
            · by_cases hhigh : isHighSurrogate cp = true
              · obtain rfl : StringState.body true = q := by simpa [afterUnit, hhigh] using hq
                exact .high hcp hhigh (ih _ hlt true j h rfl)
              · by_cases hlow : isLowSurrogate cp = true
                · simp [afterUnit, hhigh, hlow] at hq
                · obtain rfl : StringState.body false = q := by
                    simpa [afterUnit, hhigh, hlow] using hq
                  exact .unit hcp (by simpa using hhigh) (by simpa using hlow)
                    (ih _ hlt false j h rfl)
            · by_cases hlow : isLowSurrogate cp = true
              · obtain rfl : StringState.body false = q := by simpa [afterUnit, hlow] using hq
                exact .low hcp hlow (ih _ hlt false j h rfl)
              · simp [afterUnit, hlow] at hq
        by_cases hcontrol : b < 0x20
        · simp [stringLexer, hquote, hback, hcontrol] at h
        have hplain : isPlain b = true := isPlain_iff.mpr ⟨hquote, hback, hcontrol⟩
        rw [next_plain hplain] at h
        cases hgap : (pending && !gap)
        · refine .plain hplain (by cases pending <;> cases gap <;> simp_all) ?_
          refine ih i.length (by simp [← hlen]) pending i ?_ rfl
          simpa [hgap] using h
        · simp [hgap] at h
  · intro h
    have hunit {pending : Bool} {a b c d : Byte} {cp : ℕ} {q : StringState} {i r : Text}
        (hcp : decodeUnicodeQuad a b c d = some cp) (hq : afterUnit pending cp = some q)
        (h : (stringLexer gap).Tail q i r) :
        (stringLexer gap).Tail (.body pending) (0x5c :: 0x75 :: a :: b :: c :: d :: i) r := by
      have hback : (stringLexer gap).next (.body pending) 0x5c = some (some (.escape pending)) := by
        simp [stringLexer]
      refine .step hback ?_
      exact (tail_escape_iff gap pending _ r).mpr
        (.inr ⟨_, rfl, (tail_hex_iff gap pending _ r).mpr ⟨a, b, c, d, i, cp, q, rfl, hcp, hq, h⟩⟩)
    induction h with
    | close => exact .close (by simp [stringLexer])
    | plain hb hgap h ih =>
        refine .step ?_ ih
        rw [next_plain hb]
        grind
    | @escape pending e ch i r he hgap h ih =>
        have hback : (stringLexer gap).next (.body pending) 0x5c = some (some (.escape pending)) := by
          simp [stringLexer]
        refine .step hback ?_
        exact (tail_escape_iff gap _ _ _).mpr (.inl ⟨_, _, _, rfl, he, hgap, ih⟩)
    | unit hcp hhigh hlow h ih => exact hunit hcp (by simp [afterUnit, hhigh, hlow]) ih
    | high hcp hhigh h ih => exact hunit hcp (by simp [afterUnit, hhigh]) ih
    | low hcp hlow h ih => exact hunit hcp (by simp [afterUnit, hlow]) ih

/-! ## Numbers -/

/-- A nonempty run of digits. -/
def Digits (t : Text) : Prop := t ≠ [] ∧ ∀ b ∈ t, isDigit b = true

/-- `int = zero / ( digit1-9 *DIGIT )`. -/
def IntPart (t : Text) : Prop :=
  t = [0x30] ∨ ∃ d ds, t = d :: ds ∧ isDigit d = true ∧ d ≠ 0x30 ∧ ∀ b ∈ ds, isDigit b = true

/-- `[ frac ]` with `frac = decimal-point 1*DIGIT`. -/
def FracPart (t : Text) : Prop := t = [] ∨ ∃ ds, t = 0x2e :: ds ∧ Digits ds

/-- `[ exp ]` with `exp = e [ minus / plus ] 1*DIGIT`. -/
def ExpPart (t : Text) : Prop :=
  t = [] ∨ ∃ e sign ds, t = e :: (sign ++ ds) ∧ (e = 0x65 ∨ e = 0x45) ∧
    (sign = [] ∨ sign = [0x2d] ∨ sign = [0x2b]) ∧ Digits ds

/-- `number = [ minus ] int [ frac ] [ exp ]`. -/
def JsonNumber (t : Text) : Prop :=
  ∃ sign int frac exp, t = sign ++ (int ++ (frac ++ exp)) ∧ (sign = [] ∨ sign = [0x2d]) ∧
    IntPart int ∧ FracPart frac ∧ ExpPart exp

/-- A text that does not go on with a digit. -/
def NoDigit (t : Text) : Prop := ∀ b ∈ t.head?, isDigit b = false

theorem dropDigits_append {ds r : Text} (hds : ∀ b ∈ ds, isDigit b = true) (hr : NoDigit r) :
    dropDigits (ds ++ r) = r := by
  induction ds with
  | nil =>
      cases r with
      | nil => rfl
      | cons b r =>
          have hb : isDigit b = false := hr b (by simp)
          simp [dropDigits, hb]
  | cons d ds ih =>
      have hd : isDigit d = true := hds d (by simp)
      simpa [dropDigits, hd] using ih fun b hb => hds b (by simp [hb])

theorem exists_digits (t : Text) :
    ∃ ds, t = ds ++ dropDigits t ∧ ∀ b ∈ ds, isDigit b = true := by
  induction t with
  | nil => exact ⟨[], rfl, by simp⟩
  | cons b t ih =>
      by_cases hb : isDigit b = true
      · obtain ⟨ds, ht, hds⟩ := ih
        refine ⟨b :: ds, ?_, ?_⟩
        · simpa [dropDigits, hb] using ht
        · simpa [hb] using hds
      · exact ⟨[], by simp [dropDigits, hb], by simp⟩

theorem numberInt_eq_some {t r : Text} (h : numberInt t = some r) :
    ∃ int, t = int ++ r ∧ IntPart int := by
  rcases t with _ | ⟨b, t⟩
  · simp [numberInt] at h
  · simp only [numberInt] at h
    split at h
    · next hzero =>
      subst hzero
      rcases t with _ | ⟨d, t⟩
      · obtain rfl : [] = r := by simpa using h
        exact ⟨[0x30], rfl, .inl rfl⟩
      · by_cases hd : isDigit d = true
        · simp [hd] at h
        · obtain rfl : d :: t = r := by simpa [hd] using h
          exact ⟨[0x30], rfl, .inl rfl⟩
    · next hzero =>
      by_cases hb : isDigit b = true
      · obtain rfl : dropDigits t = r := by simpa [hb] using h
        obtain ⟨ds, ht, hds⟩ := exists_digits t
        exact ⟨b :: ds, by simpa using ht, .inr ⟨b, ds, rfl, hb, hzero, hds⟩⟩
      · simp [hb] at h

theorem numberInt_append {int r : Text} (hint : IntPart int) (hr : NoDigit r) :
    numberInt (int ++ r) = some r := by
  rcases hint with rfl | ⟨d, ds, rfl, hd, hzero, hds⟩
  · rcases r with _ | ⟨b, r⟩
    · rfl
    · have hb : isDigit b = false := hr b (by simp)
      simp [numberInt, hb]
  · simp [numberInt, hzero, hd, dropDigits_append hds hr]

theorem numberFrac_eq_some {t r : Text} (h : numberFrac t = some r) :
    ∃ frac, t = frac ++ r ∧ FracPart frac := by
  unfold numberFrac at h
  split at h
  · next d t =>
    split at h
    · next hd =>
      obtain rfl : dropDigits t = r := by simpa using h
      obtain ⟨ds, ht, hds⟩ := exists_digits t
      refine ⟨0x2e :: d :: ds, by simpa using ht, .inr ⟨d :: ds, rfl, by simp, ?_⟩⟩
      simpa [hd] using hds
    · cases h
  · cases h
  · obtain rfl : t = r := by simpa using h
    exact ⟨[], rfl, .inl rfl⟩

theorem numberFrac_append {frac r : Text} (hfrac : FracPart frac) (hr : NoDigit r)
    (hpoint : ∀ b ∈ r.head?, b ≠ 0x2e) : numberFrac (frac ++ r) = some r := by
  rcases hfrac with rfl | ⟨ds, rfl, hne, hds⟩
  · rcases r with _ | ⟨b, r⟩
    · rfl
    · have hb : b ≠ 0x2e := hpoint b (by simp)
      unfold numberFrac
      split <;> simp_all
  · obtain ⟨d, ds, rfl⟩ := List.exists_cons_of_ne_nil hne
    have hd : isDigit d = true := hds d (by simp)
    have hds' : ∀ b ∈ ds, isDigit b = true := fun b hb => hds b (by simp [hb])
    simp [numberFrac, hd, dropDigits_append hds' hr]

theorem numberExp_eq_some {t : Text} (h : numberExp t = some []) : ExpPart t := by
  rcases t with _ | ⟨e, t⟩
  · exact .inl rfl
  · simp only [numberExp] at h
    split at h
    · next he =>
      have hsign : ∃ sign, t = sign ++ dropSign t ∧
          (sign = [] ∨ sign = [0x2d] ∨ sign = [0x2b]) := by
        rcases t with _ | ⟨s, t⟩
        · exact ⟨[], rfl, .inl rfl⟩
        · by_cases hs : s = 0x2b ∨ s = 0x2d
          · refine ⟨[s], by simp [dropSign, hs], ?_⟩
            rcases hs with rfl | rfl <;> simp
          · exact ⟨[], by simp [dropSign, hs], .inl rfl⟩
      obtain ⟨sign, ht, hsign⟩ := hsign
      cases hdigits : dropSign t with
      | nil => simp [hdigits] at h
      | cons d ds =>
          by_cases hd : isDigit d = true
          · have hend : dropDigits ds = [] := by simpa [hdigits, hd] using h
            obtain ⟨ds', hds', hall⟩ := exists_digits ds
            refine .inr ⟨e, sign, d :: ds', ?_, he, hsign, by simp, by simpa [hd] using hall⟩
            rw [hend, List.append_nil] at hds'
            rw [ht, hdigits, ← hds']
          · simp [hdigits, hd] at h
    · simp at h

theorem numberExp_of_expPart {t : Text} (h : ExpPart t) : numberExp t = some [] := by
  rcases h with rfl | ⟨e, sign, ds, rfl, he, hsign, hne, hds⟩
  · rfl
  · obtain ⟨d, ds, rfl⟩ := List.exists_cons_of_ne_nil hne
    have hd : isDigit d = true := hds d (by simp)
    have hdrop : dropSign (sign ++ d :: ds) = d :: ds := by
      rcases hsign with rfl | rfl | rfl
      · have hs : ¬ (d = 0x2b ∨ d = 0x2d) := by
          rintro (rfl | rfl) <;> simp [isDigit] at hd
        simp [dropSign, hs]
      · simp [dropSign]
      · simp [dropSign]
    have hend : dropDigits ds = [] := by
      simpa using dropDigits_append (r := []) (fun b hb => hds b (by simp [hb]))
        (by simp [NoDigit])
    simp [numberExp, he, hdrop, hd, hend]

/-- What the number check reads behind an optional minus. -/
theorem isValidJsonNumber_cons (b : Byte) (t : Text) :
    isValidJsonNumber (b :: t) = true ↔
      ∃ int frac exp, (if b = 0x2d then t else b :: t) = int ++ (frac ++ exp) ∧ IntPart int ∧
        FracPart frac ∧ ExpPart exp := by
  constructor
  · intro h
    simp only [isValidJsonNumber] at h
    cases hint : numberInt (if b = 0x2d then t else b :: t) with
    | none => simp [hint] at h
    | some afterInt =>
        cases hfrac : numberFrac afterInt with
        | none => simp [hint, hfrac] at h
        | some afterFrac =>
            cases hexp : numberExp afterFrac with
            | none => simp [hint, hfrac, hexp] at h
            | some afterExp =>
                obtain rfl : afterExp = [] := by simpa [hint, hfrac, hexp] using h
                obtain ⟨int, htext, hintPart⟩ := numberInt_eq_some hint
                obtain ⟨frac, rfl, hfracPart⟩ := numberFrac_eq_some hfrac
                exact ⟨int, frac, afterFrac, htext, hintPart, hfracPart, numberExp_eq_some hexp⟩
  · rintro ⟨int, frac, exp, htext, hint, hfrac, hexp⟩
    have hexpHead : ∀ c ∈ exp.head?, c = 0x65 ∨ c = 0x45 := by
      rcases hexp with rfl | ⟨e, sign, ds, rfl, he, -⟩
      · simp
      · simpa using he
    have hexpDigit : NoDigit exp := by
      intro c hc
      rcases hexpHead c hc with rfl | rfl <;> rfl
    have hfracDigit : NoDigit (frac ++ exp) := by
      rcases hfrac with rfl | ⟨ds, rfl, -⟩
      · exact hexpDigit
      · simp [NoDigit, isDigit]
    have hpoint : ∀ c ∈ exp.head?, c ≠ 0x2e := by
      intro c hc
      rcases hexpHead c hc with rfl | rfl <;> decide
    simp [isValidJsonNumber, htext, numberInt_append hint hfracDigit,
      numberFrac_append hfrac hexpDigit hpoint, numberExp_of_expPart hexp]

/-- The number check is the grammar of RFC 8259. -/
theorem isValidJsonNumber_iff (t : Text) : isValidJsonNumber t = true ↔ JsonNumber t := by
  have hnotMinus {int r : Text} (hint : IntPart int) : (int ++ r).head? ≠ some 0x2d := by
    rcases hint with rfl | ⟨d, ds, rfl, hd, -⟩
    · simp
    · rintro hd'
      obtain rfl : d = 0x2d := by simpa using hd'
      simp [isDigit] at hd
  rcases t with _ | ⟨b, t⟩
  · constructor
    · simp [isValidJsonNumber]
    · rintro ⟨sign, int, frac, exp, ht, -, hint, -⟩
      obtain ⟨-, rfl, -⟩ : sign = [] ∧ int = [] ∧ frac = [] ∧ exp = [] := by simpa using ht.symm
      simp [IntPart] at hint
  · rw [isValidJsonNumber_cons]
    constructor
    · rintro ⟨int, frac, exp, htext, hint, hfrac, hexp⟩
      split at htext
      · next hb => exact ⟨[0x2d], int, frac, exp, by simp [hb, htext], .inr rfl, hint, hfrac, hexp⟩
      · exact ⟨[], int, frac, exp, by simpa using htext, .inl rfl, hint, hfrac, hexp⟩
    · rintro ⟨sign, int, frac, exp, ht, hsign, hint, hfrac, hexp⟩
      refine ⟨int, frac, exp, ?_, hint, hfrac, hexp⟩
      rcases hsign with rfl | rfl
      · have hb : b ≠ 0x2d := by
          rintro rfl
          exact hnotMinus hint (by rw [← List.nil_append (int ++ _), ← ht]; rfl)
        simpa [hb] using ht
      · obtain ⟨rfl, rfl⟩ : b = 0x2d ∧ t = int ++ (frac ++ exp) := by simpa using ht
        simp

/-- The bytes a number may start with. -/
def isNumberStart (ch : Byte) : Bool := ch == 0x2d || isDigit ch

theorem isNumberByte_of_isDigit {b : Byte} (hb : isDigit b = true) : isNumberByte b = true := by
  simp [isNumberByte, hb]

/-- A number starts with a minus or a digit. -/
theorem JsonNumber.start {t : Text} (h : JsonNumber t) :
    ∃ b t', t = b :: t' ∧ isNumberStart b = true := by
  obtain ⟨sign, int, frac, exp, rfl, hsign, hint, -⟩ := h
  rcases hsign with rfl | rfl
  · rcases hint with rfl | ⟨d, ds, rfl, hd, -⟩
    · exact ⟨0x30, _, rfl, rfl⟩
    · exact ⟨d, _, rfl, by simp [isNumberStart, hd]⟩
  · exact ⟨0x2d, _, rfl, rfl⟩

/-- A number is made of number bytes. -/
theorem JsonNumber.bytes {t : Text} (h : JsonNumber t) : ∀ b ∈ t, isNumberByte b = true := by
  obtain ⟨sign, int, frac, exp, rfl, hsign, hint, hfrac, hexp⟩ := h
  have hsign' : ∀ b ∈ sign, isNumberByte b = true := by
    rcases hsign with rfl | rfl <;> simp [isNumberByte]
  have hint' : ∀ b ∈ int, isNumberByte b = true := by
    rcases hint with rfl | ⟨d, ds, rfl, hd, -, hds⟩
    · simp [isNumberByte, isDigit]
    · rintro b (_ | ⟨_, hb⟩)
      · exact isNumberByte_of_isDigit hd
      · exact isNumberByte_of_isDigit (hds b hb)
  have hfrac' : ∀ b ∈ frac, isNumberByte b = true := by
    rcases hfrac with rfl | ⟨ds, rfl, -, hds⟩
    · simp
    · rintro b (_ | ⟨_, hb⟩)
      · rfl
      · exact isNumberByte_of_isDigit (hds b hb)
  have hexp' : ∀ b ∈ exp, isNumberByte b = true := by
    rcases hexp with rfl | ⟨e, sign, ds, rfl, he, hsign, -, hds⟩
    · simp
    · intro b hb
      rcases List.mem_cons.mp hb with rfl | hb
      · rcases he with rfl | rfl <;> rfl
      · rcases List.mem_append.mp hb with hb | hb
        · rcases hsign with rfl | rfl | rfl
          · simp at hb
          · obtain rfl : b = 0x2d := by simpa using hb
            rfl
          · obtain rfl : b = 0x2b := by simpa using hb
            rfl
        · exact isNumberByte_of_isDigit (hds b hb)
  simp only [List.mem_append]
  rintro b (hb | hb | hb | hb)
  · exact hsign' b hb
  · exact hint' b hb
  · exact hfrac' b hb
  · exact hexp' b hb

theorem isSpace_eq : Json.isSpace = isJsonSpace := rfl

end Lonejson
